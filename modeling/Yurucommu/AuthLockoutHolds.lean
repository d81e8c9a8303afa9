import Yurucommu.AuthLockout
import Yurucommu.MachineTrace

/-!
How long a lock holds, and when the fifth failure of an hour locks: exactly as long as the record's
first failure is no more than the tracking window ago.
-/

set_option autoImplicit false

namespace Yurucommu.AuthLockout

open JsonText

section text

variable {F : NumberFormat ℤ} {record : LoginLockoutRecord}

def recordMembers (record : LoginLockoutRecord) : List (Units × Option (Json ℤ)) :=
  [(JsString.units "failedAttempts",some (.number (.finite record.failedAttempts))),
    (JsString.units "firstFailedAt",some (.number (.finite record.firstFailedAt))),
    (JsString.units "lockoutUntil",
      some (nullable (record.lockoutUntil.map fun ms => .number (.finite ms))))]

theorem plain_recordMembers (record : LoginLockoutRecord) :
    Plain ((recordMembers record).map Prod.fst) :=
  (by decide +kernel : Plain [JsString.units "failedAttempts",JsString.units "firstFailedAt",
    JsString.units "lockoutUntil"])

theorem proper_recordJson (record : LoginLockoutRecord) : Proper (recordJson record) := by
  refine proper_defined (plain_recordMembers record) fun m hm => ?_
  simp only [List.mem_cons,List.not_mem_nil,or_false] at hm
  rcases hm with rfl | rfl | rfl
  · exact proper_some (.number _)
  · exact proper_some (.number _)
  · refine proper_some (proper_nullable fun w hw => ?_)
    obtain ⟨ms,_,rfl⟩ := Option.map_eq_some_iff.mp hw
    exact .number _

theorem get_recordJson {key : Units} {value : Option (Json ℤ)}
    (h : (key,value) ∈ recordMembers record) : (recordJson record).get key = value :=
  get_defined (plain_recordMembers record).1 h

theorem parse_recordJson (record : LoginLockoutRecord) :
    parseLockoutRecord F (some (stringify F (recordJson record))) = some record := by
  have hne : stringify F (recordJson record) ≠ [] := by
    simp [recordJson,stringify]
  have hattempts : (recordJson record).get (JsString.units "failedAttempts") =
      some (.number (.finite record.failedAttempts)) := get_recordJson List.mem_cons_self
  have hfirst : (recordJson record).get (JsString.units "firstFailedAt") =
      some (.number (.finite record.firstFailedAt)) :=
    get_recordJson (List.mem_cons_of_mem _ List.mem_cons_self)
  have huntil : (recordJson record).get (JsString.units "lockoutUntil") =
      some (nullable (record.lockoutUntil.map fun ms => .number (.finite ms))) :=
    get_recordJson (List.mem_cons_of_mem _ (List.mem_cons_of_mem _ List.mem_cons_self))
  rw [parseLockoutRecord,Option.filter_some,if_pos (by simpa using hne)]
  simp only [Option.bind_eq_bind,Option.bind_some,parse_stringify (proper_recordJson record),
    get_reread,hattempts,hfirst,huntil,Option.map_some]
  cases hu : record.lockoutUntil with
  | none =>
    cases record
    cases hu
    rfl
  | some ms =>
    cases record
    cases hu
    rfl

end text

section store

variable {F : NumberFormat ℤ} {kv : Option Entry} {record r : LoginLockoutRecord} {now clock : ℤ}

structure Sound (record : LoginLockoutRecord) (clock expiresAt : ℤ) : Prop where
  counted : 1 ≤ record.failedAttempts
  begun : record.firstFailedAt ≤ clock
  few : record.lockoutUntil = none → record.failedAttempts < maxFailedAttempts
  tracked : record.lockoutUntil = none → record.firstFailedAt + trackingWindowMs < expiresAt
  locked : ∀ lockoutUntil, record.lockoutUntil = some lockoutUntil → lockoutUntil < expiresAt

def Stores (F : NumberFormat ℤ) (kv : Option Entry) (clock : ℤ) : Prop :=
  ∀ entry ∈ kv, ∃ record, entry.value = stringify F (recordJson record) ∧
    Sound record clock entry.expiresAt

theorem stores_none : Stores F none clock := fun _ h => by cases h

theorem Stores.later (h : Stores F kv clock) (hnow : clock ≤ now) : Stores F kv now := by
  intro entry he
  obtain ⟨record,hvalue,hsound⟩ := h entry he
  exact ⟨record,hvalue,{ hsound with begun := hsound.begun.trans hnow }⟩

theorem Sound.expired_of_forgotten {expiresAt : ℤ} (h : Sound record clock expiresAt)
    (hgone : expiresAt ≤ now) : isRecordExpired record now = true := by
  unfold isRecordExpired
  cases hu : record.lockoutUntil with
  | none =>
    have htracked := h.tracked hu
    simp
    omega
  | some lockoutUntil =>
    have hlocked := h.locked lockoutUntil hu
    simp
    omega

theorem readRecord_eq (h : Stores F kv clock) : (readRecord F kv now).1 =
    normalizeLockoutRecord (recordOf F kv) now := by
  cases kv with
  | none => rfl
  | some entry =>
    obtain ⟨record,hvalue,hsound⟩ := h entry rfl
    simp only [readRecord,kvGet,recordOf,Option.map_some,Option.filter_some]
    by_cases hthere : now < entry.expiresAt
    · simp only [hthere,decide_true,if_true,Option.map_some]
    · have hexpired := hsound.expired_of_forgotten (Int.not_lt.mp hthere)
      simp only [hthere,decide_false,Bool.false_eq_true,if_false,Option.map_none,hvalue,
        parse_recordJson,normalizeLockoutRecord,Option.filter_some,hexpired,Bool.not_true]
      rfl

theorem recordOf_readRecord (h : Stores F kv clock) : recordOf F (readRecord F kv now).2 =
    normalizeLockoutRecord (recordOf F kv) now := by
  have hread : (readRecord F kv now).1 = normalizeLockoutRecord (recordOf F kv) now :=
    readRecord_eq h
  simp only [readRecord] at hread ⊢
  rw [hread]
  cases hrecord : normalizeLockoutRecord (recordOf F kv) now with
  | none => rfl
  | some record =>
    simp only [Option.isSome_some,if_true]
    exact (Option.filter_eq_some_iff.mp hrecord).1

theorem stores_readRecord (h : Stores F kv clock) (hnow : clock ≤ now) :
    Stores F (readRecord F kv now).2 now := by
  simp only [readRecord]
  split
  · exact h.later hnow
  · exact stores_none

theorem sound_normalized (h : Stores F kv clock)
    (hr : normalizeLockoutRecord (recordOf F kv) now = some r) :
    ∃ expiresAt, Sound r clock expiresAt := by
  have hrecord := (Option.filter_eq_some_iff.mp hr).1
  cases kv with
  | none => cases hrecord
  | some entry =>
    obtain ⟨record,hvalue,hsound⟩ := h entry rfl
    simp only [recordOf,Option.map_some,hvalue,parse_recordJson,Option.some.injEq] at hrecord
    exact ⟨_,hrecord ▸ hsound⟩

theorem le_ceil_mul (x : ℤ) : x ≤ 1000 * ⌈(x : ℚ) / 1000⌉ := by
  have hceil := Int.le_ceil ((x : ℚ) / 1000)
  rw [div_le_iff₀ (by norm_num)] at hceil
  have hceil : x ≤ ⌈(x : ℚ) / 1000⌉ * 1000 := by
    exact_mod_cast hceil
  omega

theorem lt_expiresAt : now + ttlMs r now < (writeRecord F r now).expiresAt := by
  have hceil := le_ceil_mul (ttlMs r now)
  have hmax := le_max_right 60 (⌈((ttlMs r now : ℤ) : ℚ) / 1000⌉ + 60)
  simp only [writeRecord,expirationTtl]
  omega

theorem sound_next {existing : Option LoginLockoutRecord} (hnow : 0 ≤ now)
    (hcounted : ∀ r ∈ existing, 1 ≤ r.failedAttempts ∧ r.firstFailedAt ≤ now) :
    Sound (nextRecord existing now) now (writeRecord F (nextRecord existing now) now).expiresAt := by
  constructor
  · cases existing with
    | none => exact le_rfl
    | some r =>
      have h := (hcounted r rfl).1
      simp only [nextRecord,Option.map_some,Option.getD_some]
      omega
  · cases existing with
    | none => exact le_rfl
    | some r => exact (hcounted r rfl).2
  · intro hnone
    simp only [nextRecord] at hnone ⊢
    split at hnone
    · cases hnone
    · rename_i hfew
      exact Int.not_le.mp hfew
  · intro hnone
    have hlt : now + ttlMs (nextRecord existing now) now <
        (writeRecord F (nextRecord existing now) now).expiresAt := lt_expiresAt
    rw [ttlMs,hnone] at hlt
    dsimp only [Option.filter_none] at hlt
    omega
  · intro lockoutUntil hlock
    have huntil : lockoutUntil = now + lockoutMs := by
      simp only [nextRecord,Option.ite_none_right_eq_some,Option.some.injEq] at hlock
      exact hlock.2.symm
    have hne : lockoutUntil ≠ 0 := by
      rw [huntil,lockoutMs]
      omega
    have hlt : now + ttlMs (nextRecord existing now) now <
        (writeRecord F (nextRecord existing now) now).expiresAt := lt_expiresAt
    rw [ttlMs,hlock,Option.filter_some,if_pos (by simpa using hne)] at hlt
    dsimp only at hlt
    omega

end store

section records

variable {F : NumberFormat ℤ} {kv : Option Entry} {now clock : ℤ} {call : Call}

/-- What a call does to the record, whatever the store is. -/
def respond (call : Call) (now : ℤ) (stored : Option LoginLockoutRecord) :
    Option LoginLockoutStatus × Option LoginLockoutRecord :=
  let existing := normalizeLockoutRecord stored now
  match call with
  | .clear => (none,none)
  | .status => (some (toStatus existing now),existing)
  | .fail =>
    if isLocked existing now then (some (toStatus existing now),existing)
    else (some (toStatus (some (nextRecord existing now)) now),some (nextRecord existing now))

theorem stores_write {existing : Option LoginLockoutRecord} (hnow : 0 ≤ now)
    (hcounted : ∀ r ∈ existing, 1 ≤ r.failedAttempts ∧ r.firstFailedAt ≤ now) :
    Stores F (some (writeRecord F (nextRecord existing now) now)) now := by
  intro entry he
  cases he
  exact ⟨_,rfl,sound_next hnow hcounted⟩

theorem answer_eq (h : Stores F kv clock) (hclock : 0 ≤ clock) (hnow : clock ≤ now) (call : Call) :
    (answer F call now kv).1 = (respond call now (recordOf F kv)).1 ∧
      recordOf F (answer F call now kv).2 = (respond call now (recordOf F kv)).2 ∧
      Stores F (answer F call now kv).2 now := by
  have hread : (readRecord F kv now).1 = normalizeLockoutRecord (recordOf F kv) now :=
    readRecord_eq h
  have hafter : recordOf F (readRecord F kv now).2 = normalizeLockoutRecord (recordOf F kv) now :=
    recordOf_readRecord h
  have hstores := stores_readRecord h hnow
  cases call with
  | clear => exact ⟨rfl,rfl,stores_none⟩
  | status =>
    simp only [answer,getLoginLockoutStatus,Prod.map,id,respond,hread,true_and]
    exact ⟨hafter,hstores⟩
  | fail =>
    simp only [answer,recordFailedLoginAttempt,Prod.map,id,respond,hread]
    split
    · exact ⟨rfl,hafter,hstores⟩
    · refine ⟨rfl,?_,stores_write (hclock.trans hnow) fun r hr => ?_⟩
      · simp only [recordOf,Option.map_some,writeRecord,parse_recordJson]
      · obtain ⟨expiresAt,hsound⟩ := sound_normalized h hr
        exact ⟨hsound.counted,hsound.begun.trans hnow⟩

/-- Answers that follow from a record at a time, and the record and the time that they lead to. -/
inductive Path : Option LoginLockoutRecord → ℤ → List Answered → Option LoginLockoutRecord → ℤ →
    Prop where
  | nil (stored : Option LoginLockoutRecord) (clock : ℤ) : Path stored clock [] stored clock
  | cons {stored last : Option LoginLockoutRecord} {clock stop : ℤ} {a : Answered}
      {rest : List Answered} (later : clock ≤ a.now)
      (status : a.status = (respond a.call a.now stored).1)
      (record : a.record = (respond a.call a.now stored).2)
      (path : Path a.record a.now rest last stop) : Path stored clock (a :: rest) last stop

variable {stored middle last : Option LoginLockoutRecord} {stop : ℤ} {a : Answered}
  {as bs : List Answered}

theorem Path.split (h : Path stored clock (as ++ bs) last stop) :
    ∃ middle now, Path stored clock as middle now ∧ Path middle now bs last stop := by
  induction as generalizing stored clock with
  | nil => exact ⟨stored,clock,.nil ..,h⟩
  | cons a as ih =>
    cases h with
    | cons later status record path =>
      obtain ⟨middle,now,hfirst,hrest⟩ := ih path
      exact ⟨middle,now,.cons later status record hfirst,hrest⟩

theorem Path.snoc (h : Path stored clock as last stop) (later : stop ≤ a.now)
    (status : a.status = (respond a.call a.now last).1)
    (record : a.record = (respond a.call a.now last).2) :
    Path stored clock (as ++ [a]) a.record a.now := by
  induction h with
  | nil => exact .cons later status record (.nil ..)
  | cons hlater hstatus hrecord _ ih => exact .cons hlater hstatus hrecord (ih later status record)

theorem Path.le (h : Path stored clock (as ++ a :: bs) last stop) : clock ≤ a.now := by
  induction as generalizing stored clock with
  | nil =>
    cases h with
    | cons later => exact later
  | cons b as ih =>
    cases h with
    | cons later _ _ path => exact later.trans (ih path)

def Counted (stored : Option LoginLockoutRecord) : Prop :=
  ∀ r ∈ stored, 1 ≤ r.failedAttempts

theorem Counted.normalize (h : Counted stored) (now : ℤ) :
    Counted (normalizeLockoutRecord stored now) :=
  fun r hr => h r (Option.filter_eq_some_iff.mp hr).1

theorem Counted.respond (h : Counted stored) (call : Call) (now : ℤ) :
    Counted (respond call now stored).2 := by
  have hexisting := h.normalize now
  cases call with
  | clear => exact fun r hr => by cases hr
  | status => exact hexisting
  | fail =>
    simp only [AuthLockout.respond]
    split
    · exact hexisting
    · intro r hr
      cases hr
      cases he : normalizeLockoutRecord stored now with
      | none => exact le_rfl
      | some existing =>
        have hcount := hexisting existing he
        simp only [nextRecord,Option.map_some,Option.getD_some]
        omega

theorem Path.counted (h : Path stored clock as last stop) (hcounted : Counted stored) :
    Counted last := by
  induction h with
  | nil => exact hcounted
  | cons _ _ record _ ih => exact ih (by
      rw [record]
      exact hcounted.respond _ _)

end records

section locks

variable {stored last : Option LoginLockoutRecord} {clock stop now u : ℤ} {r : LoginLockoutRecord}
  {a : Answered} {rest later : List Answered}

def Locked (a : Answered) : Prop := ∃ status, a.status = some status ∧ status.locked = true

def Covers (a : Answered) (lockoutUntil : ℤ) : Prop :=
  ∃ status, a.status = some status ∧ status.locked = true ∧
    lockoutUntil ≤ a.now + 1000 * status.retryAfterSeconds

theorem toStatus_locked (hu : r.lockoutUntil = some u) (hnow : now < u) :
    (toStatus (some r) now).locked = true ∧
      u ≤ now + 1000 * (toStatus (some r) now).retryAfterSeconds := by
  simp only [toStatus,hu,if_pos hnow,true_and]
  have hceil := le_ceil_mul (u - now)
  have hmax := le_max_right 1 ⌈((u - now : ℤ) : ℚ) / 1000⌉
  omega

theorem normalize_some (h : isRecordExpired r now = false) :
    normalizeLockoutRecord (some r) now = some r := by
  rw [normalizeLockoutRecord,Option.filter_some,h]
  rfl

theorem normalize_old (h : r.firstFailedAt + trackingWindowMs < now) :
    normalizeLockoutRecord (some r) now = none := by
  have hexpired : isRecordExpired r now = true := by
    unfold isRecordExpired
    simp
    omega
  rw [normalizeLockoutRecord,Option.filter_some,hexpired]
  rfl

theorem not_expired (hu : ∀ u ∈ r.lockoutUntil, now < u)
    (hnow : now ≤ r.firstFailedAt + trackingWindowMs) : isRecordExpired r now = false := by
  unfold isRecordExpired
  cases h : r.lockoutUntil with
  | none =>
    simp
    omega
  | some u =>
    have hlt := hu u h
    simp
    omega

theorem respond_locked {call : Call} (hu : r.lockoutUntil = some u) (hnow : now < u)
    (hyoung : now ≤ r.firstFailedAt + trackingWindowMs) (hcall : call ≠ .clear) :
    respond call now (some r) = (some (toStatus (some r) now),some r) := by
  have hsame := normalize_some (not_expired (fun v hv => by
    rw [hu] at hv
    cases hv
    exact hnow) hyoung)
  cases call with
  | clear => exact absurd rfl hcall
  | status => simp only [respond,hsame]
  | fail =>
    have hlocked : isLocked (some r) now = true := by
      simp [isLocked,hu,hnow]
    simp only [respond,hsame,hlocked,if_true]

theorem respond_none {call : Call} (h : normalizeLockoutRecord stored now = none)
    {status : LoginLockoutStatus} (hs : (respond call now stored).1 = some status) :
    status.locked = false := by
  cases call with
  | clear => cases hs
  | status =>
    simp only [respond,h] at hs
    cases hs
    rfl
  | fail =>
    simp only [respond,h] at hs
    cases hs
    rfl

/-- The lock holds for the calls that come while the record is young enough, and for no other. -/
theorem covers_iff (hu : r.lockoutUntil = some u)
    (hpath : Path (some r) clock (rest ++ later) last stop)
    (hrest : ∀ a ∈ rest, a.call ≠ .clear ∧ a.now < u) :
    (∀ a ∈ rest, Covers a u) ↔ ∀ a ∈ rest, a.now ≤ r.firstFailedAt + trackingWindowMs := by
  induction rest generalizing clock with
  | nil => simp
  | cons a rest ih =>
    rw [List.forall_mem_cons] at hrest
    rw [List.forall_mem_cons,List.forall_mem_cons]
    cases hpath with
    | cons _ status record path =>
      by_cases hyoung : a.now ≤ r.firstFailedAt + trackingWindowMs
      · rw [respond_locked hu hrest.1.2 hyoung hrest.1.1] at status record
        rw [record] at path
        have hcovers : Covers a u := by
          obtain ⟨hlocked,hlong⟩ := toStatus_locked hu hrest.1.2
          exact ⟨_,status,hlocked,hlong⟩
        rw [and_iff_right hcovers,and_iff_right hyoung]
        exact ih path hrest.2
      · refine iff_of_false ?_ fun h => hyoung h.1
        rintro ⟨⟨answer,hanswer,hlocked,_⟩,_⟩
        have hfree := respond_none (normalize_old (Int.not_le.mp hyoung)) (status ▸ hanswer)
        rw [hfree] at hlocked
        cases hlocked

end locks

section counts

variable {stored last : Option LoginLockoutRecord} {clock stop now : ℤ} {r : LoginLockoutRecord}
  {a fifth : Answered} {rest mid later : List Answered} {j : ℤ}

def failures (calls : List Answered) : Nat := calls.countP fun a => a.call = .fail

def Few (j : ℤ) (stored : Option LoginLockoutRecord) : Prop :=
  ∀ r ∈ stored, r.lockoutUntil = none ∧ r.failedAttempts ≤ j

theorem isLocked_of_none (h : ∀ r ∈ stored, r.lockoutUntil = none) : isLocked stored now = false := by
  cases stored with
  | none => rfl
  | some r => simp [isLocked,h r rfl]

theorem Few.normalize (h : Few j stored) (now : ℤ) : Few j (normalizeLockoutRecord stored now) :=
  fun r hr => h r (Option.filter_eq_some_iff.mp hr).1

theorem few_next (h : Few j stored) (hj : 0 ≤ j) (hfew : j + 1 < maxFailedAttempts) :
    Few (j + 1) (some (nextRecord stored now)) := by
  intro r hr
  cases hr
  have hcount : (stored.map LoginLockoutRecord.failedAttempts).getD 0 + 1 ≤ j + 1 := by
    cases stored with
    | none => simpa using hj
    | some r => simpa using (h r rfl).2
  refine ⟨?_,hcount⟩
  simp only [nextRecord]
  rw [if_neg (by omega)]

theorem not_locked_of_few (h : Few j stored) {status : LoginLockoutStatus}
    (hs : toStatus stored now = status) : status.locked = false := by
  subst hs
  cases stored with
  | none => rfl
  | some r => simp only [toStatus,(h r rfl).1]

/-- Fewer than four attempts that count, and the next, do not lock. -/
theorem not_locked_few (h : Few j stored) (hj : 0 ≤ j)
    (hpath : Path stored clock (mid ++ fifth :: later) last stop)
    (hmid : ∀ a ∈ mid, a.call ≠ .clear) (hfifth : fifth.call = .fail)
    (hfew : j + failures mid ≤ 3) : ¬Locked fifth := by
  induction mid generalizing stored clock j with
  | nil =>
    cases hpath with
    | cons _ status _ _ =>
      have hexisting := h.normalize fifth.now
      rw [hfifth] at status
      simp only [respond,isLocked_of_none fun r hr => (hexisting r hr).1,Bool.false_eq_true,
        if_false] at status
      rintro ⟨answer,hanswer,hlocked⟩
      rw [hanswer,Option.some.injEq] at status
      have hfree := not_locked_of_few (few_next hexisting hj (by
        simp only [failures,List.countP_nil] at hfew
        unfold maxFailedAttempts
        omega)) status.symm
      rw [hfree] at hlocked
      cases hlocked
  | cons a mid ih =>
    rw [List.forall_mem_cons] at hmid
    cases hpath with
    | cons _ status record path =>
      have hexisting := h.normalize a.now
      cases hcall : a.call with
      | clear => exact absurd hcall hmid.1
      | status =>
        have hcount : failures (a :: mid) = failures mid := by
          simp [failures,hcall]
        rw [hcall] at record
        exact ih (record ▸ hexisting) hj path hmid.2 (by omega)
      | fail =>
        have hcount : failures (a :: mid) = failures mid + 1 := by
          simp [failures,hcall]
        rw [hcall] at record
        simp only [respond,isLocked_of_none fun r hr => (hexisting r hr).1,Bool.false_eq_true,
          if_false] at record
        have hmax : j + 1 < maxFailedAttempts := by
          unfold maxFailedAttempts
          omega
        exact ih (j := j + 1) (record ▸ few_next hexisting hj hmax) (by omega) path hmid.2
          (by omega)

theorem respond_fail_open (hr : r.lockoutUntil = none)
    (hyoung : now ≤ r.firstFailedAt + trackingWindowMs) : respond .fail now (some r) =
      (some (toStatus (some (nextRecord (some r) now)) now),some (nextRecord (some r) now)) := by
  have hsame := normalize_some (not_expired (fun v hv => by
    rw [hr] at hv
    cases hv) hyoung)
  have hopen : isLocked (some r) now = false := isLocked_of_none fun x hx => by
    cases hx
    exact hr
  simp only [respond,hsame,hopen,Bool.false_eq_true,if_false]

theorem toStatus_next_locked_iff :
    (toStatus (some (nextRecord (some r) now)) now).locked = true ↔
      maxFailedAttempts ≤ r.failedAttempts + 1 := by
  simp only [nextRecord,toStatus,Option.map_some,Option.getD_some]
  by_cases h : maxFailedAttempts ≤ r.failedAttempts + 1
  · have hlt : now < now + lockoutMs := by
      unfold lockoutMs
      omega
    simp [h,hlt]
  · simp [h]

/-- The attempt after enough others locks exactly if the record is young enough then. -/
theorem fifth_locked_iff (hr : r.lockoutUntil = none)
    (hpath : Path (some r) clock (mid ++ fifth :: later) last stop)
    (hmid : ∀ a ∈ mid, a.call ≠ .clear ∧ ¬Locked a) (hfifth : fifth.call = .fail)
    (hfew : failures mid ≤ 3) (hmany : maxFailedAttempts ≤ r.failedAttempts + failures mid + 1) :
    Locked fifth ↔ fifth.now ≤ r.firstFailedAt + trackingWindowMs := by
  induction mid generalizing r clock with
  | nil =>
    cases hpath with
    | cons _ status _ _ =>
      rw [hfifth] at status
      by_cases hyoung : fifth.now ≤ r.firstFailedAt + trackingWindowMs
      · rw [respond_fail_open hr hyoung] at status
        refine iff_of_true ⟨_,status,toStatus_next_locked_iff.mpr ?_⟩ hyoung
        simpa [failures] using hmany
      · refine iff_of_false ?_ hyoung
        rintro ⟨answer,hanswer,hlocked⟩
        rw [respond_none (normalize_old (Int.not_le.mp hyoung)) (status ▸ hanswer)] at hlocked
        cases hlocked
  | cons a mid ih =>
    rw [List.forall_mem_cons] at hmid
    have hafter : a.now ≤ fifth.now := by
      cases hpath with
      | cons _ _ _ path => exact path.le
    cases hpath with
    | cons _ status record path =>
      by_cases hyoung : a.now ≤ r.firstFailedAt + trackingWindowMs
      · cases hcall : a.call with
        | clear => exact absurd hcall hmid.1.1
        | status =>
          have hcount : failures (a :: mid) = failures mid := by
            simp [failures,hcall]
          have hsame := normalize_some (not_expired (fun v hv => by
            rw [hr] at hv
            cases hv) hyoung)
          rw [hcall] at record
          simp only [respond,hsame] at record
          rw [record] at path
          rw [hcount] at hfew hmany
          exact ih hr path hmid.2 hfew hmany
        | fail =>
          have hcount : failures (a :: mid) = failures mid + 1 := by
            simp [failures,hcall]
          rw [hcall,respond_fail_open hr hyoung] at status record
          have hopen : ¬maxFailedAttempts ≤ r.failedAttempts + 1 := fun hmax =>
            hmid.1.2 ⟨_,status,toStatus_next_locked_iff.mpr hmax⟩
          have hnone : (nextRecord (some r) a.now).lockoutUntil = none := by
            simp only [nextRecord,Option.map_some,Option.getD_some,if_neg hopen]
          rw [record] at path
          rw [hcount] at hfew hmany
          have hiff := ih hnone path hmid.2 (by omega) (by
            simp only [nextRecord,Option.map_some,Option.getD_some]
            push_cast at hmany
            omega)
          exact hiff
      · rw [Int.not_le] at hyoung
        refine iff_of_false ?_ (by omega)
        have hdropped := normalize_old hyoung
        cases hcall : a.call with
        | clear => exact absurd hcall hmid.1.1
        | status =>
          rw [hcall] at record
          simp only [respond,hdropped] at record
          rw [record] at path
          refine not_locked_few (j := 0) (fun x hx => by cases hx) le_rfl path
            (fun b hb => (hmid.2 b hb).1) hfifth ?_
          simp only [failures,List.countP_cons] at hfew ⊢
          omega
        | fail =>
          have hcount : failures (a :: mid) = failures mid + 1 := by
            simp [failures,hcall]
          rw [hcall] at record
          simp only [respond,hdropped,isLocked,Option.any_none,Bool.false_eq_true,if_false]
            at record
          rw [record] at path
          refine not_locked_few (j := 1) (fun x hx => ?_) (by decide) path
            (fun b hb => (hmid.2 b hb).1) hfifth (by omega)
          cases hx
          exact ⟨rfl,le_rfl⟩

end counts

section runs

variable {F : NumberFormat ℤ} {s t : Lockout} {l : Call × ℤ}

/-- The log follows from an empty store, and leads to what is stored. -/
structure Kept (F : NumberFormat ℤ) (s : Lockout) : Prop where
  nonneg : 0 ≤ s.clock
  stores : Stores F s.kv s.clock
  path : Path none 0 s.log (recordOf F s.kv) s.clock

theorem kept_start : Kept F {} := ⟨le_rfl,stores_none,.nil ..⟩

theorem kept_step (h : Kept F s) (hs : (machine F).step l s = some t) : Kept F t := by
  simp only [machine,step,Option.ite_none_left_eq_some,Option.some.injEq,Int.not_lt] at hs
  obtain ⟨hnow,rfl⟩ := hs
  obtain ⟨hstatus,hrecord,hstores⟩ := answer_eq h.stores h.nonneg hnow l.1
  exact ⟨h.nonneg.trans hnow,hstores,h.path.snoc hnow hstatus hrecord⟩

/-- What is promised of the lockout, with the age of the record at which the code forgets it. -/
structure LockoutExact (F : NumberFormat ℤ) (s : Lockout) : Prop where
  /-- Where an attempt has locked, the calls before the lock ends and before a clear. -/
  holds : ∀ before trip rest later r, s.log = before ++ trip :: (rest ++ later) →
    trip.call = .fail → trip.record = some r → r.lockoutUntil = some (trip.now + lockoutMs) →
    (∀ a ∈ rest, a.call ≠ .clear ∧ a.now < trip.now + lockoutMs) →
    Covers trip (trip.now + lockoutMs) ∧ ((∀ a ∈ rest, Covers a (trip.now + lockoutMs)) ↔
      ∀ a ∈ rest, a.now ≤ r.firstFailedAt + trackingWindowMs)
  /-- Five failed attempts, with no lock and no clear among the first four. -/
  locks : ∀ before first mid fifth later r, s.log = before ++ first :: (mid ++ fifth :: later) →
    first.call = .fail → ¬Locked first → first.record = some r →
    (∀ a ∈ mid, a.call ≠ .clear ∧ ¬Locked a) → failures mid = 3 → fifth.call = .fail →
    (Locked fifth ↔ fifth.now ≤ r.firstFailedAt + trackingWindowMs)
  remembers : ∀ entry r u, s.kv = some entry → recordOf F s.kv = some r →
    r.lockoutUntil = some u → u < entry.expiresAt

theorem fail_status {a : Answered} {stored : Option LoginLockoutRecord} {r : LoginLockoutRecord}
    (hcall : a.call = .fail) (hstatus : a.status = (respond a.call a.now stored).1)
    (hrecord : a.record = (respond a.call a.now stored).2) (hr : a.record = some r) :
    a.status = some (toStatus (some r) a.now) := by
  rw [hcall] at hstatus hrecord
  rw [hrecord] at hr
  simp only [respond] at hstatus hr
  split at hstatus
  · rename_i hlocked
    rw [if_pos hlocked] at hr
    rw [hstatus,show normalizeLockoutRecord stored a.now = some r from hr]
  · rename_i hopen
    rw [if_neg hopen] at hr
    rw [hstatus,show some (nextRecord (normalizeLockoutRecord stored a.now) a.now) = some r from hr]

theorem open_of_not_locked {a : Answered} {r : LoginLockoutRecord}
    {stored : Option LoginLockoutRecord} (hcall : a.call = .fail)
    (hstatus : a.status = (respond a.call a.now stored).1)
    (hrecord : a.record = (respond a.call a.now stored).2) (hr : a.record = some r)
    (hopen : ¬Locked a) : r.lockoutUntil = none := by
  have hsame := fail_status hcall hstatus hrecord hr
  rw [hcall] at hrecord
  rw [hrecord] at hr
  simp only [respond] at hr
  cases hu : r.lockoutUntil with
  | none => rfl
  | some u =>
    refine absurd ⟨_,hsame,(toStatus_locked hu ?_).1⟩ hopen
    split at hr
    · have hkept := (Option.filter_eq_some_iff.mp hr).2
      unfold isRecordExpired at hkept
      simp [hu] at hkept
      omega
    · cases hr
      simp only [nextRecord,Option.ite_none_right_eq_some,Option.some.injEq] at hu
      have hlast := hu.2
      unfold lockoutMs at hlast
      omega

theorem Kept.exact (h : Kept F s) : LockoutExact F s := by
  have hnone : Counted none := fun r hr => by cases hr
  constructor
  · intro before trip rest later r hlog hcall hrecord hu hrest
    have hpath := h.path
    rw [hlog] at hpath
    obtain ⟨stored,now,_,htail⟩ := hpath.split
    cases htail with
    | cons hlater hstatus hstored path =>
      rw [hrecord] at path
      have hsame := fail_status hcall hstatus hstored hrecord
      obtain ⟨hlocked,hlong⟩ := toStatus_locked hu (show trip.now < trip.now + lockoutMs by
        unfold lockoutMs
        omega)
      exact ⟨⟨_,hsame,hlocked,hlong⟩,covers_iff hu path hrest⟩
  · intro before first mid fifth later r hlog hcall hopen hrecord hmid hthree hfifth
    have hpath := h.path
    rw [hlog] at hpath
    obtain ⟨stored,now,hbefore,htail⟩ := hpath.split
    have hcounted := hbefore.counted hnone
    cases htail with
    | cons hlater hstatus hstored path =>
      have hr := open_of_not_locked hcall hstatus hstored hrecord hopen
      have hcount : 1 ≤ r.failedAttempts := by
        refine hcounted.respond first.call first.now r ?_
        rw [← hstored]
        exact hrecord
      rw [hrecord] at path
      refine fifth_locked_iff hr path hmid hfifth (by omega) ?_
      rw [hthree]
      unfold maxFailedAttempts
      push_cast
      omega
  · intro entry r u hkv hrecord hu
    obtain ⟨record,hvalue,hsound⟩ := h.stores entry hkv
    rw [hkv,recordOf,Option.map_some,hvalue,parse_recordJson,Option.some.injEq] at hrecord
    subst hrecord
    exact hsound.locked u hu

/-- In every run a lock holds, and a fifth failure locks, exactly as far as the record is not
forgotten for its age; and the store never forgets a lock. -/
theorem lockout_exact (F : NumberFormat ℤ) {ls : List (Call × ℤ)}
    (h : (machine F).run ls {} = some s) : LockoutExact F s :=
  (Machine.run_invariant (P := Kept F) kept_start (fun _ _ _ => kept_step) h).exact

end runs

section concrete

def minutes (n : ℤ) : ℤ := n * 60 * 1000

/-- The fifth failure comes fifty minutes after the first, and a status read ten minutes later. -/
def lateLock : List (Call × ℤ) :=
  [(.fail,minutes 0),(.fail,minutes 10),(.fail,minutes 20),(.fail,minutes 30),(.fail,minutes 50),
    (.status,minutes 60 + 1)]

def lateLockout : Lockout := ((machine integerFormat).run lateLock {}).getD {}

theorem run_lateLock : (machine integerFormat).run lateLock {} = some lateLockout :=
  Machine.some_getD (by decide +kernel) _

theorem lockout_exact_lateLock : LockoutExact integerFormat lateLockout :=
  lockout_exact integerFormat run_lateLock

def lateTrip : Answered :=
  ⟨.fail,minutes 50,some ⟨true,5,900⟩,some ⟨5,0,some (minutes 65)⟩⟩

def lateRead : Answered := ⟨.status,minutes 60 + 1,some unlockedStatus,none⟩

theorem lateLockout_log : lateLockout.log = lateLockout.log.take 4 ++ lateTrip :: ([lateRead] ++ []) := by
  decide +kernel

/-- A lock ends five minutes early. -/
theorem lock_forgotten : ¬∀ (F : NumberFormat ℤ) (ls : List (Call × ℤ)) (s : Lockout),
    (machine F).run ls {} = some s → ∀ before trip rest later r,
    s.log = before ++ trip :: (rest ++ later) → trip.call = .fail → trip.record = some r →
    r.lockoutUntil = some (trip.now + lockoutMs) →
    (∀ a ∈ rest, a.call ≠ .clear ∧ a.now < trip.now + lockoutMs) →
    ∀ a ∈ rest, Covers a (trip.now + lockoutMs) := by
  intro h
  obtain ⟨status,hstatus,hlocked,_⟩ := h integerFormat lateLock lateLockout run_lateLock _ lateTrip
    [lateRead] [] _ lateLockout_log rfl rfl rfl (fun a ha => by
      rw [List.mem_singleton.mp ha]
      decide) lateRead List.mem_cons_self
  cases hstatus
  cases hlocked

end concrete

end Yurucommu.AuthLockout
