import Yurucommu.AuthLockoutHolds

/-!
Requests of one client that overlap: each reads the record, and may delete it or put another one
later, after others have.
-/

set_option autoImplicit false

namespace Yurucommu.AuthLockout

section requests

inductive Kind where
  | fail | status
deriving DecidableEq, Repr

/-- What a request does next; the record that it has read goes into the one that it puts. -/
inductive Stage where
  | reading
  | deleting
  | putting (existing : Option LoginLockoutRecord)
  | done (status : LoginLockoutStatus)
deriving DecidableEq, Repr

/-- `now` is read when the request begins; `seen` counts the writes that its last access saw. -/
structure Request where
  kind : Kind
  now : ℤ
  stage : Stage := .reading
  seen : Nat := 0
deriving DecidableEq, Repr

structure Overlap where
  kv : Option Entry := none
  writes : Nat := 0
  clock : ℤ := 0
  requests : List Request := []
deriving DecidableEq, Repr

inductive Label where
  | start (kind : Kind)
  | act (i : Nat)
deriving DecidableEq, Repr

/-- A record that is no more is deleted; one that is locked is not counted on. -/
def afterRead (q : Request) (record : Option LoginLockoutRecord) : Stage :=
  match record, q.kind with
  | none, _ => .deleting
  | some record, .status => .done (toStatus (some record) q.now)
  | some record, .fail =>
    if isLocked (some record) q.now then .done (toStatus (some record) q.now)
    else .putting (some record)

def afterDelete (q : Request) : Stage :=
  match q.kind with
  | .status => .done (toStatus none q.now)
  | .fail => .putting none

variable (F : JsonText.NumberFormat ℤ)

/-- The store counts the time of an entry from when it is put. -/
def putEntry (record : LoginLockoutRecord) (now time : ℤ) : Entry :=
  ⟨JsonText.stringify F (recordJson record),time + 1000 * expirationTtl record now⟩

def readAt (kv : Option Entry) (q : Request) (time : ℤ) : Option LoginLockoutRecord :=
  normalizeLockoutRecord (parseLockoutRecord F (kvGet kv time)) q.now

def access (s : Overlap) (i : Nat) (q : Request) (time : ℤ) : Option Overlap :=
  match q.stage with
  | .reading => some { s with
      clock := time
      requests := s.requests.set i
        { q with
          stage := afterRead q (readAt F s.kv q time)
          seen := s.writes } }
  | .deleting => some
      { kv := none
        writes := s.writes + 1
        clock := time
        requests := s.requests.set i
          { q with
            stage := afterDelete q
            seen := s.writes + 1 } }
  | .putting existing => some
      { kv := some (putEntry F (nextRecord existing q.now) q.now time)
        writes := s.writes + 1
        clock := time
        requests := s.requests.set i
          { q with
            stage := .done (toStatus (some (nextRecord existing q.now)) q.now)
            seen := s.writes + 1 } }
  | .done _ => none

/-- The requests' accesses come in any order, on a clock that does not run backwards. -/
def overlapStep (l : Label × ℤ) (s : Overlap) : Option Overlap :=
  if l.2 < s.clock then none
  else
    match l.1 with
    | .start kind => some { s with
        clock := l.2
        requests := s.requests ++ [{ kind := kind, now := l.2 }] }
    | .act i => (s.requests[i]?).bind fun q => access F s i q l.2

def overlapping : Machine Overlap (Label × ℤ) := ⟨overlapStep F⟩

/-- The second record comes after the first, which was no lock, and forgets nothing of it. -/
structure Follows (r r' : LoginLockoutRecord) : Prop where
  begun : r'.firstFailedAt = r.firstFailedAt
  counted : r.failedAttempts ≤ r'.failedAttempts
  locked : ∀ u, r.lockoutUntil = some u → r' = r

def Request.Writes (q : Request) : Prop := q.stage = .deleting ∨ ∃ existing, q.stage = .putting existing

/-- A request deletes or puts while a live record is stored, and another has written since its last
access. -/
def Stale (s : Overlap) (l : Label × ℤ) (_ : Overlap) : Prop :=
  ∃ i q r, l.1 = .act i ∧ s.requests[i]? = some q ∧ q.Writes ∧ q.seen ≠ s.writes ∧
    normalizeLockoutRecord (recordOf F s.kv) l.2 = some r

end requests

section store

variable {F : JsonText.NumberFormat ℤ} {kv : Option Entry} {r : LoginLockoutRecord}
  {now clock time : ℤ}

theorem recordOf_putEntry (r : LoginLockoutRecord) (now time : ℤ) :
    recordOf F (some (putEntry F r now time)) = some r := by
  simp only [recordOf,Option.map_some,putEntry,parse_recordJson]

theorem expired_mono (h : isRecordExpired r now = true) (hle : now ≤ time) :
    isRecordExpired r time = true := by
  unfold isRecordExpired at h ⊢
  cases hu : r.lockoutUntil with
  | none =>
    simp [hu] at h ⊢
    omega
  | some u =>
    simp [hu] at h ⊢
    omega

theorem live_mono {stored : Option LoginLockoutRecord}
    (h : normalizeLockoutRecord stored time = some r) (hle : now ≤ time) :
    normalizeLockoutRecord stored now = some r := by
  obtain ⟨hr,hlive⟩ := Option.filter_eq_some_iff.1 h
  refine Option.filter_eq_some_iff.2 ⟨hr,?_⟩
  cases hexpired : isRecordExpired r now with
  | false => rfl
  | true =>
    rw [expired_mono hexpired hle] at hlive
    exact hlive

theorem readAt_live (h : Stores F kv clock) {q : Request} (hnow : q.now ≤ time)
    (hlive : normalizeLockoutRecord (recordOf F kv) time = some r) :
    readAt F kv q time = some r := by
  cases kv with
  | none => cases hlive
  | some entry =>
    obtain ⟨record,hvalue,hsound⟩ := h entry rfl
    have hstored : recordOf F (some entry) = some record := by
      simp only [recordOf,Option.map_some,hvalue,parse_recordJson]
    have hthere : time < entry.expiresAt := by
      by_contra hgone
      have hexpired := hsound.expired_of_forgotten (Int.not_lt.1 hgone)
      rw [hstored,normalizeLockoutRecord,Option.filter_some,hexpired] at hlive
      cases hlive
    have hsame : parseLockoutRecord F (kvGet (some entry) time) = recordOf F (some entry) := by
      simp only [kvGet,Option.filter_some,hthere,decide_true,if_true,recordOf]
    rw [readAt,hsame]
    exact live_mono hlive hnow

theorem readAt_stored {q : Request} (h : readAt F kv q time = some r) : recordOf F kv = some r := by
  obtain ⟨hparsed,-⟩ := Option.filter_eq_some_iff.1 h
  cases kv with
  | none => cases hparsed
  | some entry =>
    rw [kvGet,Option.filter_some] at hparsed
    split at hparsed
    · exact hparsed
    · cases hparsed

theorem sound_of_stored (h : Stores F kv clock) (hr : recordOf F kv = some r) :
    ∃ expiresAt, Sound r clock expiresAt := by
  cases kv with
  | none => cases hr
  | some entry =>
    obtain ⟨record,hvalue,hsound⟩ := h entry rfl
    simp only [recordOf,Option.map_some,hvalue,parse_recordJson,Option.some.injEq] at hr
    exact ⟨_,hr ▸ hsound⟩

theorem stores_put {existing : Option LoginLockoutRecord} (hnow : 0 ≤ now) (hle : now ≤ time)
    (hsound : ∀ r ∈ existing, 1 ≤ r.failedAttempts ∧ r.firstFailedAt ≤ time) :
    Stores F (some (putEntry F (nextRecord existing now) now time)) time := by
  rintro entry he
  obtain rfl := Option.some.inj he
  refine ⟨_,rfl,?_⟩
  have hlong : time + ttlMs (nextRecord existing now) now <
      (putEntry F (nextRecord existing now) now time).expiresAt := by
    have hceil := le_ceil_mul (ttlMs (nextRecord existing now) now)
    have hmax := le_max_right 60 (⌈((ttlMs (nextRecord existing now) now : ℤ) : ℚ) / 1000⌉ + 60)
    simp only [putEntry,expirationTtl]
    omega
  have hcount : 1 ≤ (nextRecord existing now).failedAttempts ∧
      (nextRecord existing now).firstFailedAt ≤ time := by
    cases existing with
    | none => exact ⟨le_rfl,hle⟩
    | some r =>
      obtain ⟨hcounted,hbegun⟩ := hsound r rfl
      refine ⟨?_,hbegun⟩
      simp only [nextRecord,Option.map_some,Option.getD_some]
      omega
  have huntil : ∀ u, (nextRecord existing now).lockoutUntil = some u → u = now + lockoutMs := by
    intro u hu
    simp only [nextRecord,Option.ite_none_right_eq_some,Option.some.injEq] at hu
    exact hu.2.symm
  constructor
  · exact hcount.1
  · exact hcount.2
  · intro hnone
    simp only [nextRecord] at hnone ⊢
    split at hnone
    · cases hnone
    · rename_i hfew
      exact Int.not_le.1 hfew
  · intro hnone
    rw [ttlMs,hnone] at hlong
    dsimp only [Option.filter_none] at hlong
    omega
  · intro u hu
    have hlast := huntil u hu
    have hne : u ≠ 0 := by
      rw [hlast,lockoutMs]
      omega
    rw [ttlMs,hu,Option.filter_some,if_pos (by simpa using hne)] at hlong
    dsimp only at hlong
    omega

end store

section invariant

variable {F : JsonText.NumberFormat ℤ} {kv kv' : Option Entry} {writes : Nat} {clock time : ℤ}
  {q : Request} {s t : Overlap} {l : Label × ℤ}

/-- What is true of a request; where it has seen the last write, the store is as it read it. -/
structure Ready (F : JsonText.NumberFormat ℤ) (kv : Option Entry) (writes : Nat) (clock : ℤ)
    (q : Request) : Prop where
  asked : 0 ≤ q.now ∧ q.now ≤ clock
  seen : q.seen ≤ writes
  opened : ∀ existing, q.stage = .putting existing → ∀ r ∈ existing,
    1 ≤ r.failedAttempts ∧ r.firstFailedAt ≤ clock ∧ r.lockoutUntil = none
  gone : q.stage = .deleting → q.seen = writes → normalizeLockoutRecord (recordOf F kv) clock = none
  same : ∀ existing, q.stage = .putting existing → q.seen = writes → recordOf F kv = existing

theorem gone_mono {stored : Option LoginLockoutRecord}
    (h : normalizeLockoutRecord stored clock = none) (hle : clock ≤ time) :
    normalizeLockoutRecord stored time = none := by
  cases hlive : normalizeLockoutRecord stored time with
  | none => rfl
  | some r =>
    rw [live_mono hlive hle] at h
    cases h

theorem Ready.later (h : Ready F kv writes clock q) (hle : clock ≤ time) :
    Ready F kv writes time q where
  asked := ⟨h.asked.1,h.asked.2.trans hle⟩
  seen := h.seen
  opened existing hstage r hr := by
    obtain ⟨hcounted,hbegun,hopen⟩ := h.opened existing hstage r hr
    exact ⟨hcounted,hbegun.trans hle,hopen⟩
  gone hstage hseen := gone_mono (h.gone hstage hseen) hle
  same := h.same

theorem Ready.written (h : Ready F kv writes clock q) (hle : clock ≤ time) :
    Ready F kv' (writes + 1) time q where
  asked := ⟨h.asked.1,h.asked.2.trans hle⟩
  seen := Nat.le_succ_of_le h.seen
  opened existing hstage r hr := by
    obtain ⟨hcounted,hbegun,hopen⟩ := h.opened existing hstage r hr
    exact ⟨hcounted,hbegun.trans hle,hopen⟩
  gone _ hseen := absurd h.seen (by omega)
  same _ _ hseen := absurd h.seen (by omega)

theorem ready_start {kind : Kind} (hle : 0 ≤ time) :
    Ready F kv writes time { kind := kind, now := time } where
  asked := ⟨hle,le_rfl⟩
  seen := Nat.zero_le _
  opened _ hstage := by cases hstage
  gone hstage := by cases hstage
  same _ hstage := by cases hstage

theorem afterRead_putting {record existing : Option LoginLockoutRecord}
    (h : afterRead q record = .putting existing) :
    record = existing ∧ ∀ r ∈ existing, isLocked (some r) q.now = false := by
  unfold afterRead at h
  split at h
  · cases h
  · cases h
  · split at h
    · cases h
    · rename_i hopen
      obtain rfl := Stage.putting.inj h
      refine ⟨rfl,fun r hr => ?_⟩
      obtain rfl := Option.some.inj hr
      exact Bool.eq_false_of_not_eq_true hopen

theorem afterRead_deleting {record : Option LoginLockoutRecord}
    (h : afterRead q record = .deleting) : record = none := by
  unfold afterRead at h
  split at h
  · rfl
  · cases h
  · split at h <;> cases h

theorem openedof_read {r : LoginLockoutRecord} (hread : readAt F kv q time = some r)
    (hopen : isLocked (some r) q.now = false) : r.lockoutUntil = none := by
  cases hu : r.lockoutUntil with
  | none => rfl
  | some u =>
    have hlive := (Option.filter_eq_some_iff.1 hread).2
    unfold isRecordExpired at hlive
    simp [hu] at hlive
    simp [isLocked,hu] at hopen
    omega

theorem ready_read (hstores : Stores F kv clock) (h : Ready F kv writes clock q)
    (hle : clock ≤ time) :
    Ready F kv writes time { q with
      stage := afterRead q (readAt F kv q time)
      seen := writes } where
  asked := ⟨h.asked.1,h.asked.2.trans hle⟩
  seen := Nat.le_refl _
  opened existing hstage r hr := by
    obtain ⟨hread,hopen⟩ := afterRead_putting hstage
    rw [Option.mem_def.1 hr] at hread
    obtain ⟨expiresAt,hsound⟩ := sound_of_stored hstores (readAt_stored hread)
    exact ⟨hsound.counted,hsound.begun.trans hle,openedof_read hread (hopen r hr)⟩
  gone hstage _ := by
    have hread := afterRead_deleting hstage
    cases hlive : normalizeLockoutRecord (recordOf F kv) time with
    | none => rfl
    | some r =>
      rw [readAt_live hstores (h.asked.2.trans hle) hlive] at hread
      cases hread
  same existing hstage _ := by
    obtain ⟨hread,-⟩ := afterRead_putting hstage
    cases existing with
    | some r => exact readAt_stored hread
    | none =>
      unfold afterRead at hstage
      rw [hread] at hstage
      cases hstage

theorem ready_delete (h : Ready F kv writes clock q) (hle : clock ≤ time) :
    Ready F none (writes + 1) time { q with
      stage := afterDelete q
      seen := writes + 1 } where
  asked := ⟨h.asked.1,h.asked.2.trans hle⟩
  seen := Nat.le_refl _
  opened existing hstage r hr := by
    simp only [afterDelete] at hstage
    split at hstage
    · cases hstage
    · cases hstage
      cases hr
  gone _ _ := rfl
  same existing hstage _ := by
    simp only [afterDelete] at hstage
    split at hstage
    · cases hstage
    · cases hstage
      rfl

theorem ready_done {status : LoginLockoutStatus} (h : Ready F kv writes clock q)
    (hle : clock ≤ time) :
    Ready F kv' (writes + 1) time { q with
      stage := .done status
      seen := writes + 1 } where
  asked := ⟨h.asked.1,h.asked.2.trans hle⟩
  seen := Nat.le_refl _
  opened _ hstage := by cases hstage
  gone hstage := by cases hstage
  same _ hstage := by cases hstage

structure Sane (F : JsonText.NumberFormat ℤ) (s : Overlap) : Prop where
  nonneg : 0 ≤ s.clock
  stores : Stores F s.kv s.clock
  ready : ∀ q ∈ s.requests, Ready F s.kv s.writes s.clock q

theorem sane_start : Sane F {} where
  nonneg := le_rfl
  stores := stores_none
  ready _ hq := by cases hq

theorem overlapStep_act {i : Nat} (h : overlapStep F (.act i,time) s = some t) :
    s.clock ≤ time ∧ ∃ q, s.requests[i]? = some q ∧ access F s i q time = some t := by
  simp only [overlapStep,Option.ite_none_left_eq_some,Int.not_lt,Option.bind_eq_some_iff] at h
  exact h

theorem clock_access {i : Nat} (h : access F s i q time = some t) : t.clock = time := by
  unfold access at h
  split at h <;> cases h <;> rfl

theorem Sane.access {i : Nat} (h : Sane F s) (hq : s.requests[i]? = some q) (hle : s.clock ≤ time)
    (ht : AuthLockout.access F s i q time = some t) : Sane F t := by
  have hready := h.ready q (List.mem_of_getElem? hq)
  have hnonneg := h.nonneg.trans hle
  unfold AuthLockout.access at ht
  split at ht
  · cases ht
    refine ⟨hnonneg,h.stores.later hle,fun p hp => ?_⟩
    rcases List.mem_or_eq_of_mem_set hp with hp | rfl
    · exact (h.ready p hp).later hle
    · exact ready_read h.stores hready hle
  · cases ht
    refine ⟨hnonneg,stores_none,fun p hp => ?_⟩
    rcases List.mem_or_eq_of_mem_set hp with hp | rfl
    · exact (h.ready p hp).written hle
    · exact ready_delete hready hle
  next existing hstage =>
    cases ht
    refine ⟨hnonneg,stores_put hready.asked.1 (hready.asked.2.trans hle) fun r hr => ?_,
      fun p hp => ?_⟩
    · obtain ⟨hcounted,hbegun,-⟩ := hready.opened existing hstage r hr
      exact ⟨hcounted,hbegun.trans hle⟩
    · rcases List.mem_or_eq_of_mem_set hp with hp | rfl
      · exact (h.ready p hp).written hle
      · exact ready_done hready hle
  · cases ht

theorem Sane.step (h : Sane F s) (ht : (overlapping F).step l s = some t) : Sane F t := by
  obtain ⟨label,time⟩ := l
  cases label with
  | act i =>
    obtain ⟨hle,q,hq,hstep⟩ := overlapStep_act ht
    exact h.access hq hle hstep
  | start kind =>
    simp only [overlapping,overlapStep,Option.ite_none_left_eq_some,Int.not_lt,
      Option.some.injEq] at ht
    obtain ⟨hle,rfl⟩ := ht
    refine ⟨h.nonneg.trans hle,h.stores.later hle,fun p hp => ?_⟩
    rcases List.mem_append.1 hp with hp | hp
    · exact (h.ready p hp).later hle
    · obtain rfl := List.mem_singleton.1 hp
      exact ready_start (h.nonneg.trans hle)

end invariant

section locks

variable {F : JsonText.NumberFormat ℤ} {time : ℤ} {q : Request} {s t v w : Overlap}
  {l : Label × ℤ} {r r' r'' : LoginLockoutRecord}

theorem Follows.refl (r : LoginLockoutRecord) : Follows r r := ⟨rfl,le_rfl,fun _ _ => rfl⟩

theorem Follows.trans (h : Follows r r') (h' : Follows r' r'') : Follows r r'' where
  begun := h'.begun.trans h.begun
  counted := h.counted.trans h'.counted
  locked u hu := by
    have hsame := h.locked u hu
    rw [← hsame] at hu
    exact (h'.locked u hu).trans hsame

theorem follows_next (h : r.lockoutUntil = none) (now : ℤ) :
    Follows r (nextRecord (some r) now) where
  begun := rfl
  counted := by
    simp only [nextRecord,Option.map_some,Option.getD_some]
    omega
  locked u hu := by
    rw [h] at hu
    cases hu

/-- The record follows, or a lock that followed has run out. -/
def Keeps (F : JsonText.NumberFormat ℤ) (r : LoginLockoutRecord) (v : Overlap) : Prop :=
  ∃ r', Follows r r' ∧
    (recordOf F v.kv = some r' ∨ ∃ u, r'.lockoutUntil = some u ∧ u ≤ v.clock)

/-- A live record is followed unless the step is stale. -/
theorem follows_access {i : Nat} (h : Sane F s) (hle : s.clock ≤ time)
    (hq : s.requests[i]? = some q) (ht : access F s i q time = some t)
    (hstale : ¬Stale F s (.act i,time) t)
    (hlive : normalizeLockoutRecord (recordOf F s.kv) time = some r) :
    ∃ r', Follows r r' ∧ recordOf F t.kv = some r' := by
  have hready := h.ready q (List.mem_of_getElem? hq)
  have hstored := (Option.filter_eq_some_iff.1 hlive).1
  have hfresh : q.Writes → q.seen = s.writes := by
    intro hwrites
    by_contra hne
    exact hstale ⟨i,q,r,rfl,hq,hwrites,hne,hlive⟩
  unfold access at ht
  split at ht
  · cases ht
    exact ⟨r,.refl r,hstored⟩
  next hstage =>
    have hseen := hfresh (.inl hstage)
    have hgone := gone_mono (hready.gone hstage hseen) hle
    rw [hlive] at hgone
    cases hgone
  next existing hstage =>
    cases ht
    have hseen := hfresh (.inr ⟨existing,hstage⟩)
    have hsame := hready.same existing hstage hseen
    rw [hstored] at hsame
    subst hsame
    exact ⟨_,follows_next (hready.opened _ hstage r rfl).2.2 _,recordOf_putEntry _ _ _⟩
  · cases ht

theorem keeps_step (h : Sane F s) (hs : s.clock ≤ r.firstFailedAt + trackingWindowMs → Keeps F r s)
    (ht : (overlapping F).step l s = some t) (hstale : ¬Stale F s l t) :
    t.clock ≤ r.firstFailedAt + trackingWindowMs → Keeps F r t := by
  obtain ⟨label,time⟩ := l
  cases label with
  | start kind =>
    simp only [overlapping,overlapStep,Option.ite_none_left_eq_some,Int.not_lt,
      Option.some.injEq] at ht
    obtain ⟨hle,rfl⟩ := ht
    intro hyoung
    obtain ⟨r',hfollows,hr'⟩ := hs (hle.trans hyoung)
    exact ⟨r',hfollows,hr'.imp_right fun ⟨u,hu,hout⟩ => ⟨u,hu,hout.trans hle⟩⟩
  | act i =>
    obtain ⟨hle,q,hq,hstep⟩ := overlapStep_act ht
    have hclock := clock_access hstep
    intro hyoung
    rw [hclock] at hyoung
    obtain ⟨r',hfollows,hr'⟩ := hs (hle.trans hyoung)
    rcases hr' with hr' | ⟨u,hu,hout⟩
    · by_cases hout : ∃ u, r'.lockoutUntil = some u ∧ u ≤ time
      · obtain ⟨u,hu,hout⟩ := hout
        exact ⟨r',hfollows,.inr ⟨u,hu,hclock.symm ▸ hout⟩⟩
      · have hlive : normalizeLockoutRecord (recordOf F s.kv) time = some r' := by
          rw [hr']
          refine normalize_some (not_expired (fun u hu => ?_) (hfollows.begun ▸ hyoung))
          by_contra hpast
          exact hout ⟨u,hu,Int.not_lt.1 hpast⟩
        obtain ⟨r'',hnext,hr''⟩ := follows_access h hle hq hstep hstale hlive
        exact ⟨r'',hfollows.trans hnext,.inl hr''⟩
    · exact ⟨r',hfollows,.inr ⟨u,hu,hclock.symm ▸ hout.trans hle⟩⟩

theorem locked_read {i : Nat} {u : ℤ} (h : Sane F s) (hle : s.clock ≤ time)
    (hq : s.requests[i]? = some q) (hstage : q.stage = .reading)
    (ht : access F s i q time = some t) (hstored : recordOf F s.kv = some r)
    (hu : r.lockoutUntil = some u) (hlock : time < u)
    (hyoung : time ≤ r.firstFailedAt + trackingWindowMs) :
    ∃ p status, t.requests[i]? = some p ∧ p.stage = .done status ∧ status.locked = true := by
  have hnow := (h.ready q (List.mem_of_getElem? hq)).asked.2.trans hle
  have hlive : normalizeLockoutRecord (recordOf F s.kv) time = some r := by
    rw [hstored]
    refine normalize_some (not_expired (fun v hv => ?_) hyoung)
    rw [hu] at hv
    exact Option.some.inj hv ▸ hlock
  have hread := readAt_live h.stores hnow hlive
  have hlocked : isLocked (some r) q.now = true := by
    simp [isLocked,hu]
    omega
  have hafter : afterRead q (some r) = .done (toStatus (some r) q.now) := by
    unfold afterRead
    cases q.kind with
    | status => rfl
    | fail => exact if_pos hlocked
  unfold access at ht
  rw [hstage,hread,hafter] at ht
  obtain rfl := Option.some.inj ht
  refine ⟨_,_,List.getElem?_set_self (List.getElem?_eq_some_iff.1 hq).1,rfl,?_⟩
  exact (toStatus_locked hu (hnow.trans_lt hlock)).1

/-- A reached record is followed until its window ends or a lock runs out, and a lock is read by
every request that reads before, in every run that takes no live record away unseen. -/
structure Outlasts (F : JsonText.NumberFormat ℤ) (r : LoginLockoutRecord) (v : Overlap) : Prop where
  keeps : v.clock ≤ r.firstFailedAt + trackingWindowMs → Keeps F r v
  locked : ∀ i q u time t, r.lockoutUntil = some u → v.requests[i]? = some q → q.stage = .reading →
    (overlapping F).step (.act i,time) v = some t → time < u →
    time ≤ r.firstFailedAt + trackingWindowMs →
    ∃ p status, t.requests[i]? = some p ∧ p.stage = .done status ∧ status.locked = true

theorem outlasts_of_keeps (h : Sane F v)
    (hkeeps : v.clock ≤ r.firstFailedAt + trackingWindowMs → Keeps F r v) : Outlasts F r v where
  keeps := hkeeps
  locked i q u time t hu hq hstage ht hlock hyoung := by
    obtain ⟨hle,p,hp,hstep⟩ := overlapStep_act ht
    rw [hq] at hp
    obtain rfl := Option.some.inj hp
    obtain ⟨r',hfollows,hr'⟩ := hkeeps (hle.trans hyoung)
    obtain rfl := hfollows.locked u hu
    rcases hr' with hstored | ⟨u',hu',hout⟩
    · exact locked_read h hle hq hstage hstep hstored hu hlock hyoung
    · rw [hu] at hu'
      obtain rfl := Option.some.inj hu'
      omega

theorem lock_outlasts_overlap (F : JsonText.NumberFormat ℤ) {s v : Overlap} {r : LoginLockoutRecord}
    (hs : (overlapping F).Reaches {} s) (hr : recordOf F s.kv = some r)
    (hrun : (overlapping F).ReachesBy (fun a l b => ¬Stale F a l b) s v) : Outlasts F r v := by
  have hsane : Sane F s := hs.invariant sane_start fun a l b ha hstep _ => ha.step hstep
  have hboth : Sane F v ∧ (v.clock ≤ r.firstFailedAt + trackingWindowMs → Keeps F r v) := by
    refine hrun.invariant (P := fun v => Sane F v ∧
      (v.clock ≤ r.firstFailedAt + trackingWindowMs → Keeps F r v))
      ⟨hsane,fun _ => ⟨r,.refl r,.inl hr⟩⟩ fun a l b ha hstep hstale => ?_
    exact ⟨ha.1.step hstep,keeps_step ha.1 ha.2 hstep hstale⟩
  exact outlasts_of_keeps hboth.1 hboth.2

end locks

section concrete

def threeFailures : List (Label × ℤ) :=
  [(.start .fail,0),(.act 0,0),(.act 0,0),(.act 0,0),(.start .fail,1),(.act 1,1),(.act 1,1),
    (.start .fail,2),(.act 2,2),(.act 2,2)]

def threeMore : List (Label × ℤ) :=
  [(.start .fail,3),(.act 3,3),(.start .fail,4),(.act 4,4),(.act 4,4),(.start .fail,5),(.act 5,5),
    (.act 5,5)]

def trippedMeanwhile : List (Label × ℤ) := threeFailures ++ threeMore

def overwritten : List (Label × ℤ) := [(.act 3,6),(.start .status,7),(.act 6,7)]

def tripped : Overlap := ((overlapping JsonText.integerFormat).run trippedMeanwhile {}).getD {}

def unlocked : Overlap := ((overlapping JsonText.integerFormat).run overwritten tripped).getD {}

def asked : Overlap :=
  ((overlapping JsonText.integerFormat).run [(.start .status,6)] tripped).getD {}

def answered : Overlap :=
  ((overlapping JsonText.integerFormat).run [(.act 6,6)] asked).getD {}

theorem run_overlap :
    (overlapping JsonText.integerFormat).run trippedMeanwhile {} = some tripped ∧
      (overlapping JsonText.integerFormat).run overwritten tripped = some unlocked ∧
      recordOf JsonText.integerFormat tripped.kv = some ⟨5,0,some (5 + lockoutMs)⟩ ∧
      unlocked.requests[6]? =
        some { kind := .status, now := 7, stage := .done ⟨false,4,0⟩, seen := 7 } ∧
      (overlapping JsonText.integerFormat).step (.start .status,6) tripped = some asked ∧
      (overlapping JsonText.integerFormat).step (.act 6,6) asked = some answered ∧
      asked.requests[6]? = some { kind := .status, now := 6 } := by
  decide +kernel

/-- The fourth could still put its record; the status that is read before it does is locked. -/
theorem lock_outlasts_overlap_tripped :
    ∃ p status, answered.requests[6]? = some p ∧ p.stage = .done status ∧ status.locked = true := by
  obtain ⟨htripped,-,hrecord,-,hask,hread,hreading⟩ := run_overlap
  have hrun : (overlapping JsonText.integerFormat).ReachesBy
      (fun a l b => ¬Stale JsonText.integerFormat a l b) tripped asked := by
    refine (Machine.ReachesBy.refl _).snoc hask ?_
    rintro ⟨i,q,r,hact,-⟩
    cases hact
  have houtlasts := lock_outlasts_overlap JsonText.integerFormat (.of_run htripped) hrecord hrun
  exact houtlasts.locked 6 _ _ 6 answered rfl hreading rfl hread (by decide) (by decide)

/-- A late put ends the lock. -/
theorem late_put_unlocks : ¬∀ (F : JsonText.NumberFormat ℤ) (s v : Overlap) (r : LoginLockoutRecord)
    (u : ℤ), (overlapping F).Reaches {} s → recordOf F s.kv = some r → r.lockoutUntil = some u →
    (overlapping F).Reaches s v → ∀ i q status, v.requests[i]? = some q → s.requests.length ≤ i →
    q.now < u → q.stage = .done status → status.locked = true := by
  intro h
  obtain ⟨htripped,hrun,hrecord,hread,-⟩ := run_overlap
  have hlocked := h JsonText.integerFormat tripped unlocked _ (5 + lockoutMs) (.of_run htripped)
    hrecord rfl (.of_run hrun) 6 _ ⟨false,4,0⟩ hread (by decide +kernel) (by decide) rfl
  cases hlocked

end concrete

end Yurucommu.AuthLockout
