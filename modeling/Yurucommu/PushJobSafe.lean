import Yurucommu.PushJob

/-!
What the runs keep of a push job. A claim compares the status and the time of the last write; as
the clock is never read twice alike and a reading is written by one run alone, these two name the
attempts of the row as well.
-/

set_option autoImplicit false

namespace Yurucommu.PushJob

def Worker.job : Worker → Option JobRow
  | .caught job _ _ _ _ => some job
  | x => x.held.map (·.1)

section writes

inductive Write (p : Nat) (row : Option JobRow) : Worker → Option JobRow → Prop where
  | same (x : Worker) : Write p row x row
  | reclaim {job r : JobRow} {n : Nat} (hr : row = some r) (hs : seen job r = true) :
      Write p row (.reclaim job n) (some (reclaim n r))
  | claim {job r : JobRow} {n : Nat} (hr : row = some r) (hc : claimable job n r = true) :
      Write p row (.claim job n) (some (claim p n r))
  | persist {job r : JobRow} {n : Nat} {ids : List String} (hr : row = some r)
      (hl : leased p r = true) :
      Write p row (.persistPending job n ids) (some (setPendingPusherIds ids n r))
  | refresh {job r : JobRow} {d : Dispatch} {ids : List String} {rest : List (List String)}
      {n : Nat} (hr : row = some r) (hl : leased p r = true) :
      Write p row (.refresh job d ids rest n) (some (refresh n r))
  | finish {job r : JobRow} {d : Dispatch} {e : Option String} {n : Nat} (hr : row = some r)
      (hl : leased p r = true) : Write p row (.finish job d e n) (some (finish e n r))
  | retry {job r : JobRow} {d : Dispatch} {readAt n delay : Nat} {ids : Option (List String)}
      {e : String} (hr : row = some r) (hl : leased p r = true) :
      Write p row (.retry job d readAt n)
        (some (retry (job.attempts + 1) delay ids e readAt n r))
  | caught {job r : JobRow} {remaining ids : Option (List String)} {error e : String}
      {readAt n delay : Nat} (hr : row = some r) (hl : leased p r = true) :
      Write p row (.caught job remaining error readAt n)
        (some (retry (job.attempts + 1) delay ids e readAt n r))
  | recover {r : JobRow} {n : Nat} (hr : row = some r) (hs : recoverable r = true) :
      Write p row (.recover n) (some (recover n r))
  | reclaimStale {r : JobRow} {n cutoffAt : Nat} (hr : row = some r)
      (hs : stale cutoffAt r = true) :
      Write p row (.reclaimStale n cutoffAt) (some (reclaimStale n r))
  | mark {r : JobRow} {n : Nat} (hr : row = some r) (hs : waiting r = true) :
      Write p row (.mark n) (some (markQueued n r))

theorem update_write {p : Nat} {row : Option JobRow} {x : Worker} {cond : JobRow → Bool}
    {set : JobRow → JobRow}
    (h : ∀ r, row = some r → cond r = true → Write p row x (some (set r))) :
    Write p row x (Statement.update cond set row) := by
  rcases Statement.update_cases cond set row with hu | ⟨r,hr,hc,hu⟩
  · rw [hu]
    exact .same x
  · rw [hu]
    exact h r hr hc

theorem advance_write (i : Answer) (p : Nat) (row : Option JobRow) (x : Worker) :
    Write p row x (advance i p row x).1 := by
  unfold advance
  cases i.fails with
  | true => exact .same x
  | false =>
    cases x with
    | reclaim job n => exact update_write fun r hr hs => .reclaim hr hs
    | claim job n => exact update_write fun r hr hc => .claim hr hc
    | persistPending job n ids => exact update_write fun r hr hl => .persist hr hl
    | refresh job d ids rest n => exact update_write fun r hr hl => .refresh hr hl
    | finish job d e n => exact update_write fun r hr hl => .finish hr hl
    | retry job d readAt n => exact update_write fun r hr hl => .retry hr hl
    | caught job remaining e readAt n => exact update_write fun r hr hl => .caught hr hl
    | recover n => exact update_write fun r hr hs => .recover hr hs
    | reclaimStale n c => exact update_write fun r hr hs => .reclaimStale hr hs
    | mark n => exact update_write fun r hr hs => .mark hr hs
    | _ => exact .same _

variable {p q : Nat} {row row' : Option JobRow} {x : Worker} {r r' : JobRow}

theorem leased_iff : leased p r = true ↔ r.status = .processing ∧ r.processingToken = some p := by
  simp [leased]

theorem hits_leased_iff : Statement.hits (leased p) row = true ↔
    ∃ r, row = some r ∧ r.status = .processing ∧ r.processingToken = some p := by
  rw [Statement.hits_iff]
  simp only [leased_iff]

theorem Write.row_of_token (h : Write p row x row') (hpq : p ≠ q) (hr : row' = some r)
    (ht : r.processingToken = some q) : row = some r := by
  cases h with
  | same => exact hr
  | persist h hl | refresh h hl =>
    cases hr
    exact absurd (Option.some.inj ((leased_iff.mp hl).2.symm.trans ht)) hpq
  | claim =>
    cases hr
    exact absurd (Option.some.inj ht) hpq
  | reclaim | finish | retry | caught | recover | reclaimStale | mark =>
    cases hr
    cases ht

theorem Write.some_of_some (h : Write p row x row') (hr : row' = some r') : ∃ r, row = some r := by
  cases h with
  | same => exact ⟨r',hr⟩
  | reclaim h | claim h | persist h | refresh h | finish h | retry h | caught h | recover h
  | reclaimStale h | mark h => exact ⟨_,h⟩

theorem exhausted_terminal {attempts : Nat} {status : JobStatus}
    (h : maxNotificationPushAttempts ≤ attempts) : (exhausted attempts status).terminal = true := by
  unfold exhausted
  rw [if_pos h]
  rfl

theorem Write.terminal (h : Write p row x row') (hr : row = some r) (ht : r.status.terminal = true)
    (hx : ∀ job n, x = .reclaim job n ∨ x = .claim job n → job.status.terminal = false) :
    row' = some r := by
  have hseen : ∀ job : JobRow, job.status.terminal = false → seen job r = true → False := by
    intro job hjob hs
    simp only [seen,Bool.and_eq_true,decide_eq_true_eq] at hs
    rw [← hs.1,ht] at hjob
    cases hjob
  have hleased : leased p r = true → False := by
    intro hl
    rw [(leased_iff.mp hl).1] at ht
    cases ht
  cases h with
  | same => exact hr
  | reclaim h hs =>
    cases h.symm.trans hr
    exact (hseen _ (hx _ _ (.inl rfl)) hs).elim
  | claim h hc =>
    cases h.symm.trans hr
    rw [claimable,Bool.and_eq_true] at hc
    exact (hseen _ (hx _ _ (.inr rfl)) hc.1).elim
  | persist h hl | refresh h hl | finish h hl | retry h hl | caught h hl =>
    cases h.symm.trans hr
    exact (hleased hl).elim
  | recover h hs =>
    cases h.symm.trans hr
    simp [recoverable,ht] at hs
  | reclaimStale h hs =>
    cases h.symm.trans hr
    cases hstatus : r.status <;> simp [stale,hstatus] at hs <;> simp [hstatus,JobStatus.terminal] at ht
  | mark h hs =>
    cases h.symm.trans hr
    cases hstatus : r.status <;> simp [waiting,hstatus] at hs <;>
      simp [hstatus,JobStatus.terminal] at ht

end writes

section invariant

structure Recorded (s : Store) : Prop where
  read : ∀ e ∈ s.readings, e.1 ≤ s.now
  reader : ∀ n p q, (n,p) ∈ s.readings → (n,q) ∈ s.readings → p = q
  written : ∀ v ∈ s.versions, v.updatedAt ≤ s.now
  unique : ∀ v ∈ s.versions, ∀ v' ∈ s.versions, v.status = v'.status →
    v.updatedAt = v'.updatedAt → v = v'
  row : ∀ r, s.row = some r → r.version ∈ s.versions
  budget : ∀ r, s.row = some r → maxNotificationPushAttempts ≤ r.attempts →
    r.status.terminal = true

def Fresh (p n : Nat) (s : Store) : Prop :=
  (n,p) ∈ s.readings ∧ ∀ v ∈ s.versions, v.updatedAt ≠ n

def Holds (p : Nat) (job : JobRow) (s : Store) : Prop :=
  ∀ r, s.row = some r → r.processingToken = some p → r.attempts = job.attempts

/-- The time of the claim is written as the claim's alone. -/
def Claimed (p : Nat) (job : JobRow) (n : Nat) (s : Store) : Prop :=
  (n,p) ∈ s.readings ∧
    ∀ v ∈ s.versions, v.updatedAt = n → v = ⟨.processing,n,job.attempts⟩

/-- The time of the sweep has not been written to a queued row. -/
def Sweeping (p n : Nat) (s : Store) : Prop :=
  (n,p) ∈ s.readings ∧ ∀ v ∈ s.versions, v.updatedAt = n → v.status ≠ .queued

def Found (job : JobRow) (s : Store) : Prop :=
  job.version ∈ s.versions ∧ job.status.terminal = false

def Knows (p : Nat) (s : Store) : Worker → Prop
  | .reclaim job n => (Found job s ∧ job.status = .processing) ∧ Fresh p n s
  | .claim job n => Found job s ∧ Fresh p n s
  | .loadPushEvent job n | .selectPending job n | .persistPending job n _ =>
    Holds p job s ∧ Claimed p job n s
  | .selectPushers job _ | .unreadCount job _ _ _ | .buildContent job _ _ _ | .send job _ _ _ =>
    Holds p job s
  | .refresh job _ _ _ n | .finish job _ _ n | .retry job _ _ n | .caught job _ _ _ n =>
    Holds p job s ∧ Fresh p n s
  | .recover n | .reclaimStale n _ => Fresh p n s
  | .selectDue n | .sendBatch n | .mark n => Sweeping p n s
  | .select | .recoverDeadLettered | .sweep | .done => True

def Worker.stamp : Worker → Option Nat
  | .reclaim _ n | .claim _ n | .persistPending _ n _ | .refresh _ _ _ _ n | .finish _ _ _ n
  | .retry _ _ _ n | .caught _ _ _ _ n | .recover n | .reclaimStale n _ | .mark n => some n
  | _ => none

variable {p q : Nat} {s t : Store} {row' : Option JobRow} {x : Worker} {i : Answer}

theorem Write.stamp (h : Write p s.row x row') : row' = s.row ∨
    ∃ r' n, row' = some r' ∧ x.stamp = some n ∧ r'.updatedAt = n := by
  cases h with
  | same => exact .inl rfl
  | reclaim | claim | persist | refresh | finish | retry | caught | recover | reclaimStale | mark =>
    exact .inr ⟨_,_,rfl,rfl,rfl⟩

theorem Knows.stamp_read {n : Nat} (h : Knows p s x) (hx : x.stamp = some n) :
    (n,p) ∈ s.readings := by
  cases x with
  | reclaim job m | claim job m =>
    cases hx
    exact h.2.1
  | persistPending job m ids =>
    cases hx
    exact h.2.1
  | refresh job d ids rest m | finish job d e m | retry job d readAt m
  | caught job remaining e readAt m =>
    cases hx
    exact h.2.1
  | recover m | reclaimStale m c | mark m =>
    cases hx
    exact h.1
  | _ => cases hx

/-- What a step of `p` adds to the history, or one of the environment, whose time is new. -/
structure Grows (p : Nat) (s t : Store) : Prop where
  now : s.now ≤ t.now
  readings : ∀ e ∈ s.readings, e ∈ t.readings
  versions : ∀ v ∈ t.versions, v ∈ s.versions ∨
    (v.updatedAt,p) ∈ s.readings ∨ s.now < v.updatedAt
  old : ∀ v ∈ s.versions, v ∈ t.versions

theorem Grows.not_written {n : Nat} (hg : Grows p s t) (hI : Recorded s) (hpq : p ≠ q)
    (hn : (n,q) ∈ s.readings) {v : Version} (hv : v ∈ t.versions) (heq : v.updatedAt = n) :
    v ∈ s.versions := by
  rcases hg.versions v hv with hold | hread | hnew
  · exact hold
  · rw [heq] at hread
    exact absurd (hI.reader n p q hread hn) hpq
  · have hle := hI.read _ hn
    simp only at hle
    omega

theorem Fresh.other {n : Nat} (h : Fresh q n s) (hI : Recorded s) (hg : Grows p s t)
    (hpq : p ≠ q) : Fresh q n t := by
  refine ⟨hg.readings _ h.1,?_⟩
  intro v hv heq
  exact h.2 v (hg.not_written hI hpq h.1 hv heq) heq

theorem Claimed.other {n : Nat} {job : JobRow} (h : Claimed q job n s) (hI : Recorded s)
    (hg : Grows p s t) (hpq : p ≠ q) : Claimed q job n t := by
  refine ⟨hg.readings _ h.1,?_⟩
  intro v hv heq
  exact h.2 v (hg.not_written hI hpq h.1 hv heq) heq

theorem Sweeping.other {n : Nat} (h : Sweeping q n s) (hI : Recorded s) (hg : Grows p s t)
    (hpq : p ≠ q) : Sweeping q n t := by
  refine ⟨hg.readings _ h.1,?_⟩
  intro v hv heq
  exact h.2 v (hg.not_written hI hpq h.1 hv heq) heq

theorem Found.other {job : JobRow} (h : Found job s) (hg : Grows p s t) : Found job t :=
  ⟨hg.old _ h.1,h.2⟩

theorem Holds.other {job : JobRow} (h : Holds q job s)
    (hrow : ∀ r, t.row = some r → r.processingToken = some q → s.row = some r) :
    Holds q job t := fun r hr ht => h r (hrow r hr ht) ht

theorem Knows.other {z : Worker} (h : Knows q s z) (hI : Recorded s) (hg : Grows p s t)
    (hpq : p ≠ q)
    (hrow : ∀ r, t.row = some r → r.processingToken = some q → s.row = some r) :
    Knows q t z := by
  cases z with
  | reclaim job n => exact ⟨⟨h.1.1.other hg,h.1.2⟩,h.2.other hI hg hpq⟩
  | claim job n => exact ⟨h.1.other hg,h.2.other hI hg hpq⟩
  | loadPushEvent job n | selectPending job n | persistPending job n ids =>
    exact ⟨h.1.other hrow,h.2.other hI hg hpq⟩
  | selectPushers job d | unreadCount job d web groups | buildContent job d web groups
  | send job d ids rest => exact Holds.other h hrow
  | refresh job d ids rest n | finish job d e n | retry job d readAt n
  | caught job remaining e readAt n => exact ⟨h.1.other hrow,h.2.other hI hg hpq⟩
  | recover n | reclaimStale n c => exact Fresh.other h hI hg hpq
  | selectDue n | sendBatch n | mark n => exact Sweeping.other h hI hg hpq
  | select | recoverDeadLettered | sweep | done => trivial

theorem work_row (i : Answer) (p : Nat) (s : Store) (x : Worker) :
    Write p s.row x (work i p s x).1.row := advance_write i p s.row x

theorem mem_write {v : Version} {row : Option JobRow} : v ∈ (s.write row).versions ↔
    (∃ r, row = some r ∧ v = r.version) ∨ v ∈ s.versions := by
  unfold Store.write
  cases row with
  | none => simp
  | some r => simp

theorem work_versions (hI : Recorded s) (hJ : Knows p s x) {v : Version}
    (hv : v ∈ (work i p s x).1.versions) : v ∈ s.versions ∨
      ∃ r', (work i p s x).1.row = some r' ∧ v = r'.version ∧ x.stamp = some v.updatedAt ∧
        (v.updatedAt,p) ∈ s.readings := by
  rcases mem_write.mp hv with ⟨r',hr',rfl⟩ | hold
  · rcases (work_row i p s x).stamp with hsame | ⟨r'',n,hr'',hx,hn⟩
    · have hrow : s.row = some r' := by
        rw [← hsame]
        exact hr'
      exact .inl (hI.row r' hrow)
    · have heq : r'' = r' := Option.some.inj (hr''.symm.trans hr')
      subst heq hn
      exact .inr ⟨r'',hr',rfl,hx,hJ.stamp_read hx⟩
  · exact .inl hold

theorem allowed_clock (h : allowed i s x = true) : s.now < i.first ∧ i.first < i.second := by
  simp only [allowed,Bool.and_eq_true,decide_eq_true_eq] at h
  exact ⟨h.1.2,h.2⟩

theorem work_grows (hI : Recorded s) (hJ : Knows p s x) (ha : allowed i s x = true) :
    Grows p s (work i p s x).1 := by
  obtain ⟨hfirst,hsecond⟩ := allowed_clock ha
  refine ⟨?_,?_,?_,?_⟩
  · simp only [work]
    omega
  · intro e he
    exact List.mem_cons_of_mem _ (List.mem_cons_of_mem _ he)
  · intro v hv
    rcases work_versions hI hJ hv with hold | ⟨_,_,_,_,hread⟩
    · exact .inl hold
    · exact .inr (.inl hread)
  · intro v hv
    exact mem_write.mpr (.inr hv)

theorem work_written (hI : Recorded s) (hJ : Knows p s x) :
    ∀ v ∈ (work i p s x).1.versions, v.updatedAt ≤ s.now := by
  intro v hv
  rcases work_versions hI hJ hv with hold | ⟨_,_,_,_,hread⟩
  · exact hI.written v hold
  · exact hI.read _ hread

theorem fresh_second (hI : Recorded s) (hJ : Knows p s x) (ha : allowed i s x = true) :
    Fresh p i.second (work i p s x).1 := by
  obtain ⟨hfirst,hsecond⟩ := allowed_clock ha
  refine ⟨List.mem_cons_of_mem _ List.mem_cons_self,?_⟩
  intro v hv heq
  have hle := work_written hI hJ v hv
  omega

theorem Found.attempts {job r : JobRow} (h : Found job s) (hI : Recorded s) (hr : s.row = some r)
    (hs : seen job r = true) : r.attempts = job.attempts := by
  simp only [seen,Bool.and_eq_true,decide_eq_true_eq] at hs
  have heq := hI.unique _ (hI.row r hr) _ h.1 hs.1 hs.2
  exact congrArg Version.attempts heq

theorem unique_new (hI : Recorded s) (hJ : Knows p s x) {r' : JobRow}
    (hr' : (work i p s x).1.row = some r') {v : Version} (hv : v ∈ s.versions)
    (hs : v.status = r'.version.status) (hu : v.updatedAt = r'.version.updatedAt) :
    v = r'.version := by
  have hw := work_row i p s x
  rw [hr'] at hw
  have hfresh : ∀ n, Fresh p n s → r'.updatedAt = n → False := by
    intro n hf hn
    exact hf.2 v hv (hu.trans hn)
  generalize hrow : some r' = row' at hw
  cases hw with
  | same => exact hI.unique v hv _ (hI.row r' hrow.symm) hs hu
  | reclaim =>
    cases hrow
    exact (hfresh _ hJ.2 rfl).elim
  | claim =>
    cases hrow
    exact (hfresh _ hJ.2 rfl).elim
  | persist hr hl =>
    cases hrow
    have hattempts := hJ.1 _ hr (leased_iff.mp hl).2
    have hstatus := (leased_iff.mp hl).1
    rw [hJ.2.2 v hv hu]
    simp only [JobRow.version,setPendingPusherIds,hstatus,hattempts]
  | refresh | finish | retry | caught =>
    cases hrow
    exact (hfresh _ hJ.2 rfl).elim
  | recover | reclaimStale =>
    cases hrow
    exact (hfresh _ hJ rfl).elim
  | mark =>
    cases hrow
    exact absurd hs (hJ.2 v hv hu)

theorem budget_write {r' : JobRow} (hI : Recorded s) (hJ : Knows p s x)
    (hw : Write p s.row x (some r')) (hm : maxNotificationPushAttempts ≤ r'.attempts) :
    r'.status.terminal = true := by
  have hfound : ∀ {job r : JobRow}, Found job s → s.row = some r → seen job r = true →
      maxNotificationPushAttempts ≤ r.attempts → False := by
    intro job r hf hr hs hle
    have hterminal := hI.budget r hr hle
    simp only [seen,Bool.and_eq_true,decide_eq_true_eq] at hs
    rw [hs.1,hf.2] at hterminal
    cases hterminal
  have hlease : ∀ {r : JobRow}, s.row = some r → leased p r = true →
      maxNotificationPushAttempts ≤ r.attempts → False := by
    intro r hr hl hle
    have hterminal := hI.budget r hr hle
    rw [(leased_iff.mp hl).1] at hterminal
    cases hterminal
  generalize hrow : some r' = row' at hw
  cases hw with
  | same => exact hI.budget r' hrow.symm hm
  | reclaim hr hs =>
    cases hrow
    exact (hfound hJ.1.1 hr hs hm).elim
  | claim hr hc =>
    cases hrow
    rw [claimable,Bool.and_eq_true] at hc
    exact (hfound hJ.1 hr hc.1 hm).elim
  | persist hr hl | refresh hr hl =>
    cases hrow
    exact (hlease hr hl hm).elim
  | finish =>
    cases hrow
    rfl
  | retry | caught | recover | reclaimStale =>
    cases hrow
    exact exhausted_terminal hm
  | mark hr hs =>
    cases hrow
    have hterminal := hI.budget _ hr hm
    simp only [waiting,Bool.or_eq_true,decide_eq_true_eq] at hs
    rcases hs with hs | hs <;> rw [hs] at hterminal <;> cases hterminal

theorem recorded_work (hI : Recorded s) (hJ : Knows p s x) (ha : allowed i s x = true) :
    Recorded (work i p s x).1 := by
  obtain ⟨hfirst,hsecond⟩ := allowed_clock ha
  have hw := work_row i p s x
  refine ⟨?_,?_,?_,?_,?_,?_⟩
  · intro e he
    simp only [work] at he ⊢
    rcases List.mem_cons.mp he with rfl | he
    · exact Nat.le_of_lt hsecond
    · rcases List.mem_cons.mp he with rfl | he
      · exact Nat.le_refl _
      · have hle := hI.read e he
        omega
  · intro n q q' hq hq'
    simp only [work,List.mem_cons,Prod.mk.injEq] at hq hq'
    rcases hq with ⟨rfl,rfl⟩ | ⟨rfl,rfl⟩ | hq
    · rcases hq' with ⟨_,rfl⟩ | ⟨_,rfl⟩ | hq'
      · rfl
      · rfl
      · have hle := hI.read _ hq'
        simp only at hle
        omega
    · rcases hq' with ⟨_,rfl⟩ | ⟨_,rfl⟩ | hq'
      · rfl
      · rfl
      · have hle := hI.read _ hq'
        simp only at hle
        omega
    · rcases hq' with ⟨rfl,rfl⟩ | ⟨rfl,rfl⟩ | hq'
      · have hle := hI.read _ hq
        simp only at hle
        omega
      · have hle := hI.read _ hq
        simp only at hle
        omega
      · exact hI.reader n q q' hq hq'
  · intro v hv
    have hle := work_written hI hJ v hv
    simp only [work]
    omega
  · intro v hv v' hv' hs hu
    rcases work_versions hI hJ hv with hold | ⟨r,hr,rfl,_⟩
    · rcases work_versions hI hJ hv' with hold' | ⟨r',hr',rfl,_⟩
      · exact hI.unique v hold v' hold' hs hu
      · exact unique_new hI hJ hr' hold hs hu
    · rcases work_versions hI hJ hv' with hold' | ⟨r',hr',rfl,_⟩
      · exact (unique_new hI hJ hr hold' hs.symm hu.symm).symm
      · rw [Option.some.inj (hr.symm.trans hr')]
  · intro r hr
    exact mem_write.mpr (.inl ⟨r,hr,rfl⟩)
  · intro r hr hm
    rw [hr] at hw
    exact budget_write hI hJ hw hm

theorem knows_nextCall {job : JobRow} (d : Dispatch) (batches : List (List String))
    (hh : Holds p job t) (hf : Fresh p i.second t) : Knows p t (nextCall i job d batches) := by
  cases batches with
  | cons ids rest => exact ⟨hh,hf⟩
  | nil =>
    by_cases h : d.retryIds = []
    · simp only [nextCall,conclude,h,if_true]
      exact ⟨hh,hf⟩
    · simp only [nextCall,conclude,h,if_false]
      exact ⟨hh,hf⟩

theorem knows_dispatch {job : JobRow} (ids : List String) (hh : Holds p job t)
    (hf : Fresh p i.second t) : Knows p t (dispatch i job ids) := by
  unfold dispatch
  split
  · exact ⟨hh,hf⟩
  · exact hh

theorem Knows.holds {job : JobRow} (h : Knows p s x) (hx : x.job = some job) :
    Holds p job s := by
  cases x with
  | loadPushEvent job' n | selectPending job' n | persistPending job' n ids =>
    cases hx
    exact h.1
  | selectPushers job' d | unreadCount job' d web groups | buildContent job' d web groups
  | send job' d ids rest =>
    cases hx
    exact h
  | refresh job' d ids rest n | finish job' d e n | retry job' d readAt n
  | caught job' remaining e readAt n =>
    cases hx
    exact h.1
  | _ => cases hx

theorem Holds.row {job : JobRow} (h : Holds p job s) (hrow : t.row = s.row) : Holds p job t := by
  unfold Holds
  rw [hrow]
  exact h

theorem knows_threw (hJ : Knows p s x) (hrow : t.row = s.row) (hf : Fresh p i.second t) :
    Knows p t (threw i x) := by
  have hheld : ∀ job d, x.held = some (job,d) → Holds p job t := by
    intro job d hx
    refine Holds.row (hJ.holds ?_) hrow
    unfold Worker.job
    split
    · cases hx
    · rw [hx]
      rfl
  cases x with
  | buildContent job d web groups => exact knows_nextCall _ _ (hheld job d rfl) hf
  | send job d ids rest => exact knows_nextCall _ _ (hheld job d rfl) hf
  | loadPushEvent job n | selectPending job n | persistPending job n ids =>
    exact ⟨hheld job (.start []) rfl,hf⟩
  | selectPushers job d | unreadCount job d web groups | refresh job d ids rest n
  | finish job d e n | retry job d readAt n => exact ⟨hheld job d rfl,hf⟩
  | _ => trivial

theorem holds_update {job : JobRow} (set : JobRow → JobRow) (h : Holds p job s)
    (hset : ∀ r, (set r).processingToken = r.processingToken ∧ (set r).attempts = r.attempts)
    (hrow : t.row = Statement.update (leased p) set s.row) : Holds p job t := by
  rcases Statement.update_cases (leased p) set s.row with hu | ⟨r,hr,_,hu⟩
  · exact h.row (hrow.trans hu)
  · intro r' hr' ht
    have heq : r' = set r := Option.some.inj (hr'.symm.trans (hrow.trans hu))
    subst heq
    rw [(hset r).1] at ht
    rw [(hset r).2]
    exact h r hr ht

theorem knows_statement (hI : Recorded s) (hJ : Knows p s x) (ha : allowed i s x = true)
    (hfails : i.fails = false) : Knows p (work i p s x).1 (statement i p s.row x).2 := by
  have hf := fresh_second hI hJ ha
  have hrow : (work i p s x).1.row = (statement i p s.row x).1 := by
    simp only [work,Store.write,advance,hfails,Bool.false_eq_true,if_false]
  have hold : ∀ {job : JobRow}, Found job s → Found job (work i p s x).1 :=
    fun h => h.other (work_grows hI hJ ha)
  have hread : ∀ {n}, (n,p) ∈ s.readings → (n,p) ∈ (work i p s x).1.readings := by
    intro n hn
    exact (work_grows hI hJ ha).readings _ hn
  cases x with
  | select =>
    simp only [statement]
    cases hr : s.row with
    | none => trivial
    | some job =>
      simp only
      split
      · trivial
      · rename_i hterminal
        have hfound : Found job s := ⟨hI.row job hr,by simpa using hterminal⟩
        split
        · rename_i hprocessing
          split
          · trivial
          · exact ⟨⟨hold hfound,hprocessing⟩,hf⟩
        · exact ⟨hold hfound,hf⟩
  | reclaim job n =>
    simp only [statement] at hrow ⊢
    cases hhits : Statement.hits (seen job) s.row with
    | false => trivial
    | true =>
      obtain ⟨r,hr,hs⟩ := Statement.hits_iff.mp hhits
      have hattempts := hJ.1.1.attempts hI hr hs
      simp only [hr,Statement.update_some,hs,if_true] at hrow
      refine ⟨⟨mem_write.mpr (.inl ⟨_,hrow,?_⟩),rfl⟩,hf⟩
      simp only [JobRow.version,reclaim,hattempts]
  | claim job n =>
    simp only [statement] at hrow ⊢
    cases hhits : Statement.hits (claimable job n) s.row with
    | false => trivial
    | true =>
      obtain ⟨r,hr,hc⟩ := Statement.hits_iff.mp hhits
      have hs : seen job r = true := by
        rw [claimable,Bool.and_eq_true] at hc
        exact hc.1
      have hattempts := hJ.1.attempts hI hr hs
      simp only [hr,Statement.update_some,hc,if_true] at hrow
      refine ⟨?_,hread hJ.2.1,?_⟩
      · intro r' hr' _
        have heq : r' = claim p n r := Option.some.inj (hr'.symm.trans hrow)
        rw [heq]
        exact hattempts
      · intro v hv heq
        rcases work_versions hI hJ hv with hver | ⟨r',hr',rfl,_,_⟩
        · exact absurd heq (hJ.2.2 v hver)
        · have heq' : r' = claim p n r := Option.some.inj (hr'.symm.trans hrow)
          rw [heq']
          simp only [JobRow.version,claim,hattempts]
  | loadPushEvent job n =>
    have hh : Holds p job (work i p s (.loadPushEvent job n)).1 := hJ.1.row hrow
    simp only [statement]
    split
    · split
      · refine ⟨hh,hread hJ.2.1,?_⟩
        intro v hv heq
        rcases work_versions hI hJ hv with hver | ⟨_,_,_,hx,_⟩
        · exact hJ.2.2 v hver heq
        · cases hx
      · exact knows_dispatch _ hh hf
    · exact ⟨hh,hf⟩
  | selectPending job n =>
    refine ⟨hJ.1.row hrow,hread hJ.2.1,?_⟩
    intro v hv heq
    rcases work_versions hI hJ hv with hver | ⟨_,_,_,hx,_⟩
    · exact hJ.2.2 v hver heq
    · cases hx
  | persistPending job n ids =>
    have hh : Holds p job (work i p s (.persistPending job n ids)).1 :=
      holds_update (setPendingPusherIds ids n) hJ.1 (fun _ => ⟨rfl,rfl⟩) hrow
    simp only [statement]
    split
    · exact knows_dispatch _ hh hf
    · trivial
  | selectPushers job d =>
    have hh : Holds p job (work i p s (.selectPushers job d)).1 := Holds.row hJ hrow
    simp only [statement]
    split
    · exact ⟨hh,hf⟩
    · exact hh
  | unreadCount job d web groups =>
    have hh : Holds p job (work i p s (.unreadCount job d web groups)).1 := Holds.row hJ hrow
    simp only [statement]
    split
    · exact knows_nextCall _ _ hh hf
    · exact hh
  | buildContent job d web groups => exact knows_nextCall _ _ (Holds.row hJ hrow) hf
  | refresh job d ids rest n =>
    have hh : Holds p job (work i p s (.refresh job d ids rest n)).1 :=
      holds_update (refresh n) hJ.1 (fun _ => ⟨rfl,rfl⟩) hrow
    simp only [statement]
    split
    · exact hh
    · trivial
  | send job d ids rest => exact knows_nextCall _ _ (Holds.row hJ hrow) hf
  | recoverDeadLettered => exact hf
  | sweep =>
    refine ⟨List.mem_cons_self,?_⟩
    intro v hv heq
    have hle := work_written hI hJ v hv
    have hclock := allowed_clock ha
    omega
  | reclaimStale n c =>
    refine ⟨hread hJ.1,?_⟩
    intro v hv heq hqueued
    rcases work_versions hI hJ hv with hver | ⟨r',hr',rfl,_,_⟩
    · exact hJ.2 v hver heq
    · rw [hrow] at hr'
      rcases Statement.update_cases (stale c) (reclaimStale n) s.row with hu | ⟨r,hr,_,hu⟩
      · have hsame : s.row = some r' := hu.symm.trans hr'
        exact hJ.2 _ (hI.row r' hsame) heq
      · have hr'' : r' = reclaimStale n r := Option.some.inj (hr'.symm.trans hu)
        rw [hr''] at hqueued
        simp only [JobRow.version,reclaimStale,exhausted] at hqueued
        split at hqueued <;> cases hqueued
  | selectDue n =>
    simp only [statement]
    split
    · refine ⟨hread hJ.1,?_⟩
      intro v hv heq
      rcases work_versions hI hJ hv with hver | ⟨_,_,_,hx,_⟩
      · exact hJ.2 v hver heq
      · cases hx
    · trivial
  | sendBatch n =>
    refine ⟨hread hJ.1,?_⟩
    intro v hv heq
    rcases work_versions hI hJ hv with hver | ⟨_,_,_,hx,_⟩
    · exact hJ.2 v hver heq
    · cases hx
  | finish | retry | caught | recover | mark | done => trivial

theorem knows_work (hI : Recorded s) (hJ : Knows p s x) (ha : allowed i s x = true) :
    Knows p (work i p s x).1 (work i p s x).2 := by
  have hx : (work i p s x).2 = (advance i p s.row x).2 := rfl
  cases hfails : i.fails with
  | true =>
    have hrow : (work i p s x).1.row = s.row := by
      simp only [work,Store.write,advance,hfails,if_true]
    rw [hx,advance,hfails,if_pos rfl]
    exact knows_threw hJ hrow (fresh_second hI hJ ha)
  | false =>
    have hk := knows_statement hI hJ ha hfails
    rw [hx,advance,hfails,if_neg (by simp)]
    exact hk

theorem stable : threads.Stable Recorded fun p s x => Knows p s x := by
  constructor
  · intro i p s x t y hI hJ hnext
    obtain ⟨ha,hwork⟩ := Threads.guarded_next.mp hnext
    obtain rfl : (work i p s x).1 = t := by rw [hwork]
    obtain rfl : (work i p s x).2 = y := by rw [hwork]
    exact ⟨recorded_work hI hJ ha,knows_work hI hJ ha⟩
  · intro i p q s x t y z hI hJ hz hpq hnext
    obtain ⟨ha,hwork⟩ := Threads.guarded_next.mp hnext
    obtain rfl : (work i p s x).1 = t := by rw [hwork]
    refine hz.other hI (work_grows hI hJ ha) hpq ?_
    intro r hr ht
    exact (work_row i p s x).row_of_token hpq hr ht
  · intro e s t hI hhappen
    obtain ⟨hpossible,rfl⟩ := Threads.guarded_env.mp hhappen
    cases e with
    | tick ms =>
      refine ⟨⟨?_,hI.reader,?_,hI.unique,hI.row,hI.budget⟩,?_⟩
      · intro e he
        exact Nat.le_trans (hI.read e he) (Nat.le_add_right _ _)
      · intro v hv
        exact Nat.le_trans (hI.written v hv) (Nat.le_add_right _ _)
      · intro q z hz
        refine hz.other (p := q + 1) hI ⟨Nat.le_add_right _ _,fun _ h => h,fun _ h => .inl h,
          fun _ h => h⟩ (by omega) fun r hr _ => hr
    | delete =>
      refine ⟨⟨hI.read,hI.reader,hI.written,hI.unique,?_,?_⟩,?_⟩
      · intro r hr
        cases hr
      · intro r hr
        cases hr
      · intro q z hz
        refine hz.other (p := q + 1) hI ⟨Nat.le_refl _,fun _ h => h,fun _ h => .inl h,
          fun _ h => h⟩ (by omega) ?_
        intro r hr
        cases hr
    | insert now =>
      simp only [possible,Bool.and_eq_true,decide_eq_true_eq] at hpossible
      have hversions : ∀ v ∈ (happen (.insert now) s).versions,
          v ∈ s.versions ∨ v = (newRow now).version := by
        intro v hv
        rcases mem_write.mp hv with ⟨r,hr,rfl⟩ | hold
        · cases hr
          exact .inr rfl
        · exact .inl hold
      refine ⟨⟨?_,hI.reader,?_,?_,?_,?_⟩,?_⟩
      · intro e he
        exact Nat.le_trans (hI.read e he) (Nat.le_of_lt hpossible.1)
      · intro v hv
        rcases hversions v hv with hold | rfl
        · exact Nat.le_trans (hI.written v hold) (Nat.le_of_lt hpossible.1)
        · exact Nat.le_refl _
      · intro v hv v' hv' hs hu
        have hnew : ∀ v ∈ s.versions, v.updatedAt ≠ now := by
          intro v hv heq
          have hle := hI.written v hv
          omega
        rcases hversions v hv with hold | rfl
        · rcases hversions v' hv' with hold' | rfl
          · exact hI.unique v hold v' hold' hs hu
          · exact absurd hu (hnew v hold)
        · rcases hversions v' hv' with hold' | rfl
          · exact absurd hu.symm (hnew v' hold')
          · rfl
      · intro r hr
        exact mem_write.mpr (.inl ⟨r,hr,rfl⟩)
      · intro r hr hm
        cases hr
        simp [newRow,maxNotificationPushAttempts] at hm
      · intro q z hz
        refine hz.other (p := q + 1) hI ⟨Nat.le_of_lt hpossible.1,fun _ h => h,?_,?_⟩ (by omega) ?_
        · intro v hv
          rcases hversions v hv with hold | rfl
          · exact .inl hold
          · exact .inr (.inr hpossible.1)
        · intro v hv
          exact mem_write.mpr (.inr hv)
        · intro r hr ht
          cases hr
          cases ht

end invariant

end Yurucommu.PushJob
