import Yurucommu.DeliveryWrites

/-!
The reconciliation budget lives in the row: no message, however stale or early, moves
the generation of a job except by one and when its repair is due.
-/

set_option autoImplicit false

namespace Yurucommu.Delivery

/-- The budget a row has left is never negative, and a repair intent is a promise of
one more generation. -/
structure Budgeted (r : DeliveryRow) : Prop where
  bound : r.reconcileAttempt ≤ maxReconcileAttempts
  intent : r.dlqPending = true →
    r.status = .deadLetter ∧ r.reconcileAttempt < maxReconcileAttempts

def Settled (r : DeliveryRow) : Prop :=
  r.status = .delivered ∨ r.status = .failed ∨ r.status = .deadLetter ∧ r.dlqPending = false

/-- What one step may do to a row that is there before and after it. -/
structure Advance (clock : Nat) (r r' : DeliveryRow) : Prop where
  generation : r'.reconcileAttempt = r.reconcileAttempt ∨
    r'.reconcileAttempt = r.reconcileAttempt + 1 ∧ r.status = .deadLetter ∧
      r.dlqPending = true ∧ r.nextAttemptAt ≤ clock
  attempts : r'.attempts < r.attempts → r'.reconcileAttempt = r.reconcileAttempt + 1
  settled : Settled r → r'.status = r.status ∧ Settled r'

def Task.Timely (clock : Nat) : Task → Prop
  | .revive _ now => now ≤ clock
  | _ => True

theorem Settled.terminal {r : DeliveryRow} (h : Settled r) : r.status.terminal = true := by
  rcases h with h | h | ⟨h,_⟩ <;> rw [h] <;> rfl

theorem Budgeted.not_pending {r : DeliveryRow} (h : Budgeted r)
    (hl : r.status.terminal = false) : r.dlqPending = false := by
  by_contra hp
  have hd := (h.intent (by simpa using hp)).1
  rw [hd] at hl
  cases hl

theorem ownership_not_terminal {generation token : Nat} {r : DeliveryRow}
    (h : ownership generation token r = true) : r.status.terminal = false := by
  rw [(ownership_iff.mp h).2.1]
  rfl

theorem unchangedSince_not_terminal {job : LiveJob} {r : DeliveryRow}
    (h : unchangedSince job r = true) : r.status.terminal = false := by
  rw [(unchangedSince_iff.mp h).2.1]
  exact job.2

theorem Budgeted.newJob (activityId endpoint : String) (now : Nat) :
    Budgeted (newJob activityId endpoint now) :=
  ⟨Nat.zero_le _,fun h => by cases h⟩

section writes

variable {clock p : Nat} {task : Task} {r r' : DeliveryRow}

theorem WorkerWrite.budgeted (h : WorkerWrite clock p task r r') (hr : Budgeted r) :
    Budgeted r' := by
  cases h with
  | claim stale started due order free =>
    have hp := hr.not_pending (claimable_not_terminal free)
    exact ⟨hr.bound,fun h => absurd (hp.symm.trans h) (by decide)⟩
  | incrementAttempts owner => exact ⟨hr.bound,hr.intent⟩
  | retryWait now next owner =>
    have hp := hr.not_pending (ownership_not_terminal owner)
    exact ⟨hr.bound,fun h => absurd (hp.symm.trans h) (by decide)⟩
  | deadLetter now due owner =>
    have hg := (ownership_iff.mp owner).1
    refine ⟨hr.bound,fun h => ⟨rfl,?_⟩⟩
    have hlt := of_decide_eq_true h
    exact hg ▸ hlt
  | @revive attempt now _ due => exact ⟨attempt.2.2,fun h => by cases h⟩
  | failInvalid now => exact ⟨hr.bound,fun h => by cases h⟩
  | markDelivered now => exact ⟨hr.bound,fun h => by cases h⟩
  | failJob now => exact ⟨hr.bound,fun h => by cases h⟩

theorem Advance.of_live (hl : r.status.terminal = false)
    (hg : r'.reconcileAttempt = r.reconcileAttempt) (ha : r.attempts ≤ r'.attempts) :
    Advance clock r r' where
  generation := .inl hg
  attempts h := by omega
  settled h := by
    rw [h.terminal] at hl
    cases hl

theorem WorkerWrite.advance (h : WorkerWrite clock p task r r') (ht : task.Timely clock) :
    Advance clock r r' := by
  cases h with
  | failInvalid now unchanged =>
    exact .of_live (unchangedSince_not_terminal unchanged) rfl (Nat.le_refl _)
  | claim stale started due order free =>
    exact .of_live (claimable_not_terminal free) rfl (Nat.le_refl _)
  | markDelivered now owner => exact .of_live (ownership_not_terminal owner) rfl (Nat.le_refl _)
  | failJob now owner => exact .of_live (ownership_not_terminal owner) rfl (Nat.le_refl _)
  | incrementAttempts owner =>
    exact .of_live (ownership_not_terminal owner) rfl (Nat.le_succ _)
  | deadLetter now due owner =>
    exact .of_live (ownership_not_terminal owner) rfl (Nat.le_refl _)
  | retryWait now next owner => exact .of_live (ownership_not_terminal owner) rfl (Nat.le_refl _)
  | @revive attempt now _ due =>
    obtain ⟨hs,hp,hg,hn⟩ := revivable_iff.mp due
    have hpos := attempt.2.1
    have hsucc : attempt.1 = r.reconcileAttempt + 1 := by omega
    refine ⟨.inr ⟨hsucc,hs,hp,Nat.le_trans hn ht⟩,fun _ => hsucc,fun h => ?_⟩
    rcases h with h | h | ⟨_,h⟩
    · rw [hs] at h
      cases h
    · rw [hs] at h
      cases h
    · rw [hp] at h
      cases h

theorem EventWrite.budgeted {row : Option DeliveryRow} (h : EventWrite row (some r'))
    (hr : ∀ r, row = some r → Budgeted r) : Budgeted r' := by
  cases h with
  | insert activityId endpoint now => exact .newJob activityId endpoint now
  | retarget activityId endpoint idle =>
    have hold := hr _ rfl
    exact ⟨hold.bound,hold.intent⟩

theorem EventWrite.advance (h : EventWrite (some r) (some r')) : Advance clock r r' := by
  cases h with
  | retarget activityId endpoint idle =>
    exact ⟨.inl rfl,fun h => absurd h (Nat.lt_irrefl _),fun h => ⟨rfl,h⟩⟩

end writes

theorem Advance.refl (clock : Nat) (r : DeliveryRow) : Advance clock r r :=
  ⟨.inl rfl,fun h => absurd h (Nat.lt_irrefl _),fun h => ⟨rfl,h⟩⟩

def RowBudgeted (s : Store) : Prop := ∀ r, s.row = some r → Budgeted r

def RunTimely (_ : Nat) (s : Store) (task : Task) : Prop := task.Timely s.now

theorem Task.Timely.mono {a b : Nat} {task : Task} (h : task.Timely a) (hab : a ≤ b) :
    task.Timely b := by
  cases task with
  | revive attempt now => exact Nat.le_trans h hab
  | _ => trivial

theorem afterSelect_timely (i : Answer) (clock : Nat) (row : Option DeliveryRow) :
    (afterSelect i row).Timely clock := by
  unfold afterSelect
  split
  · trivial
  · split
    · split
      · trivial
      · split
        · trivial
        · split <;> trivial
    · split <;> trivial

theorem afterSelectReconcile_timely {i : Answer} {clock : Nat} (hi : i.admissible clock = true)
    (n : ReconcileAttempt) (row : Option DeliveryRow) :
    (afterSelectReconcile i n row).Timely clock := by
  simp only [Answer.admissible,Bool.and_eq_true,decide_eq_true_eq] at hi
  unfold afterSelectReconcile
  split
  · trivial
  · split
    · split
      · trivial
      · exact Nat.le_trans hi.1.1 (Nat.le_trans hi.1.2 hi.2)
    · trivial

theorem work_timely {i : Answer} {p : Nat} {s : Store} {task : Task}
    (hi : i.admissible s.now = true) : (work i p s task).2.Timely s.now := by
  cases task with
  | select =>
    simp only [work]
    split
    · exact afterSelect_timely i _ _
    · trivial
  | checkCircuit job =>
    simp only [work]
    split <;> trivial
  | claim job =>
    simp only [work]
    split <;> trivial
  | loadActivity job =>
    simp only [work]
    split <;> trivial
  | resolveSigningActor job =>
    simp only [work]
    split <;> trivial
  | post job =>
    simp only [work,afterPost,afterRejection]
    split
    · trivial
    · split
      · split
        · trivial
        · split <;> trivial
      · split <;> trivial
  | markDelivered job =>
    simp only [work]
    split <;> trivial
  | shadowProbe job =>
    simp only [work]
    split <;> trivial
  | invalidateEndpoint job code error =>
    simp only [work,afterRejection]
    split <;> trivial
  | incrementAttempts job error =>
    simp only [work,afterIncrement]
    split
    · trivial
    · split
      · split <;> trivial
      · trivial
  | deadLetter job error n =>
    simp only [work]
    split <;> trivial
  | selectReconcile attempt =>
    simp only [work]
    split
    · split
      · exact afterSelectReconcile_timely hi _ _
      · trivial
    · trivial
  | revive attempt now =>
    simp only [work]
    split <;> trivial
  | resendDlq | requeue | failInvalid | failJob | sendDlq | retryWait | sendRetry
  | requeueReconcile | sendRevived | done => trivial

theorem budget_stable : threads.Stable RowBudgeted RunTimely where
  own i p s task t y hI _ hn := by
    obtain ⟨ha,hw⟩ := Threads.guarded_next.mp hn
    simp only [allowed,Bool.and_eq_true] at ha
    have hnow := work_now i p s task
    have htime : (work i p s task).2.Timely s.now := work_timely ha.1.2
    have hrow := work_row i p s task ha.1.2
    rw [hw] at hnow htime hrow
    refine ⟨fun r hr => ?_,show y.Timely t.now from hnow ▸ htime⟩
    rcases hrow with hs | ⟨r₁,r₂,hr₁,hr₂,hwr⟩
    · exact hI r (hs ▸ hr)
    · have heq : r₂ = r := Option.some.inj (hr₂.symm.trans hr)
      exact heq ▸ hwr.budgeted (hI r₁ hr₁)
  other i p q s task t y z _ _ hz _ hn := by
    have hnow := work_now i p s task
    rw [(Threads.guarded_next.mp hn).2] at hnow
    exact Task.Timely.mono hz (Nat.le_of_eq hnow.symm)
  env e s t hI he := by
    obtain ⟨_,rfl⟩ := Threads.guarded_env.mp he
    refine ⟨fun r hr => ?_,fun q z hz => Task.Timely.mono hz (happen_now e s)⟩
    rcases happen_row e s with hs | hw
    · exact hI r (hs ▸ hr)
    · rw [hr] at hw
      exact hw.budgeted hI

def Sound (s : Pool) : Prop := Threads.Holds RowBudgeted RunTimely s

theorem Start.sound {s : Pool} (h : Start s) (hrow : s.store.row = none) : Sound s := by
  refine ⟨fun r hr => ?_,fun p => ?_⟩
  · rw [hrow] at hr
    cases hr
  · have hp := h p
    generalize s.thread p = task at hp
    cases hp <;> trivial

theorem step_advance {l : Threads.Label Answer Event} {s t : Pool} {r r' : DeliveryRow}
    (hs : Sound s) (hl : machine.step l s = some t) (hr : s.store.row = some r)
    (hr' : t.store.row = some r') : Advance s.store.now r r' := by
  rcases step_row hl with heq | hw
  · rw [hr,hr'] at heq
    cases heq
    exact .refl _ _
  · rw [hr,hr'] at hw
    cases hw with
    | worker p write => exact write.advance (hs.2 p)
    | event write => exact write.advance

def KeepsRow (_ : Pool) (_ : Threads.Label Answer Event) (t : Pool) : Prop :=
  t.store.row.isSome = true

/-- What a run that never deletes the row keeps of the row `r` it started with. -/
def Kept (r : DeliveryRow) (s : Pool) : Prop :=
  ∃ r', s.store.row = some r' ∧ r.reconcileAttempt ≤ r'.reconcileAttempt ∧
    (Settled r → r'.status = r.status ∧ Settled r')

theorem Kept.step {l : Threads.Label Answer Event} {s t : Pool} {r : DeliveryRow}
    (h : Kept r s) (hs : Sound s) (hl : machine.step l s = some t) (hk : KeepsRow s l t) :
    Kept r t := by
  obtain ⟨r₁,hr₁,hg,hset⟩ := h
  obtain ⟨r₂,hr₂⟩ := Option.isSome_iff_exists.mp hk
  have hadv := step_advance hs hl hr₁ hr₂
  refine ⟨r₂,hr₂,?_,fun h => ?_⟩
  · rcases hadv.generation with h | ⟨h,_⟩ <;> omega
  · obtain ⟨hst,h₁⟩ := hset h
    obtain ⟨hst',h₂⟩ := hadv.settled h₁
    exact ⟨hst'.trans hst,h₂⟩

theorem run_kept {s t : Pool} {r : DeliveryRow} (hs : Sound s) (hr : s.store.row = some r)
    (h : machine.ReachesBy KeepsRow s t) : Sound t ∧ Kept r t := by
  induction h with
  | refl => exact ⟨hs,r,hr,Nat.le_refl _,fun h => ⟨rfl,h⟩⟩
  | tail _ hn ih =>
    obtain ⟨l,hl,hk⟩ := hn
    exact ⟨budget_stable.step ih.1 hl,ih.2.step ih.1 hl hk⟩

/-- The budget, in all runs from `s₀`. -/
structure ReconcileBudget (s₀ : Pool) : Prop where
  inserted : ∀ l s t r, machine.Reaches s₀ s → machine.step l s = some t →
    s.store.row = none → t.store.row = some r → r.reconcileAttempt = 0 ∧ r.dlqPending = false
  /-- The generation moves by one, and only on a due repair intent. -/
  generation : ∀ l s t r r', machine.Reaches s₀ s → machine.step l s = some t →
    s.store.row = some r → t.store.row = some r' →
      r'.reconcileAttempt = r.reconcileAttempt ∨
        r'.reconcileAttempt = r.reconcileAttempt + 1 ∧ r.status = .deadLetter ∧
          r.dlqPending = true ∧ r.nextAttemptAt ≤ s.store.now
  attempts : ∀ l s t r r', machine.Reaches s₀ s → machine.step l s = some t →
    s.store.row = some r → t.store.row = some r' → r'.attempts < r.attempts →
      r'.reconcileAttempt = r.reconcileAttempt + 1
  bound : ∀ s r, machine.Reaches s₀ s → s.store.row = some r →
    r.reconcileAttempt ≤ maxReconcileAttempts
  intent : ∀ s r, machine.Reaches s₀ s → s.store.row = some r → r.dlqPending = true →
    r.status = .deadLetter ∧ r.reconcileAttempt < maxReconcileAttempts
  /-- Until the row is deleted its generation never decreases. -/
  monotone : ∀ s t r r', machine.Reaches s₀ s → machine.ReachesBy KeepsRow s t →
    s.store.row = some r → t.store.row = some r' → r.reconcileAttempt ≤ r'.reconcileAttempt
  /-- Until the row is deleted a settled status stays. -/
  settled : ∀ s t r r', machine.Reaches s₀ s → machine.ReachesBy KeepsRow s t →
    s.store.row = some r → t.store.row = some r' → Settled r → r'.status = r.status

theorem reconcile_budget {s₀ : Pool} (h : Start s₀) (hrow : s₀.store.row = none) :
    ReconcileBudget s₀ := by
  have sound : ∀ {s}, machine.Reaches s₀ s → Sound s :=
    fun hr => budget_stable.reaches hr (h.sound hrow)
  constructor
  case inserted =>
    intro l s t r _ hl hnone hr
    rcases step_row hl with heq | hw
    · rw [hnone,hr] at heq
      cases heq
    · rw [hnone,hr] at hw
      cases hw with
      | event write =>
        cases write
        exact ⟨rfl,rfl⟩
  case generation =>
    intro l s t r r' hs hl hr hr'
    exact (step_advance (sound hs) hl hr hr').generation
  case attempts =>
    intro l s t r r' hs hl hr hr'
    exact (step_advance (sound hs) hl hr hr').attempts
  case bound =>
    intro s r hs hr
    exact ((sound hs).1 r hr).bound
  case intent =>
    intro s r hs hr
    exact ((sound hs).1 r hr).intent
  case monotone =>
    intro s t r r' hs hk hr hr'
    obtain ⟨_,r₁,hr₁,hg,_⟩ := run_kept (sound hs) hr hk
    rw [hr'] at hr₁
    cases hr₁
    exact hg
  case settled =>
    intro s t r r' hs hk hr hr' hset
    obtain ⟨_,r₁,hr₁,_,hst⟩ := run_kept (sound hs) hr hk
    rw [hr'] at hr₁
    cases hr₁
    exact (hst hset).1

theorem reconcile_budget_emptyStore :
    ReconcileBudget ⟨⟨0,none,[],[],[],[],[]⟩,fun p =>
      if p = 0 then .select else .selectReconcile (.integer p)⟩ := by
  refine reconcile_budget (fun p => ?_) rfl
  by_cases hp : p = 0
  · simp only [hp,if_true]
    exact .select
  · simp only [hp,if_false]
    exact .selectReconcile _

end Yurucommu.Delivery
