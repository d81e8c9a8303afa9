import Yurucommu.DeliveryWorker

/-!
All that can happen to the row of a delivery job, each write with the condition its
statement carries.
-/

set_option autoImplicit false

namespace Yurucommu.Delivery

/-- The writes of a run, by the task it is at, on a row that is there. `clock` is the
time the statement runs at. -/
inductive WorkerWrite (clock p : Nat) : Task → DeliveryRow → DeliveryRow → Prop where
  | failInvalid {job : LiveJob} {r : DeliveryRow} (now : Nat)
      (unchanged : unchangedSince job r = true) :
      WorkerWrite clock p (.failInvalid job) r (failJob "invalid_endpoint" now r)
  | claim {job : LiveJob} {r : DeliveryRow} (stale started due : Nat)
      (order : stale ≤ started ∧ started ≤ due ∧ due ≤ clock)
      (free : claimable job stale due r = true) :
      WorkerWrite clock p (.claim job) r (claim p started r)
  | markDelivered {job : LiveJob} {r : DeliveryRow} (now : Nat)
      (owner : ownership job.1.reconcileAttempt p r = true) :
      WorkerWrite clock p (.markDelivered job) r (markDelivered now r)
  | failJob {job : LiveJob} {error : String} {r : DeliveryRow} (now : Nat)
      (owner : ownership job.1.reconcileAttempt p r = true) :
      WorkerWrite clock p (.failJob job error) r (failJob error now r)
  | incrementAttempts {job : LiveJob} {error : String} {r : DeliveryRow}
      (owner : ownership job.1.reconcileAttempt p r = true) :
      WorkerWrite clock p (.incrementAttempts job error) r (incrementDeliveryAttempts r)
  | deadLetter {job : LiveJob} {error : String} {nextAttempts : Nat} {r : DeliveryRow}
      (now due : Nat) (owner : ownership job.1.reconcileAttempt p r = true) :
      WorkerWrite clock p (.deadLetter job error nextAttempts) r
        (deadLetter job.1.reconcileAttempt error now due r)
  | retryWait {job : LiveJob} {error : String} {nextAttempts : Nat} {r : DeliveryRow}
      (now next : Nat) (owner : ownership job.1.reconcileAttempt p r = true) :
      WorkerWrite clock p (.retryWait job error nextAttempts) r (retryWait error now next r)
  | revive {attempt : ReconcileAttempt} {now : Nat} {r : DeliveryRow}
      (due : revivable attempt.1 now r = true) :
      WorkerWrite clock p (.revive attempt now) r (revive attempt.1 now r)

inductive EventWrite : Option DeliveryRow → Option DeliveryRow → Prop where
  | insert (activityId endpoint : String) (now : Nat) :
      EventWrite none (some (newJob activityId endpoint now))
  | retarget {r : DeliveryRow} (activityId endpoint : String)
      (idle : r.status ≠ .processing ∧ r.status ≠ .delivered) :
      EventWrite (some r) (some (retarget activityId endpoint r))
  | remove (r : DeliveryRow) : EventWrite (some r) none

theorem work_update {clock p : Nat} {task : Task} {cond : DeliveryRow → Bool}
    {set : DeliveryRow → DeliveryRow} {row : Option DeliveryRow}
    (h : ∀ r, cond r = true → WorkerWrite clock p task r (set r)) :
    Statement.update cond set row = row ∨
      ∃ r r', row = some r ∧ Statement.update cond set row = some r' ∧
        WorkerWrite clock p task r r' := by
  rcases Statement.update_cases cond set row with hs | ⟨r,hr,hc,hu⟩
  · exact .inl hs
  · exact .inr ⟨r,set r,hr,hu,h r hc⟩

theorem work_row (i : Answer) (p : Nat) (s : Store) (task : Task)
    (hi : i.admissible s.now = true) :
    (work i p s task).1.row = s.row ∨
      ∃ r r', s.row = some r ∧ (work i p s task).1.row = some r' ∧
        WorkerWrite s.now p task r r' := by
  have horder : i.first ≤ i.second ∧ i.second ≤ i.third ∧ i.third ≤ s.now := by
    simpa [Answer.admissible,and_assoc] using hi
  cases task with
  | failInvalid job => exact work_update fun r hr => .failInvalid i.first hr
  | claim job => exact work_update fun r hr => .claim i.first i.second i.third horder hr
  | markDelivered job => exact work_update fun r hr => .markDelivered i.first hr
  | failJob job error => exact work_update fun r hr => .failJob i.first hr
  | incrementAttempts job error => exact work_update fun r hr => .incrementAttempts hr
  | deadLetter job error n => exact work_update fun r hr => .deadLetter i.first i.second hr
  | retryWait job error n => exact work_update fun r hr => .retryWait i.second _ hr
  | revive attempt now => exact work_update fun r hr => .revive hr
  | checkCircuit job =>
    left
    simp only [work]
    split <;> rfl
  | shadowProbe job =>
    left
    simp only [work]
    split <;> rfl
  | select | resendDlq | requeue | loadActivity | resolveSigningActor | post
  | invalidateEndpoint | sendDlq | sendRetry | selectReconcile | requeueReconcile
  | sendRevived | done => exact .inl rfl

theorem sendForRow_row (cond : DeliveryRow → Bool) (body : DeliveryRow → QueueMessage)
    (s : Store) : (sendForRow cond body s).row = s.row := by
  unfold sendForRow
  split
  · split <;> rfl
  · rfl

theorem deleteRow_row (cond : DeliveryRow → Bool) (s : Store) :
    (deleteRow cond s).row = s.row ∨ EventWrite s.row (deleteRow cond s).row := by
  rcases Statement.deleteWhere_cases cond s.row with h | ⟨r,hr,_,hd⟩
  · exact .inl h
  · right
    rw [show (deleteRow cond s).row = Statement.deleteWhere cond s.row from rfl,hr,← hr,hd,hr]
    exact .remove r

theorem upsertRow_cases (retained : Bool) (activityId endpoint : String) (now : Nat)
    (row : Option DeliveryRow) :
    upsertRow retained activityId endpoint now row = row ∨
      EventWrite row (upsertRow retained activityId endpoint now row) := by
  cases row with
  | none =>
    cases retained with
    | true => exact .inr (.insert activityId endpoint now)
    | false => exact .inl rfl
  | some r =>
    rcases Statement.deleteWhere_cases (abandoned retained)
      (some (if retargetable retained r then retarget activityId endpoint r else r))
      with hd | ⟨r',_,_,hd⟩
    · rw [upsertRow,Statement.insertIgnore_some,Statement.update_some,hd]
      by_cases hr : retargetable retained r = true
      · right
        rw [if_pos hr]
        simp only [retargetable,Bool.and_eq_true,bne_iff_ne] at hr
        exact .retarget activityId endpoint hr.1
      · left
        rw [if_neg hr]
    · right
      rw [upsertRow,Statement.insertIgnore_some,Statement.update_some,hd]
      exact .remove r

theorem upsertDeliveryJob_row (activityId endpoint : String) (recipients : List String)
    (now : Nat) (s : Store) :
    (upsertDeliveryJob activityId endpoint recipients now s).row = s.row ∨
      EventWrite s.row (upsertDeliveryJob activityId endpoint recipients now s).row := by
  unfold upsertDeliveryJob
  split
  · exact .inl rfl
  · exact upsertRow_cases _ activityId endpoint now s.row

/-- An event leaves the row alone or is one of the writes above. -/
theorem happen_row (e : Event) (s : Store) :
    (happen e s).row = s.row ∨ EventWrite s.row (happen e s).row := by
  cases e with
  | tick ms => exact .inl rfl
  | upsertDeliveryJob activityId endpoint recipients now =>
    exact upsertDeliveryJob_row activityId endpoint recipients now s
  | purgeTerminal now => exact deleteRow_row _ s
  | deleteActivity => exact deleteRow_row _ s
  | deleteRemoteActor actor => exact deleteRow_row _ _
  | sweepRepairs now => exact .inl (sendForRow_row _ _ s)
  | sweepJobs now fresh deferred => exact .inl (sendForRow_row _ _ s)
  | handleDlqMessage attempt now =>
    left
    simp only [happen]
    split <;> rfl

theorem work_now (i : Answer) (p : Nat) (s : Store) (task : Task) :
    (work i p s task).1.now = s.now := by
  cases task with
  | checkCircuit job =>
    simp only [work]
    split <;> rfl
  | shadowProbe job =>
    simp only [work]
    split <;> rfl
  | _ => rfl

theorem happen_now (e : Event) (s : Store) : s.now ≤ (happen e s).now := by
  cases e with
  | tick ms => exact Nat.le_add_right _ _
  | upsertDeliveryJob activityId endpoint recipients now =>
    simp only [happen,upsertDeliveryJob]
    split <;> exact Nat.le_refl _
  | sweepRepairs now =>
    simp only [happen,sendForRow]
    split
    · split <;> exact Nat.le_refl _
    · exact Nat.le_refl _
  | sweepJobs now fresh deferred =>
    simp only [happen,sendForRow]
    split
    · split <;> exact Nat.le_refl _
    · exact Nat.le_refl _
  | handleDlqMessage attempt now =>
    simp only [happen]
    split <;> exact Nat.le_refl _
  | purgeTerminal | deleteActivity | deleteRemoteActor => exact Nat.le_refl _

theorem happen_posts (e : Event) (s : Store) : (happen e s).posts = s.posts := by
  cases e with
  | upsertDeliveryJob activityId endpoint recipients now =>
    simp only [happen,upsertDeliveryJob]
    split <;> rfl
  | sweepRepairs now =>
    simp only [happen,sendForRow]
    split
    · split <;> rfl
    · rfl
  | sweepJobs now fresh deferred =>
    simp only [happen,sendForRow]
    split
    · split <;> rfl
    · rfl
  | handleDlqMessage attempt now =>
    simp only [happen]
    split <;> rfl
  | _ => rfl

inductive RowWrite (s : Pool) : Option DeliveryRow → Option DeliveryRow → Prop where
  | worker {r r' : DeliveryRow} (p : Nat)
      (write : WorkerWrite s.store.now p (s.thread p) r r') : RowWrite s (some r) (some r')
  | event {row row' : Option DeliveryRow} (write : EventWrite row row') : RowWrite s row row'

theorem step_row {l : Threads.Label Answer Event} {s t : Pool}
    (h : machine.step l s = some t) :
    t.store.row = s.store.row ∨ RowWrite s s.store.row t.store.row := by
  cases l with
  | act p i =>
    obtain ⟨⟨_,hi,_⟩,rfl⟩ := step_worker.mp h
    rcases work_row i p s.store (s.thread p) hi with hs | ⟨r,r',hr,hr',hw⟩
    · exact .inl hs
    · right
      simp only [hr,hr']
      exact .worker p hw
  | env e =>
    obtain ⟨_,rfl⟩ := step_event.mp h
    rcases happen_row e s.store with hs | hw
    · exact .inl hs
    · exact .inr (.event hw)

end Yurucommu.Delivery
