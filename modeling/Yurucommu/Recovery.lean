import Yurucommu.DeliveryBudget
import Yurucommu.ResolutionWrites

/-!
No wedged delivery work: whatever the workers have left behind, the sweeps find every live row
again once enough time has passed, and the message they send is let through.
-/

set_option autoImplicit false

namespace Yurucommu.Recovery

section endpoint

open Delivery

def Started (r : DeliveryRow) : Prop :=
  r.status = .processing → r.processingStartedAt.isSome = true

variable {clock p : Nat} {task : Task} {r r' : DeliveryRow}

theorem started_worker (h : WorkerWrite clock p task r r') (hr : Started r) : Started r' := by
  cases h with
  | claim => exact fun _ => rfl
  | incrementAttempts => exact hr
  | failInvalid | markDelivered | failJob | deadLetter | retryWait | revive =>
    intro hs
    cases hs

theorem started_event {row : Option DeliveryRow} (h : EventWrite row (some r'))
    (hr : ∀ r, row = some r → Started r) : Started r' := by
  cases h with
  | insert =>
    intro hs
    cases hs
  | retarget _ _ idle => exact fun hs => absurd hs idle.1

theorem run_started {s₀ s : Pool} (hrow : s₀.store.row = none) (h : machine.Reaches s₀ s) :
    ∀ r, s.store.row = some r → Started r := by
  refine Machine.ReachesBy.invariant (P := fun s => ∀ r, s.store.row = some r → Started r) h
    (fun r hr => ?_) (fun s l t hs hl _ r hr => ?_)
  · rw [hrow] at hr
    cases hr
  · rcases step_row hl with heq | hw
    · exact hs r (heq.symm.trans hr)
    · generalize hrow : s.store.row = row at hw
      rw [hr] at hw
      cases hw with
      | worker p write => exact started_worker write (hs _ hrow)
      | event write => exact started_event write fun r₀ hr₀ => hs r₀ (hrow.trans hr₀)

/-- From `now` on the sweep selects the row, and the run its message starts gets to the claim
and has it granted. -/
structure EndpointWakes (now : Nat) (r : DeliveryRow) : Prop where
  selected : ∀ clock, now ≤ clock → wakeable clock false false r = true
  reaches : ∀ i p s, s.row = some r → i.queueAvailable = true → i.endpointHost = true →
    now ≤ i.first → i.first ≤ i.second →
      ∃ job : LiveJob, job.1 = r ∧ (work i p s .select).2 = .checkCircuit job
  claims : ∀ (job : LiveJob) i p s, job.1 = r → s.row = some r → now ≤ i.first →
    i.first ≤ i.third → (work i p s (.claim job)).2 = .loadActivity job

def endpointTime (r : DeliveryRow) : Nat :=
  max r.nextAttemptAt
    (max r.createdAt (r.processingStartedAt.getD 0) + staleProcessingMs + 1)

theorem due_of_endpointTime {now : Nat} (hn : endpointTime r ≤ now) : r.nextAttemptAt ≤ now :=
  Nat.le_trans (Nat.le_max_left _ _) hn

theorem created_of_endpointTime {now : Nat} (hn : endpointTime r ≤ now) :
    dayStart r.createdAt + staleProcessingMs ≤ now := by
  have hday : dayStart r.createdAt ≤ r.createdAt := Nat.div_mul_le_self _ _
  unfold endpointTime at hn
  generalize staleProcessingMs = ms at hn ⊢
  omega

theorem started_of_endpointTime {now at_ : Nat} (hn : endpointTime r ≤ now)
    (hat : r.processingStartedAt = some at_) : at_ + staleProcessingMs < now := by
  rw [endpointTime,hat,Option.getD_some] at hn
  generalize staleProcessingMs = ms at hn ⊢
  omega

theorem startedBefore_of_le {now : Nat} (h : r.processingStartedAt.isSome = true)
    (hn : endpointTime r ≤ now) : startedBefore now r = true := by
  obtain ⟨at_,hat⟩ := Option.isSome_iff_exists.mp h
  rw [startedBefore,hat,Option.any_some,decide_eq_true_eq]
  exact started_of_endpointTime hn hat

theorem Started.wakes (h : Started r) (live : r.status.terminal = false) :
    EndpointWakes (endpointTime r) r where
  selected clock hn := by
    have hdue : r.nextAttemptAt ≤ clock := due_of_endpointTime hn
    have hold : dayStart r.createdAt + staleProcessingMs ≤ clock := created_of_endpointTime hn
    have hstart : r.status = .processing → startedBefore clock r = true :=
      fun hs => startedBefore_of_le (h hs) hn
    cases hs : r.status with
    | pending => simp [wakeable,hs,hold]
    | retryWait => simp [wakeable,hs,hdue]
    | processing => simp [wakeable,hs,hstart hs]
    | delivered | failed | deadLetter =>
      rw [hs] at live
      cases live
  reaches i p s hr hq hh hn hi := by
    refine ⟨⟨r,live⟩,rfl,?_⟩
    have hdue : ¬i.first < r.nextAttemptAt := Nat.not_lt.mpr (due_of_endpointTime hn)
    have hidle : ¬(r.status = .processing ∧
        (r.processingStartedAt.any fun at_ => i.second < at_ + staleProcessingMs) = true) := by
      rintro ⟨hs,hyoung⟩
      obtain ⟨at_,hat⟩ := Option.isSome_iff_exists.mp (h hs)
      rw [hat,Option.any_some,decide_eq_true_eq] at hyoung
      have hold := started_of_endpointTime (Nat.le_trans hn hi) hat
      exact Nat.lt_asymm hold hyoung
    simp only [work,hq,if_true,hr,afterSelect,dif_pos live,hdue,hidle,hh,if_false]
  claims job i p s hj hr hn hi := by
    have hfree : claimable job i.first i.third r = true := by
      rw [hj]
      refine claimable_iff.mpr ⟨rfl,rfl,rfl,?_,?_⟩
      · exact Nat.le_trans (due_of_endpointTime hn) hi
      · by_cases hs : r.status = .processing
        · exact .inr ⟨hs,startedBefore_of_le (h hs) hn⟩
        · exact .inl ⟨hs,live⟩
    simp only [work,hr,Statement.hits_some,hfree,if_true]

/-- From `now` on the sweep selects the repair intent, and the run its message starts consumes
it. -/
structure RepairWakes (now : Nat) (r : DeliveryRow) : Prop where
  selected : ∀ clock, now ≤ clock → repairDue clock r = true
  reaches : ∀ i p s, s.row = some r → i.queueAvailable = true → now ≤ i.second →
    ∃ attempt : ReconcileAttempt, attempt.1 = r.reconcileAttempt + 1 ∧
      (work i p s (.selectReconcile (.integer (r.reconcileAttempt + 1)))).2 =
        .revive attempt i.first
  revives : ∀ (attempt : ReconcileAttempt) clock i p s, attempt.1 = r.reconcileAttempt + 1 →
    s.row = some r → now ≤ clock →
      (work i p s (.revive attempt clock)).2 = .sendRevived attempt

theorem checkReconcileAttempt_succ {n : Nat} (h : n < maxReconcileAttempts) :
    checkReconcileAttempt (.integer (n + 1)) = some ⟨n + 1,by omega,h⟩ := by
  have hsafe : (JsNumber.integer (n + 1)).isSafeInteger = true ∧ (1 : Int) ≤ n + 1 ∧
      (n : Int) + 1 ≤ maxReconcileAttempts := by
    simp only [maxReconcileAttempts] at h
    simp only [JsNumber.isSafeInteger,maxSafeInteger,maxReconcileAttempts]
    grind
  simp only [checkReconcileAttempt,dif_pos hsafe,Option.some.injEq,Subtype.mk.injEq]
  omega

theorem budgeted_wakes (h : Budgeted r) (hp : r.dlqPending = true) :
    RepairWakes r.nextAttemptAt r where
  selected clock hn := by
    obtain ⟨hs,hb⟩ := h.intent hp
    simp [repairDue,hs,hp,hb,hn]
  reaches i p s hr hq hn := by
    obtain ⟨hs,hb⟩ := h.intent hp
    refine ⟨⟨r.reconcileAttempt + 1,by omega,hb⟩,rfl,?_⟩
    have hdue : ¬i.second < r.nextAttemptAt := by omega
    simp only [work,checkReconcileAttempt_succ hb,hq,if_true,hr,afterSelectReconcile,hs,hp,hdue,
      and_self,if_false]
  revives attempt clock i p s ha hr hn := by
    obtain ⟨hs,hb⟩ := h.intent hp
    have hdue : revivable attempt.1 clock r = true :=
      revivable_iff.mpr ⟨hs,hp,by omega,hn⟩
    simp only [work,hr,Statement.hits_some,hdue,if_true]

end endpoint

section resolution

open Resolution

variable {r : ResolutionRow}

/-- At `now` the sweep selects the row it has first put back if it was stale, and from then on
the run its message starts is granted the claim, before the row is marked and after. -/
structure ResolutionWakes (now : Nat) (r : ResolutionRow) : Prop where
  selected : Statement.hits (due now) (Statement.update (stale now) (sweep now) (some r)) = true
  claims : ∀ r' r'' clock, Statement.update (stale now) (sweep now) (some r) = some r' →
    r'' = r' ∨ r'' = markQueued now r' → now ≤ clock → ∀ i p s, s.row = some r'' →
      (work i p s (.select clock)).2 = .claim clock r''.attempts ∧
        (work i p s (.claim clock r''.attempts)).2 = .holding clock r''.attempts

def resolutionTime (r : ResolutionRow) : Nat :=
  max r.nextAttemptAt (r.updatedAt + staleResolutionMs)

theorem due_after_sweep (live : terminal r.status = false) {now : Nat}
    (hn : resolutionTime r ≤ now) {r' : ResolutionRow}
    (hr : Statement.update (stale now) (sweep now) (some r) = some r') : due now r' = true := by
  have hdue : r.nextAttemptAt ≤ now := by
    simp only [resolutionTime] at hn
    omega
  have hold : r.updatedAt + staleResolutionMs ≤ now := by
    simp only [resolutionTime] at hn
    omega
  rw [Statement.update_some,Option.some.injEq] at hr
  subst hr
  cases hs : r.status with
  | queued | processing => simp [stale,hs,hold,due,waiting,sweep,hdue]
  | pending | retryWait => simp [stale,hs,due,waiting,hdue]
  | resolved | failed | discarded =>
    rw [hs] at live
    cases live

theorem claims_of_due {now clock : Nat} {r' r'' : ResolutionRow} (h : due now r' = true)
    (hr : r'' = r' ∨ r'' = markQueued now r') (hn : now ≤ clock) (i : Answer) (p : Nat)
    {s : Store} (hs : s.row = some r'') :
    (work i p s (.select clock)).2 = .claim clock r''.attempts ∧
      (work i p s (.claim clock r''.attempts)).2 = .holding clock r''.attempts := by
  simp only [due,waiting,Bool.and_eq_true,Bool.or_eq_true,decide_eq_true_eq] at h
  obtain ⟨hw,hd⟩ := h
  have hlive : terminal r''.status = false := by
    rcases hr with rfl | rfl
    · rcases hw with hw | hw <;> rw [hw] <;> rfl
    · rfl
  have hready : ¬(r''.status = .retryWait ∧ clock < r''.nextAttemptAt) := by
    rintro ⟨hst,hlt⟩
    rcases hr with rfl | rfl
    · omega
    · cases hst
  have hfree : claimable clock r'' = true := by
    rcases hr with rfl | rfl
    · have hle : r''.nextAttemptAt ≤ clock := Nat.le_trans hd hn
      rcases hw with hw | hw <;> simp [claimable,hw,hle]
    · rfl
  constructor
  · simp only [work,hs,hlive,hready,Bool.false_eq_true,if_false]
  · simp only [work,hs,Statement.hits_some,hfree,if_true]

theorem resolution_wakes (live : terminal r.status = false) {now : Nat}
    (hn : resolutionTime r ≤ now) : ResolutionWakes now r where
  selected := by
    rw [Statement.update_some,Statement.hits_some]
    exact due_after_sweep live hn (Statement.update_some _ _ r)
  claims r' r'' clock hr hr'' hc i p s hs :=
    claims_of_due (due_after_sweep live hn hr) hr'' hc i p hs

end resolution

/-- In every state the two tables can get to from empty ones. -/
structure NothingWedged (s₀ : Delivery.Pool) (q₀ : Resolution.Pool) : Prop where
  endpoint : ∀ s r, Delivery.machine.Reaches s₀ s → s.store.row = some r →
    r.status.terminal = false → ∃ time, ∀ now, time ≤ now → EndpointWakes now r
  repair : ∀ s r, Delivery.machine.Reaches s₀ s → s.store.row = some r →
    r.status = .deadLetter → r.dlqPending = true → ∃ time, ∀ now, time ≤ now → RepairWakes now r
  resolution : ∀ q r, (Resolution.machine true).Reaches q₀ q → q.store.row = some r →
    Resolution.terminal r.status = false → ∃ time, ∀ now, time ≤ now → ResolutionWakes now r

theorem nothing_wedged {s₀ : Delivery.Pool} {q₀ : Resolution.Pool} (h : Delivery.Start s₀)
    (hrow : s₀.store.row = none) : NothingWedged s₀ q₀ where
  endpoint s r hs hr live := by
    have hwakes := (run_started hrow hs r hr).wakes live
    refine ⟨endpointTime r,fun now hn => ⟨?_,?_,?_⟩⟩
    · exact fun clock hc => hwakes.selected clock (by omega)
    · exact fun i p s hr hq hh hi => hwakes.reaches i p s hr hq hh (by omega)
    · exact fun job i p s hj hr hi => hwakes.claims job i p s hj hr (by omega)
  repair s r hs hr _ hp := by
    have hsound : Delivery.Sound s := Delivery.budget_stable.reaches hs (h.sound hrow)
    have hwakes := budgeted_wakes (hsound.1 r hr) hp
    refine ⟨r.nextAttemptAt,fun now hn => ⟨?_,?_,?_⟩⟩
    · exact fun clock hc => hwakes.selected clock (by omega)
    · exact fun i p s hr hq hi => hwakes.reaches i p s hr hq (by omega)
    · exact fun attempt clock i p s ha hr hc => hwakes.revives attempt clock i p s ha hr (by omega)
  resolution q r _ _ live := ⟨resolutionTime r,fun _ hn => resolution_wakes live hn⟩

theorem nothing_wedged_emptyStore :
    NothingWedged ⟨⟨0,none,[],[],[],[],[]⟩,fun p =>
        if p = 0 then .select else .selectReconcile (.integer p)⟩
      ⟨⟨0,none,false,0,0⟩,fun p => if p = 0 then .enqueue true else .start⟩ := by
  refine nothing_wedged (fun p => ?_) rfl
  by_cases hp : p = 0
  · simp only [hp,if_true]
    exact .select
  · simp only [hp,if_false]
    exact .selectReconcile _

end Yurucommu.Recovery
