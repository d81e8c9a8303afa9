import Yurucommu.PushJobSafe

/-!
The leases and the budget of a push job, in every state that its runs reach and for every step
from there.
-/

set_option autoImplicit false

namespace Yurucommu.PushJob

section lease

variable {p q : Nat} {s t : Pool} {l : Label} {r r' : JobRow}

def Fenced (p : Nat) (s : Pool) : Prop :=
  (s.thread p).job.isSome = true ∧ Statement.hits (leased p) s.store.row = false

/-- The retries, the reclaim of the sweep and the recovery, where they find their row. -/
def raised (l : Label) (s : Pool) : Bool :=
  match l with
  | .env _ => false
  | .act p i =>
    !i.fails &&
      match s.thread p with
      | .retry _ _ _ _ | .caught _ _ _ _ _ => Statement.hits (leased p) s.store.row
      | .recover _ => Statement.hits recoverable s.store.row
      | .reclaimStale _ cutoffAt => Statement.hits (stale cutoffAt) s.store.row
      | _ => false

def Selected (now cutoffAt : Nat) (r : JobRow) : Prop :=
  due now r = true ∨
    stale cutoffAt r = true ∧
      (due now (reclaimStale now r) = true ∨
        (reclaimStale now r).status = .failed ∧
          maxNotificationPushAttempts ≤ (reclaimStale now r).attempts)

structure Kept (s : Pool) : Prop where
  one : ∀ p q, Statement.hits (leased p) s.store.row = true →
    Statement.hits (leased q) s.store.row = true → p = q
  budget : ∀ r, s.store.row = some r → maxNotificationPushAttempts ≤ r.attempts →
    r.status.terminal = true
  selectable : ∀ r, s.store.row = some r → r.status.terminal = false →
    ∃ T, ∀ now cutoffAt, T ≤ now → T ≤ cutoffAt → Selected now cutoffAt r

structure Safe (s : Pool) (l : Label) (t : Pool) : Prop where
  unchanged : ∀ p i, l = .act p i → Fenced p s → t.store.row = s.store.row
  fenced : ∀ p, Fenced p s → (t.thread p).job.isSome = true → Fenced p t
  calls : ∀ p job d ids rest, t.thread p = .send job d ids rest →
    s.thread p = .send job d ids rest ∨
      ∃ i now, l = .act p i ∧ s.thread p = .refresh job d ids rest now ∧
        Statement.hits (leased p) s.store.row = true
  attempts : ∀ r r', s.store.row = some r → t.store.row = some r' →
    r'.attempts = r.attempts + if raised l s then 1 else 0
  claims : ∀ p i job now r, l = .act p i → s.thread p = .claim job now → i.fails = false →
    s.store.row = some r → claimable job now r = true →
    r.nextAttemptAt ≤ now ∧ now ≤ s.store.now
  terminal : ∀ r r', s.store.row = some r → t.store.row = some r' → r.status.terminal = true →
    r'.status = r.status

theorem Start.holds {s₀ : Pool} (h : Start s₀) :
    Threads.Holds Recorded (fun p s x => Knows p s x) s₀ := by
  refine ⟨⟨?_,?_,?_,?_,?_,?_⟩,?_⟩
  · rw [h.history.1]
    intro e he
    cases he
  · rw [h.history.1]
    intro n p q hp
    cases hp
  · rw [h.history.2]
    intro v hv
    cases hv
  · rw [h.history.2]
    intro v hv
    cases hv
  · rw [h.row]
    intro r hr
    cases hr
  · rw [h.row]
    intro r hr
    cases hr
  · intro p
    have hentry := h.entry p
    generalize s₀.thread p = x at hentry
    cases hentry <;> trivial

theorem reaches_holds {s₀ : Pool} (h : Start s₀) (hr : machine.Reaches s₀ s) :
    Threads.Holds Recorded (fun p s x => Knows p s x) s :=
  stable.reaches hr h.holds

section state

theorem selected_of_waiting (hw : waiting r = true) {now : Nat} (hn : r.nextAttemptAt ≤ now) :
    due now r = true := by
  simp [due,hw,hn]

theorem selected_of_inflight {now cutoffAt : Nat} (hs : r.status = .queued ∨ r.status = .processing)
    (hn : r.nextAttemptAt ≤ now) (hc : r.updatedAt + staleInflightReclaimMs ≤ cutoffAt) :
    Selected now cutoffAt r := by
  refine .inr ⟨?_,?_⟩
  · simp only [stale,Bool.and_eq_true,Bool.or_eq_true,decide_eq_true_eq]
    exact ⟨hs,hc⟩
  · by_cases hm : maxNotificationPushAttempts ≤ r.attempts + 1
    · right
      refine ⟨?_,hm⟩
      simp only [reclaimStale,exhausted,hm,if_true]
    · left
      refine selected_of_waiting ?_ hn
      simp [reclaimStale,exhausted,hm,waiting]

/-- A row left alone is selected as soon as it is due and old enough. -/
theorem eventually_selected (h : r.status.terminal = false) :
    ∃ T, ∀ now cutoffAt, T ≤ now → T ≤ cutoffAt → Selected now cutoffAt r := by
  refine ⟨max r.nextAttemptAt (r.updatedAt + staleInflightReclaimMs),?_⟩
  intro now cutoffAt hnow hcutoff
  have hn : r.nextAttemptAt ≤ now := by omega
  have hc : r.updatedAt + staleInflightReclaimMs ≤ cutoffAt := by omega
  cases hs : r.status with
  | pending => exact .inl (selected_of_waiting (by simp [waiting,hs]) hn)
  | retryWait => exact .inl (selected_of_waiting (by simp [waiting,hs]) hn)
  | queued => exact selected_of_inflight (.inl hs) hn hc
  | processing => exact selected_of_inflight (.inr hs) hn hc
  | delivered => simp [hs,JobStatus.terminal] at h
  | failed => simp [hs,JobStatus.terminal] at h

theorem Recorded.kept (h : Recorded s.store) : Kept s := by
  refine ⟨?_,h.budget,?_⟩
  · intro p q hp hq
    obtain ⟨r,hr,_,htoken⟩ := hits_leased_iff.mp hp
    obtain ⟨r',hr',_,htoken'⟩ := hits_leased_iff.mp hq
    rw [Option.some.inj (hr.symm.trans hr')] at htoken
    exact Option.some.inj (htoken.symm.trans htoken')
  · intro r _ ht
    exact eventually_selected ht

end state

section step

variable {row : Option JobRow} {x : Worker} {i : Answer}

theorem not_hits_leased (h : ∀ r, row = some r → leased p r = false) :
    Statement.hits (leased p) row = false := by
  cases hrow : row with
  | none => rfl
  | some r => exact h r hrow

/-- A run behind its claim writes under its lease. -/
theorem advance_fenced (hx : x.job.isSome = true) (hl : Statement.hits (leased p) row = false) :
    (advance i p row x).1 = row := by
  have hset : ∀ set, Statement.update (leased p) set row = row :=
    fun set => Statement.update_of_not_hits hl
  unfold advance
  cases i.fails with
  | true => rfl
  | false =>
    cases x with
    | persistPending job n ids => exact hset _
    | refresh job d ids rest n => exact hset _
    | finish job d e n => exact hset _
    | retry job d readAt n => exact hset _
    | caught job remaining e readAt n => exact hset _
    | loadPushEvent | selectPending | selectPushers | unreadCount | buildContent | send => rfl
    | _ => cases hx

theorem Write.fenced {row' : Option JobRow} (h : Write p row x row') (hpq : p ≠ q)
    (hl : Statement.hits (leased q) row = false) : Statement.hits (leased q) row' = false := by
  refine not_hits_leased fun r hr => ?_
  cases hlease : leased q r with
  | false => rfl
  | true =>
    have hrow := h.row_of_token hpq hr (leased_iff.mp hlease).2
    rw [hrow,Statement.hits_some] at hl
    exact hlease.symm.trans hl

theorem happen_fenced {e : Event} {s : Store} (hl : Statement.hits (leased q) s.row = false) :
    Statement.hits (leased q) (happen e s).row = false := by
  cases e with
  | tick ms => exact hl
  | insert now => rfl
  | delete => rfl

theorem nextCall_ne_send {job job' : JobRow} {d d' : Dispatch} {batches rest : List (List String)}
    {ids : List String} : nextCall i job d batches ≠ .send job' d' ids rest := by
  intro h
  cases batches with
  | cons ids rest => cases h
  | nil =>
    by_cases hd : d.retryIds = [] <;>
      simp only [nextCall,conclude,hd,if_true,if_false] at h <;> cases h

theorem dispatch_ne_send {job job' : JobRow} {d : Dispatch} {rest : List (List String)}
    {ids ids' : List String} : dispatch i job ids' ≠ .send job' d ids rest := by
  unfold dispatch
  split <;> simp

theorem threw_ne_send {job : JobRow} {d : Dispatch} {rest : List (List String)}
    {ids : List String} : threw i x ≠ .send job d ids rest := by
  cases x with
  | buildContent job d web groups => exact nextCall_ne_send
  | send job d ids rest => exact nextCall_ne_send
  | _ => simp [threw,Worker.held]

theorem advance_send {job : JobRow} {d : Dispatch} {ids : List String} {rest : List (List String)}
    (h : (advance i p row x).2 = .send job d ids rest) :
    ∃ now, x = .refresh job d ids rest now ∧ Statement.hits (leased p) row = true := by
  unfold advance at h
  cases hfails : i.fails with
  | true =>
    rw [hfails,if_pos rfl] at h
    exact absurd h threw_ne_send
  | false =>
    rw [hfails,if_neg (by simp)] at h
    cases x with
    | refresh job' d' ids' rest' now =>
      simp only [statement] at h
      split at h
      · rename_i hl
        cases h
        exact ⟨now,rfl,hl⟩
      · cases h
    | select =>
      simp only [statement] at h
      split at h
      · cases h
      · split at h
        · cases h
        · split at h
          · split at h <;> cases h
          · cases h
    | loadPushEvent job' n =>
      simp only [statement] at h
      split at h
      · split at h
        · cases h
        · exact absurd h dispatch_ne_send
      · cases h
    | persistPending job' n ids' =>
      simp only [statement] at h
      split at h
      · exact absurd h dispatch_ne_send
      · cases h
    | unreadCount job' d' web groups =>
      simp only [statement] at h
      split at h
      · exact absurd h nextCall_ne_send
      · cases h
    | buildContent job' d' web groups => exact absurd h nextCall_ne_send
    | send job' d' ids' rest' => exact absurd h nextCall_ne_send
    | reclaim | claim | selectPushers | selectDue =>
      simp only [statement] at h
      split at h <;> cases h
    | _ => cases h

/-- Which writes raise the attempts, and by how much. -/
theorem work_attempts {s : Store} (hJ : Knows p s x) (hr : s.row = some r)
    (hr' : (work i p s x).1.row = some r') :
    r'.attempts = r.attempts + if raised (.act p i) ⟨s,fun _ => x⟩ then 1 else 0 := by
  have hadvance : (advance i p s.row x).1 = some r' := hr'
  rw [hr] at hadvance
  simp only [raised,hr,Statement.hits_some]
  unfold advance at hadvance
  cases hfails : i.fails with
  | true =>
    rw [hfails,if_pos rfl] at hadvance
    rw [← Option.some.inj hadvance]
    rfl
  | false =>
    rw [hfails,if_neg (by simp)] at hadvance
    simp only [Bool.not_false,Bool.true_and]
    have hset : ∀ {cond : JobRow → Bool} (set : JobRow → JobRow) (n : Nat),
        (∀ r, s.row = some r → cond r = true → (set r).attempts = r.attempts + n) →
        Statement.update cond set (some r) = some r' →
        r'.attempts = r.attempts + if cond r then n else 0 := by
      intro cond set n hn hu
      rw [Statement.update_some] at hu
      rw [← Option.some.inj hu]
      cases hc : cond r with
      | false => rfl
      | true => exact hn r hr hc
    have hkeep : ∀ {cond : JobRow → Bool} (set : JobRow → JobRow),
        (∀ r, (set r).attempts = r.attempts) →
        Statement.update cond set (some r) = some r' → r'.attempts = r.attempts := by
      intro cond set hn hu
      have h := hset set 0 (fun r _ _ => hn r) hu
      rw [h]
      split <;> rfl
    cases x with
    | reclaim job n => exact hkeep (reclaim n) (fun _ => rfl) hadvance
    | claim job n => exact hkeep (claim p n) (fun _ => rfl) hadvance
    | persistPending job n ids => exact hkeep (setPendingPusherIds ids n) (fun _ => rfl) hadvance
    | refresh job d ids rest n => exact hkeep (refresh n) (fun _ => rfl) hadvance
    | finish job d e n => exact hkeep (finish e n) (fun _ => rfl) hadvance
    | mark n => exact hkeep (markQueued n) (fun _ => rfl) hadvance
    | retry job d readAt n =>
      refine hset _ 1 (fun r₁ h₁ hl => ?_) hadvance
      simp only [retry]
      rw [hJ.1 r₁ h₁ (leased_iff.mp hl).2]
    | caught job remaining e readAt n =>
      refine hset _ 1 (fun r₁ h₁ hl => ?_) hadvance
      simp only [retry]
      rw [hJ.1 r₁ h₁ (leased_iff.mp hl).2]
    | recover n => exact hset (recover n) 1 (fun _ _ _ => rfl) hadvance
    | reclaimStale n c => exact hset (reclaimStale n) 1 (fun _ _ _ => rfl) hadvance
    | _ =>
      rw [← Option.some.inj hadvance]
      rfl

theorem claim_due {s : Store} {job : JobRow} {now : Nat} (hI : Recorded s)
    (hJ : Knows p s (.claim job now)) (hc : claimable job now r = true) :
    r.nextAttemptAt ≤ now ∧ now ≤ s.now := by
  simp only [claimable,Bool.and_eq_true,decide_eq_true_eq] at hc
  exact ⟨hc.2,hI.read _ hJ.2.1⟩

theorem work_terminal {s : Store} (hJ : Knows p s x) (hr : s.row = some r)
    (ht : r.status.terminal = true) : (work i p s x).1.row = some r := by
  refine (work_row i p s x).terminal hr ht ?_
  intro job n hx
  rcases hx with rfl | rfl
  · exact hJ.1.1.2
  · exact hJ.1.2

end step

section safe

variable {i : Answer}

/-- What one step keeps. -/
theorem step_safe (hs : Threads.Holds Recorded (fun p s x => Knows p s x) s)
    (hl : machine.step l s = some t) : Safe s l t := by
  cases l with
  | env e =>
    obtain ⟨hpossible,rfl⟩ := step_event.mp hl
    refine ⟨?_,?_,?_,?_,?_,?_⟩
    · intro p i h
      cases h
    · intro p hf _
      exact ⟨hf.1,happen_fenced hf.2⟩
    · intro p job d ids rest h
      exact .inl h
    · intro r r' hr hr'
      cases e with
      | tick ms => exact congrArg JobRow.attempts (Option.some.inj (hr'.symm.trans hr))
      | insert now => simp [possible,hr] at hpossible
      | delete => cases hr'
    · intro p i job now r h
      cases h
    · intro r r' hr hr' _
      cases e with
      | tick ms => exact congrArg JobRow.status (Option.some.inj (hr'.symm.trans hr))
      | insert now => simp [possible,hr] at hpossible
      | delete => cases hr'
  | act p i =>
    obtain ⟨ha,rfl⟩ := step_worker.mp hl
    have hJ := hs.2 p
    refine ⟨?_,?_,?_,?_,?_,?_⟩
    · intro q j hact hf
      cases hact
      exact advance_fenced hf.1 hf.2
    · intro q hf hjob
      refine ⟨hjob,?_⟩
      by_cases hq : q = p
      · subst hq
        have hrow : (work i q s.store (s.thread q)).1.row = s.store.row :=
          advance_fenced hf.1 hf.2
        rw [hrow]
        exact hf.2
      · exact (work_row i p s.store (s.thread p)).fenced (Ne.symm hq) hf.2
    · intro q job d ids rest hsend
      by_cases hq : q = p
      · subst hq
        simp only [Function.update_self] at hsend
        obtain ⟨now,hx,hlease⟩ := advance_send hsend
        exact .inr ⟨i,now,rfl,hx,hlease⟩
      · simp only [Function.update_of_ne hq] at hsend
        exact .inl hsend
    · intro r r' hr hr'
      exact work_attempts hJ hr hr'
    · intro q j job now r hact hstage _ _ hc
      cases hact
      rw [hstage] at hJ
      exact claim_due hs.1 hJ hc
    · intro r r' hr hr' ht
      have hsame := work_terminal (i := i) hJ hr ht
      exact congrArg JobRow.status (Option.some.inj (hr'.symm.trans hsame))

/-- In every run one token at a time has the lease, a run that has lost it writes nothing and
starts no call, and only retries, the sweep's reclaims and recoveries raise the attempts. -/
theorem leases_and_budget {s₀ : Pool} (h : Start s₀) (hr : machine.Reaches s₀ s) :
    Kept s ∧ ∀ l t, machine.step l s = some t → Safe s l t := by
  have hs := reaches_holds h hr
  exact ⟨hs.1.kept,fun l t hl => step_safe hs hl⟩

end safe

section reclaimed

def newPool : Pool := ⟨⟨none,0,[],[]⟩,fun _ => .select⟩

theorem start_newPool : Start newPool := ⟨rfl,⟨rfl,rfl⟩,fun _ => .select⟩

/-- A run claims the new job and dies, and two minutes later another finds it. -/
def abandoned : List Label :=
  [.env (.insert 1),.act 0 { first := 2, second := 3 },.act 0 { first := 4, second := 5 },
    .env (.tick 120000),.act 1 { first := 120006, second := 120007 }]

def claimed : JobRow := claim 0 3 (newRow 1)

theorem run_abandoned : (machine.run abandoned newPool).map
    (fun s => (s.store.row,s.store.now,s.thread 1)) =
      some (some claimed,120007,.reclaim claimed 120007) := by decide +kernel

theorem leases_and_budget_abandoned : ∃ s, machine.Reaches newPool s ∧
    s.store.row = some claimed ∧ Kept s ∧ ∀ l t, machine.step l s = some t → Safe s l t := by
  obtain ⟨s,hs,hx⟩ := Option.map_eq_some_iff.mp run_abandoned
  exact ⟨s,.of_run hs,congrArg Prod.fst hx,leases_and_budget start_newPool (.of_run hs)⟩

/-- The reclaim by a message leaves the attempts. -/
theorem reclaim_not_raised : ¬∀ (s₀ s t : Pool) (p : Nat) (i : Answer) (job r r' : JobRow)
    (now : Nat), Start s₀ → machine.Reaches s₀ s → machine.step (.act p i) s = some t →
    s.thread p = .reclaim job now → i.fails = false → s.store.row = some r →
    seen job r = true → t.store.row = some r' → r'.attempts = r.attempts + 1 := by
  intro h
  obtain ⟨s,hs,hx⟩ := Option.map_eq_some_iff.mp run_abandoned
  obtain ⟨hrow,hx⟩ := Prod.mk.inj hx
  obtain ⟨hnow,hthread⟩ := Prod.mk.inj hx
  let i : Answer := { first := 120008, second := 120009 }
  have hstep : machine.step (.act 1 i) s = some ⟨(work i 1 s.store (s.thread 1)).1,
      Function.update s.thread 1 (work i 1 s.store (s.thread 1)).2⟩ := by
    refine step_worker.mpr ⟨?_,rfl⟩
    simp only [allowed,hthread,hnow]
    decide
  have hreclaimed : (work i 1 s.store (s.thread 1)).1.row = some (reclaim 120007 claimed) := by
    simp only [work,Store.write,hrow,hthread]
    decide
  have hattempts := h newPool s _ 1 i claimed claimed _ 120007 start_newPool (.of_run hs) hstep
    hthread rfl hrow (by decide) hreclaimed
  revert hattempts
  decide

end reclaimed

end lease

end Yurucommu.PushJob
