import Yurucommu.DeliveryWrites

/-!
The claim of a delivery job: a worker that lost its claim can no longer touch the row,
two claims that meet no release are far apart, and nobody posts without one.
-/

set_option autoImplicit false

namespace Yurucommu.Delivery

def Task.claimed : Task → Option LiveJob
  | .loadActivity job => some job
  | .resolveSigningActor job => some job
  | .post job => some job
  | .markDelivered job => some job
  | .shadowProbe job => some job
  | .invalidateEndpoint job _ _ => some job
  | .failJob job _ => some job
  | .incrementAttempts job _ => some job
  | .deadLetter job _ _ => some job
  | .sendDlq job _ _ _ => some job
  | .retryWait job _ _ => some job
  | .sendRetry job _ => some job
  | _ => none

def Claims (p : Nat) (s t : Pool) : Prop :=
  ∃ i job r, machine.step (.act p i) s = some t ∧ s.thread p = .claim job ∧
    s.store.row = some r ∧ claimable job i.first i.third r = true

def processingToken (s : Pool) : Option Nat := s.store.row.bind (·.processingToken)

def processingStartedAt (s : Pool) : Option Nat := s.store.row.bind (·.processingStartedAt)

def Processing (s : Pool) : Prop := ∃ r, s.store.row = some r ∧ r.status = .processing

def KeepsProcessing (s : Pool) (_ : Threads.Label Answer Event) (t : Pool) : Prop :=
  Processing s → Processing t

section writes

variable {clock p : Nat} {task : Task} {r r' : DeliveryRow}

theorem WorkerWrite.owner {job : LiveJob} (h : WorkerWrite clock p task r r')
    (hc : task.claimed = some job) : ownership job.1.reconcileAttempt p r = true := by
  cases h with
  | failInvalid => cases hc
  | claim => cases hc
  | revive => cases hc
  | markDelivered now owner => cases hc; exact owner
  | failJob now owner => cases hc; exact owner
  | incrementAttempts owner => cases hc; exact owner
  | deadLetter now due owner => cases hc; exact owner
  | retryWait now next owner => cases hc; exact owner

theorem WorkerWrite.token {q : Nat} (h : WorkerWrite clock p task r r')
    (hq : r'.processingToken = some q) :
    r.processingToken = some q ∨ q = p ∧ ∃ job, task = .claim job := by
  cases h with
  | claim stale started due order free =>
    cases hq
    exact .inr ⟨rfl,_,rfl⟩
  | incrementAttempts owner => exact .inl hq
  | failInvalid now => cases hq
  | markDelivered now => cases hq
  | failJob now => cases hq
  | deadLetter now due => cases hq
  | retryWait now next => cases hq
  | revive due => cases hq

theorem EventWrite.token {row : Option DeliveryRow} {q : Nat} (h : EventWrite row (some r'))
    (hq : r'.processingToken = some q) : ∃ r, row = some r ∧ r.processingToken = some q := by
  cases h with
  | insert activityId endpoint now => cases hq
  | retarget activityId endpoint idle => exact ⟨_,rfl,hq⟩

end writes

theorem work_claimed {i : Answer} {p : Nat} {s : Store} {task : Task} {job : LiveJob}
    (h : task.claimed = some job) :
    (work i p s task).2.claimed = some job ∨ (work i p s task).2 = .done := by
  cases task with
  | loadActivity j =>
    cases h
    simp only [work]
    split <;> exact .inl rfl
  | resolveSigningActor j =>
    cases h
    simp only [work]
    split <;> exact .inl rfl
  | post j =>
    cases h
    simp only [work,afterPost,afterRejection]
    split
    · exact .inl rfl
    · split
      · split
        · exact .inl rfl
        · split <;> exact .inl rfl
      · split <;> exact .inl rfl
  | markDelivered j =>
    cases h
    simp only [work]
    split
    · exact .inl rfl
    · exact .inr rfl
  | shadowProbe j =>
    cases h
    simp only [work]
    split <;> exact .inr rfl
  | invalidateEndpoint j code error =>
    cases h
    simp only [work,afterRejection]
    split <;> exact .inl rfl
  | incrementAttempts j error =>
    cases h
    simp only [work,afterIncrement]
    split
    · exact .inr rfl
    · split
      · split <;> exact .inl rfl
      · exact .inr rfl
  | deadLetter j error n =>
    cases h
    simp only [work]
    split
    · exact .inl rfl
    · exact .inr rfl
  | retryWait j error n => cases h; exact .inl rfl
  | failJob j error => exact .inr rfl
  | sendDlq j error n now => exact .inr rfl
  | sendRetry j d => exact .inr rfl
  | select | resendDlq | requeue | failInvalid | checkCircuit | claim | selectReconcile
  | revive | requeueReconcile | sendRevived | done => cases h

theorem afterSelect_claimed (i : Answer) (row : Option DeliveryRow) :
    (afterSelect i row).claimed = none := by
  unfold afterSelect
  split
  · rfl
  · split
    · split
      · rfl
      · split
        · rfl
        · split <;> rfl
    · split <;> rfl

theorem afterSelectReconcile_claimed (i : Answer) (n : ReconcileAttempt)
    (row : Option DeliveryRow) : (afterSelectReconcile i n row).claimed = none := by
  unfold afterSelectReconcile
  split
  · rfl
  · split
    · split <;> rfl
    · rfl

theorem work_enters {i : Answer} {p : Nat} {s : Store} {task : Task} {job : LiveJob}
    (h : (work i p s task).2.claimed = some job) :
    (∃ j, task.claimed = some j) ∨
      ∃ j r, task = .claim j ∧ s.row = some r ∧ claimable j i.first i.third r = true := by
  cases task with
  | select =>
    simp only [work] at h
    split at h
    · simp [afterSelect_claimed] at h
    · cases h
  | checkCircuit j =>
    simp only [work] at h
    split at h <;> cases h
  | claim j =>
    simp only [work] at h
    split at h
    · rename_i hh
      obtain ⟨r,hr,hc⟩ := Statement.hits_iff.mp hh
      exact .inr ⟨j,r,rfl,hr,hc⟩
    · cases h
  | selectReconcile attempt =>
    simp only [work] at h
    split at h
    · split at h
      · simp [afterSelectReconcile_claimed] at h
      · cases h
    · cases h
  | revive attempt now =>
    simp only [work] at h
    split at h <;> cases h
  | resendDlq | requeue | failInvalid | requeueReconcile | sendRevived | done => cases h
  | loadActivity j | resolveSigningActor j | post j | markDelivered j | shadowProbe j
  | invalidateEndpoint j | failJob j | incrementAttempts j | deadLetter j | sendDlq j
  | retryWait j | sendRetry j => exact .inl ⟨j,rfl⟩

theorem work_posts {i : Answer} {p : Nat} {s : Store} {task : Task}
    (h : (work i p s task).1.posts ≠ s.posts) : ∃ job, task.claimed = some job := by
  cases task with
  | post job => exact ⟨job,rfl⟩
  | shadowProbe job => exact ⟨job,rfl⟩
  | checkCircuit job =>
    simp only [work] at h
    split at h <;> exact absurd rfl h
  | _ => exact absurd rfl h

/-- After a claimed run's step the row has changed only if the run still owned it. -/
theorem step_owner {p : Nat} {i : Answer} {job : LiveJob} {s t : Pool}
    (hc : (s.thread p).claimed = some job) (h : machine.step (.act p i) s = some t)
    (hne : t.store.row ≠ s.store.row) :
    ∃ r, s.store.row = some r ∧ ownership job.1.reconcileAttempt p r = true := by
  obtain ⟨⟨_,hi,_⟩,rfl⟩ := step_worker.mp h
  rcases work_row i p s.store (s.thread p) hi with hs | ⟨r,r',hr,_,hw⟩
  · exact absurd hs hne
  · exact ⟨r,hr,hw.owner hc⟩

def Superseded (p : Nat) (s : Pool) : Prop :=
  ((∃ job, (s.thread p).claimed = some job) ∨ s.thread p = .done) ∧
    processingToken s ≠ some p

theorem Superseded.step {p : Nat} {l : Threads.Label Answer Event} {s t : Pool}
    (h : Superseded p s) (hl : machine.step l s = some t) : Superseded p t := by
  obtain ⟨hth,htok⟩ := h
  constructor
  · cases l with
    | env e =>
      rw [Threads.thread_of_env hl]
      exact hth
    | act q i =>
      by_cases hq : p = q
      · subst hq
        obtain ⟨⟨hd,_,_⟩,rfl⟩ := step_worker.mp hl
        simp only [Function.update_self]
        rcases hth with ⟨job,hc⟩ | hdone
        · rcases work_claimed (i := i) (p := p) (s := s.store) hc with hw | hw
          · exact .inl ⟨job,hw⟩
          · exact .inr hw
        · exact absurd hdone hd
      · rw [Threads.thread_of_act_ne hl hq]
        exact hth
  · intro hp
    rcases step_row hl with hs | hw
    · exact htok (by rw [processingToken,← hs]; exact hp)
    · cases hrow : t.store.row with
      | none =>
        rw [processingToken,hrow] at hp
        cases hp
      | some r' =>
        rw [processingToken,hrow,Option.bind_some] at hp
        rw [hrow] at hw
        cases hw' : s.store.row with
        | none =>
          rw [hw'] at hw
          cases hw with
          | event write =>
            obtain ⟨r,hr,_⟩ := write.token hp
            cases hr
        | some r =>
          have hr : processingToken s ≠ some p := htok
          rw [processingToken,hw',Option.bind_some] at hr
          rw [hw'] at hw
          cases hw with
          | worker q write =>
            rcases write.token hp with hold | ⟨rfl,job,hclaim⟩
            · exact hr hold
            · rcases hth with ⟨j,hc⟩ | hdone
              · rw [hclaim] at hc
                cases hc
              · rw [hclaim] at hdone
                cases hdone
          | event write =>
            obtain ⟨r₁,hr₁,hold⟩ := write.token hp
            cases hr₁
            exact hr hold

theorem Superseded.reaches {p : Nat} {s t : Pool} (h : Superseded p s)
    (hr : machine.Reaches s t) : Superseded p t :=
  hr.invariant h fun _ _ _ ha hl _ => ha.step hl

theorem Superseded.row {p : Nat} {i : Answer} {s t : Pool} (h : Superseded p s)
    (hl : machine.step (.act p i) s = some t) : t.store.row = s.store.row := by
  obtain ⟨⟨job,hc⟩ | hd,htok⟩ := h
  · by_contra hne
    obtain ⟨r,hr,ho⟩ := step_owner hc hl hne
    obtain ⟨_,_,ht⟩ := ownership_iff.mp ho
    exact htok (by rw [processingToken,hr]; exact ht)
  · exact absurd hd (step_worker.mp hl).1.1

def ProcessingSince (a : Nat) (s : Pool) : Prop :=
  ∃ r b, s.store.row = some r ∧ r.status = .processing ∧ r.processingStartedAt = some b ∧ a ≤ b

theorem startedBefore_iff {stale : Nat} {r : DeliveryRow} :
    startedBefore stale r = true ↔
      ∃ b, r.processingStartedAt = some b ∧ b + staleProcessingMs < stale := by
  unfold startedBefore
  rw [Option.any_eq_true]
  simp only [decide_eq_true_eq]

theorem claimable_processing {job r : DeliveryRow} {stale due b : Nat}
    (h : claimable job stale due r = true) (hp : r.status = .processing)
    (hb : r.processingStartedAt = some b) : b + staleProcessingMs < stale := by
  obtain ⟨_,_,_,_,⟨hn,_⟩ | ⟨_,hs⟩⟩ := claimable_iff.mp h
  · exact absurd hp hn
  · obtain ⟨b',hb',hlt⟩ := startedBefore_iff.mp hs
    rw [hb] at hb'
    cases hb'
    exact hlt

theorem ProcessingSince.step {a : Nat} {l : Threads.Label Answer Event} {s t : Pool}
    (h : ProcessingSince a s) (hl : machine.step l s = some t) (hk : KeepsProcessing s l t) :
    ProcessingSince a t := by
  obtain ⟨r,b,hr,hp,hb,hab⟩ := h
  obtain ⟨r',hr',hp'⟩ := hk ⟨r,hr,hp⟩
  rcases step_row hl with hs | hw
  · exact ⟨r,b,hs.trans hr,hp,hb,hab⟩
  rw [hr,hr'] at hw
  cases hw with
  | worker p write =>
    generalize s.thread p = task at write
    cases write with
    | claim stale started due order free =>
      have hold := claimable_processing free hp hb
      exact ⟨_,started,hr',rfl,rfl,by omega⟩
    | incrementAttempts owner => exact ⟨_,b,hr',hp',hb,hab⟩
    | failInvalid now => cases hp'
    | markDelivered now => cases hp'
    | failJob now => cases hp'
    | deadLetter now due => cases hp'
    | retryWait now next => cases hp'
    | revive due => cases hp'
  | event write =>
    cases write with
    | retarget activityId endpoint idle => exact absurd hp idle.1

theorem Claims.row {p : Nat} {s t : Pool} (h : Claims p s t) :
    ∃ (i : Answer) (job : LiveJob) (r : DeliveryRow), i.admissible s.store.now = true ∧
      s.store.row = some r ∧ claimable job i.first i.third r = true ∧
        t.store.row = some (claim p i.second r) := by
  obtain ⟨i,job,r,hl,hth,hr,hc⟩ := h
  obtain ⟨⟨_,hi,_⟩,rfl⟩ := step_worker.mp hl
  refine ⟨i,job,r,hi,hr,hc,?_⟩
  simp only [hth,work,Store.setRow_row,hr,Statement.update_some,hc,if_true]

theorem Claims.spaced {p q : Nat} {s₁ t₁ s₂ t₂ : Pool} (h₁ : Claims p s₁ t₁)
    (hr : machine.ReachesBy KeepsProcessing t₁ s₂) (h₂ : Claims q s₂ t₂) :
    ∃ a b, processingStartedAt t₁ = some a ∧ processingStartedAt t₂ = some b ∧
      a + staleProcessingMs ≤ b := by
  obtain ⟨i,job,r,hi,_,_,hrow⟩ := h₁.row
  have hsince : ProcessingSince i.second t₁ := ⟨_,_,hrow,rfl,rfl,Nat.le_refl _⟩
  obtain ⟨r',b,hr',hp',hb,hab⟩ :=
    hr.invariant hsince fun _ _ _ ha hl hk => ha.step hl hk
  obtain ⟨i',job',r'',hi',hr'',hc,hrow'⟩ := h₂.row
  rw [hr'] at hr''
  cases hr''
  have hold := claimable_processing hc hp' hb
  have horder : i'.first ≤ i'.second := by
    simp only [Answer.admissible,Bool.and_eq_true,decide_eq_true_eq] at hi'
    exact hi'.1.1
  refine ⟨i.second,i'.second,?_,?_,by omega⟩
  · rw [processingStartedAt,hrow]
    rfl
  · rw [processingStartedAt,hrow']
    rfl

theorem claimed_has_claimed {s₀ s : Pool} (h : Start s₀) (hr : machine.Reaches s₀ s) {p : Nat}
    {job : LiveJob} (hc : (s.thread p).claimed = some job) :
    ∃ s₁ t₁, machine.Reaches s₀ s₁ ∧ Claims p s₁ t₁ ∧ machine.Reaches t₁ s := by
  induction hr generalizing job with
  | refl =>
    have hentry := h p
    cases hth : s₀.thread p <;> rw [hth] at hentry hc <;> cases hentry <;> cases hc
  | @tail u v hu hn ih =>
    obtain ⟨l,hl,_⟩ := hn
    have extend : ∀ {j}, (u.thread p).claimed = some j →
        ∃ s₁ t₁, machine.Reaches s₀ s₁ ∧ Claims p s₁ t₁ ∧ machine.Reaches t₁ v := by
      intro j hj
      obtain ⟨s₁,t₁,h₁,hcl,h₂⟩ := ih hj
      exact ⟨s₁,t₁,h₁,hcl,h₂.snoc hl trivial⟩
    cases l with
    | env e =>
      rw [Threads.thread_of_env hl] at hc
      exact extend hc
    | act q i =>
      by_cases hq : p = q
      · subst hq
        have hstep := hl
        obtain ⟨_,rfl⟩ := step_worker.mp hl
        simp only [Function.update_self] at hc
        rcases work_enters hc with ⟨j,hj⟩ | ⟨j,r,hth,hrow,hfree⟩
        · exact extend hj
        · exact ⟨u,_,hu,⟨i,j,r,hstep,hth,hrow,hfree⟩,.refl _⟩
      · rw [Threads.thread_of_act_ne hl hq] at hc
        exact extend hc

structure ClaimFencing (s₀ : Pool) : Prop where
  /-- After its claim a worker changes only a row that still carries that claim. -/
  fenced : ∀ p i job s t, machine.Reaches s₀ s → (s.thread p).claimed = some job →
    machine.step (.act p i) s = some t → t.store.row ≠ s.store.row →
      ∃ r, s.store.row = some r ∧ r.processingToken = some p ∧
        r.reconcileAttempt = job.1.reconcileAttempt ∧ r.status = .processing
  /-- Once the row does not carry its token, a worker never changes the row again. -/
  superseded : ∀ p i job s t u, machine.Reaches s₀ s → (s.thread p).claimed = some job →
    processingToken s ≠ some p → machine.Reaches s t →
      machine.step (.act p i) t = some u → u.store.row = t.store.row
  /-- Two claims with no release in between are far apart on the row's clock. -/
  spaced : ∀ p q s₁ t₁ s₂ t₂, machine.Reaches s₀ s₁ → Claims p s₁ t₁ →
    machine.ReachesBy KeepsProcessing t₁ s₂ → Claims q s₂ t₂ →
      ∃ a b, processingStartedAt t₁ = some a ∧ processingStartedAt t₂ = some b ∧
        a + staleProcessingMs ≤ b
  /-- Whoever issues an HTTP request has claimed the row before. -/
  posted : ∀ l s t, machine.Reaches s₀ s → machine.step l s = some t →
    t.store.posts ≠ s.store.posts →
      ∃ p i s₁ t₁, l = .act p i ∧ machine.Reaches s₀ s₁ ∧ Claims p s₁ t₁ ∧ machine.Reaches t₁ s

theorem claim_fencing {s₀ : Pool} (h : Start s₀) : ClaimFencing s₀ where
  fenced p i job s t _ hc hl hne := by
    obtain ⟨r,hr,ho⟩ := step_owner hc hl hne
    obtain ⟨hg,hs,ht⟩ := ownership_iff.mp ho
    exact ⟨r,hr,ht,hg,hs⟩
  superseded p i job s t u _ hc htok hr hl :=
    (Superseded.reaches ⟨.inl ⟨job,hc⟩,htok⟩ hr).row hl
  spaced p q s₁ t₁ s₂ t₂ _ h₁ hr h₂ := h₁.spaced hr h₂
  posted l s t hr hl hne := by
    cases l with
    | env e =>
      obtain ⟨_,rfl⟩ := step_event.mp hl
      exact absurd (happen_posts e s.store) hne
    | act p i =>
      obtain ⟨_,rfl⟩ := step_worker.mp hl
      obtain ⟨job,hc⟩ := work_posts hne
      obtain ⟨s₁,t₁,h₁,hcl,h₂⟩ := claimed_has_claimed h hr hc
      exact ⟨p,i,s₁,t₁,rfl,h₁,hcl,h₂⟩

/-- A database without the row, and every run about to read a delivery wakeup. -/
def emptyPool : Pool where
  store :=
    { now := 0
      row := none
      recipients := []
      tombstones := []
      sent := []
      dlq := []
      posts := [] }
  thread := fun _ => .select

theorem claim_fencing_emptyPool : Start emptyPool ∧ ClaimFencing emptyPool :=
  ⟨fun _ => .select,claim_fencing fun _ => .select⟩

end Yurucommu.Delivery
