import Yurucommu.ResolutionAttempts

/-!
The backoff of one row of `delivery_resolutions`. The claim looks at the due time of a row in
`retry_wait` only, and a publisher marks the row `queued` one statement after it has sent the
message; the backoff is honoured in exactly the runs in which no row so marked is claimed
before it is due.
-/

set_option autoImplicit false

namespace Yurucommu.Resolution

/-- Every claim that succeeds has a clock reading no earlier than any time a retry or a defer
has stored. -/
def BackoffHonoured (s₀ : Pool) (ls : List Label) : Prop :=
  ∀ as p i bs s now attempts, ls = as ++ .act p i :: bs →
    (machine false).run as s₀ = some s → s.thread p = .claim now attempts →
      Statement.hits (claimable now) s.store.row = true → s.store.backoff ≤ now

def MarkedWaiting (s₀ : Pool) (due : Nat) (ls : List Label) : Prop :=
  ∃ as p i bs s now r, ls = as ++ .act p i :: bs ∧ (machine false).run as s₀ = some s ∧
    s.thread p = .mark now ∧ s.store.row = some r ∧ r.status = .retryWait ∧ r.nextAttemptAt = due

/-- A row is claimed before the time it waited for when it was marked. -/
def ClaimedEarly (s₀ : Pool) (ls : List Label) : Prop :=
  ∃ as p i bs s now attempts due, ls = as ++ .act p i :: bs ∧
    (machine false).run as s₀ = some s ∧ s.thread p = .claim now attempts ∧
      Statement.hits (claimable now) s.store.row = true ∧ MarkedWaiting s₀ due as ∧ now < due

theorem MarkedWaiting.append {s₀ : Pool} {due : Nat} {ls : List Label}
    (h : MarkedWaiting s₀ due ls) (cs : List Label) : MarkedWaiting s₀ due (ls ++ cs) := by
  obtain ⟨as,p,i,bs,s,now,r,rfl,hs,hx,hr,hst,hd⟩ := h
  exact ⟨as,p,i,bs ++ cs,s,now,r,by simp,hs,hx,hr,hst,hd⟩

theorem ClaimedEarly.append {s₀ : Pool} {ls : List Label} (h : ClaimedEarly s₀ ls)
    (cs : List Label) : ClaimedEarly s₀ (ls ++ cs) := by
  obtain ⟨as,p,i,bs,s,now,attempts,due,rfl,hs,hx,hh,hm,hd⟩ := h
  exact ⟨as,p,i,bs ++ cs,s,now,attempts,due,by simp,hs,hx,hh,hm,hd⟩

def Recorded (s : Store) : Prop :=
  ∀ r, s.row = some r → r.status = .retryWait → r.nextAttemptAt ≤ s.backoff

theorem Write.recorded {i : Answer} {p : Nat} {s t : Store} {x : Worker} (h : Write i p s x t)
    (hs : Recorded s) : Recorded t := by
  intro r' hr' hst
  cases h with
  | same => exact hs r' hr' hst
  | retry | defer =>
    cases hr'
    exact Nat.le_max_right _ _
  | @complete _ _ status =>
    cases hr'
    cases status <;> cases hst
  | insert | claim | reopen | sweep | mark =>
    cases hr'
    cases hst

theorem Write.backoff_le {i : Answer} {p : Nat} {s t : Store} {x : Worker} (h : Write i p s x t)
    {r : ResolutionRow} (hr : s.row = some r) :
    s.backoff ≤ t.backoff ∧ ∃ r', t.row = some r' := by
  cases h with
  | same => exact ⟨Nat.le_refl _,r,hr⟩
  | insert _ hnone => cases hnone.symm.trans hr
  | retry | defer => exact ⟨Nat.le_max_left _ _,_,rfl⟩
  | claim | complete | reopen | sweep | mark => exact ⟨Nat.le_refl _,_,rfl⟩

def Past (due : Nat) (s : Pool) : Prop :=
  due ≤ s.store.backoff ∧ ∃ r, s.store.row = some r

theorem step_store {l : Label} {s t : Pool} (hl : (machine false).step l s = some t) :
    (t.store.row = s.store.row ∧ t.store.backoff = s.store.backoff) ∨
      ∃ p i, l = .act p i ∧ Write i p s.store (s.thread p) t.store := by
  cases l with
  | act p i =>
    obtain ⟨_,rfl⟩ := step_worker.mp hl
    exact .inr ⟨p,i,rfl,work_write i p s.store (s.thread p)⟩
  | env e =>
    obtain ⟨hd,rfl⟩ := step_event.mp hl
    cases e with
    | tick ms => exact .inl ⟨rfl,rfl⟩
    | purgeTerminal | deleteActivity | deleteRemoteActor => cases hd rfl

theorem Recorded.step {l : Label} {s t : Pool} (h : Recorded s.store)
    (hl : (machine false).step l s = some t) : Recorded t.store := by
  rcases step_store hl with ⟨hrow,hb⟩ | ⟨p,i,_,hw⟩
  · simpa only [Recorded,hrow,hb] using h
  · exact hw.recorded h

theorem Past.step {due : Nat} {l : Label} {s t : Pool} (h : Past due s)
    (hl : (machine false).step l s = some t) : Past due t := by
  obtain ⟨hd,r,hr⟩ := h
  rcases step_store hl with ⟨hrow,hb⟩ | ⟨p,i,_,hw⟩
  · exact ⟨by rw [hb]; exact hd,r,hrow.trans hr⟩
  · obtain ⟨hle,hsome⟩ := hw.backoff_le hr
    exact ⟨Nat.le_trans hd hle,hsome⟩

theorem run_recorded {s₀ s : Pool} (h : Start false false s₀) {ls : List Label}
    (hr : (machine false).run ls s₀ = some s) : Recorded s.store := by
  refine Machine.run_invariant (P := fun s => Recorded s.store) (fun r hr => ?_)
    (fun _ _ _ ha hl => Recorded.step ha hl) hr
  rw [h.row] at hr
  cases hr

theorem MarkedWaiting.past {s₀ t : Pool} (h : Start false false s₀) {due : Nat}
    {ls : List Label} (hm : MarkedWaiting s₀ due ls) (hr : (machine false).run ls s₀ = some t) :
    Past due t := by
  obtain ⟨as,p,i,bs,s,now,r,rfl,hs,hx,hrow,hst,rfl⟩ := hm
  obtain ⟨s',t',hs',_,_⟩ := Machine.run_split hr
  have hpast : Past r.nextAttemptAt s := ⟨run_recorded h hs r hrow hst,r,hrow⟩
  rw [Machine.run_append,hs,Option.bind_some] at hr
  exact Machine.run_invariant hpast (fun _ _ _ ha hl => ha.step hl) hr

/-- What a row says of the times it has been put off to, as long as nobody has claimed early. -/
structure Deferred (marked : Nat → Prop) (backoff : Nat) (r : ResolutionRow) : Prop where
  pending : r.status = .pending → backoff = 0
  retryWait : r.status = .retryWait → backoff ≤ r.nextAttemptAt
  queued : r.status = .queued → backoff = 0 ∨ backoff ≤ r.nextAttemptAt ∧ marked r.nextAttemptAt
  processing : r.status = .processing → backoff ≤ r.updatedAt
  token : r.processingToken.isSome = true → r.status = .processing

section deferred

variable {marked : Nat → Prop} {backoff : Nat} {r : ResolutionRow}

theorem Deferred.honoured (h : Deferred marked backoff r) {now : Nat}
    (free : claimable now r = true) (hm : ∀ due, marked due → due ≤ now) : backoff ≤ now := by
  simp only [claimable,Bool.or_eq_true,Bool.and_eq_true,decide_eq_true_eq] at free
  rcases free with ((hp | hq) | ⟨hw,hn⟩) | ⟨hp,hn⟩
  · have hb := h.pending hp
    omega
  · rcases h.queued hq with hb | ⟨hb,hmark⟩
    · omega
    · have hdue := hm _ hmark
      omega
  · have hb := h.retryWait hw
    omega
  · have hb := h.processing hp
    omega

theorem Deferred.newRow (now : Nat) : Deferred marked 0 (newRow now) where
  pending _ := rfl
  retryWait h := by cases h
  queued h := by cases h
  processing h := by cases h
  token h := by cases h

theorem Deferred.claim {p now : Nat} (h : backoff ≤ now) : Deferred marked backoff (claim p now r) where
  pending h := by cases h
  retryWait h := by cases h
  queued h := by cases h
  processing _ := h
  token _ := rfl

theorem Deferred.putOff {r' : ResolutionRow} (h : backoff ≤ r'.nextAttemptAt)
    (hs : r'.status = .retryWait ∨ r'.status = .failed) (ht : r'.processingToken = none) :
    Deferred marked (max backoff r'.nextAttemptAt) r' where
  pending hp := by rcases hs with hs | hs <;> rw [hs] at hp <;> cases hp
  retryWait _ := Nat.max_le.mpr ⟨h,Nat.le_refl _⟩
  queued hp := by rcases hs with hs | hs <;> rw [hs] at hp <;> cases hp
  processing hp := by rcases hs with hs | hs <;> rw [hs] at hp <;> cases hp
  token hp := by
    rw [ht] at hp
    cases hp

theorem Deferred.complete {status : Completion} {reason : Option String} {now : Nat} :
    Deferred marked backoff (complete status reason now r) where
  pending h := by cases status <;> cases h
  retryWait h := by cases status <;> cases h
  queued h := by cases status <;> cases h
  processing h := by cases status <;> cases h
  token h := by cases h

theorem Deferred.markQueued (h : Deferred marked backoff r) {now : Nat}
    (waits : waiting r = true) (hm : r.status = .retryWait → marked r.nextAttemptAt) :
    Deferred marked backoff (markQueued now r) where
  pending h := by cases h
  retryWait h := by cases h
  queued _ := by
    simp only [waiting,Bool.or_eq_true,decide_eq_true_eq] at waits
    rcases waits with hp | hw
    · exact .inl (h.pending hp)
    · exact .inr ⟨h.retryWait hw,hm hw⟩
  processing h := by cases h
  token h := by cases h

theorem Deferred.mono {marked' : Nat → Prop} (h : Deferred marked backoff r)
    (hm : ∀ due, marked due → marked' due) : Deferred marked' backoff r where
  pending := h.pending
  retryWait := h.retryWait
  queued hq := (h.queued hq).imp_right fun ⟨hb,hmark⟩ => ⟨hb,hm _ hmark⟩
  processing := h.processing
  token := h.token

end deferred

structure Deferring (s₀ : Pool) (ls : List Label) (s : Pool) : Prop where
  row : ∀ r, s.store.row = some r → Deferred (MarkedWaiting s₀ · ls) s.store.backoff r
  plain : ∀ p, (s.thread p).Plain false false
  /-- The claim of a holder is dated by its clock reading. -/
  holder : ∀ p now attempts r, s.thread p = .holding now attempts → s.store.row = some r →
    r.processingToken = some p → r.updatedAt = now

theorem Start.deferring {s₀ : Pool} (h : Start false false s₀) : Deferring s₀ [] s₀ where
  row r hr := by
    rw [h.row] at hr
    cases hr
  plain p := (h.entry p).plain
  holder p now attempts r hp _ _ := by
    have he := h.entry p
    rw [hp] at he
    cases he

section step

variable {s₀ s : Pool} {as : List Label} {p : Nat} {i : Answer}

theorem Deferring.due (h : Deferring s₀ as s) {now attempts : Nat} {r : ResolutionRow}
    (hx : s.thread p = .holding now attempts) (hr : s.store.row = some r)
    (owner : r.processingToken = some p) (hclock : clockAllowed i s.store (s.thread p) = true)
    (delaySeconds : Nat) : s.store.backoff ≤ i.now + delaySeconds * 1000 := by
  have hrow := h.row r hr
  have hproc := hrow.processing (hrow.token (by rw [owner]; rfl))
  have hdate := h.holder p now attempts r hx hr owner
  simp only [hx,clockAllowed,Bool.and_eq_true,decide_eq_true_eq] at hclock
  omega

theorem Deferring.write (h : Deferring s₀ as s) (hs : (machine false).run as s₀ = some s)
    (hclock : clockAllowed i s.store (s.thread p) = true) {t : Store}
    (hw : Write i p s.store (s.thread p) t)
    (hlate : ∀ now attempts due, s.thread p = .claim now attempts →
      Statement.hits (claimable now) s.store.row = true → MarkedWaiting s₀ due as → due ≤ now)
    {r' : ResolutionRow} (hr' : t.row = some r') :
    Deferred (MarkedWaiting s₀ · (as ++ [.act p i])) t.backoff r' := by
  have hplain := h.plain p
  have hdue : ∀ now attempts r, s.thread p = .holding now attempts → s.store.row = some r →
      r.processingToken = some p → clockAllowed i s.store (s.thread p) = true →
        ∀ delaySeconds, s.store.backoff ≤ i.now + delaySeconds * 1000 :=
    fun _ _ _ hx hr owner hclock => h.due hx hr owner hclock
  have hgrow : ∀ due, MarkedWaiting s₀ due as → MarkedWaiting s₀ due (as ++ [.act p i]) :=
    fun due hm => hm.append _
  generalize hx : s.thread p = x at hw hplain hlate hdue hclock
  cases hw with
  | same => exact (h.row r' hr').mono hgrow
  | insert =>
    cases hr'
    exact .newRow i.now
  | @claim now attempts r hr free =>
    cases hr'
    have hits : Statement.hits (claimable now) s.store.row = true := by
      rw [hr,Statement.hits_some,free]
    exact .claim ((h.row r hr).honoured free fun due => hlate now attempts due rfl hits)
  | @retry now attempts delaySeconds error r hi hr owner =>
    cases hr'
    have hoff : s.store.backoff ≤ (retry (attempts + 1) delaySeconds i.now error r).nextAttemptAt :=
      hdue now attempts r rfl hr owner hclock delaySeconds
    refine .putOff hoff ?_ rfl
    simp only [retry]
    split
    · exact .inr rfl
    · exact .inl rfl
  | @defer now attempts delaySeconds error r hi hr owner =>
    cases hr'
    have hoff : s.store.backoff ≤ (defer delaySeconds i.now error r).nextAttemptAt :=
      hdue now attempts r rfl hr owner hclock delaySeconds
    exact .putOff hoff (.inl rfl) rfl
  | complete =>
    cases hr'
    exact .complete
  | reopen => cases hplain
  | sweep => cases hplain
  | @mark now r hr waits =>
    cases hr'
    refine ((h.row r hr).mono hgrow).markQueued waits fun hst => ?_
    exact ⟨as,p,i,[],s,now,r,rfl,hs,hx,hr,hst,rfl⟩

theorem Deferring.step {t : Pool} {l : Label} (h : Deferring s₀ as s)
    (hs : (machine false).run as s₀ = some s) (hl : (machine false).step l s = some t)
    (hlate : ¬ClaimedEarly s₀ (as ++ [l])) : Deferring s₀ (as ++ [l]) t := by
  cases l with
  | env e =>
    obtain ⟨hd,rfl⟩ := step_event.mp hl
    cases e with
    | tick ms =>
      exact ⟨fun r hr => (h.row r hr).mono fun due hm => hm.append _,h.plain,h.holder⟩
    | purgeTerminal | deleteActivity | deleteRemoteActor => cases hd rfl
  | act p i =>
    obtain ⟨hlive,rfl⟩ := step_worker.mp hl
    have hw := work_write i p s.store (s.thread p)
    refine ⟨fun r' hr' => h.write hs hlive.2 hw ?_ hr',fun q => ?_,fun q => ?_⟩
    · intro now attempts due hx hits hm
      by_contra hlt
      exact hlate ⟨as,p,i,[],s,now,attempts,due,rfl,hs,hx,hits,hm,by omega⟩
    · by_cases hq : q = p
      · subst hq
        simp only [Function.update_self]
        exact plain_work (h.plain q)
      · simp only [Function.update_of_ne hq]
        exact h.plain q
    · intro now attempts r hth hr owner
      by_cases hq : q = p
      · subst hq
        simp only [Function.update_self] at hth
        obtain ⟨_,r₀,_,_,hrow⟩ := work_holding hth
        cases hrow.symm.trans hr
        rfl
      · simp only [Function.update_of_ne hq] at hth
        exact h.holder q now attempts r hth (hw.row_of_token (Ne.symm hq) hr owner) owner

end step

theorem run_deferring {s₀ t : Pool} (h : Start false false s₀) {ls : List Label}
    (hr : (machine false).run ls s₀ = some t) : ¬ClaimedEarly s₀ ls → Deferring s₀ ls t := by
  refine Machine.run_history (P := fun ls t => ¬ClaimedEarly s₀ ls → Deferring s₀ ls t)
    (fun _ => h.deferring) (fun as l u v hu ih hl hno => ?_) hr
  exact (ih fun hc => hno (hc.append _)).step hu hl hno

/-- The backoff is honoured in exactly the runs in which no row that was marked while it waited
is claimed before it is due. -/
theorem backoff_honoured_iff {s₀ : Pool} (h : Start false false s₀) (ls : List Label) :
    BackoffHonoured s₀ ls ↔ ¬ClaimedEarly s₀ ls := by
  constructor
  · rintro hk ⟨as,p,i,bs,s,now,attempts,due,rfl,hs,hx,hits,hm,hlt⟩
    have hle := hk as p i bs s now attempts rfl hs hx hits
    have hpast := (hm.past h hs).1
    omega
  · intro hno as p i bs s now attempts hls hs hx hits
    have hdef : Deferring s₀ as s := run_deferring h hs fun hc => hno (hls ▸ hc.append _)
    obtain ⟨r,hr,free⟩ := Statement.hits_iff.mp hits
    refine (hdef.row r hr).honoured free fun due hm => ?_
    by_contra hlt
    exact hno ⟨as,p,i,bs,s,now,attempts,due,hls,hs,hx,hits,hm,by omega⟩

/-- Run 1 claims and retries between the send of the publisher and its mark; run 2 selects. -/
def markedRun : List Label :=
  let act p : Label := .act p (answer 0 "fetch failed")
  [act 0,act 0,act 0,act 0,act 1,act 1,act 1,act 1,act 0,act 2,act 2]

theorem backoff_honoured_iff_marked :
    BackoffHonoured onePublisher markedRun ↔ ¬ClaimedEarly onePublisher markedRun :=
  backoff_honoured_iff (start_onePublisher false false) markedRun

/-- The claim of run 2 succeeds at time zero, a minute before the row is due. -/
theorem marked_claimed_early :
    ¬∀ s₀ ls, Start false false s₀ → BackoffHonoured s₀ ls := by
  intro h
  have hrun : ((machine false).run markedRun onePublisher).map
      (fun s => (s.thread 2,Statement.hits (claimable 0) s.store.row,s.store.backoff)) =
        some (.claim 0 1,true,60000) := by decide
  obtain ⟨s,hs,hx⟩ := Option.map_eq_some_iff.mp hrun
  simp only [Prod.mk.injEq] at hx
  have hle := h onePublisher (markedRun ++ [.act 2 (answer 0 "")]) (start_onePublisher false false)
    markedRun 2 _ [] s 0 1 rfl hs hx.1 hx.2.1
  omega

end Yurucommu.Resolution
