import Yurucommu.ResolutionWrites

/-!
The attempts of one row of `delivery_resolutions`. A run reads them in the `SELECT` before its
claim, and its retry writes what it read plus one; they are kept in exactly the runs in which
no run that retries has claimed a row whose attempts had moved since its `SELECT`.
-/

set_option autoImplicit false

namespace Yurucommu.Resolution

section writes

variable {i : Answer} {p q : Nat} {s t : Store} {x : Worker}

theorem Write.row_of_token (h : Write i p s x t) (hpq : p ≠ q) {r : ResolutionRow}
    (hr : t.row = some r) (owner : r.processingToken = some q) : s.row = some r := by
  cases h with
  | same => exact hr
  | insert =>
    cases hr
    cases owner
  | claim =>
    cases hr
    exact absurd (Option.some.inj owner) hpq
  | retry | defer | complete | reopen | sweep | mark =>
    cases hr
    cases owner

theorem work_holding {now attempts : Nat} (h : (work i p s x).2 = .holding now attempts) :
    x = .claim now attempts ∧
      ∃ r, s.row = some r ∧ claimable now r = true ∧
        (work i p s x).1.row = some (claim p now r) := by
  cases x with
  | claim now' attempts' =>
    simp only [work] at h
    split at h
    · rename_i hits
      cases h
      obtain ⟨r,hr,hc⟩ := Statement.hits_iff.mp hits
      refine ⟨rfl,r,hr,hc,?_⟩
      simp only [work,hr,Statement.update_some,hc,if_true]
    · cases h
  | select now' =>
    simp only [work] at h
    split at h
    · cases h
    · split at h
      · cases h
      · split at h <;> cases h
  | enqueued reopenTerminal =>
    simp only [work] at h
    split at h <;> cases h
  | selectDue now' =>
    simp only [work] at h
    split at h <;> cases h
  | start | holding | enqueue | reopen | sweep | staleSweep | publish | mark | done => cases h

end writes

def EffectiveRetry (p : Nat) (l : Label) (s : Pool) : Prop :=
  ∃ i now attempts error delaySeconds, l = .act p i ∧
    s.thread p = .holding now attempts ∧ i.outcome = .retry error delaySeconds ∧
      Statement.hits (owns p) s.store.row = true

def StaleClaim (p : Nat) (l : Label) (s : Pool) : Prop :=
  ∃ i now attempts r, l = .act p i ∧ s.thread p = .claim now attempts ∧
    s.store.row = some r ∧ claimable now r = true ∧ r.attempts ≠ attempts

def ClaimedStale (s₀ : Pool) (p : Nat) (ls : List Label) : Prop :=
  ∃ as l bs u, ls = as ++ l :: bs ∧ (machine false).run as s₀ = some u ∧ StaleClaim p l u

def RetriesStale (s₀ : Pool) (ls : List Label) : Prop :=
  ∃ p as l bs u v, ls = as ++ l :: bs ∧ (machine false).run as s₀ = some u ∧
    (machine false).step l u = some v ∧ ClaimedStale s₀ p as ∧ EffectiveRetry p l u

structure AttemptsAt (s : Pool) (l : Label) (t : Pool) : Prop where
  /-- The write of a claimant whose token is no longer stored has no effect. -/
  fenced : ∀ p i now attempts, l = .act p i → s.thread p = .holding now attempts →
    Statement.hits (owns p) s.store.row = false → t.store = s.store
  retry : ∀ p r r', EffectiveRetry p l s → s.store.row = some r → t.store.row = some r' →
    r'.attempts = r.attempts + 1
  other : ∀ r r', (∀ p, ¬EffectiveRetry p l s) → s.store.row = some r →
    t.store.row = some r' → r'.attempts = r.attempts
  failed : ∀ r, maxResolveAttempts ≤ t.store.retried → t.store.row = some r →
    r.status = .failed

def AttemptsKept (s₀ : Pool) (ls : List Label) : Prop :=
  ∀ as l bs s t, ls = as ++ l :: bs → (machine false).run as s₀ = some s →
    (machine false).step l s = some t → AttemptsAt s l t

theorem ClaimedStale.append {s₀ : Pool} {p : Nat} {ls : List Label}
    (h : ClaimedStale s₀ p ls) (cs : List Label) : ClaimedStale s₀ p (ls ++ cs) := by
  obtain ⟨as,l,bs,u,rfl,hu,hc⟩ := h
  exact ⟨as,l,bs ++ cs,u,by simp,hu,hc⟩

theorem RetriesStale.append {s₀ : Pool} {ls : List Label}
    (h : RetriesStale s₀ ls) (cs : List Label) : RetriesStale s₀ (ls ++ cs) := by
  obtain ⟨p,as,l,bs,u,v,rfl,hu,hl,hc,he⟩ := h
  exact ⟨p,as,l,bs ++ cs,u,v,by simp,hu,hl,hc,he⟩

/-- What the row says of its attempts, as long as nobody has retried on a stale claim. -/
structure Counted (retried : Nat) (r : ResolutionRow) : Prop where
  attempts : r.attempts = retried
  bound : maxResolveAttempts ≤ r.attempts → r.status = .failed
  token : r.processingToken.isSome = true → r.status = .processing

structure Counting (s₀ : Pool) (ls : List Label) (s : Pool) : Prop where
  row : ∀ r, s.store.row = some r → Counted s.store.retried r
  plain : ∀ p, (s.thread p).Plain false true
  holder : ∀ p now attempts r, s.thread p = .holding now attempts → s.store.row = some r →
    r.processingToken = some p → r.attempts = attempts ∨ ClaimedStale s₀ p ls

section counted

variable {retried : Nat} {r : ResolutionRow}

theorem Counted.lt (h : Counted retried r) (hs : r.status ≠ .failed) :
    r.attempts < maxResolveAttempts := by
  by_contra hle
  exact hs (h.bound (by omega))

theorem Counted.keep (h : Counted retried r) (hs : r.status ≠ .failed) {r' : ResolutionRow}
    (ha : r'.attempts = r.attempts)
    (ht : r'.processingToken.isSome = true → r'.status = .processing) : Counted retried r' where
  attempts := ha.trans h.attempts
  bound hle := by
    have hlt := h.lt hs
    omega
  token := ht

theorem claimable_not_failed {now : Nat} (h : claimable now r = true) : r.status ≠ .failed := by
  intro hf
  simp [claimable,hf] at h

theorem stale_not_failed {now : Nat} (h : stale now r = true) : r.status ≠ .failed := by
  intro hf
  simp [stale,hf] at h

theorem waiting_not_failed (h : waiting r = true) : r.status ≠ .failed := by
  intro hf
  simp [waiting,hf] at h

theorem Counted.not_failed_of_owner (h : Counted retried r) {p : Nat}
    (owner : r.processingToken = some p) : r.status ≠ .failed := by
  have hp := h.token (by rw [owner]; rfl)
  rw [hp]
  decide

theorem Counted.newRow (now : Nat) : Counted 0 (newRow now) :=
  ⟨rfl,fun h => absurd h (Nat.not_succ_le_zero 7),fun h => by cases h⟩

theorem Counted.retry (h : Counted retried r) (delaySeconds now : Nat) (error : String) :
    Counted (retried + 1) (retry (r.attempts + 1) delaySeconds now error r) where
  attempts := congrArg (· + 1) h.attempts
  bound hle := if_pos hle
  token h := by cases h

end counted

theorem Start.counting {s₀ : Pool} (h : Start false true s₀) : Counting s₀ [] s₀ where
  row r hr := by
    rw [h.row] at hr
    cases hr
  plain p := (h.entry p).plain
  holder p now attempts r hp _ _ := by
    have he := h.entry p
    rw [hp] at he
    cases he

theorem Counting.write {s₀ s : Pool} {ls : List Label} {p : Nat} {i : Answer} {t : Store}
    (h : Counting s₀ ls s) (hw : Write i p s.store (s.thread p) t)
    (hfresh : ¬(ClaimedStale s₀ p ls ∧ EffectiveRetry p (.act p i) s)) {r' : ResolutionRow}
    (hr' : t.row = some r') : Counted t.retried r' := by
  have hplain := h.plain p
  have hholder := h.holder p
  generalize hx : s.thread p = x at hw hplain hholder
  cases hw with
  | same => exact h.row r' hr'
  | insert =>
    cases hr'
    exact .newRow i.now
  | @claim now attempts r hr free =>
    cases hr'
    exact (h.row r hr).keep (claimable_not_failed free) rfl fun _ => rfl
  | @retry now attempts delaySeconds error r hi hr owner =>
    cases hr'
    rcases hholder now attempts r rfl hr owner with ha | hc
    · rw [← ha]
      exact (h.row r hr).retry delaySeconds i.now error
    · refine absurd ⟨hc,i,now,attempts,error,delaySeconds,rfl,hx,hi,?_⟩ hfresh
      rw [hr,Statement.hits_some]
      exact decide_eq_true owner
  | @defer now attempts delaySeconds error r hi hr owner =>
    cases hr'
    have hrow := h.row r hr
    exact hrow.keep (hrow.not_failed_of_owner owner) rfl fun h => by cases h
  | @complete now attempts status reason r hi hr owner =>
    cases hr'
    have hrow := h.row r hr
    exact hrow.keep (hrow.not_failed_of_owner owner) rfl fun h => by cases h
  | reopen => cases hplain
  | @sweep now r hr old =>
    cases hr'
    exact (h.row r hr).keep (stale_not_failed old) rfl fun h => by cases h
  | @mark now r hr waits =>
    cases hr'
    exact (h.row r hr).keep (waiting_not_failed waits) rfl fun h => by cases h

theorem Counting.step {s₀ s t : Pool} {as : List Label} {l : Label}
    (hs : (machine false).run as s₀ = some s) (h : Counting s₀ as s)
    (hl : (machine false).step l s = some t)
    (hfresh : ∀ p, ¬(ClaimedStale s₀ p as ∧ EffectiveRetry p l s)) :
    Counting s₀ (as ++ [l]) t := by
  cases l with
  | env e =>
    obtain ⟨hd,rfl⟩ := step_event.mp hl
    cases e with
    | tick ms =>
      exact ⟨h.row,h.plain,fun p now attempts r hp hr owner =>
        (h.holder p now attempts r hp hr owner).imp_right fun hc => hc.append _⟩
    | purgeTerminal | deleteActivity | deleteRemoteActor => cases hd rfl
  | act p i =>
    obtain ⟨_,rfl⟩ := step_worker.mp hl
    have hw := work_write i p s.store (s.thread p)
    refine ⟨fun r' hr' => h.write hw (hfresh p) hr',fun q => ?_,fun q => ?_⟩
    · by_cases hq : q = p
      · subst hq
        simp only [Function.update_self]
        exact plain_work (h.plain q)
      · simp only [Function.update_of_ne hq]
        exact h.plain q
    · intro now attempts r hth hr owner
      by_cases hq : q = p
      · subst hq
        simp only [Function.update_self] at hth
        obtain ⟨hx,r₀,hr₀,free,hrow⟩ := work_holding hth
        have heq : claim q now r₀ = r := Option.some.inj (hrow.symm.trans hr)
        by_cases ha : r₀.attempts = attempts
        · exact .inl (heq ▸ ha)
        · exact .inr ⟨as,.act q i,[],s,rfl,hs,i,now,attempts,r₀,rfl,hx,hr₀,free,ha⟩
      · simp only [Function.update_of_ne hq] at hth
        have hr₀ := hw.row_of_token (Ne.symm hq) hr owner
        exact (h.holder q now attempts r hth hr₀ owner).imp_right fun hc => hc.append _

theorem run_counting {s₀ t : Pool} (h : Start false true s₀) {ls : List Label}
    (hr : (machine false).run ls s₀ = some t) : ¬RetriesStale s₀ ls → Counting s₀ ls t := by
  refine Machine.run_history (P := fun ls t => ¬RetriesStale s₀ ls → Counting s₀ ls t)
    (fun _ => h.counting) (fun as l u v hu ih hl hno => ?_) hr
  refine (ih fun hr => hno (hr.append _)).step hu hl fun p hp => ?_
  exact hno ⟨p,as,l,[],u,v,rfl,hu,hl,hp.1,hp.2⟩

section attempts

variable {s₀ s t : Pool} {as : List Label} {l : Label}

/-- The retry writes what the holder of the claim remembers. -/
theorem effectiveRetry_row {p : Nat} (he : EffectiveRetry p l s)
    (hl : (machine false).step l s = some t) {r r' : ResolutionRow} (hr : s.store.row = some r)
    (hr' : t.store.row = some r') :
    ∃ now attempts, s.thread p = .holding now attempts ∧ r.processingToken = some p ∧
      r'.attempts = attempts + 1 := by
  obtain ⟨i,now,attempts,error,delaySeconds,rfl,hx,hi,hits⟩ := he
  obtain ⟨_,rfl⟩ := step_worker.mp hl
  rw [hr,Statement.hits_some] at hits
  refine ⟨now,attempts,hx,of_decide_eq_true hits,?_⟩
  simp only [hx,work,finish,hi,hr,Statement.update_some,hits,if_true] at hr'
  cases hr'
  rfl

theorem Counting.other (h : Counting s₀ as s) (hl : (machine false).step l s = some t)
    (he : ∀ p, ¬EffectiveRetry p l s) {r r' : ResolutionRow} (hr : s.store.row = some r)
    (hr' : t.store.row = some r') : r'.attempts = r.attempts := by
  cases l with
  | env e =>
    obtain ⟨hd,rfl⟩ := step_event.mp hl
    cases e with
    | tick ms => exact congrArg _ (Option.some.inj (hr'.symm.trans hr))
    | purgeTerminal | deleteActivity | deleteRemoteActor => cases hd rfl
  | act p i =>
    obtain ⟨_,rfl⟩ := step_worker.mp hl
    have hw := work_write i p s.store (s.thread p)
    have hplain := h.plain p
    have heff := he p
    generalize (work i p s.store (s.thread p)).1 = u at hw hr'
    generalize hx : s.thread p = x at hw hplain
    cases hw with
    | same => exact congrArg _ (Option.some.inj (hr'.symm.trans hr))
    | insert _ hnone => cases hnone.symm.trans hr
    | retry hi hr₀ owner =>
      refine absurd ⟨i,_,_,_,_,rfl,hx,hi,?_⟩ heff
      rw [hr₀,Statement.hits_some]
      exact decide_eq_true owner
    | reopen => cases hplain
    | claim hr₀ | defer _ hr₀ | complete _ hr₀ | sweep hr₀ | mark hr₀ =>
      cases hr₀.symm.trans hr
      cases hr'
      rfl

theorem Counting.attemptsAt (h : Counting s₀ as s) (ht : Counting s₀ (as ++ [l]) t)
    (hl : (machine false).step l s = some t)
    (hfresh : ∀ p, ¬(ClaimedStale s₀ p as ∧ EffectiveRetry p l s)) : AttemptsAt s l t where
  fenced p i now attempts hlp hx hits := by
    subst hlp
    obtain ⟨_,rfl⟩ := step_worker.mp hl
    simp only [hx,work,finish_of_not_owner hits]
  retry p r r' he hr hr' := by
    obtain ⟨now,attempts,hx,owner,ha⟩ := effectiveRetry_row he hl hr hr'
    rcases h.holder p now attempts r hx hr owner with hn | hc
    · rw [ha,hn]
    · exact absurd ⟨hc,he⟩ (hfresh p)
  other r r' he hr hr' := h.other hl he hr hr'
  failed r hle hr := by
    have hrow := ht.row r hr
    exact hrow.bound (by rw [hrow.attempts]; exact hle)

end attempts

def Remembers (p attempts : Nat) (s : Pool) : Prop :=
  (∃ now, s.thread p = .holding now attempts ∧
    ∀ r, s.store.row = some r → r.processingToken = some p → r.attempts ≠ attempts) ∨
      s.thread p = .done

theorem StaleClaim.remembers {p : Nat} {l : Label} {s t : Pool} (h : StaleClaim p l s)
    (hl : (machine false).step l s = some t) : ∃ attempts, Remembers p attempts t := by
  obtain ⟨i,now,attempts,r,rfl,hx,hr,free,hne⟩ := h
  obtain ⟨_,rfl⟩ := step_worker.mp hl
  refine ⟨attempts,.inl ⟨now,?_,fun r' hr' _ => ?_⟩⟩
  · simp only [hx,work,hr,Statement.hits_some,free,if_true,Function.update_self]
  · simp only [hx,work,hr,Statement.update_some,free,if_true] at hr'
    cases hr'
    exact hne

theorem Remembers.step {p attempts : Nat} {l : Label} {s t : Pool} (h : Remembers p attempts s)
    (hl : (machine false).step l s = some t) : Remembers p attempts t := by
  cases l with
  | env e =>
    obtain ⟨hd,rfl⟩ := step_event.mp hl
    cases e with
    | tick ms => exact h
    | purgeTerminal | deleteActivity | deleteRemoteActor => cases hd rfl
  | act q i =>
    obtain ⟨hlive,rfl⟩ := step_worker.mp hl
    by_cases hq : p = q
    · subst hq
      rcases h with ⟨now,hx,_⟩ | hx
      · exact .inr (by simp only [Function.update_self,hx,work])
      · exact absurd hx hlive.1
    · simp only [Remembers,Function.update_of_ne hq]
      rcases h with ⟨now,hx,ha⟩ | hx
      · left
        refine ⟨now,hx,?_⟩
        intro r hr owner
        exact ha r ((work_write i q s.store _).row_of_token (Ne.symm hq) hr owner) owner
      · exact .inr hx

/-- The attempts are kept in exactly the runs in which nobody retries on a stale claim. -/
theorem attempts_kept_iff {s₀ : Pool} (h : Start false true s₀) (ls : List Label) :
    AttemptsKept s₀ ls ↔ ¬RetriesStale s₀ ls := by
  constructor
  · rintro hk ⟨p,as,l,bs,u,v,rfl,hu,hl,⟨cs,k,ds,w,rfl,hw,hstale⟩,he⟩
    obtain ⟨w',w'',hw',hk',hds⟩ := Machine.run_split hu
    obtain rfl : w = w' := Option.some.inj (hw.symm.trans hw')
    obtain ⟨attempts,hrem⟩ := hstale.remembers hk'
    have hu' : Remembers p attempts u :=
      Machine.run_invariant hrem (fun _ _ _ ha hl => ha.step hl) hds
    obtain ⟨i,now,attempts',error,delaySeconds,rfl,hx,hi,hits⟩ := id he
    obtain ⟨r,hr,owner⟩ := Statement.hits_iff.mp hits
    have hv : v.store.row = some (retry (attempts' + 1) delaySeconds i.now error r) := by
      obtain ⟨_,rfl⟩ := step_worker.mp hl
      simp only [hx,work,finish,hi,hr,Statement.update_some,owner,if_true]
    have hsucc := (hk _ _ _ u v rfl hu hl).retry p r _ he hr hv
    rcases hu' with ⟨now',hx',hne⟩ | hx'
    · cases hx.symm.trans hx'
      exact hne r hr (of_decide_eq_true owner) (Nat.succ.inj hsucc).symm
    · cases hx.symm.trans hx'
  · intro hno as l bs s t hls hs hl
    have hfresh : ∀ p, ¬(ClaimedStale s₀ p as ∧ EffectiveRetry p l s) := fun p hp =>
      hno ⟨p,as,l,bs,s,t,hls,hs,hl,hp.1,hp.2⟩
    have hcount : Counting s₀ as s := run_counting h hs fun hr => hno (hls ▸ hr.append _)
    exact hcount.attemptsAt (hcount.step hs hl hfresh) hl hfresh

/-- Run 0 inserts the row and publishes it; all others resolve it. -/
def onePublisher : Pool :=
  ⟨⟨0,none,false,0,0⟩,fun p => if p = 0 then .enqueue false else .start⟩

theorem start_onePublisher (reopens sweeps : Bool) : Start reopens sweeps onePublisher where
  row := rfl
  history := ⟨rfl,rfl⟩
  entry p := by
    by_cases hp : p = 0
    · simp only [onePublisher,hp,if_true]
      exact .enqueue
    · simp only [onePublisher,hp,if_false]
      exact .start

def answer (now : Nat) (error : String) : Answer := ⟨now,.retry error 60⟩

/-- Run 2 claims and retries between the `SELECT` and the claim of run 1, and before the
publisher marks the row. -/
def overtakenRun : List Label :=
  let act p : Label := .act p (answer 0 "fetch failed")
  [act 0,act 0,act 0,act 0,act 1,act 1,act 2,act 2,act 2,act 2,act 0,act 1]

theorem attempts_kept_iff_overtaken :
    AttemptsKept onePublisher overtakenRun ↔ ¬RetriesStale onePublisher overtakenRun :=
  attempts_kept_iff (start_onePublisher false true) overtakenRun

/-- The retry of run 1 takes effect and leaves the attempts at one. -/
theorem overtaken_retry_lost :
    ¬∀ s₀ ls, Start false true s₀ → AttemptsKept s₀ ls := by
  intro h
  have hrun : ((machine false).run overtakenRun onePublisher).map
      (fun s => (s.thread 1,s.store.row.map fun r => (r.attempts,r.processingToken))) =
        some (.holding 0 0,some (1,some 1)) := by decide
  obtain ⟨s,hs,hx⟩ := Option.map_eq_some_iff.mp hrun
  obtain ⟨hthread,hrow⟩ := Prod.mk.inj hx
  obtain ⟨r,hr,hx⟩ := Option.map_eq_some_iff.mp hrow
  obtain ⟨ha,owner⟩ := Prod.mk.inj hx
  have hl : ∃ t, (machine false).step (.act 1 (answer 0 "fetch failed")) s = some t ∧
      t.store.row = some (retry 1 60 0 "fetch failed" r) := by
    refine ⟨_,step_worker.mpr ⟨⟨?_,?_⟩,rfl⟩,?_⟩
    · rw [hthread]
      decide
    · simp [hthread,clockAllowed,answer]
    · simp [hthread,work,finish,answer,hr,owns,owner]
  obtain ⟨t,hl,ht⟩ := hl
  have hkept := h onePublisher (overtakenRun ++ [.act 1 (answer 0 "fetch failed")])
    (start_onePublisher false true) overtakenRun _ [] s t rfl hs hl
  have hsucc := hkept.retry 1 r _ ?_ hr ht
  · rw [ha] at hsucc
    simp [retry] at hsucc
  · refine ⟨_,0,0,"fetch failed",60,rfl,hthread,rfl,?_⟩
    simp [hr,owns,owner]

end Yurucommu.Resolution
