import Yurucommu.InboxDispatch

/-!
When the dispatch of an inbound activity happens once: exactly in the runs in which no
delivery obtains its claim after a commit that its read of `processed` did not see.
-/

set_option autoImplicit false

namespace Yurucommu.Inbox

def Committed (s : Pool) : Prop := ∃ a, s.store.activity = some a ∧ a ≠ .unprocessed

def Delivery.Unread (d : Delivery) : Prop :=
  d = .insertActivity ∨ d = .insertClaim ∨ d = .readProcessed

def Delivery.Dispatching (d : Delivery) : Prop := d = .dispatch ∨ ∃ state, d = .commit state

def Delivery.Leaving (d : Delivery) : Prop := d = .clear ∨ d = .release ∨ d = .done

theorem step_activity {l : Label} {s t : Pool} (h : machine.step l s = some t) :
    t.store.activity = s.store.activity ∨
      s.store.activity = none ∧ t.store.activity = some .unprocessed ∨
        (∃ p, Commits p l s) ∧ Committed t := by
  cases l with
  | env ms =>
    left
    rw [step_tick.mp h]
    rfl
  | act p i =>
    obtain ⟨_,rfl⟩ := step_delivery.mp h
    cases hd : s.thread p with
    | insertActivity =>
      cases ha : s.store.activity with
      | none => exact .inr (.inl ⟨rfl,by simp [work,ha]⟩)
      | some a => exact .inl (by simp [work,ha])
    | commit state =>
      cases hf : i.fails with
      | true => exact .inl (by simp [work,hf])
      | false =>
        cases hh : Statement.hits (holds p) s.store.claim with
        | false =>
          left
          simp only [work,hf,commitActivity,hh]
          exact Statement.update_of_not_hits (by cases s.store.activity <;> rfl)
        | true =>
          cases ha : s.store.activity with
          | none => exact .inl (by simp [work,hf,commitActivity,ha])
          | some a =>
            obtain ⟨r,hr,hp⟩ := Statement.hits_iff.mp hh
            have hown : r.processingToken = some p := by simpa [holds] using hp
            refine .inr (.inr ⟨⟨p,i,state,r,rfl,hd,hf,by rw [ha]; rfl,hr,hown⟩,state.1,?_,state.2⟩)
            simp [work,hf,commitActivity,hh,ha]
    | clear =>
      left
      simp only [work]
      split <;> rfl
    | insertClaim | readProcessed | claim | dispatch | release | done => exact .inl rfl

theorem step_claim {l : Label} {s t : Pool} (h : machine.step l s = some t) :
    t.store.claim = s.store.claim ∨
      t.store.claim = some ⟨none,none⟩ ∨
        ∃ p i r, Obtains p l s ∧ t.store.claim = some (take p i r) ∧
          t.thread p = .dispatch := by
  cases l with
  | env ms =>
    left
    rw [step_tick.mp h]
    rfl
  | act p i =>
    obtain ⟨⟨_,hnow⟩,rfl⟩ := step_delivery.mp h
    cases hd : s.thread p with
    | insertClaim =>
      cases hc : s.store.claim with
      | none => exact .inr (.inl (by simp [work,hc]))
      | some r => exact .inl (by simp [work,hc])
    | claim =>
      rcases Statement.update_cases (free i.now) (take p i.now) s.store.claim with
        hu | ⟨r,hr,hf,hu⟩
      · exact .inl (by simp only [work]; exact hu)
      · refine .inr (.inr ⟨p,i.now,r,⟨i,r,rfl,hnow,hd,hr,hf⟩,by simp only [work]; exact hu,?_⟩)
        simp [work,hr,hf]
    | clear =>
      simp only [work]
      split
      · exact .inl rfl
      · rcases Statement.update_cases (holds p) clearClaim s.store.claim with hu | ⟨r,_,_,hu⟩
        · exact .inl hu
        · exact .inr (.inl hu)
    | release =>
      rcases Statement.update_cases (holds p) clearClaim s.store.claim with hu | ⟨r,_,_,hu⟩
      · exact .inl hu
      · exact .inr (.inl hu)
    | commit state =>
      left
      simp only [work]
      split <;> rfl
    | insertActivity | readProcessed | dispatch | done => exact .inl rfl

theorem Committed.step {l : Label} {s t : Pool} (h : Committed s)
    (hl : machine.step l s = some t) : Committed t := by
  obtain ⟨a,ha,hne⟩ := h
  rcases step_activity hl with hs | ⟨hn,_⟩ | ⟨_,hc⟩
  · exact ⟨a,hs.trans ha,hne⟩
  · rw [ha] at hn
    cases hn
  · exact hc

theorem HoldsLease.excludes {p q : Nat} {l : Label} {s : Pool} (h : HoldsLease p s) :
    ¬Obtains q l s := by
  rintro ⟨i,r,rfl,hnow,_,hr,hf⟩
  obtain ⟨r',at_,hr',htok,hat,hlt⟩ := h
  rw [hr] at hr'
  cases hr'
  simp only [free,htok,hat,Option.isNone_some,Option.any_some,Bool.false_or,
    decide_eq_true_eq] at hf
  omega

/-- The invariant of the runs in which every claim was obtained on an unprocessed
activity: the holder of a claim is past it, and of a committed activity's it is leaving. -/
structure Fenced (s : Pool) : Prop where
  holder : ∀ q r, s.store.claim = some r → r.processingToken = some q →
    (s.thread q).Dispatching ∨ (s.thread q).Leaving
  leaving : Committed s → ∀ q r, s.store.claim = some r → r.processingToken = some q →
    (s.thread q).Leaving

theorem thread_step {q : Nat} {l : Label} {s t : Pool} (hl : machine.step l s = some t) :
    ((s.thread q).Leaving → (t.thread q).Leaving) ∧
      ((s.thread q).Dispatching → (t.thread q).Dispatching ∨ (t.thread q).Leaving) := by
  cases l with
  | env ms =>
    rw [Threads.thread_of_env hl]
    exact ⟨id,.inl⟩
  | act p i =>
    by_cases hq : q = p
    · subst hq
      obtain ⟨⟨hnd,_⟩,rfl⟩ := step_delivery.mp hl
      simp only [Function.update_self]
      constructor
      · rintro (h | h | h)
        · rw [h]
          simp only [work]
          split
          · exact .inr (.inl rfl)
          · exact .inr (.inr rfl)
        · rw [h]
          exact .inr (.inr rfl)
        · exact absurd h hnd
      · rintro (h | ⟨state,h⟩)
        · rw [h]
          simp only [work]
          split
          · exact .inl (.inr ⟨_,rfl⟩)
          · exact .inr (.inr (.inl rfl))
        · rw [h]
          right
          simp only [work]
          split
          · exact .inr (.inl rfl)
          · dsimp only
            split
            · exact .inl rfl
            · exact .inr (.inl rfl)
    · rw [Threads.thread_of_act_ne hl hq]
      exact ⟨id,.inl⟩

theorem Commits.leaving {p : Nat} {l : Label} {s t : Pool} (h : Commits p l s)
    (hl : machine.step l s = some t) : (t.thread p).Leaving := by
  obtain ⟨i,state,r,rfl,hd,hf,_,_,_⟩ := h
  obtain ⟨_,rfl⟩ := step_delivery.mp hl
  simp only [Function.update_self,hd,work,hf,Bool.false_eq_true,if_false]
  split
  · exact .inl rfl
  · exact .inr (.inl rfl)

def ClaimsUnprocessed (s : Pool) (l : Label) (_ : Pool) : Prop :=
  ∀ p, Obtains p l s → s.store.activity = some .unprocessed

theorem Fenced.step {l : Label} {s t : Pool} (h : Fenced s) (hl : machine.step l s = some t)
    (hc : ClaimsUnprocessed s l t) : Fenced t := by
  have holder : ∀ q r, t.store.claim = some r → r.processingToken = some q →
      (t.thread q).Dispatching ∨ (t.thread q).Leaving := by
    intro q r hr htok
    rcases step_claim hl with hs | hs | ⟨p,i,r',_,hs,hth⟩
    · rcases h.holder q r (hs ▸ hr) htok with hd | hd
      · exact (thread_step hl).2 hd
      · exact .inr ((thread_step hl).1 hd)
    · rw [hs] at hr
      cases hr
      cases htok
    · rw [hs] at hr
      cases hr
      cases htok
      exact .inl (.inl hth)
  refine ⟨holder,fun hcom q r hr htok => ?_⟩
  rcases step_activity hl with ha | ⟨_,ha⟩ | ⟨⟨p,hp⟩,_⟩
  · -- the activity was committed before the step
    obtain ⟨a,hat,hne⟩ := hcom
    have hcs : Committed s := ⟨a,ha ▸ hat,hne⟩
    rcases step_claim hl with hs | hs | ⟨p,i,r',hob,hs,_⟩
    · exact (thread_step hl).1 (h.leaving hcs q r (hs ▸ hr) htok)
    · rw [hs] at hr
      cases hr
      cases htok
    · obtain ⟨a',ha',hne'⟩ := hcs
      rw [hc p hob] at ha'
      cases ha'
      exact absurd rfl hne'
  · obtain ⟨a,hat,hne⟩ := hcom
    rw [ha] at hat
    cases hat
    exact absurd rfl hne
  · -- the step is the commit: only its own delivery holds the claim
    have hleave := hp.leaving hl
    obtain ⟨i,state,r',rfl,hd,hf,_,hr',htok'⟩ := hp
    have hsame : t.store.claim = s.store.claim := by
      obtain ⟨_,rfl⟩ := step_delivery.mp hl
      simp only [hd,work,hf]
      rfl
    rw [hsame,hr'] at hr
    cases hr
    rw [htok'] at htok
    cases htok
    exact hleave

theorem fenced_start : Fenced start where
  holder _ _ h := by cases h
  leaving _ _ _ h := by cases h

theorem done_stays {q : Nat} {s t : Pool} {ls : List Label} (h : s.thread q = .done)
    (hr : machine.run ls s = some t) : t.thread q = .done := by
  refine Machine.run_invariant (P := fun s : Pool => s.thread q = .done) h ?_ hr
  intro a l b ha hl
  cases l with
  | env ms => rw [Threads.thread_of_env hl,ha]
  | act p i =>
    by_cases hq : q = p
    · subst hq
      exact absurd ha (step_delivery.mp hl).1.1
    · rw [Threads.thread_of_act_ne hl hq,ha]

theorem unread_breaks {q : Nat} {l : Label} {s t : Pool} (hl : machine.step l s = some t)
    (hs : (s.thread q).Unread) (ht : ¬(t.thread q).Unread) :
    ∃ i, l = .act q i ∧ s.thread q = .readProcessed ∧
      (t.thread q = .done ∨ t.store.activity = some .unprocessed) := by
  cases l with
  | env ms =>
    rw [Threads.thread_of_env hl] at ht
    exact absurd hs ht
  | act p i =>
    by_cases hq : q = p
    · subst hq
      obtain ⟨_,rfl⟩ := step_delivery.mp hl
      simp only [Function.update_self] at ht ⊢
      rcases hs with h | h | h
      · rw [h] at ht
        exact absurd (.inr (.inl rfl)) ht
      · rw [h] at ht
        exact absurd (.inr (.inr rfl)) ht
      · refine ⟨i,rfl,h,?_⟩
        rw [h]
        by_cases ha : s.store.activity = some .unprocessed
        · exact .inr (by simp [work,ha])
        · exact .inl (by simp [work,ha])
    · rw [Threads.thread_of_act_ne hl hq] at ht
      exact absurd hs ht

theorem read_before {q : Nat} {s : Pool} {ls : List Label} (hr : machine.run ls start = some s)
    (hq : s.thread q = .claim) :
    ∃ as i bs u v, ls = as ++ .act q i :: bs ∧ machine.run as start = some u ∧
      u.thread q = .readProcessed ∧ machine.step (.act q i) u = some v ∧
        v.store.activity = some .unprocessed ∧ machine.run bs v = some s := by
  have hend : ¬(s.thread q).Unread := by
    rw [hq]
    rintro (h | h | h) <;> cases h
  obtain ⟨as,l,bs,u,v,rfl,ha,hu,hl,hv,hb⟩ :=
    Machine.run_breaks (P := fun s : Pool => (s.thread q).Unread) (.inl rfl) hend hr
  obtain ⟨i,rfl,hread,hd | hact⟩ := unread_breaks hl hu hv
  · rw [done_stays hd hb] at hq
    cases hq
  · exact ⟨as,i,bs,u,v,rfl,ha,hread,hl,hact,hb⟩

theorem commit_between {s t : Pool} {ls : List Label} (hr : machine.run ls s = some t)
    (hs : s.store.activity = some .unprocessed) (ht : t.store.activity ≠ some .unprocessed) :
    ∃ as l bs u, ls = as ++ l :: bs ∧ machine.run as s = some u ∧ ∃ p, Commits p l u := by
  obtain ⟨as,l,bs,u,v,rfl,ha,hu,hl,hv,_⟩ :=
    Machine.run_breaks (P := fun s : Pool => s.store.activity = some .unprocessed) hs ht hr
  refine ⟨as,l,bs,u,rfl,ha,?_⟩
  rcases step_activity hl with hsame | ⟨_,hin⟩ | ⟨hp,_⟩
  · exact absurd (hsame.trans hu) hv
  · exact absurd hin hv
  · exact hp

/-- A claim on a processed activity was overtaken by a commit. -/
theorem overtaken_of_processed {q : Nat} {s : Pool} {as bs : List Label} {l : Label}
    (hr : machine.run as start = some s) (hob : Obtains q l s)
    (hne : s.store.activity ≠ some .unprocessed) : Overtaken start (as ++ l :: bs) := by
  have hq : s.thread q = .claim := by
    obtain ⟨_,_,_,_,hq,_⟩ := hob
    exact hq
  obtain ⟨cs,i,ds,u,v,rfl,hc,hread,hstep,hact,hd⟩ := read_before hr hq
  obtain ⟨es,k,fs,w,rfl,he,hp⟩ := commit_between hd hact hne
  have hmid : machine.run (cs ++ .act q i :: es) start = some w := by
    rw [Machine.run_append,hc,Option.bind_some]
    simp [Machine.run,hstep,he]
  refine ⟨q,i,cs,es,fs,bs,k,l,u,w,s,by simp,hc,hread,hmid,hp,?_,hob⟩
  simpa using hr

/-- A run that no commit overtakes dispatches once, and only such a run does. -/
theorem dispatched_once_iff (ls : List Label) :
    DispatchedOnce start ls ↔ ¬Overtaken start ls := by
  constructor
  · rintro hd ⟨q,i,as,bs,cs,ds,l,k,s₁,s₂,s₃,rfl,_,_,h₂,⟨p,hp⟩,h₃,hob⟩
    -- the commit left its mark, and the claim comes after it
    obtain ⟨u,v,hu,hl,hv⟩ := Machine.run_split h₃
    rw [h₂] at hu
    cases hu
    have hcom : Committed v := by
      obtain ⟨j,state,r,rfl,hth,hf,hsome,hr,htok⟩ := hp
      obtain ⟨_,rfl⟩ := step_delivery.mp hl
      obtain ⟨a,ha⟩ := Option.isSome_iff_exists.mp hsome
      refine ⟨state.1,?_,state.2⟩
      simp [hth,work,hf,commitActivity,ha,hr,holds,htok]
    have hcom₃ : Committed s₃ :=
      Machine.run_invariant hcom (fun _ _ _ h hl => h.step hl) hv
    obtain ⟨j,r,rfl,hnow,hth,hr,hf⟩ := hob
    have hstep : machine.step (.act q j) s₃ = some _ :=
      step_delivery.mpr ⟨⟨by rw [hth]; decide,hnow⟩,rfl⟩
    have hone := hd _ _ _ _ _ rfl h₃ hstep
    obtain ⟨a,ha,hne⟩ := hcom₃
    have hun := hone.claimed q ⟨j,r,rfl,hnow,hth,hr,hf⟩
    rw [ha] at hun
    cases hun
    exact hne rfl
  · intro hno as l bs s t hls hr hl
    have claimed : ∀ cs k ds u, ls = cs ++ k :: ds → machine.run cs start = some u →
        ∀ p, Obtains p k u → u.store.activity = some .unprocessed := by
      intro cs k ds u he hu p hob
      by_contra hne
      exact hno (he ▸ overtaken_of_processed hu hob hne)
    have hfenced : Fenced s := by
      have hby : machine.ReachesBy ClaimsUnprocessed start s := by
        refine Machine.run_reachesBy (fun cs k ds u v he hu _ => ?_) hr
        exact claimed cs k (ds ++ l :: bs) u (by rw [hls,he]; simp) hu
      exact hby.invariant fenced_start fun _ _ _ h hl hc => h.step hl hc
    refine ⟨claimed as l bs s hls hr,fun a b ha hb hne => ?_,fun p q h => h.excludes⟩
    rcases step_activity hl with hsame | ⟨hnone,_⟩ | ⟨⟨p,hp⟩,_⟩
    · rw [ha,hb] at hsame
      cases hsame
      exact absurd rfl hne
    · rw [ha] at hnone
      cases hnone
    · obtain ⟨i,state,r,rfl,hth,hf,hsome,hrow,htok⟩ := hp
      refine ⟨?_,p,i,r,rfl,hrow,htok⟩
      by_contra hproc
      have hleave := hfenced.leaving ⟨a,ha,hproc⟩ p r hrow htok
      rw [hth] at hleave
      rcases hleave with h | h | h <;> cases h

/-- Two deliveries read 0; one of them commits and clears its claim before the other
claims, dispatches again and commits the activity as undeliverable. -/
def overtakenRun : List Label :=
  [.act 0 {}, .act 0 {}, .act 0 {}, .act 1 {}, .act 1 {}, .act 1 {},
    .act 0 {}, .act 0 {}, .act 0 {}, .act 0 {},
    .act 1 {}, .act 1 { handler := some ⟨.undeliverable,Processed.undeliverable_ne⟩ }, .act 1 {}]

/-- Not every run dispatches an activity once. -/
theorem dispatched_twice : ¬∀ ls, DispatchedOnce start ls := by
  intro h
  have hrun : ((machine.run (overtakenRun.take 10) start).map fun s =>
      (s.store,s.thread 1)) = some (⟨0,some .done,some ⟨none,none⟩⟩,.claim) := by decide
  obtain ⟨s,hs,hst⟩ := Option.map_eq_some_iff.mp hrun
  have hstore : s.store = ⟨0,some .done,some ⟨none,none⟩⟩ := congrArg Prod.fst hst
  have hth : s.thread 1 = .claim := congrArg Prod.snd hst
  have hstep : machine.step (.act 1 {}) s = some _ :=
    step_delivery.mpr ⟨⟨by rw [hth]; decide,Nat.zero_le _⟩,rfl⟩
  have hone := h overtakenRun _ _ (overtakenRun.drop 11) s _ rfl hs hstep
  have hun := hone.claimed 1
    ⟨{},⟨none,none⟩,rfl,Nat.zero_le _,hth,by rw [hstore],rfl⟩
  rw [hstore] at hun
  cases hun

end Yurucommu.Inbox
