import Mathlib.Data.List.Induction
import Mathlib.Logic.Relation
import Mathlib.Logic.Function.Basic

/-!
Machines that take one labelled atomic step at a time, and threads that interleave
over a shared store. Every choice the environment makes is in the label, so a step
is a function and a concrete run can be evaluated.
-/

set_option autoImplicit false

/-- `step l s = none` refuses the label `l` in the state `s`. -/
structure Machine (σ ℓ : Type) where
  step : ℓ → σ → Option σ

namespace Machine

variable {σ ℓ : Type} {m : Machine σ ℓ}

def run (m : Machine σ ℓ) : List ℓ → σ → Option σ
  | [], s => some s
  | l :: ls, s => (m.step l s).bind (m.run ls)

theorem run_nil (s : σ) : m.run [] s = some s := rfl

theorem run_cons (l : ℓ) (ls : List ℓ) (s : σ) :
    m.run (l :: ls) s = (m.step l s).bind (m.run ls) := rfl

/-- One step whose state before, label and state after satisfy `C`. -/
def Next (m : Machine σ ℓ) (C : σ → ℓ → σ → Prop) (s t : σ) : Prop :=
  ∃ l, m.step l s = some t ∧ C s l t

/-- A run every step of which satisfies `C`. -/
def ReachesBy (m : Machine σ ℓ) (C : σ → ℓ → σ → Prop) : σ → σ → Prop :=
  Relation.ReflTransGen (m.Next C)

abbrev Reaches (m : Machine σ ℓ) : σ → σ → Prop :=
  m.ReachesBy fun _ _ _ => True

theorem ReachesBy.refl {C : σ → ℓ → σ → Prop} (s : σ) : m.ReachesBy C s s :=
  Relation.ReflTransGen.refl

theorem ReachesBy.trans {C : σ → ℓ → σ → Prop} {s t u : σ}
    (h : m.ReachesBy C s t) (k : m.ReachesBy C t u) : m.ReachesBy C s u :=
  Relation.ReflTransGen.trans h k

theorem ReachesBy.snoc {C : σ → ℓ → σ → Prop} {s t u : σ} {l : ℓ}
    (h : m.ReachesBy C s t) (hl : m.step l t = some u) (hc : C t l u) :
    m.ReachesBy C s u :=
  Relation.ReflTransGen.tail h ⟨l, hl, hc⟩

theorem ReachesBy.mono {C D : σ → ℓ → σ → Prop} {s t : σ}
    (hcd : ∀ s l t, C s l t → D s l t) (h : m.ReachesBy C s t) : m.ReachesBy D s t := by
  induction h with
  | refl => exact .refl s
  | tail _ hn ih =>
    obtain ⟨l, hl, hc⟩ := hn
    exact ih.snoc hl (hcd _ _ _ hc)

/-- What every step that meets `C` keeps, every run of such steps keeps. -/
theorem ReachesBy.invariant {C : σ → ℓ → σ → Prop} {P : σ → Prop} {s t : σ}
    (h : m.ReachesBy C s t) (hs : P s)
    (hstep : ∀ a l b, P a → m.step l a = some b → C a l b → P b) : P t := by
  induction h with
  | refl => exact hs
  | tail _ hn ih =>
    obtain ⟨l, hl, hc⟩ := hn
    exact hstep _ l _ ih hl hc

/-- A preorder that every step follows relates the ends of every run. -/
theorem ReachesBy.related {C : σ → ℓ → σ → Prop} {R : σ → σ → Prop} {s t : σ}
    (h : m.ReachesBy C s t) (hr : ∀ a, R a a) (ht : ∀ a b c, R a b → R b c → R a c)
    (hstep : ∀ a l b, m.step l a = some b → C a l b → R a b) : R s t := by
  induction h with
  | refl => exact hr s
  | tail _ hn ih =>
    obtain ⟨l, hl, hc⟩ := hn
    exact ht _ _ _ ih (hstep _ l _ hl hc)

/-- A run follows a run of another machine if each of its steps follows some steps of it. -/
theorem ReachesBy.simulated {τ κ : Type} {n : Machine τ κ} {C : σ → ℓ → σ → Prop}
    {R : σ → τ → Prop} {s t : σ} {a : τ} (h : m.ReachesBy C s t) (hs : R s a)
    (hstep : ∀ s l t a, R s a → m.step l s = some t → C s l t → ∃ b, n.Reaches a b ∧ R t b) :
    ∃ b, n.Reaches a b ∧ R t b := by
  induction h with
  | refl => exact ⟨a,.refl a,hs⟩
  | tail _ hn ih =>
    obtain ⟨b,hab,hb⟩ := ih
    obtain ⟨l,hl,hc⟩ := hn
    obtain ⟨c,hbc,hr⟩ := hstep _ l _ b hb hl hc
    exact ⟨c,hab.trans hbc,hr⟩

theorem Reaches.single {s t : σ} {l : ℓ} (h : m.step l s = some t) : m.Reaches s t :=
  Relation.ReflTransGen.single ⟨l,h,trivial⟩

theorem Reaches.of_run {s t : σ} {ls : List ℓ} (h : m.run ls s = some t) : m.Reaches s t := by
  induction ls generalizing s with
  | nil =>
    simp only [run_nil,Option.some.injEq] at h
    exact h ▸ ReachesBy.refl s
  | cons l ls ih =>
    simp only [run_cons,Option.bind_eq_some_iff] at h
    obtain ⟨u, hu, hr⟩ := h
    exact (Reaches.single hu).trans (ih hr)

theorem run_append {s : σ} (as bs : List ℓ) :
    m.run (as ++ bs) s = (m.run as s).bind (m.run bs) := by
  induction as generalizing s with
  | nil => rfl
  | cons a as ih =>
    simp only [List.cons_append,run_cons]
    cases m.step a s with
    | none => rfl
    | some u => exact ih

theorem run_snoc {s u t : σ} {as : List ℓ} {l : ℓ} (h : m.run as s = some u)
    (hl : m.step l u = some t) : m.run (as ++ [l]) s = some t := by
  rw [run_append,h,Option.bind_some]
  simp [run_nil,run_cons,hl]

theorem run_split {s t : σ} {as bs : List ℓ} {l : ℓ} (h : m.run (as ++ l :: bs) s = some t) :
    ∃ u v, m.run as s = some u ∧ m.step l u = some v ∧ m.run bs v = some t := by
  rw [run_append,Option.bind_eq_some_iff] at h
  obtain ⟨u,hu,h⟩ := h
  simp only [run_cons,Option.bind_eq_some_iff] at h
  obtain ⟨v,hv,h⟩ := h
  exact ⟨u,v,hu,hv,h⟩

theorem run_reachesBy {C : σ → ℓ → σ → Prop} {s t : σ} {ls : List ℓ}
    (hc : ∀ as l bs u v, ls = as ++ l :: bs → m.run as s = some u → m.step l u = some v →
      C u l v) (h : m.run ls s = some t) : m.ReachesBy C s t := by
  induction ls generalizing s with
  | nil =>
    simp only [run_nil,Option.some.injEq] at h
    exact h ▸ ReachesBy.refl s
  | cons l ls ih =>
    simp only [run_cons,Option.bind_eq_some_iff] at h
    obtain ⟨u,hu,hr⟩ := h
    have head : m.Next C s u := ⟨l,hu,hc [] l ls s u rfl rfl hu⟩
    refine (Relation.ReflTransGen.single head).trans (ih (fun as k bs v w he ha hk => ?_) hr)
    exact hc (l :: as) k bs v w (by rw [he,List.cons_append]) (by simp [run_cons,hu,ha]) hk

/-- A run that ends outside `P` has a step that leaves `P`. -/
theorem run_breaks {P : σ → Prop} {s t : σ} {ls : List ℓ} (hs : P s) (ht : ¬P t)
    (h : m.run ls s = some t) :
    ∃ as l bs u v, ls = as ++ l :: bs ∧ m.run as s = some u ∧ P u ∧
      m.step l u = some v ∧ ¬P v ∧ m.run bs v = some t := by
  induction ls generalizing s with
  | nil =>
    simp only [run_nil,Option.some.injEq] at h
    exact absurd (h ▸ hs) ht
  | cons l ls ih =>
    simp only [run_cons,Option.bind_eq_some_iff] at h
    obtain ⟨v,hl,hr⟩ := h
    by_cases hv : P v
    · obtain ⟨as,k,bs,u,w,rfl,ha,hu,hk,hw,hb⟩ := ih hv hr
      exact ⟨l :: as,k,bs,u,w,rfl,by simp [run_cons,hl,ha],hu,hk,hw,hb⟩
    · exact ⟨[],l,ls,s,v,rfl,rfl,hs,hl,hv,hr⟩

/-- A property of the state and of the labels taken so far, by induction on the run. -/
theorem run_history {P : List ℓ → σ → Prop} {s : σ} (hs : P [] s)
    (hstep : ∀ as l u v, m.run as s = some u → P as u → m.step l u = some v → P (as ++ [l]) v)
    {ls : List ℓ} {t : σ} (h : m.run ls s = some t) : P ls t := by
  induction ls using List.reverseRecOn generalizing t with
  | nil =>
    simp only [run_nil,Option.some.injEq] at h
    exact h ▸ hs
  | append_singleton as l ih =>
    obtain ⟨u,v,hu,hl,hv⟩ := run_split h
    simp only [run_nil,Option.some.injEq] at hv
    subst hv
    exact hstep as l u v hu (ih hu) hl

theorem run_invariant {P : σ → Prop} {s t : σ} {ls : List ℓ} (hs : P s)
    (hstep : ∀ a l b, P a → m.step l a = some b → P b) (h : m.run ls s = some t) : P t :=
  (Reaches.of_run h).invariant hs fun a l b ha hl _ => hstep a l b ha hl

end Machine

/-- Threads numbered by `Nat` over one shared store. `next i p s x` is the atomic
statement of thread `p` whose local state is `x`, with `i` the answers it gets from
outside; `env e` is a statement of somebody else. -/
structure Threads (σ Λ ι ε : Type) where
  next : ι → Nat → σ → Λ → Option (σ × Λ)
  env : ε → σ → Option σ

namespace Threads

variable {σ Λ ι ε : Type}

structure Pool (σ Λ : Type) where
  store : σ
  thread : Nat → Λ

inductive Label (ι ε : Type) where
  | act : Nat → ι → Label ι ε
  | env : ε → Label ι ε

def step (T : Threads σ Λ ι ε) : Label ι ε → Pool σ Λ → Option (Pool σ Λ)
  | .act p i, s =>
      (T.next i p s.store (s.thread p)).map fun r =>
        ⟨r.1, Function.update s.thread p r.2⟩
  | .env e, s => (T.env e s.store).map fun r => ⟨r, s.thread⟩

def machine (T : Threads σ Λ ι ε) : Machine (Pool σ Λ) (Label ι ε) := ⟨T.step⟩

variable {T : Threads σ Λ ι ε}

theorem step_act {p : Nat} {i : ι} {s t : Pool σ Λ} :
    T.machine.step (.act p i) s = some t ↔
      ∃ x, T.next i p s.store (s.thread p) = some (t.store,x) ∧
        t.thread = Function.update s.thread p x := by
  cases t with
  | mk store thread =>
    simp only [machine, step, Option.map_eq_some_iff, Pool.mk.injEq, Prod.exists]
    constructor
    · rintro ⟨a,x,hn,rfl,rfl⟩
      exact ⟨x,hn,rfl⟩
    · rintro ⟨x,hn,rfl⟩
      exact ⟨store,x,hn,rfl,rfl⟩

theorem step_env {e : ε} {s t : Pool σ Λ} :
    T.machine.step (.env e) s = some t ↔
      T.env e s.store = some t.store ∧ t.thread = s.thread := by
  cases t with
  | mk store thread =>
    simp only [machine, step, Option.map_eq_some_iff, Pool.mk.injEq]
    constructor
    · rintro ⟨a,ha,rfl,rfl⟩
      exact ⟨ha,rfl⟩
    · rintro ⟨ha,rfl⟩
      exact ⟨store,ha,rfl,rfl⟩

/-- Threads whose statements are total functions wherever they are allowed. -/
def guarded (allowed : ι → σ → Λ → Bool) (work : ι → Nat → σ → Λ → σ × Λ)
    (possible : ε → σ → Bool) (happen : ε → σ → σ) : Threads σ Λ ι ε where
  next i p s x := if allowed i s x then some (work i p s x) else none
  env e s := if possible e s then some (happen e s) else none

section guarded

variable {allowed : ι → σ → Λ → Bool} {work : ι → Nat → σ → Λ → σ × Λ}
  {possible : ε → σ → Bool} {happen : ε → σ → σ}

theorem guarded_next {i : ι} {p : Nat} {s t : σ} {x y : Λ} :
    (guarded allowed work possible happen).next i p s x = some (t,y) ↔
      allowed i s x = true ∧ work i p s x = (t,y) := by
  simp [guarded]

theorem guarded_env {e : ε} {s t : σ} :
    (guarded allowed work possible happen).env e s = some t ↔
      possible e s = true ∧ happen e s = t := by
  simp [guarded]

theorem guarded_step_act {p : Nat} {i : ι} {s t : Pool σ Λ} :
    (guarded allowed work possible happen).machine.step (.act p i) s = some t ↔
      allowed i s.store (s.thread p) = true ∧
        t = ⟨(work i p s.store (s.thread p)).1,
          Function.update s.thread p (work i p s.store (s.thread p)).2⟩ := by
  rw [step_act]
  constructor
  · rintro ⟨x,hn,hth⟩
    obtain ⟨ha,hw⟩ := guarded_next.mp hn
    cases t
    simp_all
  · rintro ⟨ha,rfl⟩
    exact ⟨_,guarded_next.mpr ⟨ha,rfl⟩,rfl⟩

theorem guarded_step_env {e : ε} {s t : Pool σ Λ} :
    (guarded allowed work possible happen).machine.step (.env e) s = some t ↔
      possible e s.store = true ∧ t = ⟨happen e s.store,s.thread⟩ := by
  rw [step_env]
  constructor
  · rintro ⟨he,hth⟩
    obtain ⟨hp,hh⟩ := guarded_env.mp he
    cases t
    simp_all
  · rintro ⟨hp,rfl⟩
    exact ⟨guarded_env.mpr ⟨hp,rfl⟩,rfl⟩

/-- A run leads to the store `s` with thread `p` at `x`. -/
def Arrives (T : Threads σ Λ ι ε) (s₀ : Pool σ Λ) (p : Nat) (s : σ) (x : Λ) : Prop :=
  ∃ t, T.machine.Reaches s₀ t ∧ t.store = s ∧ t.thread p = x

theorem Arrives.start (s₀ : Pool σ Λ) (p : Nat) : Arrives T s₀ p s₀.store (s₀.thread p) :=
  ⟨s₀,.refl s₀,rfl,rfl⟩

theorem Arrives.act {s₀ : Pool σ Λ} {p : Nat} {i : ι} {s t : σ} {x y : Λ}
    (h : Arrives (guarded allowed work possible happen) s₀ p s x) (ha : allowed i s x = true)
    (hw : work i p s x = (t,y)) : Arrives (guarded allowed work possible happen) s₀ p t y := by
  obtain ⟨u,hu,rfl,rfl⟩ := h
  have hl : (guarded allowed work possible happen).machine.step (.act p i) u =
      some ⟨t,Function.update u.thread p y⟩ := guarded_step_act.mpr ⟨ha,by rw [hw]⟩
  exact ⟨_,hu.snoc hl trivial,rfl,Function.update_self ..⟩

end guarded

def Holds (I : σ → Prop) (J : Nat → σ → Λ → Prop) (s : Pool σ Λ) : Prop :=
  I s.store ∧ ∀ p, J p s.store (s.thread p)

/-- What the proof of an invariant of interleaved threads has to show, in runs in which `P`
always holds of the store: each thread keeps its own assertion, and nobody's statement
breaks another thread's. -/
structure StableWhile (T : Threads σ Λ ι ε) (P : σ → Prop) (I : σ → Prop)
    (J : Nat → σ → Λ → Prop) : Prop where
  own : ∀ i p s x t y, P s → I s → J p s x → T.next i p s x = some (t,y) → I t ∧ J p t y
  other : ∀ i p q s x t y z, I s → J p s x → J q s z → p ≠ q →
    T.next i p s x = some (t,y) → J q t z
  env : ∀ e s t, P t → I s → T.env e s = some t → I t ∧ ∀ q z, J q s z → J q t z

def Throughout (P : σ → Prop) (s : Pool σ Λ) (_ : Label ι ε) (t : Pool σ Λ) : Prop :=
  P s.store ∧ P t.store

theorem StableWhile.step {P I : σ → Prop} {J : Nat → σ → Λ → Prop} (h : T.StableWhile P I J)
    {s t : Pool σ Λ} {l : Label ι ε} (hs : Holds I J s) (hl : T.machine.step l s = some t)
    (hp : Throughout P s l t) : Holds I J t := by
  obtain ⟨hi,hj⟩ := hs
  cases l with
  | act p i =>
    obtain ⟨x,hn,hth⟩ := step_act.mp hl
    have hown := h.own i p _ _ _ _ hp.1 hi (hj p) hn
    refine ⟨hown.1,fun q => ?_⟩
    rw [hth]
    by_cases hq : q = p
    · subst hq
      simpa using hown.2
    · rw [Function.update_of_ne hq]
      exact h.other i p q _ _ _ _ _ hi (hj p) (hj q) (Ne.symm hq) hn
  | env e =>
    obtain ⟨he,hth⟩ := step_env.mp hl
    have henv := h.env e _ _ hp.2 hi he
    exact ⟨henv.1,fun q => by rw [hth]; exact henv.2 q _ (hj q)⟩

theorem StableWhile.reaches {P I : σ → Prop} {J : Nat → σ → Λ → Prop}
    (h : T.StableWhile P I J) {s t : Pool σ Λ}
    (hr : T.machine.ReachesBy (Throughout P) s t) (hs : Holds I J s) : Holds I J t :=
  hr.invariant hs fun _ _ _ ha hl hp => h.step ha hl hp

/-- Stable in every run. -/
structure Stable (T : Threads σ Λ ι ε) (I : σ → Prop) (J : Nat → σ → Λ → Prop) : Prop where
  own : ∀ i p s x t y, I s → J p s x → T.next i p s x = some (t,y) → I t ∧ J p t y
  other : ∀ i p q s x t y z, I s → J p s x → J q s z → p ≠ q →
    T.next i p s x = some (t,y) → J q t z
  env : ∀ e s t, I s → T.env e s = some t → I t ∧ ∀ q z, J q s z → J q t z

theorem Stable.toWhile {I : σ → Prop} {J : Nat → σ → Λ → Prop} (h : T.Stable I J) :
    T.StableWhile (fun _ => True) I J where
  own i p s x t y _ := h.own i p s x t y
  other := h.other
  env e s t _ := h.env e s t

theorem Stable.step {I : σ → Prop} {J : Nat → σ → Λ → Prop} (h : T.Stable I J)
    {s t : Pool σ Λ} {l : Label ι ε} (hs : Holds I J s) (hl : T.machine.step l s = some t) :
    Holds I J t := h.toWhile.step hs hl ⟨trivial,trivial⟩

theorem Stable.reaches {I : σ → Prop} {J : Nat → σ → Λ → Prop} (h : T.Stable I J)
    {s t : Pool σ Λ} {C : Pool σ Λ → Label ι ε → Pool σ Λ → Prop}
    (hr : T.machine.ReachesBy C s t) (hs : Holds I J s) : Holds I J t :=
  hr.invariant hs fun _ _ _ ha hl _ => h.step ha hl

theorem thread_of_act_ne {p q : Nat} {i : ι} {s t : Pool σ Λ}
    (hl : T.machine.step (.act p i) s = some t) (hq : q ≠ p) :
    t.thread q = s.thread q := by
  obtain ⟨x,_,hth⟩ := step_act.mp hl
  rw [hth,Function.update_of_ne hq]

theorem thread_of_env {e : ε} {s t : Pool σ Λ} (hl : T.machine.step (.env e) s = some t) :
    t.thread = s.thread := (step_env.mp hl).2

end Threads
