import Yurucommu.Machine

/-!
Runs of a machine on given labels, computed.
-/

set_option autoImplicit false

namespace Machine

variable {σ ℓ : Type} {m : Machine σ ℓ} {C : σ → ℓ → σ → Prop} {s t : σ} {ls : List ℓ}

def runBy (m : Machine σ ℓ) (C : σ → ℓ → σ → Prop) [∀ s l t, Decidable (C s l t)] :
    List ℓ → σ → Option σ
  | [], s => some s
  | l :: ls, s => (m.step l s).bind fun t => if C s l t then runBy m C ls t else none

theorem reachesBy_of_runBy [∀ s l t, Decidable (C s l t)] (h : m.runBy C ls s = some t) :
    m.ReachesBy C s t := by
  induction ls generalizing s with
  | nil =>
    simp only [runBy,Option.some.injEq] at h
    exact h ▸ ReachesBy.refl s
  | cons l ls ih =>
    simp only [runBy,Option.bind_eq_some_iff] at h
    obtain ⟨u,hu,hrest⟩ := h
    by_cases hc : C s l u
    · rw [if_pos hc] at hrest
      have head : m.Next C s u := ⟨l,hu,hc⟩
      exact (Relation.ReflTransGen.single head).trans (ih hrest)
    · rw [if_neg hc] at hrest
      cases hrest

theorem some_getD {o : Option σ} (h : o.isSome = true) (s : σ) : o = some (o.getD s) := by
  obtain ⟨t,rfl⟩ := Option.isSome_iff_exists.mp h
  rfl

theorem reachesBy_runBy [∀ s l t, Decidable (C s l t)] (h : (m.runBy C ls s).isSome = true) :
    m.ReachesBy C s ((m.runBy C ls s).getD s) := reachesBy_of_runBy (some_getD h s)

theorem reaches_run (h : (m.run ls s).isSome = true) : m.Reaches s ((m.run ls s).getD s) :=
  Reaches.of_run (some_getD h s)

end Machine
