import Mathlib.Logic.Function.Iterate
import Mathlib.Tactic

/-!
Loops: a body that is taken turn after turn, until nothing is left to do.
-/

set_option autoImplicit false

namespace Yurucommu.Loop

variable {σ : Type} {turn : σ → σ} {Ended : σ → Prop} {Inv : σ → Prop} {s : σ}

theorem invariant (hturn : ∀ s, Inv s → Inv (turn s)) (hs : Inv s) (n : Nat) :
    Inv (turn^[n] s) :=
  Function.Iterate.rec Inv hs hturn n

theorem iterate_eq_of_le (hfix : ∀ s, Ended s → turn s = s) {n m : Nat}
    (hend : Ended (turn^[n] s)) (hle : n ≤ m) : turn^[m] s = turn^[n] s := by
  obtain ⟨k,rfl⟩ := Nat.exists_eq_add_of_le hle
  rw [Nat.add_comm,Function.iterate_add_apply]
  exact Function.iterate_fixed (hfix _ hend) k

/-- A loop ends where every turn lowers a measure, in at most that many turns. -/
theorem exists_ended {measure : σ → Nat}
    (hturn : ∀ s, Inv s → ¬ Ended s → Inv (turn s) ∧ measure (turn s) < measure s)
    (hs : Inv s) : ∃ n ≤ measure s, Ended (turn^[n] s) := by
  generalize hm : measure s = m
  induction m using Nat.strong_induction_on generalizing s with
  | _ m ih =>
    by_cases hend : Ended s
    · exact ⟨0,Nat.zero_le m,hend⟩
    · obtain ⟨hinv,hlt⟩ := hturn s hs hend
      obtain ⟨n,hn,hended⟩ := ih _ (hm ▸ hlt) hinv rfl
      refine ⟨n + 1,by omega,?_⟩
      rw [Function.iterate_succ_apply]
      exact hended

theorem exists_end {measure : σ → Nat} (hfix : ∀ s, Ended s → turn s = s)
    (hturn : ∀ s, Inv s → ¬ Ended s → Inv (turn s) ∧ measure (turn s) < measure s)
    (hs : Inv s) : ∃ r, Ended r ∧ Inv r ∧ ∀ n, measure s ≤ n → turn^[n] s = r := by
  obtain ⟨n,hn,hended⟩ := exists_ended hturn hs
  have hkeep : ∀ s, Inv s → Inv (turn s) := by
    intro s hinv
    by_cases hend : Ended s
    · rw [hfix s hend]
      exact hinv
    · exact (hturn s hinv hend).1
  exact ⟨_,hended,invariant hkeep hs n,fun m hm => iterate_eq_of_le hfix hended (hn.trans hm)⟩

end Yurucommu.Loop
