import Mathlib.Data.List.Basic
import Mathlib.Data.List.Pairwise

/-!
Logs whose entries are numbered in increasing order, cut at a number.
-/

set_option autoImplicit false

namespace NumberedLog

variable {α : Type} {log : List (Nat × α)} {n : Nat}

def Increasing (log : List (Nat × α)) : Prop := (log.map Prod.fst).Pairwise (· < ·)

def upTo (n : Nat) (log : List (Nat × α)) : List (Nat × α) := log.filter fun e => e.1 ≤ n

def after (n : Nat) (log : List (Nat × α)) : List (Nat × α) := log.filter fun e => n < e.1

theorem Increasing.cons_iff {e : Nat × α} :
    Increasing (e :: log) ↔ (∀ f ∈ log, e.1 < f.1) ∧ Increasing log := by
  simp [Increasing]

theorem Increasing.snoc {e : Nat × α} (h : Increasing log) (he : ∀ f ∈ log, f.1 < e.1) :
    Increasing (log ++ [e]) := by
  induction log with
  | nil => simp [Increasing]
  | cons d log ih =>
    rw [Increasing.cons_iff] at h
    rw [List.cons_append,Increasing.cons_iff]
    refine ⟨fun f hf => ?_,ih h.2 fun f hf => he f (List.mem_cons_of_mem d hf)⟩
    rcases List.mem_append.mp hf with hf | hf
    · exact h.1 f hf
    · rw [List.mem_singleton.mp hf]
      exact he d List.mem_cons_self

theorem Increasing.upTo_append_after (h : Increasing log) : upTo n log ++ after n log = log := by
  induction log with
  | nil => rfl
  | cons e log ih =>
    rw [Increasing.cons_iff] at h
    have htail := ih h.2
    by_cases he : e.1 ≤ n
    · have hn : ¬n < e.1 := by omega
      simp only [upTo,after,List.filter_cons,he,hn,decide_true,decide_false,if_true,
        Bool.false_eq_true,if_false,List.cons_append] at htail ⊢
      rw [htail]
    · have hn : n < e.1 := by omega
      have hnone : upTo n log = [] := by
        refine List.filter_eq_nil_iff.mpr fun f hf => ?_
        have hlt := h.1 f hf
        simp only [decide_eq_true_eq]
        omega
      rw [hnone,List.nil_append] at htail
      simp only [upTo,after,List.filter_cons,he,hn,decide_true,decide_false,if_true,
        Bool.false_eq_true,if_false] at htail hnone ⊢
      rw [hnone,htail,List.nil_append]

theorem upTo_of_le (h : ∀ e ∈ log, e.1 ≤ n) : upTo n log = log :=
  List.filter_eq_self.mpr fun e he => by simpa using h e he

theorem upTo_append (log' : List (Nat × α)) : upTo n (log ++ log') = upTo n log ++ upTo n log' :=
  List.filter_append ..

theorem after_append (log' : List (Nat × α)) :
    after n (log ++ log') = after n log ++ after n log' := List.filter_append ..

theorem Increasing.after (h : Increasing log) (n : Nat) : Increasing (after n log) := by
  refine List.Pairwise.sublist ?_ h
  exact List.filter_sublist.map Prod.fst

end NumberedLog
