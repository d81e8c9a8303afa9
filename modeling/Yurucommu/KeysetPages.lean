import Mathlib
import Yurucommu.Keyset

/-!
Reading a table to its end in pages by a keyset cursor: what a full page leaves to the next one.
-/

set_option autoImplicit false

namespace Keyset

variable {α : Type} [LinearOrder α] {n : Nat} {cursor : Option α} {rows : List α}

def left (cursor : Option α) (rows : List α) : List α :=
  (rows.filter (Ahead cursor)).insertionSort (· ≤ ·)

theorem page_eq_take (n : Nat) (cursor : Option α) (rows : List α) :
    page n cursor rows = (left cursor rows).take n := rfl

theorem perm_left (cursor : Option α) (rows : List α) :
    (left cursor rows).Perm (rows.filter (Ahead cursor)) := List.perm_insertionSort _ _

theorem perm_left_none (rows : List α) : (left none rows).Perm rows := by
  have hall : rows.filter (fun a => Ahead (none : Option α) a) = rows := by
    rw [List.filter_eq_self]
    intro a _
    simp [Ahead]
  have hperm := perm_left none rows
  rwa [hall] at hperm

theorem sorted_left (h : rows.Nodup) (cursor : Option α) : (left cursor rows).Pairwise (· < ·) := by
  have hle : (left cursor rows).Pairwise (· ≤ ·) := List.pairwise_insertionSort _ _
  have hne : (left cursor rows).Nodup :=
    (perm_left cursor rows).nodup_iff.mpr (h.sublist List.filter_sublist)
  exact (hle.and hne).imp fun hab => lt_of_le_of_ne hab.1 hab.2

theorem filter_gt_last {sorted : List α} (h : sorted.Pairwise (· < ·)) {k : α}
    (hk : (sorted.take n).getLast? = some k) : sorted.filter (k < ·) = sorted.drop n := by
  obtain ⟨init,hinit⟩ := List.getLast?_eq_some_iff.mp hk
  have hsplit : sorted = sorted.take n ++ sorted.drop n := (List.take_append_drop n sorted).symm
  rw [hsplit,hinit] at h
  have htake : (sorted.take n).filter (k < ·) = [] := by
    rw [List.filter_eq_nil_iff,hinit]
    intro a ha
    rw [List.mem_append,List.mem_singleton] at ha
    rw [decide_eq_true_eq,not_lt]
    cases ha with
    | inl ha =>
      have hlt := (List.pairwise_append.mp (List.pairwise_append.mp h).1).2.2 a ha k
      exact le_of_lt (hlt (List.mem_singleton.mpr rfl))
    | inr ha => exact le_of_eq ha
  have hdrop : (sorted.drop n).filter (k < ·) = sorted.drop n := by
    rw [List.filter_eq_self]
    intro a ha
    rw [decide_eq_true_eq]
    exact (List.pairwise_append.mp h).2.2 k (by simp) a ha
  calc
    sorted.filter (k < ·) = (sorted.take n ++ sorted.drop n).filter (k < ·) := by rw [← hsplit]
    _ = sorted.drop n := by rw [List.filter_append,htake,hdrop,List.nil_append]

theorem left_last (h : rows.Nodup) {k : α} (hk : (page n cursor rows).getLast? = some k) :
    left (some k) rows = (left cursor rows).drop n := by
  have hmem : k ∈ page n cursor rows := List.mem_of_getLast? hk
  have hahead : Ahead cursor k := by
    have hin := (perm_left cursor rows).mem_iff.mp (List.mem_of_mem_take hmem)
    exact of_decide_eq_true (List.mem_filter.mp hin).2
  have hfilter : rows.filter (Ahead (some k)) = (rows.filter (Ahead cursor)).filter (k < ·) := by
    rw [List.filter_filter]
    refine List.filter_congr fun a _ => ?_
    rw [Bool.eq_iff_iff,decide_eq_true_eq,Bool.and_eq_true,decide_eq_true_eq,decide_eq_true_eq]
    constructor
    · intro ha
      have hlt : k < a := ha k rfl
      exact ⟨hlt,fun j hj => lt_trans (hahead j hj) hlt⟩
    · rintro ⟨hlt,_⟩ j hj
      cases hj
      exact hlt
  have hperm : (left (some k) rows).Perm ((left cursor rows).filter (k < ·)) := by
    refine (perm_left (some k) rows).trans ?_
    rw [hfilter]
    exact (perm_left cursor rows).symm.filter _
  have heq := hperm.eq_of_pairwise' (sorted_left h (some k))
    ((sorted_left h cursor).sublist List.filter_sublist)
  rw [heq]
  exact filter_gt_last (sorted_left h cursor) hk

theorem left_of_short (hs : (page n cursor rows).length < n) :
    left cursor rows = page n cursor rows := by
  rw [page_eq_take,List.length_take] at hs
  rw [page_eq_take,List.take_of_length_le]
  omega

theorem left_of_full (h : rows.Nodup) (hn : 0 < n) (hf : ¬(page n cursor rows).length < n) :
    ∃ k, (page n cursor rows).getLast? = some k ∧
      left cursor rows = page n cursor rows ++ left (some k) rows := by
  have hne : page n cursor rows ≠ [] := by
    intro hnil
    rw [hnil] at hf
    exact hf hn
  refine ⟨(page n cursor rows).getLast hne,List.getLast?_eq_some_getLast hne,?_⟩
  rw [left_last h (List.getLast?_eq_some_getLast hne),page_eq_take,List.take_append_drop]

theorem exists_lt_last (h : rows.Nodup) (hlen : 2 ≤ (page n cursor rows).length) {k : α}
    (hk : (page n cursor rows).getLast? = some k) : ∃ a ∈ page n cursor rows, a < k := by
  have hsorted : (page n cursor rows).Pairwise (· < ·) :=
    (sorted_left h cursor).sublist (List.take_sublist _ _)
  obtain ⟨init,hinit⟩ := List.getLast?_eq_some_iff.mp hk
  rw [hinit] at hlen hsorted ⊢
  cases init with
  | nil => simp at hlen
  | cons a init =>
    refine ⟨a,by simp,?_⟩
    exact (List.pairwise_append.mp hsorted).2.2 a List.mem_cons_self k (List.mem_singleton.mpr rfl)

end Keyset
