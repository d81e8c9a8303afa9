import Mathlib.Data.List.Sort

/-!
Reading a table in the order of a key, in pages by a keyset cursor. A cursor is the key of the last row
read, none before the first page.
-/

set_option autoImplicit false

namespace Keyset

variable {α : Type} [LinearOrder α] {n : Nat} {cursor : Option α} {rows : List α} {a : α}

def Ahead (cursor : Option α) (a : α) : Prop := ∀ k ∈ cursor, k < a

def Behind (cursor : Option α) (a : α) : Prop := ∃ k ∈ cursor, a ≤ k

instance (cursor : Option α) (a : α) : Decidable (Ahead cursor a) :=
  inferInstanceAs (Decidable (∀ k ∈ cursor, k < a))

def page (n : Nat) (cursor : Option α) (rows : List α) : List α :=
  ((rows.filter (Ahead cursor)).insertionSort (· ≤ ·)).take n

@[simp] theorem not_behind_none : ¬Behind none a := by simp [Behind]

@[simp] theorem behind_some {k : α} : Behind (some k) a ↔ a ≤ k := by simp [Behind]

theorem behind_or_ahead (cursor : Option α) (a : α) : Behind cursor a ∨ Ahead cursor a := by
  cases cursor with
  | none => simp [Ahead]
  | some k => simpa [Ahead] using le_or_gt a k

theorem mem_of_mem_page (h : a ∈ page n cursor rows) : a ∈ rows := by
  have hm := List.mem_of_mem_take h
  rw [List.mem_insertionSort,List.mem_filter] at hm
  exact hm.1

theorem length_page_le : (page n cursor rows).length ≤ n := List.length_take_le ..

theorem nodup_page (h : rows.Nodup) : (page n cursor rows).Nodup := by
  refine List.Nodup.sublist (List.take_sublist _ _) ?_
  exact (List.perm_insertionSort _ _).nodup_iff.mpr (h.sublist List.filter_sublist)

theorem mem_page_of_short (hs : (page n cursor rows).length < n) (ha : a ∈ rows)
    (hc : Ahead cursor a) : a ∈ page n cursor rows := by
  have hlen : ((rows.filter (Ahead cursor)).insertionSort (· ≤ ·)).length ≤ n := by
    rw [page,List.length_take] at hs
    omega
  rw [page,List.take_of_length_le hlen,List.mem_insertionSort,List.mem_filter]
  exact ⟨ha,decide_eq_true hc⟩

theorem mem_page_of_behind (hb : Behind (page n cursor rows).getLast? a) (ha : a ∈ rows)
    (hc : Ahead cursor a) : a ∈ page n cursor rows := by
  obtain ⟨k,hk,hak⟩ := hb
  have hsorted : ((rows.filter (Ahead cursor)).insertionSort (· ≤ ·)).Pairwise (· ≤ ·) :=
    List.pairwise_insertionSort _ _
  have hmem : a ∈ (rows.filter (Ahead cursor)).insertionSort (· ≤ ·) := by
    rw [List.mem_insertionSort,List.mem_filter]
    exact ⟨ha,decide_eq_true hc⟩
  have hkpage : k ∈ page n cursor rows := List.mem_of_getLast? hk
  unfold page at hkpage ⊢
  generalize (rows.filter (Ahead cursor)).insertionSort (· ≤ ·) = sorted at *
  rw [← List.take_append_drop n sorted] at hsorted hmem
  rcases List.mem_append.mp hmem with h | h
  · exact h
  · have hle : k ≤ a := (List.pairwise_append.mp hsorted).2.2 k hkpage a h
    have heq : k = a := le_antisymm hle hak
    rw [← heq]
    exact hkpage

end Keyset
