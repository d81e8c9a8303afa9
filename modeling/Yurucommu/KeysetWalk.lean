import Mathlib.Data.List.Sort
import Mathlib.Data.List.Nodup

/-!
Walks down a table, newest first, from page to page. A page looks one row ahead; its cursor is its
last row `k`, read back as `f k`, and the next page starts below that.
-/

set_option autoImplicit false

namespace Keyset

variable {α : Type} [LinearOrder α] (f : α → α) (n : Nat) (rows : List α)

def Below (cursor : Option α) (a : α) : Prop := ∀ k ∈ cursor, a < f k

instance (cursor : Option α) (a : α) : Decidable (Below f cursor a) :=
  inferInstanceAs (Decidable (∀ k ∈ cursor, a < f k))

def scanned (cursor : Option α) : List α :=
  ((rows.filter (Below f cursor)).insertionSort (· ≥ ·)).take (n + 1)

def shown (cursor : Option α) : List α := (scanned f n rows cursor).take n

def next (cursor : Option α) : Option α :=
  if n < (scanned f n rows cursor).length then (shown f n rows cursor).getLast? else none

def walk : Nat → Option α → Option (List α)
  | 0, _ => none
  | fuel + 1, cursor =>
    match next f n rows cursor with
    | none => some (shown f n rows cursor)
    | some k => (walk fuel (some k)).map (shown f n rows cursor ++ ·)

def Seamless (sorted : List α) : Prop :=
  ∀ j last first, 0 < j → sorted[j * n - 1]? = some last → sorted[j * n]? = some first →
    first < f last

variable {f n rows}

def rest (f : α → α) (rows : List α) (cursor : Option α) : List α :=
  (rows.insertionSort (· ≥ ·)).filter (Below f cursor)

theorem sortedGT_rest (h : rows.Nodup) (cursor : Option α) :
    (rest f rows cursor).Pairwise (· > ·) := by
  have hsorted : (rows.insertionSort (· ≥ ·)).Pairwise (· ≥ ·) := List.pairwise_insertionSort _ _
  have hnodup : (rows.insertionSort (· ≥ ·)).Nodup :=
    (List.perm_insertionSort _ rows).nodup_iff.mpr h
  refine List.Pairwise.sublist List.filter_sublist ?_
  exact (hsorted.and hnodup).imp fun ⟨hge,hne⟩ => lt_of_le_of_ne hge (Ne.symm hne)

theorem rest_none : rest f rows none = rows.insertionSort (· ≥ ·) := by
  refine List.filter_eq_self.mpr fun a _ => decide_eq_true ?_
  intro k hk
  cases hk

theorem scanned_eq (cursor : Option α) :
    scanned f n rows cursor = (rest f rows cursor).take (n + 1) := by
  have hperm : ((rows.filter (Below f cursor)).insertionSort (· ≥ ·)).Perm (rest f rows cursor) :=
    (List.perm_insertionSort _ _).trans ((List.perm_insertionSort _ rows).symm.filter _)
  have hleft : ((rows.filter (Below f cursor)).insertionSort (· ≥ ·)).Pairwise (· ≥ ·) :=
    List.pairwise_insertionSort _ _
  have hright : (rest f rows cursor).Pairwise (· ≥ ·) :=
    List.Pairwise.sublist List.filter_sublist (List.pairwise_insertionSort _ _)
  rw [scanned,hperm.eq_of_pairwise' hleft hright]

theorem shown_eq (cursor : Option α) :
    shown f n rows cursor = (rest f rows cursor).take n := by
  rw [shown,scanned_eq,List.take_take,Nat.min_eq_left (Nat.le_succ n)]

theorem next_eq_none (cursor : Option α) (h : (rest f rows cursor).length ≤ n) :
    next f n rows cursor = none := by
  rw [next,scanned_eq,List.length_take,if_neg (by omega)]

theorem next_eq_some (hn : 0 < n) (cursor : Option α) (h : n < (rest f rows cursor).length) :
    next f n rows cursor = some (rest f rows cursor)[n - 1] := by
  have hlt : n < min (n + 1) (rest f rows cursor).length := by omega
  rw [next,scanned_eq,List.length_take,if_pos hlt,shown_eq,List.getLast?_eq_getElem?,
    List.length_take,Nat.min_eq_left h.le,List.getElem?_take_of_lt (by omega),
    List.getElem?_eq_getElem]

section step

variable (hrows : rows.Nodup) (hf : ∀ k, f k ≤ k) (hn : 0 < n) {cursor : Option α}
  (h : n < (rest f rows cursor).length)

include hrows hf hn h

theorem rest_sublist : (rest f rows (some (rest f rows cursor)[n - 1])).Sublist
    ((rest f rows cursor).drop n) := by
  have hmem : (rest f rows cursor)[n - 1] ∈ rest f rows cursor := List.getElem_mem _
  have hbelow : Below f cursor (rest f rows cursor)[n - 1] :=
    of_decide_eq_true (List.mem_filter.mp hmem).2
  generalize hk : (rest f rows cursor)[n - 1] = k at hbelow
  have hcut : rest f rows (some k) = (rest f rows cursor).filter fun a => a < f k := by
    rw [rest,rest,List.filter_filter]
    refine List.filter_congr fun a _ => ?_
    rw [Bool.eq_iff_iff]
    simp only [Below,Option.mem_some_iff,forall_eq',Bool.and_eq_true,decide_eq_true_eq]
    refine ⟨fun ha => ⟨ha,decide_eq_true fun c hc => ?_⟩,fun ha => ha.1⟩
    exact (ha.trans_le (hf k)).trans (hbelow c hc)
  have hnone : ((rest f rows cursor).take n).filter (fun a => a < f k) = [] := by
    refine List.filter_eq_nil_iff.mpr fun a ha => ?_
    obtain ⟨i,hi,rfl⟩ := List.getElem_of_mem ha
    rw [List.length_take] at hi
    rw [List.getElem_take,decide_eq_true_eq,not_lt]
    refine (hf k).trans ?_
    rw [← hk]
    rcases Nat.lt_or_ge i (n - 1) with hlt | hge
    · exact (List.pairwise_iff_getElem.mp (sortedGT_rest hrows cursor) i (n - 1) _ _ hlt).le
    · have heq : i = n - 1 := by omega
      simp only [heq,le_refl]
  rw [hcut]
  conv_lhs => rw [← List.take_append_drop n (rest f rows cursor),List.filter_append,hnone]
  exact List.filter_sublist

theorem length_rest : (rest f rows (some (rest f rows cursor)[n - 1])).length <
    (rest f rows cursor).length := by
  have hlen := (rest_sublist hrows hf hn h).length_le
  rw [List.length_drop] at hlen
  omega

theorem rest_eq_iff : rest f rows (some (rest f rows cursor)[n - 1]) = (rest f rows cursor).drop n ↔
    (rest f rows cursor)[n] < f (rest f rows cursor)[n - 1] := by
  have hdrop : (rest f rows cursor)[n] ∈ (rest f rows cursor).drop n := by
    rw [List.drop_eq_getElem_cons h]
    exact List.mem_cons_self ..
  constructor
  · intro heq
    rw [← heq] at hdrop
    exact of_decide_eq_true (List.mem_filter.mp hdrop).2 _ rfl
  · intro hlt
    have hnodup : ((rest f rows cursor).drop n).Nodup :=
      ((sortedGT_rest hrows cursor).imp fun hgt => hgt.ne').sublist (List.drop_sublist _ _)
    refine (rest_sublist hrows hf hn h).eq_of_length_le
      (List.subperm_of_subset hnodup fun a ha => ?_).length_le
    obtain ⟨i,hi,rfl⟩ := List.getElem_of_mem ha
    rw [List.length_drop] at hi
    rw [List.getElem_drop]
    have hrest : (rest f rows cursor)[n + i] ∈ rest f rows cursor := List.getElem_mem _
    refine List.mem_filter.mpr ⟨(List.mem_filter.mp hrest).1,decide_eq_true ?_⟩
    intro k hk
    rw [Option.mem_some_iff] at hk
    rw [← hk]
    refine lt_of_le_of_lt ?_ hlt
    rcases Nat.eq_zero_or_pos i with rfl | hpos
    · exact le_refl _
    · exact (List.pairwise_iff_getElem.mp (sortedGT_rest hrows cursor) n (n + i) _ _ (by omega)).le

end step

section runs

variable {fuel : Nat}

theorem seamless_of_length_le (h : rows.length ≤ n) : Seamless f n rows := by
  intro j last first hj _ hfirst
  obtain ⟨hlt,_⟩ := List.getElem?_eq_some_iff.mp hfirst
  have hle : n ≤ j * n := Nat.le_mul_of_pos_left n hj
  omega

/-- The seam at the first page, and those behind it. -/
theorem seamless_iff (hn : 0 < n) (h : n < rows.length) :
    Seamless f n rows ↔ rows[n] < f rows[n - 1] ∧ Seamless f n (rows.drop n) := by
  have hshift : ∀ j, 0 < j → n + (j * n - 1) = (j + 1) * n - 1 ∧ n + j * n = (j + 1) * n := by
    intro j hj
    have hle : n ≤ j * n := Nat.le_mul_of_pos_left n hj
    rw [Nat.add_mul,Nat.one_mul]
    omega
  constructor
  · intro hseam
    refine ⟨hseam 1 _ _ Nat.one_pos ?_ ?_,fun j last first hj hlast hfirst => ?_⟩
    · rw [Nat.one_mul,List.getElem?_eq_getElem]
    · rw [Nat.one_mul,List.getElem?_eq_getElem]
    · rw [List.getElem?_drop,(hshift j hj).1] at hlast
      rw [List.getElem?_drop,(hshift j hj).2] at hfirst
      exact hseam (j + 1) last first (Nat.succ_pos j) hlast hfirst
  · rintro ⟨hone,hrest⟩ j last first hj hlast hfirst
    cases j with
    | zero => cases hj
    | succ j =>
      rcases Nat.eq_zero_or_pos j with rfl | hpos
      · rw [Nat.zero_add,Nat.one_mul] at hlast hfirst
        obtain ⟨_,rfl⟩ := List.getElem?_eq_some_iff.mp hlast
        obtain ⟨_,rfl⟩ := List.getElem?_eq_some_iff.mp hfirst
        exact hone
      · rw [← (hshift j hpos).1,← List.getElem?_drop] at hlast
        rw [← (hshift j hpos).2,← List.getElem?_drop] at hfirst
        exact hrest j last first hpos hlast hfirst

/-- Every walk ends; it shows rows that are left, in order, and all of them exactly where the pages
meet. -/
theorem walk_spec (hrows : rows.Nodup) (hf : ∀ k, f k ≤ k) (hn : 0 < n) :
    ∀ (fuel : Nat) (cursor : Option α), (rest f rows cursor).length < fuel →
      ∃ l, walk f n rows fuel cursor = some l ∧ l.Sublist (rest f rows cursor) ∧
        (l = rest f rows cursor ↔ Seamless f n (rest f rows cursor)) := by
  intro fuel
  induction fuel with
  | zero => exact fun cursor hfuel => absurd hfuel (Nat.not_lt_zero _)
  | succ fuel ih =>
    intro cursor hfuel
    rcases Nat.lt_or_ge n (rest f rows cursor).length with h | h
    · obtain ⟨l,hl,hsub,hiff⟩ := ih (some (rest f rows cursor)[n - 1])
        (by have hlen := length_rest hrows hf hn h; omega)
      have hwhole := List.take_append_drop n (rest f rows cursor)
      have hdrop : l.Sublist ((rest f rows cursor).drop n) :=
        hsub.trans (rest_sublist hrows hf hn h)
      refine ⟨(rest f rows cursor).take n ++ l,?_,?_,?_⟩
      · simp only [walk,next_eq_some hn cursor h,hl,shown_eq,Option.map_some]
      · conv_rhs => rw [← hwhole]
        exact (List.Sublist.refl _).append hdrop
      · have hsplit : (rest f rows cursor).take n ++ l = rest f rows cursor ↔
            l = (rest f rows cursor).drop n := by
          constructor
          · intro heq
            exact List.append_cancel_left (heq.trans hwhole.symm)
          · rintro rfl
            exact hwhole
        rw [hsplit,seamless_iff hn h,← rest_eq_iff hrows hf hn h]
        constructor
        · intro heq
          have hrest : rest f rows (some (rest f rows cursor)[n - 1]) =
              (rest f rows cursor).drop n := by
            refine (rest_sublist hrows hf hn h).eq_of_length_le ?_
            rw [← heq]
            exact hsub.length_le
          rw [hrest] at hiff
          exact ⟨hrest,hiff.mp heq⟩
        · rintro ⟨hrest,hseam⟩
          rw [hrest] at hiff
          exact hiff.mpr hseam
    · have hall : (rest f rows cursor).take n = rest f rows cursor := List.take_of_length_le h
      refine ⟨rest f rows cursor,?_,List.Sublist.refl _,iff_of_true rfl (seamless_of_length_le h)⟩
      simp only [walk,next_eq_none cursor h,shown_eq,hall]

/-- From the first page: every row once and in order, exactly where the pages meet. -/
theorem walk_eq_iff (hrows : rows.Nodup) (hf : ∀ k, f k ≤ k) (hn : 0 < n)
    (hfuel : rows.length < fuel) :
    walk f n rows fuel none = some (rows.insertionSort (· ≥ ·)) ↔
      Seamless f n (rows.insertionSort (· ≥ ·)) := by
  have hlen : (rest f rows none).length < fuel := by
    rw [rest_none,List.length_insertionSort]
    exact hfuel
  obtain ⟨l,hl,_,hiff⟩ := walk_spec hrows hf hn fuel none hlen
  rw [hl,Option.some.injEq,← rest_none (f := f)]
  exact hiff

end runs

end Keyset
