import Mathlib
import Yurucommu.Table

/-!
`INSERT … SELECT … ON CONFLICT DO NOTHING`: rows that a statement reads and then inserts, one after
another. They come in as they are where none of them has the key of another row.
-/

set_option autoImplicit false

namespace Table

variable {ρ κ : Type} {same : ρ → ρ → Bool} {key : ρ → κ}

theorem insertAllIgnore_eq_append (hsame : ∀ new r, same new r = true → key r = key new)
    {new rows : List ρ} (h : ((rows ++ new).map key).Nodup) :
    insertAllIgnore same new rows = rows ++ new := by
  unfold insertAllIgnore
  induction new generalizing rows with
  | nil => simp
  | cons r new ih =>
    have hnone : rows.any (same r) = false := by
      rw [List.any_eq_false]
      intro r' hr' heq
      rw [List.map_append,List.nodup_append] at h
      refine h.2.2 (key r') (List.mem_map_of_mem hr') (key r) ?_ (hsame r r' heq)
      exact List.mem_map_of_mem List.mem_cons_self
    have hsplit : rows ++ r :: new = (rows ++ [r]) ++ new := by simp
    rw [hsplit] at h
    rw [List.foldl_cons,insertIgnore_of_not_any r hnone,ih h,hsplit]

theorem insertAllIgnore_of_any {new rows : List ρ} (h : ∀ r ∈ new, rows.any (same r) = true) :
    insertAllIgnore same new rows = rows := by
  unfold insertAllIgnore
  induction new with
  | nil => rfl
  | cons r new ih =>
    rw [List.foldl_cons,insertIgnore_of_any r (h r List.mem_cons_self)]
    exact ih fun r' hr' => h r' (List.mem_cons_of_mem r hr')

theorem prefix_insertAllIgnore (new rows : List ρ) : rows <+: insertAllIgnore same new rows := by
  unfold insertAllIgnore
  induction new generalizing rows with
  | nil => exact List.prefix_refl rows
  | cons r new ih =>
    rw [List.foldl_cons]
    refine List.IsPrefix.trans ?_ (ih (insertIgnore (same r) r rows))
    unfold insertIgnore
    split
    · exact List.prefix_refl rows
    · exact List.prefix_append rows [r]

theorem mem_insertAllIgnore {new rows : List ρ} {r : ρ} (h : r ∈ insertAllIgnore same new rows) :
    r ∈ rows ∨ r ∈ new := by
  unfold insertAllIgnore at h
  induction new generalizing rows with
  | nil => exact .inl h
  | cons first new ih =>
    rw [List.foldl_cons] at h
    cases ih h with
    | inl hin =>
      cases mem_insertIgnore hin with
      | inl hr => exact .inl hr
      | inr hr => exact .inr (hr ▸ List.mem_cons_self)
    | inr hnew => exact .inr (List.mem_cons_of_mem first hnew)

theorem nodup_insertAllIgnore (hsame : ∀ new r, key r = key new → same new r = true)
    (new : List ρ) {rows : List ρ} (h : (rows.map key).Nodup) :
    ((insertAllIgnore same new rows).map key).Nodup := by
  unfold insertAllIgnore
  induction new generalizing rows with
  | nil => exact h
  | cons r new ih =>
    rw [List.foldl_cons]
    exact ih (nodup_insertIgnore h (hsame r))

theorem mem_insertAllIgnore_of_only (hsame : ∀ new r, same new r = true ↔ key r = key new)
    {new rows : List ρ} {r : ρ} (hr : r ∈ new) (hrows : ∀ r' ∈ rows, key r' ≠ key r)
    (hnew : ∀ r' ∈ new, key r' = key r → r' = r) : r ∈ insertAllIgnore same new rows := by
  have hcongr : ∀ n r', same n r' = true → same r r' = same r n := by
    intro n r' heq
    rw [Bool.eq_iff_iff,hsame,hsame,(hsame n r').mp heq]
  have hany : (insertAllIgnore same new rows).any (same r) = true := by
    rw [any_insertAllIgnore hcongr,Bool.or_eq_true]
    exact .inr (List.any_eq_true.mpr ⟨r,hr,(hsame r r).mpr rfl⟩)
  obtain ⟨r',hr',heq⟩ := List.any_eq_true.mp hany
  have hkey := (hsame r r').mp heq
  cases mem_insertAllIgnore hr' with
  | inl hin => exact absurd hkey (hrows r' hin)
  | inr hin =>
    rw [hnew r' hin hkey] at hr'
    exact hr'

end Table
