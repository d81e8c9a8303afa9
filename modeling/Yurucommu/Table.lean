import Mathlib.Data.List.Nodup

/-!
Atomic SQL statements on a table as the list of its rows, in the order they were inserted.
-/

set_option autoImplicit false

namespace Table

variable {ρ : Type}

/-- `same` says of a row that it has the key of the new one. -/
def insertIgnore (same : ρ → Bool) (new : ρ) (rows : List ρ) : List ρ :=
  if rows.any same then rows else rows ++ [new]

def insertAllIgnore (same : ρ → ρ → Bool) (new rows : List ρ) : List ρ :=
  new.foldl (fun rows r => insertIgnore (same r) r rows) rows

def update (cond : ρ → Bool) (set : ρ → ρ) (rows : List ρ) : List ρ :=
  rows.map fun r => if cond r then set r else r

def delete (cond : ρ → Bool) (rows : List ρ) : List ρ := rows.filter fun r => !cond r

theorem insertIgnore_of_any {same : ρ → Bool} {rows : List ρ} (new : ρ)
    (h : rows.any same = true) : insertIgnore same new rows = rows := if_pos h

theorem insertIgnore_of_not_any {same : ρ → Bool} {rows : List ρ} (new : ρ)
    (h : rows.any same = false) : insertIgnore same new rows = rows ++ [new] :=
  if_neg (by simp [h])

theorem mem_insertIgnore {same : ρ → Bool} {new r : ρ} {rows : List ρ}
    (h : r ∈ insertIgnore same new rows) : r ∈ rows ∨ r = new := by
  unfold insertIgnore at h
  split at h
  · exact .inl h
  · exact (List.mem_append.mp h).imp_right List.mem_singleton.mp

theorem nodup_insertIgnore {κ : Type} {same : ρ → Bool} {key : ρ → κ} {new : ρ} {rows : List ρ}
    (h : (rows.map key).Nodup) (hsame : ∀ r, key r = key new → same r = true) :
    ((insertIgnore same new rows).map key).Nodup := by
  cases hany : rows.any same with
  | true =>
    rw [insertIgnore_of_any new hany]
    exact h
  | false =>
    rw [insertIgnore_of_not_any new hany,List.map_append,List.nodup_append]
    refine ⟨h,List.nodup_singleton _,?_⟩
    rintro a ha b hb rfl
    obtain ⟨r,hr,hkey⟩ := List.mem_map.mp ha
    rw [List.map_singleton,List.mem_singleton] at hb
    exact List.any_eq_false.mp hany r hr (hsame r (hkey.trans hb))

theorem any_insertIgnore {same : ρ → Bool} {new : ρ} (h : same new = true) (rows : List ρ) :
    (insertIgnore same new rows).any same = true := by
  unfold insertIgnore
  split
  · assumption
  · simp [h]

theorem any_insertIgnore_eq {same p : ρ → Bool} {new : ρ} (h : ∀ r, same r = true → p r = p new)
    (rows : List ρ) : (insertIgnore same new rows).any p = (rows.any p || p new) := by
  unfold insertIgnore
  split
  · rename_i hany
    obtain ⟨r,hr,hsame⟩ := List.any_eq_true.mp hany
    cases hp : p new with
    | false => rw [Bool.or_false]
    | true =>
      rw [Bool.or_true]
      exact List.any_eq_true.mpr ⟨r,hr,(h r hsame).trans hp⟩
  · simp

theorem any_insertAllIgnore {same : ρ → ρ → Bool} {p : ρ → Bool}
    (h : ∀ new r, same new r = true → p r = p new) (new rows : List ρ) :
    (insertAllIgnore same new rows).any p = (rows.any p || new.any p) := by
  unfold insertAllIgnore
  induction new generalizing rows with
  | nil => simp
  | cons r new ih => rw [List.foldl_cons,ih,any_insertIgnore_eq (h r),List.any_cons,Bool.or_assoc]

theorem mem_update {cond : ρ → Bool} {set : ρ → ρ} {rows : List ρ} {r' : ρ} :
    r' ∈ update cond set rows ↔
      ∃ r ∈ rows, (cond r = false ∧ r' = r) ∨ (cond r = true ∧ r' = set r) := by
  simp only [update,List.mem_map]
  constructor
  · rintro ⟨r,hr,rfl⟩
    cases hc : cond r with
    | false => exact ⟨r,hr,.inl ⟨hc,if_neg (by simp)⟩⟩
    | true => exact ⟨r,hr,.inr ⟨hc,if_pos rfl⟩⟩
  · rintro ⟨r,hr,⟨hc,rfl⟩ | ⟨hc,rfl⟩⟩
    · exact ⟨r',hr,by simp [hc]⟩
    · exact ⟨r,hr,by simp [hc]⟩

theorem map_update {κ : Type} {cond : ρ → Bool} {set : ρ → ρ} {key : ρ → κ}
    (h : ∀ r, key (set r) = key r) (rows : List ρ) :
    (update cond set rows).map key = rows.map key := by
  unfold update
  rw [List.map_map]
  refine List.map_congr_left fun r _ => ?_
  simp only [Function.comp_apply]
  split
  · exact h r
  · rfl

theorem update_of_none {cond : ρ → Bool} {rows : List ρ} (set : ρ → ρ)
    (h : ∀ r ∈ rows, cond r = false) : update cond set rows = rows := by
  unfold update
  conv_rhs => rw [← List.map_id rows]
  refine List.map_congr_left fun r hr => ?_
  rw [h r hr]
  rfl

theorem update_update {cond : ρ → Bool} {set : ρ → ρ} (hcond : ∀ r, cond (set r) = cond r)
    (hset : ∀ r, set (set r) = set r) (rows : List ρ) :
    update cond set (update cond set rows) = update cond set rows := by
  unfold update
  rw [List.map_map]
  refine List.map_congr_left fun r _ => ?_
  simp only [Function.comp_apply]
  cases h : cond r with
  | true => simp [hcond,h,hset]
  | false => simp [h]

theorem any_update (cond key : ρ → Bool) (set : ρ → ρ) (h : ∀ r, key (set r) = key r)
    (rows : List ρ) : (update cond set rows).any key = rows.any key := by
  unfold update
  rw [List.any_map]
  congr 1
  funext r
  simp only [Function.comp_apply]
  split
  · exact h r
  · rfl

end Table
