import Mathlib.Data.Option.Basic

/-!
Atomic SQL statements on the one row a primary key selects: the row is there or it is
not. `UPDATE` and `DELETE` act where their condition holds, and an insert that meets
its key does nothing.
-/

set_option autoImplicit false

namespace Statement

variable {ρ : Type}

def update (cond : ρ → Bool) (set : ρ → ρ) (row : Option ρ) : Option ρ :=
  row.map fun r => if cond r then set r else r

/-- The statement's affected row count is not zero. -/
def hits (cond : ρ → Bool) (row : Option ρ) : Bool := row.any cond

def insertIgnore (new : ρ) (row : Option ρ) : Option ρ := row.or (some new)

def deleteWhere (cond : ρ → Bool) (row : Option ρ) : Option ρ :=
  row.filter fun r => !cond r

@[simp] theorem update_none (cond : ρ → Bool) (set : ρ → ρ) :
    update cond set none = none := rfl

@[simp] theorem update_some (cond : ρ → Bool) (set : ρ → ρ) (r : ρ) :
    update cond set (some r) = some (if cond r then set r else r) := rfl

@[simp] theorem hits_none (cond : ρ → Bool) : hits cond none = false := rfl

@[simp] theorem hits_some (cond : ρ → Bool) (r : ρ) : hits cond (some r) = cond r := rfl

@[simp] theorem insertIgnore_none (new : ρ) : insertIgnore new none = some new := rfl

@[simp] theorem insertIgnore_some (new r : ρ) : insertIgnore new (some r) = some r := rfl

theorem hits_iff {cond : ρ → Bool} {row : Option ρ} :
    hits cond row = true ↔ ∃ r, row = some r ∧ cond r = true := by
  cases row <;> simp

theorem update_of_not_hits {cond : ρ → Bool} {set : ρ → ρ} {row : Option ρ}
    (h : hits cond row = false) : update cond set row = row := by
  cases row with
  | none => rfl
  | some r =>
    rw [hits_some] at h
    simp [h]

theorem update_cases (cond : ρ → Bool) (set : ρ → ρ) (row : Option ρ) :
    update cond set row = row ∨
      ∃ r, row = some r ∧ cond r = true ∧ update cond set row = some (set r) := by
  cases row with
  | none => exact .inl rfl
  | some r =>
    by_cases h : cond r = true
    · exact .inr ⟨r,rfl,h,by simp [h]⟩
    · exact .inl (by simp [h])

theorem deleteWhere_cases (cond : ρ → Bool) (row : Option ρ) :
    deleteWhere cond row = row ∨
      ∃ r, row = some r ∧ cond r = true ∧ deleteWhere cond row = none := by
  cases row with
  | none => exact .inl rfl
  | some r =>
    by_cases h : cond r = true
    · exact .inr ⟨r,rfl,h,by simp [deleteWhere,h]⟩
    · exact .inl (by simp [deleteWhere,h])

end Statement
