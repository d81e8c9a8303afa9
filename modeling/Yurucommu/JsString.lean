import Mathlib.Data.List.Basic
import Mathlib.Order.Lattice

/-!
Strings as JavaScript compares them: by UTF-16 code units.
-/

set_option autoImplicit false

namespace JsString

def codeUnits (c : Char) : List Nat :=
  if c.toNat < 0x10000 then [c.toNat]
  else [0xd800 + (c.toNat - 0x10000) / 0x400, 0xdc00 + (c.toNat - 0x10000) % 0x400]

def units (s : String) : List Nat := s.toList.flatMap codeUnits

def ltUnits : List Nat → List Nat → Bool
  | _, [] => false
  | [], _ :: _ => true
  | a :: as, b :: bs => a < b || (a = b && ltUnits as bs)

/-- `a < b`. -/
def lt (a b : String) : Bool := ltUnits (units a) (units b)

theorem ltUnits_asymm {as bs : List Nat} (h : ltUnits as bs = true) : ltUnits bs as = false := by
  induction as generalizing bs with
  | nil =>
    cases bs with
    | nil => cases h
    | cons b bs => rfl
  | cons a as ih =>
    cases bs with
    | nil => cases h
    | cons b bs =>
      simp only [ltUnits,Bool.or_eq_true,Bool.and_eq_true,decide_eq_true_eq] at h
      simp only [ltUnits,Bool.or_eq_false_iff,Bool.and_eq_false_iff,decide_eq_false_iff_not]
      rcases h with hlt | ⟨rfl,hlt⟩
      · exact ⟨by omega,.inl (by omega)⟩
      · exact ⟨Nat.lt_irrefl a,.inr (ih hlt)⟩

theorem lt_asymm {a b : String} (h : lt a b = true) : lt b a = false := ltUnits_asymm h

theorem ne_of_lt {a b : String} (h : lt a b = true) : a ≠ b := by
  rintro rfl
  rw [lt_asymm h] at h
  cases h

end JsString
