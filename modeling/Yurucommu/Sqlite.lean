import Mathlib

/-!
The text functions of SQLite, for texts without the code point zero: with it SQLite leaves their
results undefined.
-/

set_option autoImplicit false

namespace Sqlite

abbrev Text := List Char

/-- ASCII letters only. -/
def lower (t : Text) : Text := t.map Char.toLower

/-- The place of the first `y` in `x`, counted from 1; 0 without one. -/
def instr : Text → Text → Nat
  | [], y => if y = [] then 1 else 0
  | c :: x, y =>
    if y.isPrefixOf (c :: x) then 1
    else if instr x y = 0 then 0
    else instr x y + 1

/-- What `y` counts from 0: a negative `y` counts from the end. -/
def start (x : Text) (y : Int) : Int :=
  if 0 < y then y - 1 else if y < 0 then x.length + y else -1

def between (x : Text) (first last : Int) : Text := (x.take last.toNat).drop first.toNat

/-- `z` characters from the `y`-th on; for a negative `z` those before it. -/
def substr (x : Text) (y z : Int) : Text :=
  if 0 ≤ z then between x (start x y) (start x y + z) else between x (start x y + z) (start x y)

def substrFrom (x : Text) (y : Int) : Text := x.drop (start x y).toNat

section lemmas

variable (x : Text)

@[simp] theorem length_lower : (lower x).length = x.length := List.length_map _

@[simp] theorem lower_append (y : Text) : lower (x ++ y) = lower x ++ lower y := List.map_append

theorem instr_append {c : Char} {before : Text} (y after : Text) (h : c ∉ before) :
    instr (before ++ c :: y ++ after) (c :: y) = before.length + 1 := by
  induction before with
  | nil => simp [instr]
  | cons b before ih =>
    simp only [List.mem_cons,not_or] at h
    have hrest := ih h.2
    simp only [List.append_assoc,List.cons_append] at hrest
    simp [instr,hrest,h.1]

theorem instr_char {c : Char} {before : Text} (after : Text) (h : c ∉ before) :
    instr (before ++ c :: after) [c] = before.length + 1 := by
  simpa using instr_append [] after h

theorem instr_char_none (c : Char) (h : c ∉ x) : instr x [c] = 0 := by
  induction x with
  | nil => simp [instr]
  | cons b x ih =>
    simp only [List.mem_cons,not_or] at h
    simp [instr,ih h.2,h.1]

theorem not_mem_of_instr {c : Char} (h : instr x [c] = 0) : c ∉ x := by
  intro hc
  obtain ⟨before,after,rfl,hb⟩ := List.eq_append_cons_of_mem hc
  rw [instr_char after hb] at h
  cases h

theorem instr_char_append {c : Char} (h : c ∉ x) (y : Text) :
    instr (x ++ y) [c] = if instr y [c] = 0 then 0 else x.length + instr y [c] := by
  induction x with
  | nil => simp
  | cons b x ih =>
    simp only [List.mem_cons,not_or] at h
    simp only [List.cons_append,instr,ih h.2,List.length_cons]
    simp only [List.isPrefixOf,beq_eq_false_iff_ne.mpr h.1,Bool.false_and,Bool.false_eq_true,
      if_false]
    split <;> split <;> omega

theorem instr_split {y : Text} {n : Nat} (h : instr x y = n + 1) :
    x = x.take n ++ y ++ x.drop (n + y.length) := by
  induction x generalizing n with
  | nil =>
    rw [instr] at h
    split at h
    · rename_i hy
      simp [hy]
    · cases h
  | cons b x ih =>
    rw [instr] at h
    split at h
    · rename_i hp
      obtain ⟨t,ht⟩ := List.isPrefixOf_iff_prefix.mp hp
      obtain rfl : n = 0 := by omega
      simp [← ht]
    · split at h
      · cases h
      · obtain ⟨m,rfl⟩ : ∃ m, n = m + 1 := ⟨n - 1,by omega⟩
        have hm := ih (n := m) (by omega)
        rw [show m + 1 + y.length = (m + y.length) + 1 by omega]
        simpa using hm

@[simp] theorem substr_take (n : Nat) : substr x 1 n = x.take n := by
  simp [substr,between,start]

@[simp] theorem substrFrom_succ (n : Nat) : substrFrom x (n + 1) = x.drop n := by
  have hpos : (0 : Int) < n + 1 := by omega
  simp [substrFrom,start,hpos]

theorem substr_one (n : Nat) : substr x (n + 1) 1 = (x.drop n).take 1 := by
  have hpos : (0 : Int) < n + 1 := by omega
  have hfirst : ((n : Int) + 1 - 1).toNat = n := by omega
  have hlast : ((n : Int) + 1 - 1 + 1).toNat = n + 1 := by omega
  rw [substr,if_pos (by decide),between,start,if_pos hpos,hfirst,hlast,List.drop_take,
    Nat.add_sub_cancel_left]

theorem substrFrom_neg (n : Nat) (h : 0 < n) :
    substrFrom x (-n) = x.drop (x.length - n) := by
  have hneg : ¬(0 : Int) < -n := by omega
  have hlt : (-n : Int) < 0 := by omega
  have heq : ((x.length : Int) + -n).toNat = x.length - n := by omega
  simp only [substrFrom,start,hneg,hlt,if_false,if_true,heq]

theorem substr_dropLast (c : Char) :
    (if substrFrom x (-1) = [c] then substr x 1 (x.length - 1) else x) =
      if x.getLast? = some c then x.dropLast else x := by
  have hlast : substrFrom x (-1) = [c] ↔ x.getLast? = some c := by
    rw [show (-1 : Int) = -((1 : Nat) : Int) by rfl,substrFrom_neg x 1 Nat.one_pos]
    rcases x.eq_nil_or_concat with rfl | ⟨y,d,rfl⟩
    · simp
    · simp
  by_cases h : x.getLast? = some c
  · have hne : x ≠ [] := by
      rintro rfl
      cases h
    have hlen : ((x.length : Int) - 1) = ((x.length - 1 : Nat) : Int) := by
      have := List.length_pos_iff.mpr hne
      omega
    rw [if_pos (hlast.mpr h),if_pos h,hlen,substr_take,List.dropLast_eq_take]
  · rw [if_neg fun hx => h (hlast.mp hx),if_neg h]

end lemmas

end Sqlite
