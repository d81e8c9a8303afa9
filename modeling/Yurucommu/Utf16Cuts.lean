import Mathlib.Tactic
import Yurucommu.Utf16

/-!
Texts of code units cut in two, and the bytes they take.
-/

set_option autoImplicit false

namespace Utf16

variable {s t : List Nat} {u : Nat}

theorem Paired.cut (h : Paired (s ++ t))
    (hcut : ∀ u ∈ s.getLast?, ∀ v ∈ t.head?, isLeading u = true → isTrailing v = false) :
    Paired s ∧ Paired t := by
  generalize hst : s ++ t = text at h
  induction h generalizing s with
  | nil =>
    obtain ⟨rfl,rfl⟩ := List.append_eq_nil_iff.1 hst
    exact ⟨.nil,.nil⟩
  | @plain u rest h hu hrest ih =>
    cases s with
    | nil =>
      rw [List.nil_append] at hst
      exact ⟨.nil,hst ▸ .plain h hu hrest⟩
    | cons w s =>
      rw [List.cons_append,List.cons.injEq] at hst
      obtain ⟨rfl,hst⟩ := hst
      obtain ⟨hs,ht⟩ := ih (fun x hx v hv =>
        hcut x (by simp [List.getLast?_cons,Option.mem_def.1 hx]) v hv) hst
      exact ⟨.plain h hu hs,ht⟩
  | @pair u v rest hu hv hrest ih =>
    cases s with
    | nil =>
      rw [List.nil_append] at hst
      exact ⟨.nil,hst ▸ .pair hu hv hrest⟩
    | cons w s =>
      rw [List.cons_append,List.cons.injEq] at hst
      obtain ⟨rfl,hst⟩ := hst
      cases s with
      | nil =>
        rw [List.nil_append] at hst
        have hno := hcut w rfl v (by rw [hst]; rfl) hu
        rw [hv] at hno
        cases hno
      | cons x s =>
        rw [List.cons_append,List.cons.injEq] at hst
        obtain ⟨rfl,hst⟩ := hst
        obtain ⟨hs,ht⟩ := ih (fun y hy v hv =>
          hcut y (by simp [List.getLast?_cons,Option.mem_def.1 hy]) v hv) hst
        exact ⟨.pair hu hv hs,ht⟩

theorem decode_plain (hu : isSurrogate u = false) (rest : List Nat) :
    decode (u :: rest) = Char.ofNat u :: decode rest := by
  have hlead : isLeading u = false := by
    simp only [isLeading,isSurrogate,Bool.and_eq_false_iff,decide_eq_false_iff_not] at hu ⊢
    omega
  cases rest with
  | nil =>
    rw [decode,hu]
    rfl
  | cons v rest =>
    rw [decode,hlead,hu]
    rfl

theorem utf8Size_le_three (h : u < 0x10000) : (Char.ofNat u).utf8Size ≤ 3 := by
  have hle : (Char.ofNat u).val ≤ 0xFFFF := by
    rw [UInt32.le_iff_toNat_le]
    change (Char.ofNat u).toNat ≤ 0xFFFF
    rw [Char.toNat_ofNat]
    split <;> omega
  simp only [Char.utf8Size]
  split
  · omega
  · split
    · omega
    · split
      · omega
      · rename_i hno
        exact absurd hle hno

theorem Paired.length_utf8 (h : Paired t) : (utf8 t).length ≤ 3 * t.length := by
  induction h with
  | nil => exact Nat.le_refl _
  | @plain u rest h hu _ ih =>
    have hsize := utf8Size_le_three h
    rw [utf8,decode_plain hu,List.flatMap_cons,List.length_append,String.length_utf8EncodeChar,
      List.length_cons]
    rw [utf8] at ih
    omega
  | @pair u v rest hu hv _ ih =>
    rw [utf8,decode,if_pos ⟨hu,hv⟩,List.flatMap_cons,List.length_append,
      String.length_utf8EncodeChar,List.length_cons,List.length_cons]
    rw [utf8] at ih
    have hsize := Char.utf8Size_le_four
      (Char.ofNat (0x10000 + (u - 0xd800) * 0x400 + (v - 0xdc00)))
    omega

theorem Paired.next_of_leading (h : Paired (s ++ u :: t)) (hu : isLeading u = true) :
    Paired s ∧ Paired (u :: t) := by
  refine h.cut fun w _ v hv _ => ?_
  obtain rfl := Option.some.inj hv
  simp only [isLeading,isTrailing,Bool.and_eq_true,Bool.and_eq_false_iff,decide_eq_true_eq,
    decide_eq_false_iff_not] at hu ⊢
  omega

end Utf16
