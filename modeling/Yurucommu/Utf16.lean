import Mathlib
import Yurucommu.JsString

/-!
UTF-16 code units and the bytes they are encoded as. A surrogate without its other half is encoded
as the replacement character, so texts without one are told apart by their bytes.
-/

set_option autoImplicit false

namespace Utf16

def isLeading (u : Nat) : Bool := 0xd800 ≤ u && u < 0xdc00

def isTrailing (u : Nat) : Bool := 0xdc00 ≤ u && u < 0xe000

def isSurrogate (u : Nat) : Bool := 0xd800 ≤ u && u < 0xe000

def decode : List Nat → List Char
  | u :: v :: rest =>
    if isLeading u = true ∧ isTrailing v = true then
      Char.ofNat (0x10000 + (u - 0xd800) * 0x400 + (v - 0xdc00)) :: decode rest
    else (if isSurrogate u then '\uFFFD' else Char.ofNat u) :: decode (v :: rest)
  | [u] => [if isSurrogate u then '\uFFFD' else Char.ofNat u]
  | [] => []

def utf8 (t : List Nat) : List UInt8 := (decode t).flatMap String.utf8EncodeChar

def IsUnits (t : List Nat) : Prop := ∀ u ∈ t, u < 0x10000

/-- Every surrogate has its other half. -/
inductive Paired : List Nat → Prop where
  | nil : Paired []
  | plain {u : Nat} {rest : List Nat} (h : u < 0x10000) (hu : isSurrogate u = false)
      (hrest : Paired rest) : Paired (u :: rest)
  | pair {u v : Nat} {rest : List Nat} (hu : isLeading u = true) (hv : isTrailing v = true)
      (hrest : Paired rest) : Paired (u :: v :: rest)

variable {s t : List Nat}

theorem Paired.isUnits (h : Paired t) : IsUnits t := by
  induction h with
  | nil => exact fun _ hu => absurd hu List.not_mem_nil
  | plain h _ _ ih => exact List.forall_mem_cons.mpr ⟨h,ih⟩
  | pair hu hv _ ih =>
    simp only [isLeading,isTrailing,Bool.and_eq_true,decide_eq_true_eq] at hu hv
    exact List.forall_mem_cons.mpr ⟨by omega,List.forall_mem_cons.mpr ⟨by omega,ih⟩⟩

theorem Paired.append (hs : Paired s) (ht : Paired t) : Paired (s ++ t) := by
  induction hs with
  | nil => exact ht
  | plain h hu _ ih => exact .plain h hu ih
  | pair hu hv _ ih => exact .pair hu hv ih

theorem paired_of_small (h : ∀ u ∈ t, u < 0xd800) : Paired t := by
  induction t with
  | nil => exact .nil
  | cons u t ih =>
    have hu := h u List.mem_cons_self
    refine .plain (by omega) ?_ (ih fun v hv => h v (List.mem_cons_of_mem u hv))
    simp only [isSurrogate,Bool.and_eq_false_iff,decide_eq_false_iff_not]
    omega

theorem codeUnits_ofNat {n : Nat} (h : n.isValidChar) :
    JsString.codeUnits (Char.ofNat n) =
      if n < 0x10000 then [n]
      else [0xd800 + (n - 0x10000) / 0x400,0xdc00 + (n - 0x10000) % 0x400] := by
  have htoNat : (Char.ofNat n).toNat = n := by
    unfold Char.ofNat
    rw [dif_pos h]
    rfl
  unfold JsString.codeUnits
  rw [htoNat]

theorem units_decode (h : Paired t) : (decode t).flatMap JsString.codeUnits = t := by
  induction h with
  | nil => rfl
  | @plain u rest h hu _ ih =>
    have hvalid : u.isValidChar := by
      simp only [isSurrogate,Bool.and_eq_false_iff,decide_eq_false_iff_not] at hu
      unfold Nat.isValidChar
      omega
    have hstep : decode (u :: rest) = Char.ofNat u :: decode rest := by
      have hno : ∀ v, ¬(isLeading u = true ∧ isTrailing v = true) := by
        intro v hpair
        simp only [isLeading,isSurrogate,Bool.and_eq_true,decide_eq_true_eq,
          Bool.and_eq_false_iff,decide_eq_false_iff_not] at hpair hu
        omega
      cases rest with
      | nil =>
        rw [decode,hu]
        rfl
      | cons v rest =>
        rw [decode,if_neg (hno v),hu]
        rfl
    rw [hstep,List.flatMap_cons,ih,codeUnits_ofNat hvalid,if_pos h,List.singleton_append]
  | @pair u v rest hu hv _ ih =>
    rw [decode,if_pos ⟨hu,hv⟩,List.flatMap_cons,ih]
    simp only [isLeading,isTrailing,Bool.and_eq_true,decide_eq_true_eq] at hu hv
    rw [codeUnits_ofNat (by unfold Nat.isValidChar; omega),if_neg (by omega)]
    have hfirst :
        0xd800 + (0x10000 + (u - 0xd800) * 0x400 + (v - 0xdc00) - 0x10000) / 0x400 = u := by
      omega
    have hsecond :
        0xdc00 + (0x10000 + (u - 0xd800) * 0x400 + (v - 0xdc00) - 0x10000) % 0x400 = v := by
      omega
    rw [hfirst,hsecond]
    rfl

theorem utf8_inj (hs : Paired s) (ht : Paired t) : utf8 s = utf8 t ↔ s = t := by
  refine ⟨fun h => ?_,fun h => by rw [h]⟩
  have hbytes : (decode s).utf8Encode = (decode t).utf8Encode := congrArg List.toByteArray h
  have hdecoded := congrArg ByteArray.utf8Decode? hbytes
  rw [List.utf8Decode?_utf8Encode,List.utf8Decode?_utf8Encode,Option.some.injEq] at hdecoded
  have hlist : decode s = decode t := congrArg Array.toList hdecoded
  rw [← units_decode hs,hlist,units_decode ht]

end Utf16
