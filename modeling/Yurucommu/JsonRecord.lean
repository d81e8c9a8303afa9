import Yurucommu.JsonText

/-!
Objects whose members may be left out, as `JSON.stringify` leaves out a member that is `undefined`.
-/

set_option autoImplicit false

namespace JsonText

open Utf16 (IsUnits)

variable {ν : Type}

def asString : Option (Json ν) → Option Units
  | some (.string value) => some value
  | _ => none

def defined (members : List (Units × Option (Json ν))) : List (Units × Json ν) :=
  members.filterMap fun m => m.2.map fun value => (m.1,value)

def nullable (value : Option (Json ν)) : Json ν := value.getD .null

section members

variable {members : List (Units × Option (Json ν))} {key : Units} {value : Option (Json ν)}
  {v : Json ν}

theorem mem_defined {m : Units × Json ν} (h : m ∈ defined members) :
    (m.1,some m.2) ∈ members := by
  obtain ⟨⟨key,value⟩,hm,hvalue⟩ := List.mem_filterMap.mp h
  obtain ⟨w,rfl,rfl⟩ := Option.map_eq_some_iff.mp hvalue
  exact hm

theorem get_defined (h : (members.map Prod.fst).Nodup) (hm : (key,value) ∈ members) :
    (Json.object (defined members)).get key = value := by
  induction members with
  | nil => cases hm
  | cons m members ih =>
    obtain ⟨hfresh,hrest⟩ := List.nodup_cons.mp h
    have hskip : m.1 ≠ key → (Json.object (defined (m :: members))).get key =
        (Json.object (defined members)).get key := by
      intro hne
      obtain ⟨k,w⟩ := m
      cases w with
      | none => rfl
      | some w => simp only [Json.get,defined,List.filterMap_cons,Option.map_some,
          List.find?_cons,decide_eq_false hne]
    obtain rfl | hm := List.mem_cons.mp hm
    · cases value with
      | none =>
        have hnone : (defined members).find? (fun m => m.1 = key) = none := by
          refine List.find?_eq_none.mpr fun m hm hsame => hfresh ?_
          have hkey : m.1 = key := by simpa using hsame
          exact List.mem_map.mpr ⟨_,mem_defined hm,hkey⟩
        change ((defined members).find? _).map _ = none
        rw [hnone]
        rfl
      | some w => simp [Json.get,defined]
    · rw [hskip fun hkey => hfresh (hkey ▸ List.mem_map_of_mem hm)]
      exact ih hrest hm

theorem defined_sublist :
    ((defined members).map Prod.fst).Sublist (members.map Prod.fst) := by
  induction members with
  | nil => exact .slnil
  | cons m members ih =>
    obtain ⟨key,value⟩ := m
    cases value with
    | none => exact ih.cons key
    | some value => exact ih.cons_cons key

def Plain (keys : List Units) : Prop :=
  keys.Nodup ∧ ∀ key ∈ keys, arrayIndex key = none ∧ ∀ u ∈ key, u < 0x10000

instance (keys : List Units) : Decidable (Plain keys) := inferInstanceAs (Decidable (_ ∧ _))

theorem proper_defined (hkeys : Plain (members.map Prod.fst))
    (hvalues : ∀ m ∈ members, ∀ value ∈ m.2, Proper value) :
    Proper (.object (defined members)) := by
  have hordered : (members.map Prod.fst).Pairwise Before := by
    refine List.Pairwise.imp_of_mem (fun ha hb hne => ?_) hkeys.1
    unfold Before
    rw [(hkeys.2 _ ha).1,(hkeys.2 _ hb).1]
    exact hne
  refine .object (hordered.sublist defined_sublist) (fun m hm => ?_) fun m hm => ?_
  · exact (hkeys.2 m.1 (List.mem_map_of_mem (mem_defined hm))).2
  · exact hvalues _ (mem_defined hm) m.2 rfl

theorem asString_some {value : Option (Json ν)} {t : Units} (h : asString value = some t) :
    value = some (.string t) := by
  unfold asString at h
  split at h
  · cases h
    rfl
  · cases h

theorem units_asString {t : Units} (hv : Proper v) (h : asString (v.get key) = some t) :
    IsUnits t := by
  cases proper_get hv (asString_some h) with
  | string units => exact units

theorem proper_some {w : Json ν} (h : Proper w) : ∀ x ∈ some w, Proper x := by
  intro x hx
  cases hx
  exact h

theorem proper_string {value : Option Units} (h : ∀ t ∈ value, IsUnits t) :
    ∀ w ∈ value.map (Json.string (ν := ν)), Proper w := by
  intro w hw
  obtain ⟨t,ht,rfl⟩ := Option.map_eq_some_iff.mp hw
  exact .string (h t ht)

theorem proper_nullable (h : ∀ w ∈ value, Proper w) : Proper (nullable value) := by
  cases value with
  | none => exact .null
  | some w => exact h w rfl

end members

section reread

variable [Zero ν]

theorem reread_defined (members : List (Units × Option (Json ν))) :
    reread (.object (defined members)) =
    .object (defined (members.map fun m => (m.1,m.2.map reread))) := by
  rw [reread,rereadMembers_eq]
  congr 1
  induction members with
  | nil => rfl
  | cons m members ih =>
    obtain ⟨key,value⟩ := m
    cases value with
    | none => exact ih
    | some value => exact congrArg _ ih

theorem asString_reread (value : Option Units) :
    asString ((value.map (Json.string (ν := ν))).map reread) = value := by
  cases value <;> rfl

end reread

section integers

def naturalOf (t : Units) : Nat := Nat.ofDigits 10 ((t.map (· - 48)).reverse)

theorem naturalOf_decimal (n : Nat) : naturalOf (decimal n) = n := by
  unfold naturalOf decimal
  split
  · rename_i hn
    rw [hn]
    rfl
  · have hminus : ((fun d => d - 48) ∘ fun d => 48 + d) = (id : Nat → Nat) :=
      funext fun d => Nat.add_sub_cancel_left 48 d
    rw [List.map_reverse,List.reverse_reverse,List.map_map,hminus,List.map_id,Nat.ofDigits_digits]

theorem decimal_numeral (n : Nat) : ∀ u ∈ decimal n, 48 ≤ u ∧ u ≤ 57 := by
  intro u hu
  unfold decimal at hu
  split at hu
  · rw [List.mem_singleton.mp hu]
    decide
  · obtain ⟨d,hd,rfl⟩ := List.mem_map.mp (List.mem_reverse.mp hu)
    have hlt := Nat.digits_lt_base (by decide) hd
    omega

theorem decimal_ne_nil (n : Nat) : decimal n ≠ [] := by
  unfold decimal
  split
  · exact List.cons_ne_nil _ _
  · rename_i hn
    simpa [Nat.digits_ne_nil_iff_ne_zero] using hn

def integerText (x : ℤ) : Units :=
  if x < 0 then 45 :: decimal x.natAbs else decimal x.natAbs

def integerOf (t : Units) : Option (Number ℤ) :=
  if t.head? = some 45 then
    if naturalOf t.tail = 0 then some .minusZero else some (.finite (-naturalOf t.tail))
  else some (.finite (naturalOf t))

theorem integerText_ne_nil (x : ℤ) : integerText x ≠ [] := by
  unfold integerText
  split
  · exact List.cons_ne_nil _ _
  · exact decimal_ne_nil _

theorem integerText_numeral (x : ℤ) : ∀ u ∈ integerText x, isNumeral u = true := by
  intro u hu
  have hdigit : 48 ≤ u ∧ u ≤ 57 ∨ u = 45 := by
    unfold integerText at hu
    split at hu
    · exact (List.mem_cons.mp hu).symm.imp_left (decimal_numeral _ u)
    · exact .inl (decimal_numeral _ u hu)
  simp only [isNumeral,Bool.or_eq_true,Bool.and_eq_true,decide_eq_true_eq]
  omega

theorem integerOf_integerText (x : ℤ) : integerOf (integerText x) = some (.finite x) := by
  unfold integerOf integerText
  by_cases hx : x < 0
  · have hne : x.natAbs ≠ 0 := by omega
    simp only [if_pos hx,List.head?_cons,if_true,List.tail_cons,naturalOf_decimal,if_neg hne]
    congr 2
    omega
  · have hhead : (decimal x.natAbs).head? ≠ some 45 := by
      intro hhead
      have hdigit := decimal_numeral _ 45 (List.mem_of_head? hhead)
      omega
    simp only [if_neg hx,if_neg hhead,naturalOf_decimal]
    congr 2
    omega

/-- The numbers that are integers, below those that are written with an exponent. -/
def integerFormat : NumberFormat ℤ where
  text := integerText
  read := integerOf
  text_ne_nil := integerText_ne_nil
  text_numeral := integerText_numeral
  read_text := integerOf_integerText

end integers

end JsonText
