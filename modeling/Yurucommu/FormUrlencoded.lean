import Yurucommu.Whatwg

/-!
Percent-encoded texts read back, and the serializer of `application/x-www-form-urlencoded`: two
lists of pairs that are written alike are alike.
-/

set_option autoImplicit false

namespace Whatwg

section components

def isAsciiAlphanumeric (c : Char) : Bool :=
  (0x30 ≤ c.toNat && c.toNat ≤ 0x39) || (0x41 ≤ c.toNat && c.toNat ≤ 0x5a) ||
    (0x61 ≤ c.toNat && c.toNat ≤ 0x7a)

/-- What `encodeURIComponent` encodes. -/
def uriComponentSet (c : Char) : Bool := !(isAsciiAlphanumeric c || "-_.!~*'()".toList.contains c)

def encodeURIComponent (t : Text) : Text := encode uriComponentSet t

/-- The application/x-www-form-urlencoded percent-encode set, less the space. -/
def formSet (c : Char) : Bool := !(isAsciiAlphanumeric c || "*-._ ".toList.contains c)

def formEncode (t : Text) : Text := (encode formSet t).map fun c => if c = ' ' then '+' else c

def formPair (pair : Text × Text) : Text := formEncode pair.1 ++ '=' :: formEncode pair.2

def formSerialize (pairs : List (Text × Text)) : Text :=
  ['&'].intercalate (pairs.map formPair)

end components

section params

abbrev SearchParams := List (Text × Text)

namespace SearchParams

def get (params : SearchParams) (name : Text) : Option Text :=
  (params.find? fun p => p.1 = name).map (·.2)

/-- The first pair of the name is written and the others go. -/
def set (params : SearchParams) (name value : Text) : SearchParams :=
  match params with
  | [] => [(name,value)]
  | p :: rest =>
    if p.1 = name then (name,value) :: rest.filter fun q => q.1 ≠ name
    else p :: SearchParams.set rest name value

end SearchParams

end params

section decode

variable {chosen : Char → Bool} {t t' : Text}

def hexValue (c : Char) : Nat := if c.toNat < 0x3a then c.toNat - 0x30 else c.toNat - 0x37

def percentDecode : Text → List UInt8
  | '%' :: high :: low :: rest =>
    UInt8.ofNat (hexValue high * 16 + hexValue low) :: percentDecode rest
  | c :: rest => String.utf8EncodeChar c ++ percentDecode rest
  | [] => []

theorem hexValue_hexDigit : ∀ n < 16, hexValue (hexDigit n) = n := by decide

theorem percentDecode_byte (b : UInt8) (rest : Text) :
    percentDecode (percentEncodeByte b ++ rest) = b :: percentDecode rest := by
  have hlt := b.toNat_lt
  have hhigh := hexValue_hexDigit (b.toNat / 16) (by omega)
  have hlow := hexValue_hexDigit (b.toNat % 16) (by omega)
  simp only [percentEncodeByte,List.cons_append,List.nil_append,percentDecode,hhigh,hlow]
  rw [Nat.div_add_mod',UInt8.ofNat_toNat]

theorem percentDecode_bytes (bytes : List UInt8) (rest : Text) :
    percentDecode (bytes.flatMap percentEncodeByte ++ rest) = bytes ++ percentDecode rest := by
  induction bytes with
  | nil => rfl
  | cons b bytes ih =>
    rw [List.flatMap_cons,List.append_assoc,percentDecode_byte,ih,List.cons_append]

theorem percentDecode_cons {c : Char} (hc : c ≠ '%') (rest : Text) :
    percentDecode (c :: rest) = String.utf8EncodeChar c ++ percentDecode rest := by
  simp [percentDecode,hc]

theorem percentDecode_encode (hset : chosen '%' = true) (t : Text) :
    percentDecode (encode chosen t) = t.flatMap String.utf8EncodeChar := by
  induction t with
  | nil => rfl
  | cons c t ih =>
    rw [encode,List.flatMap_cons,List.flatMap_cons,← encode,percentEncode]
    split
    · rw [percentDecode_bytes,ih]
    · rename_i hno
      have hc : c ≠ '%' := fun heq => hno (by rw [heq,hset])
      rw [List.singleton_append,percentDecode_cons hc,ih]

theorem utf8_injective (h : t.flatMap String.utf8EncodeChar = t'.flatMap String.utf8EncodeChar) :
    t = t' := by
  have hbytes : (String.ofList t).toByteArray = (String.ofList t').toByteArray := by
    rw [String.toByteArray_ofList,String.toByteArray_ofList,List.utf8Encode,List.utf8Encode,h]
  exact String.ofList_injective (String.toByteArray_inj.mp hbytes)

theorem encode_injective (hset : chosen '%' = true) (h : encode chosen t = encode chosen t') :
    t = t' := by
  have hdecoded := congrArg percentDecode h
  rw [percentDecode_encode hset,percentDecode_encode hset] at hdecoded
  exact utf8_injective hdecoded

theorem encodeURIComponent_injective (h : encodeURIComponent t = encodeURIComponent t') : t = t' :=
  encode_injective (by decide) h

end decode

section forms

variable {t t' : Text} {pairs pairs' : List (Text × Text)}

def formSeparator (c : Char) : Bool := c = '&' || c = '=' || c = '+'

theorem formSet_of_separator {c : Char} (h : formSet c = false) : formSeparator c = false := by
  by_contra hno
  rw [Bool.not_eq_false,formSeparator,Bool.or_eq_true,Bool.or_eq_true,decide_eq_true_eq,
    decide_eq_true_eq,decide_eq_true_eq] at hno
  rcases hno with (rfl | rfl) | rfl
  · exact absurd h (by decide)
  · exact absurd h (by decide)
  · exact absurd h (by decide)

theorem encode_formSet (t : Text) : ∀ c ∈ encode formSet t, formSeparator c = false :=
  encode_avoids (by decide) (by decide) fun _ _ h => formSet_of_separator h

theorem formEncode_injective (h : formEncode t = formEncode t') : t = t' := by
  have hback : ∀ t, (formEncode t).map (fun c => if c = '+' then ' ' else c) =
      encode formSet t := by
    intro t
    unfold formEncode
    rw [List.map_map]
    conv_rhs => rw [← List.map_id (encode formSet t)]
    refine List.map_congr_left fun c hc => ?_
    have hno : c ≠ '+' := fun heq => by
      have hclean := encode_formSet t c hc
      rw [heq] at hclean
      exact absurd hclean (by decide)
    by_cases hspace : c = ' '
    · simp [hspace]
    · simp [hspace,hno]
  have hencoded : encode formSet t = encode formSet t' := by rw [← hback t,← hback t',h]
  exact encode_injective (by decide) hencoded

theorem formEncode_clean {c : Char} (h : c ∈ formEncode t) : c ≠ '&' ∧ c ≠ '=' := by
  obtain ⟨d,hd,rfl⟩ := List.mem_map.mp h
  have hclean := encode_formSet t d hd
  simp only [formSeparator,Bool.or_eq_false_iff,decide_eq_false_iff_not] at hclean
  split
  · exact ⟨by decide,by decide⟩
  · exact hclean.1

theorem formPair_injective {p q : Text × Text} (h : formPair p = formPair q) : p = q := by
  have hno : ∀ t, '=' ∉ formEncode t := fun t ht => (formEncode_clean ht).2 rfl
  obtain ⟨hname,_,hvalue⟩ :=
    (List.append_cons_inj_of_notMem (hno _) (hno _)).mp h
  exact Prod.ext (formEncode_injective hname) (formEncode_injective hvalue)

theorem formPair_no_ampersand (p : Text × Text) : '&' ∉ formPair p := by
  intro h
  rcases List.mem_append.mp h with h | h
  · exact (formEncode_clean h).1 rfl
  · rcases List.mem_cons.mp h with h | h
    · exact absurd h (by decide)
    · exact (formEncode_clean h).1 rfl

theorem splitOn_formSerialize (h : pairs ≠ []) :
    (formSerialize pairs).splitOn '&' = pairs.map formPair := by
  refine List.splitOn_intercalate '&' (fun t ht => ?_) (by simpa using h)
  obtain ⟨p,_,rfl⟩ := List.mem_map.mp ht
  exact formPair_no_ampersand p

theorem formSerialize_eq_nil : formSerialize pairs = [] ↔ pairs = [] := by
  constructor
  · intro h
    by_contra hne
    have hsplit := splitOn_formSerialize hne
    rw [h,List.splitOn_nil] at hsplit
    obtain ⟨p,_,hp⟩ := List.mem_map.mp (hsplit ▸ List.mem_singleton_self [])
    simp [formPair] at hp
  · rintro rfl
    rfl

theorem formSerialize_injective (h : formSerialize pairs = formSerialize pairs') :
    pairs = pairs' := by
  by_cases hp : pairs = []
  · rw [hp] at h ⊢
    exact (formSerialize_eq_nil.mp h.symm).symm
  · have hp' : pairs' ≠ [] := fun hnil => hp (formSerialize_eq_nil.mp (by rw [h,hnil]; rfl))
    have hmap : pairs.map formPair = pairs'.map formPair := by
      rw [← splitOn_formSerialize hp,← splitOn_formSerialize hp',h]
    exact List.map_injective_iff.mpr (fun _ _ => formPair_injective) hmap

end forms

namespace SearchParams

variable {params : SearchParams} {name name' value : Text}

theorem get_cons (p : Text × Text) : SearchParams.get (p :: params) name =
    if p.1 = name then some p.2 else params.get name := by
  unfold SearchParams.get
  rw [List.find?_cons]
  by_cases h : p.1 = name
  · simp [h]
  · simp [h]

theorem get_eq_none (h : name ∉ params.map (·.1)) : params.get name = none := by
  unfold SearchParams.get
  rw [Option.map_eq_none_iff,List.find?_eq_none]
  intro p hp hname
  exact h (List.mem_map.mpr ⟨p,hp,of_decide_eq_true hname⟩)

theorem get_filter (h : name' ≠ name) :
    SearchParams.get (params.filter fun q => q.1 ≠ name) name' = params.get name' := by
  unfold SearchParams.get
  rw [List.find?_filter]
  congr 2
  funext q
  by_cases hq : q.1 = name'
  · simp [hq,h]
  · simp [hq]

theorem get_set : (params.set name value).get name' =
    if name' = name then some value else params.get name' := by
  induction params with
  | nil =>
    rw [SearchParams.set,get_cons]
    simp only [eq_comm]
  | cons p params ih =>
    rw [SearchParams.set]
    split
    · rename_i hp
      rw [get_cons,get_cons,hp]
      by_cases h : name' = name
      · simp [h]
      · rw [if_neg (Ne.symm h),if_neg h,if_neg (Ne.symm h),get_filter h]
    · rename_i hp
      rw [get_cons,get_cons,ih]
      by_cases hp' : p.1 = name'
      · rw [if_pos hp',if_neg fun h => hp (hp'.trans h),if_pos hp']
      · rw [if_neg hp',if_neg hp']

end SearchParams

end Whatwg
