import Yurucommu.StripImage

/-!
The chunks of a PNG and of a WebP as values that carry their well-formedness, and what each loop
does on a sequence of them.
-/

set_option autoImplicit false

namespace Yurucommu.StripImage

section codes

variable {χ : Type}

/-- No two values are read off the same bytes. -/
def Unmistakable (encode : χ → Bytes) : Prop :=
  ∀ c d rest rest', encode c ++ rest = encode d ++ rest' → c = d ∧ rest = rest'

theorem Unmistakable.flatMap_inj {encode : χ → Bytes} (h : Unmistakable encode)
    (hne : ∀ c, encode c ≠ []) : ∀ {cs ds : List χ}, cs.flatMap encode = ds.flatMap encode → cs = ds
  | [], [], _ => rfl
  | [], d :: ds, heq => by simp [hne] at heq
  | c :: cs, [], heq => by simp [hne] at heq
  | c :: cs, d :: ds, heq => by
    obtain ⟨hcd,hrest⟩ := h c d _ _ (by simpa using heq)
    rw [hcd,h.flatMap_inj hne hrest]

end codes

section numbers

theorem little32_eq (n : Nat) : ∃ a b c d, little32 n = [a,b,c,d] ∧ big32 d c b a = n % 2 ^ 32 := by
  refine ⟨_,_,_,_,rfl,?_⟩
  simp only [big32,UInt8.toNat_ofNat']
  omega

theorem little32_big32 (a b c d : UInt8) : little32 (big32 d c b a) = [a,b,c,d] := by
  have ha := a.toNat_lt
  have hb := b.toNat_lt
  have hc := c.toNat_lt
  have hd := d.toNat_lt
  simp only [little32,big32,List.map_cons,List.map_nil,List.cons.injEq,and_true,
    ← UInt8.toNat_inj,UInt8.toNat_ofNat']
  omega

theorem big32_lt (a b c d : UInt8) : big32 a b c d < 2 ^ 32 := by
  have ha := a.toNat_lt
  have hb := b.toNat_lt
  have hc := c.toNat_lt
  have hd := d.toNat_lt
  simp only [big32]
  omega

@[simp] theorem length_little32 (n : Nat) : (little32 n).length = 4 := rfl

theorem little32_inj {m n : Nat} (hm : m < 2 ^ 32) (hn : n < 2 ^ 32)
    (h : little32 m = little32 n) : m = n := by
  obtain ⟨a,b,c,d,hmm,hm'⟩ := little32_eq m
  obtain ⟨a',b',c',d',hnn,hn'⟩ := little32_eq n
  rw [hmm,hnn] at h
  simp only [List.cons.injEq,and_true] at h
  obtain ⟨rfl,rfl,rfl,rfl⟩ := h
  omega

theorem signed_neg {n : Nat} (h : n < 2 ^ 32) : signed n < 0 ↔ 2 ^ 31 ≤ n := by
  simp only [signed]
  split <;> omega

theorem signed_toNat {n : Nat} (h : n < 2 ^ 31) : (signed n).toNat = n := by
  rw [signed,if_pos h,Int.toNat_natCast]

theorem four_of_length {l : Bytes} (h : l.length = 4) : ∃ a b c d, l = [a,b,c,d] := by
  match l, h with
  | [a,b,c,d], _ => exact ⟨a,b,c,d,rfl⟩

end numbers

section png

structure PngChunk where
  type : Bytes
  data : Bytes
  crc : Bytes
  length_type : type.length = 4
  length_data : data.length < 2 ^ 32
  length_crc : crc.length = 4

namespace PngChunk

def encode (c : PngChunk) : Bytes :=
  (little32 c.data.length).reverse ++ (c.type ++ (c.data ++ c.crc))

def IsKept (c : PngChunk) : Prop := c.type ∉ pngDropChunks

instance : DecidablePred IsKept := fun c => inferInstanceAs (Decidable (c.type ∉ pngDropChunks))

def IsShort (c : PngChunk) : Prop := c.data.length < 2 ^ 31

instance : DecidablePred IsShort := fun c => inferInstanceAs (Decidable (c.data.length < 2 ^ 31))

@[simp] theorem length_encode (c : PngChunk) : c.encode.length = 12 + c.data.length := by
  simp [encode,c.length_type,c.length_crc]
  omega

theorem encode_ne_nil (c : PngChunk) : c.encode ≠ [] := by
  intro h
  have := congrArg List.length h
  simp at this

theorem encode_unmistakable : Unmistakable encode := by
  intro c d rest rest' h
  simp only [encode,List.append_assoc] at h
  obtain ⟨hlen,h⟩ := List.append_inj h (by simp)
  have hlen := little32_inj c.length_data d.length_data (List.reverse_injective hlen)
  obtain ⟨htype,h⟩ := List.append_inj h (by rw [c.length_type,d.length_type])
  obtain ⟨hdata,h⟩ := List.append_inj h hlen
  obtain ⟨hcrc,h⟩ := List.append_inj h (by rw [c.length_crc,d.length_crc])
  obtain ⟨type,data,crc,_,_,_⟩ := c
  obtain ⟨type',data',crc',_,_,_⟩ := d
  simp_all

end PngChunk

def pngKept (cs : List PngChunk) : Bytes := (cs.filter (·.IsKept)).flatMap PngChunk.encode

@[simp] theorem pngKept_nil : pngKept [] = [] := rfl

theorem pngKept_cons (c : PngChunk) (cs : List PngChunk) :
    pngKept (c :: cs) = (if c.IsKept then c.encode else []) ++ pngKept cs := by
  by_cases h : c.IsKept <;> simp [pngKept,h]

theorem PngChunk.encode_eq (c : PngChunk) : ∃ l₀ l₁ l₂ l₃ t₀ t₁ t₂ t₃,
    c.encode = l₀ :: l₁ :: l₂ :: l₃ :: t₀ :: t₁ :: t₂ :: t₃ :: (c.data ++ c.crc) ∧
      c.type = [t₀,t₁,t₂,t₃] ∧ big32 l₀ l₁ l₂ l₃ = c.data.length := by
  obtain ⟨a,b,c',d,hlen,hbig⟩ := little32_eq c.data.length
  obtain ⟨t₀,t₁,t₂,t₃,htype⟩ := four_of_length c.length_type
  refine ⟨d,c',b,a,t₀,t₁,t₂,t₃,?_,htype,?_⟩
  · simp [PngChunk.encode,hlen,htype]
  · rw [hbig,Nat.mod_eq_of_lt c.length_data]

theorem stripPngChunks_cons (n : Nat) (c : PngChunk) (rest out : Bytes) :
    stripPngChunks (n + 1) (c.encode ++ rest) out =
      if ¬ c.IsShort then none
      else if c.type = iend then some (rest,out ++ if c.IsKept then c.encode else [])
      else stripPngChunks n rest (out ++ if c.IsKept then c.encode else []) := by
  obtain ⟨l₀,l₁,l₂,l₃,t₀,t₁,t₂,t₃,henc,htype,hbig⟩ := c.encode_eq
  have hlen := c.length_encode
  have htake : (c.encode ++ rest).take (12 + c.data.length) = c.encode := List.take_left' hlen
  have hdrop : (c.encode ++ rest).drop (12 + c.data.length) = rest := List.drop_left' hlen
  have hbound : ¬ (c.encode ++ rest).length < 12 + c.data.length := by simp
  rw [henc] at htake hdrop hbound ⊢
  simp only [List.cons_append] at htake hdrop hbound ⊢
  simp only [stripPngChunks,hbig,signed_neg c.length_data]
  by_cases hshort : c.IsShort
  · have hnot : ¬ 2 ^ 31 ≤ c.data.length := Nat.not_le.2 hshort
    simp only [hnot,hshort,if_false,not_true,signed_toNat hshort,hbound,htake,hdrop,← htype,
      PngChunk.IsKept]
    by_cases hdrop' : c.type ∈ pngDropChunks
    · simp [hdrop']
    · simp [hdrop']
  · rw [if_pos (Nat.not_lt.1 hshort),if_pos hshort]

theorem PngChunk.exists_encode {l₀ l₁ l₂ l₃ : UInt8} (t₀ t₁ t₂ t₃ : UInt8) {tail : Bytes}
    (h : big32 l₀ l₁ l₂ l₃ + 4 ≤ tail.length) : ∃ (c : PngChunk) (rest : Bytes),
      l₀ :: l₁ :: l₂ :: l₃ :: t₀ :: t₁ :: t₂ :: t₃ :: tail = c.encode ++ rest ∧
        c.data.length = big32 l₀ l₁ l₂ l₃ := by
  have hnum := little32_big32 l₃ l₂ l₁ l₀
  have hlt := big32_lt l₀ l₁ l₂ l₃
  generalize big32 l₀ l₁ l₂ l₃ = n at h hnum hlt ⊢
  have hdata : (tail.take n).length = n := by
    rw [List.length_take]
    omega
  refine ⟨⟨[t₀,t₁,t₂,t₃],tail.take n,(tail.drop n).take 4,rfl,by rw [hdata]; exact hlt,?_⟩,
    (tail.drop n).drop 4,?_,hdata⟩
  · rw [List.length_take,List.length_drop]
    omega
  · simp only [PngChunk.encode,hdata,hnum,List.append_assoc,List.take_append_drop]
    rfl

theorem stripPngChunks_step {n : Nat} {bytes out : Bytes} {result : Bytes × Bytes}
    (h : stripPngChunks (n + 1) bytes out = some result) :
    result = (bytes,out) ∨
      ∃ (c : PngChunk) (rest : Bytes), bytes = c.encode ++ rest ∧ c.IsShort := by
  unfold stripPngChunks at h
  split at h
  next l₀ l₁ l₂ l₃ t₀ t₁ t₂ t₃ tail =>
    right
    have hlt := big32_lt l₀ l₁ l₂ l₃
    dsimp only at h
    rw [Option.ite_none_left_eq_some,signed_neg hlt] at h
    obtain ⟨hshort,h⟩ := h
    have hshort := Nat.not_le.1 hshort
    rw [Option.ite_none_left_eq_some,signed_toNat hshort] at h
    have hle : big32 l₀ l₁ l₂ l₃ + 4 ≤ tail.length := by
      have := h.1
      simp only [List.length_cons] at this
      omega
    obtain ⟨c,rest,hbytes,hlen⟩ := PngChunk.exists_encode t₀ t₁ t₂ t₃ hle
    exact ⟨c,rest,hbytes,by rw [PngChunk.IsShort,hlen]; exact hshort⟩
  next => exact .inl (by simpa using h.symm)

def IendFree (cs : List PngChunk) : Prop := ∀ c ∈ cs.dropLast, c.type ≠ iend

theorem IendFree.tail {c : PngChunk} {cs : List PngChunk} (h : IendFree (c :: cs)) :
    IendFree cs := by
  intro d hd
  cases cs with
  | nil => simp at hd
  | cons e es => exact h d (by simp [hd])

theorem stripPngChunks_flatMap : ∀ (n : Nat) (cs : List PngChunk) (out : Bytes), cs.length ≤ n →
    IendFree cs → stripPngChunks n (cs.flatMap PngChunk.encode) out =
      if ∀ c ∈ cs, c.IsShort then some ([],out ++ pngKept cs) else none
  | n, [], out, _, _ => by cases n <;> simp [stripPngChunks]
  | n + 1, c :: cs, out, hn, hfree => by
    rw [List.flatMap_cons,stripPngChunks_cons]
    by_cases hshort : c.IsShort
    · have ih := stripPngChunks_flatMap n cs
        (out ++ if c.IsKept then c.encode else []) (by simpa using hn) hfree.tail
      by_cases hend : c.type = iend
      · have hnil : cs = [] := by
          cases cs with
          | nil => rfl
          | cons d ds => exact absurd hend (hfree c (by simp))
        subst hnil
        simp [hshort,hend,pngKept_cons]
      · simp [hshort,hend,ih,pngKept_cons]
    · simp [hshort]

theorem stripPngChunks_sound : ∀ {n : Nat} {bytes out out' : Bytes}, bytes.length ≤ n →
    stripPngChunks n bytes out = some ([],out') →
      ∃ cs : List PngChunk, bytes = cs.flatMap PngChunk.encode ∧ IendFree cs
  | 0, bytes, out, out', _, h => by
    simp only [stripPngChunks,Option.some.injEq,Prod.mk.injEq] at h
    exact ⟨[],by simp [h.1],by simp [IendFree]⟩
  | n + 1, bytes, out, out', hn, h => by
    obtain hresult | ⟨c,tail,rfl,hshort⟩ := stripPngChunks_step h
    · simp only [Prod.mk.injEq] at hresult
      exact ⟨[],by simp [← hresult.1],by simp [IendFree]⟩
    rw [stripPngChunks_cons] at h
    by_cases hend : c.type = iend
    · simp only [hshort,not_true,if_false,hend,if_true,Option.some.injEq,Prod.mk.injEq] at h
      exact ⟨[c],by simp [h.1],by simp [IendFree]⟩
    · simp only [hshort,not_true,if_false,hend] at h
      have hlen := c.length_encode
      obtain ⟨cs,rfl,hfree⟩ := stripPngChunks_sound
        (by simp only [List.length_append,hlen] at hn; omega) h
      refine ⟨c :: cs,by simp,?_⟩
      intro d hd
      cases cs with
      | nil => simp at hd
      | cons e es =>
        rcases List.mem_cons.1 hd with rfl | hd
        · exact hend
        · exact hfree d hd

end png

section webp

structure WebpChunk where
  fourCC : Bytes
  data : Bytes
  pad : Bytes
  length_fourCC : fourCC.length = 4
  length_data : data.length < 2 ^ 32
  length_pad : pad.length = data.length % 2

namespace WebpChunk

def encode (c : WebpChunk) : Bytes :=
  c.fourCC ++ (little32 c.data.length ++ (c.data ++ c.pad))

def IsKept (c : WebpChunk) : Prop := ¬ (c.fourCC = exif ∨ c.fourCC = xmp)

instance : DecidablePred IsKept :=
  fun c => inferInstanceAs (Decidable (¬ (c.fourCC = exif ∨ c.fourCC = xmp)))

def IsShort (c : WebpChunk) : Prop := c.data.length < 2 ^ 31

instance : DecidablePred IsShort := fun c => inferInstanceAs (Decidable (c.data.length < 2 ^ 31))

@[simp] theorem length_encode (c : WebpChunk) :
    c.encode.length = 8 + (c.data.length + c.data.length % 2) := by
  simp [encode,c.length_fourCC,c.length_pad]
  omega

theorem encode_ne_nil (c : WebpChunk) : c.encode ≠ [] := by
  intro h
  have := congrArg List.length h
  simp at this

theorem encode_unmistakable : Unmistakable encode := by
  intro c d rest rest' h
  simp only [encode,List.append_assoc] at h
  obtain ⟨hcc,h⟩ := List.append_inj h (by rw [c.length_fourCC,d.length_fourCC])
  obtain ⟨hlen,h⟩ := List.append_inj h (by simp)
  have hlen := little32_inj c.length_data d.length_data hlen
  obtain ⟨hdata,h⟩ := List.append_inj h hlen
  obtain ⟨hpad,h⟩ := List.append_inj h (by rw [c.length_pad,d.length_pad,hlen])
  obtain ⟨fourCC,data,pad,_,_,_⟩ := c
  obtain ⟨fourCC',data',pad',_,_,_⟩ := d
  simp_all

theorem encode_eq (c : WebpChunk) : ∃ c₀ c₁ c₂ c₃ s₀ s₁ s₂ s₃,
    c.encode = c₀ :: c₁ :: c₂ :: c₃ :: s₀ :: s₁ :: s₂ :: s₃ :: (c.data ++ c.pad) ∧
      c.fourCC = [c₀,c₁,c₂,c₃] ∧ little32 c.data.length = [s₀,s₁,s₂,s₃] ∧
      big32 s₃ s₂ s₁ s₀ = c.data.length := by
  obtain ⟨s₀,s₁,s₂,s₃,hlen,hbig⟩ := little32_eq c.data.length
  obtain ⟨c₀,c₁,c₂,c₃,hcc⟩ := four_of_length c.length_fourCC
  refine ⟨c₀,c₁,c₂,c₃,s₀,s₁,s₂,s₃,?_,hcc,hlen,?_⟩
  · simp [encode,hlen,hcc]
  · rw [hbig,Nat.mod_eq_of_lt c.length_data]

theorem exists_encode (c₀ c₁ c₂ c₃ : UInt8) {s₀ s₁ s₂ s₃ : UInt8} {tail : Bytes}
    (h : big32 s₃ s₂ s₁ s₀ + big32 s₃ s₂ s₁ s₀ % 2 ≤ tail.length) :
    ∃ (c : WebpChunk) (rest : Bytes),
      c₀ :: c₁ :: c₂ :: c₃ :: s₀ :: s₁ :: s₂ :: s₃ :: tail = c.encode ++ rest ∧
        c.data.length = big32 s₃ s₂ s₁ s₀ := by
  have hnum := little32_big32 s₀ s₁ s₂ s₃
  have hlt := big32_lt s₃ s₂ s₁ s₀
  generalize big32 s₃ s₂ s₁ s₀ = n at h hnum hlt ⊢
  have hdata : (tail.take n).length = n := by
    rw [List.length_take]
    omega
  refine ⟨⟨[c₀,c₁,c₂,c₃],tail.take n,(tail.drop n).take (n % 2),rfl,by rw [hdata]; exact hlt,?_⟩,
    (tail.drop n).drop (n % 2),?_,hdata⟩
  · rw [List.length_take,List.length_drop,hdata]
    omega
  · simp only [encode,hdata,hnum,List.append_assoc,List.take_append_drop]
    rfl

end WebpChunk

def webpKept (cs : List WebpChunk) : Bytes := (cs.filter (·.IsKept)).flatMap WebpChunk.encode

@[simp] theorem webpKept_nil : webpKept [] = [] := rfl

theorem webpKept_cons (c : WebpChunk) (cs : List WebpChunk) :
    webpKept (c :: cs) = (if c.IsKept then c.encode else []) ++ webpKept cs := by
  by_cases h : c.IsKept <;> simp [webpKept,h]

def Removes (cs : List WebpChunk) : Prop := ∃ c ∈ cs, ¬ c.IsKept

instance : DecidablePred Removes := fun cs => inferInstanceAs (Decidable (∃ c ∈ cs, ¬ c.IsKept))

@[simp] theorem removes_cons (c : WebpChunk) (cs : List WebpChunk) :
    Removes (c :: cs) ↔ ¬ c.IsKept ∨ Removes cs := by
  simp [Removes]

theorem stripWebpChunks_cons (n : Nat) (c : WebpChunk) (rest body : Bytes) (removed : Bool) :
    stripWebpChunks (n + 1) (c.encode ++ rest) body removed =
      if ¬ c.IsShort then none
      else stripWebpChunks n rest (body ++ if c.IsKept then c.encode else [])
        (removed || !decide c.IsKept) := by
  obtain ⟨c₀,c₁,c₂,c₃,s₀,s₁,s₂,s₃,henc,hcc,_,hbig⟩ := c.encode_eq
  have hlen := c.length_encode
  have htake : (c.encode ++ rest).take (8 + (c.data.length + c.data.length % 2)) = c.encode :=
    List.take_left' hlen
  have hdrop : (c.encode ++ rest).drop (8 + (c.data.length + c.data.length % 2)) = rest :=
    List.drop_left' hlen
  have hbound : ¬ (c.encode ++ rest).length < 8 + (c.data.length + c.data.length % 2) := by
    simp
  rw [henc] at htake hdrop hbound ⊢
  simp only [List.cons_append] at htake hdrop hbound ⊢
  simp only [stripWebpChunks,hbig,signed_neg c.length_data]
  by_cases hshort : c.IsShort
  · have hnot : ¬ 2 ^ 31 ≤ c.data.length := Nat.not_le.2 hshort
    simp only [hnot,hshort,if_false,not_true,signed_toNat hshort,hbound,htake,hdrop,← hcc]
    by_cases hmeta : c.fourCC = exif ∨ c.fourCC = xmp
    · simp [WebpChunk.IsKept,hmeta]
    · simp [WebpChunk.IsKept,hmeta]
  · rw [if_pos (Nat.not_lt.1 hshort),if_pos hshort]

theorem stripWebpChunks_step {n : Nat} {bytes body : Bytes} {removed : Bool}
    {result : Bytes × Bytes × Bool}
    (h : stripWebpChunks (n + 1) bytes body removed = some result) :
    result = (bytes,body,removed) ∨
      ∃ (c : WebpChunk) (rest : Bytes), bytes = c.encode ++ rest ∧ c.IsShort := by
  unfold stripWebpChunks at h
  split at h
  next c₀ c₁ c₂ c₃ s₀ s₁ s₂ s₃ tail =>
    right
    have hlt := big32_lt s₃ s₂ s₁ s₀
    dsimp only at h
    rw [Option.ite_none_left_eq_some,signed_neg hlt] at h
    obtain ⟨hshort,h⟩ := h
    have hshort := Nat.not_le.1 hshort
    rw [Option.ite_none_left_eq_some,signed_toNat hshort] at h
    have hle : big32 s₃ s₂ s₁ s₀ + big32 s₃ s₂ s₁ s₀ % 2 ≤ tail.length := by
      have := h.1
      simp only [List.length_cons] at this
      omega
    obtain ⟨c,rest,hbytes,hlen⟩ := WebpChunk.exists_encode c₀ c₁ c₂ c₃ hle
    exact ⟨c,rest,hbytes,by rw [WebpChunk.IsShort,hlen]; exact hshort⟩
  next => exact .inl (by simpa using h.symm)

theorem stripWebpChunks_flatMap : ∀ (n : Nat) (cs : List WebpChunk) (body : Bytes)
    (removed : Bool), cs.length ≤ n →
    stripWebpChunks n (cs.flatMap WebpChunk.encode) body removed =
      if ∀ c ∈ cs, c.IsShort then some ([],body ++ webpKept cs,removed || decide (Removes cs))
      else none
  | n, [], body, removed, _ => by cases n <;> simp [stripWebpChunks,Removes]
  | n + 1, c :: cs, body, removed, hn => by
    rw [List.flatMap_cons,stripWebpChunks_cons]
    by_cases hshort : c.IsShort
    · have ih := stripWebpChunks_flatMap n cs (body ++ if c.IsKept then c.encode else [])
        (removed || !decide c.IsKept) (by simpa using hn)
      simp [hshort,ih,webpKept_cons,Bool.or_assoc]
    · simp [hshort]

theorem stripWebpChunks_sound : ∀ {n : Nat} {bytes body body' : Bytes} {removed removed' : Bool},
    bytes.length ≤ n → stripWebpChunks n bytes body removed = some ([],body',removed') →
      ∃ cs : List WebpChunk, bytes = cs.flatMap WebpChunk.encode
  | 0, bytes, body, body', removed, removed', _, h => by
    simp only [stripWebpChunks,Option.some.injEq,Prod.mk.injEq] at h
    exact ⟨[],by simp [h.1]⟩
  | n + 1, bytes, body, body', removed, removed', hn, h => by
    obtain hresult | ⟨c,tail,rfl,hshort⟩ := stripWebpChunks_step h
    · simp only [Prod.mk.injEq] at hresult
      exact ⟨[],by simp [← hresult.1]⟩
    rw [stripWebpChunks_cons] at h
    simp only [hshort,not_true,if_false] at h
    have hlen := c.length_encode
    obtain ⟨cs,rfl⟩ := stripWebpChunks_sound
      (by simp only [List.length_append,hlen] at hn; omega) h
    exact ⟨c :: cs,by simp⟩

end webp

end Yurucommu.StripImage
