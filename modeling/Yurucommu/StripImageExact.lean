import Yurucommu.StripImageChunks

/-!
When the stripping of a PNG and of a WebP is exact: what is taken for each format, what is kept of
it, and that nothing more is removed the second time.
-/

set_option autoImplicit false

namespace Yurucommu.StripImage

section png

def pngFile (cs : List PngChunk) : Bytes := pngSignature ++ cs.flatMap PngChunk.encode

def EndsInIend (cs : List PngChunk) : Prop := IendFree cs ∧ ∃ c ∈ cs.getLast?, c.type = iend

structure PngExact (b : Bytes) : Prop where
  accepted : (stripPng b).isSome ↔ ∃ cs, EndsInIend cs ∧ b = pngFile cs
  output : ∀ out cs, stripPng b = some out → b = pngFile cs →
    out = pngFile (cs.filter (·.IsKept))
  idempotent : ∀ out, stripPng b = some out → stripPng out = some out

/-- A chunk of 2 GiB, or the letters of the end in place of its chunk. -/
def PngAstray (b : Bytes) : Prop := ∃ cs, b = pngFile cs ∧
  ((∃ c ∈ cs, ¬ c.IsShort) ∧ EndsInIend cs ∨
    (∀ c ∈ cs, c.IsShort ∧ c.type ≠ iend) ∧
      containsPngChunk (pngFile (cs.filter (·.IsKept))) iend)

theorem pngFile_inj {cs ds : List PngChunk} (h : pngFile cs = pngFile ds) : cs = ds :=
  PngChunk.encode_unmistakable.flatMap_inj PngChunk.encode_ne_nil (List.append_cancel_left h)

theorem length_le_flatMap_encode (cs : List PngChunk) :
    cs.length ≤ (cs.flatMap PngChunk.encode).length := by
  induction cs with
  | nil => simp
  | cons c cs ih =>
    simp only [List.flatMap_cons,List.length_append,List.length_cons,PngChunk.length_encode]
    omega

theorem stripPng_pngFile {cs : List PngChunk} (hfree : IendFree cs) :
    stripPng (pngFile cs) =
      if (∀ c ∈ cs, c.IsShort) ∧ containsPngChunk (pngFile (cs.filter (·.IsKept))) iend then
        some (pngFile (cs.filter (·.IsKept)))
      else none := by
  have hdrop : (pngFile cs).drop 8 = cs.flatMap PngChunk.encode := rfl
  have htake : (pngFile cs).take 8 = pngSignature := rfl
  have hlen : cs.length ≤ (pngFile cs).length :=
    (length_le_flatMap_encode cs).trans (by simp [pngFile])
  rw [stripPng,hdrop,htake,stripPngChunks_flatMap _ cs _ hlen hfree]
  by_cases hshort : ∀ c ∈ cs, c.IsShort
  · rw [if_pos hshort]
    have hout : pngSignature ++ pngKept cs = pngFile (cs.filter (·.IsKept)) := rfl
    by_cases hend : containsPngChunk (pngFile (cs.filter (·.IsKept))) iend
    · simpa [hout,hend] using hshort
    · simp [hout,hend]
  · simp [hshort]

theorem stripPng_sound {b out : Bytes} (h : stripPng b = some out) :
    ∃ cs, b = pngFile cs ∧ IendFree cs := by
  simp only [stripPng] at h
  rw [Option.ite_none_left_eq_some] at h
  obtain ⟨hsig,h⟩ := h
  cases hloop : stripPngChunks b.length (b.drop 8) pngSignature with
  | none => simp [hloop] at h
  | some result =>
    obtain ⟨rest,out'⟩ := result
    have hrest : rest = [] := by
      by_contra hne
      simp [hloop,hne] at h
    subst hrest
    obtain ⟨cs,hcs,hfree⟩ := stripPngChunks_sound (by simp) hloop
    refine ⟨cs,?_,hfree⟩
    rw [pngFile,← hcs,← not_not.1 hsig,List.take_append_drop]

theorem EndsInIend.contains {cs : List PngChunk} (h : EndsInIend cs) :
    containsPngChunk (pngFile (cs.filter (·.IsKept))) iend := by
  obtain ⟨_,c,hc,htype⟩ := h
  have hkept : c.IsKept := by
    rw [PngChunk.IsKept,htype]
    decide
  have hmem : c ∈ cs.filter (·.IsKept) := by simpa [hkept] using List.mem_of_getLast? hc
  obtain ⟨before,after,hsplit⟩ := List.append_of_mem hmem
  have hdrop : (pngFile (cs.filter (·.IsKept))).drop 8 =
      (cs.filter (·.IsKept)).flatMap PngChunk.encode := rfl
  simp only [containsPngChunk,decide_eq_true_eq]
  rw [hdrop,hsplit]
  refine ⟨before.flatMap PngChunk.encode ++ (little32 c.data.length).reverse,
    c.data ++ (c.crc ++ after.flatMap PngChunk.encode),?_⟩
  simp [PngChunk.encode,htype]

theorem IendFree.split {cs : List PngChunk} (h : IendFree cs) :
    EndsInIend cs ∨ ∀ c ∈ cs, c.type ≠ iend := by
  obtain rfl | ⟨init,last,rfl⟩ := List.eq_nil_or_concat' cs
  · exact .inr (by simp)
  by_cases hlast : last.type = iend
  · exact .inl ⟨h,last,by simp,hlast⟩
  · refine .inr fun c hc => ?_
    rcases List.mem_append.1 hc with hc | hc
    · exact h c (by simpa using hc)
    · rw [List.mem_singleton.1 hc]
      exact hlast

theorem EndsInIend.filter {cs : List PngChunk} (h : EndsInIend cs) :
    EndsInIend (cs.filter (·.IsKept)) := by
  obtain ⟨hfree,c,hc,htype⟩ := h
  have hkept : c.IsKept := by
    rw [PngChunk.IsKept,htype]
    decide
  obtain rfl | ⟨init,last,rfl⟩ := List.eq_nil_or_concat' cs
  · simp at hc
  obtain rfl : last = c := by simpa using hc
  refine ⟨fun d hd => ?_,last,by simp [hkept],htype⟩
  have hd : d ∈ init.filter (·.IsKept) := by simpa [hkept] using hd
  exact hfree d (by simpa using (List.mem_filter.1 hd).1)

theorem pngExact_iff (b : Bytes) : PngExact b ↔ ¬ PngAstray b := by
  constructor
  · rintro hexact ⟨cs,rfl,⟨⟨c,hc,hlong⟩,hend⟩ | ⟨hall,hletters⟩⟩
    · have haccepted := hexact.accepted.2 ⟨cs,hend,rfl⟩
      rw [stripPng_pngFile hend.1,if_neg fun h => hlong (h.1 c hc)] at haccepted
      simp at haccepted
    · have hfree : IendFree cs := fun c hc => (hall c (List.mem_of_mem_dropLast hc)).2
      have haccepted : (stripPng (pngFile cs)).isSome := by
        rw [stripPng_pngFile hfree,if_pos ⟨fun c hc => (hall c hc).1,hletters⟩]
        rfl
      obtain ⟨ds,⟨_,d,hd,hdend⟩,hfile⟩ := hexact.accepted.1 haccepted
      rw [← pngFile_inj hfile] at hd
      exact (hall d (List.mem_of_getLast? hd)).2 hdend
  · intro hastray
    have hshort : ∀ cs, b = pngFile cs → EndsInIend cs → ∀ c ∈ cs, c.IsShort := by
      intro cs hb hend c hc
      by_contra hlong
      exact hastray ⟨cs,hb,.inl ⟨⟨c,hc,hlong⟩,hend⟩⟩
    have hsound : ∀ out, stripPng b = some out → ∃ cs, b = pngFile cs ∧ EndsInIend cs := by
      intro out hout
      obtain ⟨cs,rfl,hfree⟩ := stripPng_sound hout
      refine ⟨cs,rfl,hfree.split.resolve_right fun hnone => hastray ?_⟩
      rw [stripPng_pngFile hfree,Option.ite_none_right_eq_some] at hout
      exact ⟨cs,rfl,.inr ⟨fun c hc => ⟨hout.1.1 c hc,hnone c hc⟩,hout.1.2⟩⟩
    have hstrip : ∀ cs, EndsInIend cs → (∀ c ∈ cs, c.IsShort) →
        stripPng (pngFile cs) = some (pngFile (cs.filter (·.IsKept))) := by
      intro cs hend hshort
      rw [stripPng_pngFile hend.1,if_pos ⟨hshort,hend.contains⟩]
    refine ⟨⟨fun h => ?_,?_⟩,?_,?_⟩
    · obtain ⟨out,hout⟩ := Option.isSome_iff_exists.1 h
      obtain ⟨cs,hb,hend⟩ := hsound out hout
      exact ⟨cs,hend,hb⟩
    · rintro ⟨cs,hend,rfl⟩
      rw [hstrip cs hend (hshort cs rfl hend)]
      rfl
    · rintro out ds hout rfl
      obtain ⟨cs,hfile,hend⟩ := hsound out hout
      obtain rfl := pngFile_inj hfile
      rw [hstrip ds hend (hshort ds rfl hend)] at hout
      exact (Option.some.inj hout).symm
    · intro out hout
      obtain ⟨cs,rfl,hend⟩ := hsound out hout
      have hs := hshort cs rfl hend
      rw [hstrip cs hend hs] at hout
      obtain rfl := Option.some.inj hout
      rw [hstrip _ hend.filter fun c hc => hs c (List.mem_filter.1 hc).1]
      simp [List.filter_filter]

end png

section webp

def webpFile (size : Bytes) (cs : List WebpChunk) : Bytes :=
  riff ++ (size ++ (webp ++ cs.flatMap WebpChunk.encode))

def numberOf : Bytes → Nat
  | [a,b,c,d] => big32 d c b a
  | _ => 0

def UpToFlags (c d : WebpChunk) : Prop :=
  d = c ∨ c.fourCC = vp8x ∧ d.fourCC = vp8x ∧ d.pad = c.pad ∧
    ∃ f g tail, c.data = f :: tail ∧ d.data = g :: tail ∧ g &&& 0xf3 = f &&& 0xf3

structure WebpExact (b : Bytes) : Prop where
  accepted : (stripWebp b).isSome ↔ ∃ size cs, size.length = 4 ∧ b = webpFile size cs
  output : ∀ out size cs, stripWebp b = some out → size.length = 4 → b = webpFile size cs →
    ∃ size' cs', size'.length = 4 ∧ out = webpFile size' cs' ∧
      (∀ c ∈ cs', c.IsKept) ∧ List.Forall₂ UpToFlags (cs.filter (·.IsKept)) cs' ∧
      (Removes cs → numberOf size' = out.length - 8)
  idempotent : ∀ out, stripWebp b = some out → stripWebp out = some out

/-- An empty `VP8X` is kept as the first chunk, and the name of the next one has one of the bits
of the flags. -/
def ClearsName (ks : List WebpChunk) : Prop :=
  ∃ v w ws x name, ks = v :: w :: ws ∧ v.fourCC = vp8x ∧ v.data = [] ∧ w.fourCC = x :: name ∧
    x &&& 0xf3 ≠ x

/-- A chunk of 2 GiB, no chunk to keep, or a chunk left out of a file whose flags are not where they
are cleared or whose size does not fit. -/
def WebpAstray (b : Bytes) : Prop := ∃ size cs, size.length = 4 ∧ b = webpFile size cs ∧
  ((∃ c ∈ cs, ¬ c.IsShort) ∨ (∀ c ∈ cs, ¬ c.IsKept) ∨
    Removes cs ∧ (ClearsName (cs.filter (·.IsKept)) ∨ 2 ^ 32 ≤ 4 + (webpKept cs).length))

theorem length_le_webp_flatMap (cs : List WebpChunk) :
    8 * cs.length ≤ (cs.flatMap WebpChunk.encode).length := by
  induction cs with
  | nil => simp
  | cons c cs ih =>
    simp only [List.flatMap_cons,List.length_append,List.length_cons,WebpChunk.length_encode]
    omega

theorem length_webpFile {size : Bytes} (hsize : size.length = 4) (cs : List WebpChunk) :
    (webpFile size cs).length = 12 + (cs.flatMap WebpChunk.encode).length := by
  simp [webpFile,riff,webp,hsize]
  omega

theorem stripWebp_webpFile {size : Bytes} (hsize : size.length = 4) (cs : List WebpChunk) :
    stripWebp (webpFile size cs) =
      if cs = [] ∨ ¬ ∀ c ∈ cs, c.IsShort then none
      else if Removes cs then
        some (riff ++ little32 (4 + (webpKept cs).length) ++ webp ++ clearFlags (webpKept cs))
      else some (webpFile size cs) := by
  obtain ⟨a,b,c,d,rfl⟩ := four_of_length hsize
  have hlen := length_webpFile hsize cs
  have hle := length_le_webp_flatMap cs
  have hriff : (webpFile [a,b,c,d] cs).take 4 = riff := rfl
  have hwebp : ((webpFile [a,b,c,d] cs).drop 8).take 4 = webp := rfl
  have hdrop : (webpFile [a,b,c,d] cs).drop 12 = cs.flatMap WebpChunk.encode := rfl
  rw [stripWebp,hriff,hwebp,hdrop,stripWebpChunks_flatMap _ cs _ _ (by omega)]
  cases cs with
  | nil => simp [webpFile,riff,webp]
  | cons k ks =>
    have hbound : ¬ (webpFile [a,b,c,d] (k :: ks)).length < 16 := by
      simp only [List.length_cons] at hle
      omega
    have hnames : ¬ (riff ≠ riff ∨ webp ≠ webp) := by simp
    rw [if_neg hbound,if_neg hnames]
    by_cases hshort : ∀ c ∈ k :: ks, c.IsShort
    · have hgo : ¬ (k :: ks = [] ∨ ¬ ∀ c ∈ k :: ks, c.IsShort) := by simpa using hshort
      rw [if_pos hshort,if_neg hgo]
      by_cases hremoves : Removes (k :: ks)
      · simp only [hremoves,decide_true,Bool.or_true,Bool.not_true,List.nil_append,ne_eq,not_true,
          if_false,if_true,Bool.false_eq_true]
      · simp only [hremoves,decide_false,Bool.or_false,Bool.not_false,ne_eq,not_true,if_false,
          if_true]
    · rw [if_neg hshort,if_pos (.inr hshort)]

theorem stripWebp_sound {b out : Bytes} (h : stripWebp b = some out) :
    ∃ size cs, size.length = 4 ∧ b = webpFile size cs := by
  simp only [stripWebp] at h
  rw [Option.ite_none_left_eq_some,Option.ite_none_left_eq_some] at h
  obtain ⟨hlen,hnames,h⟩ := h
  obtain ⟨hriff,hwebp⟩ := not_or.1 hnames
  cases hloop : stripWebpChunks b.length (b.drop 12) [] false with
  | none => simp [hloop] at h
  | some result =>
    obtain ⟨rest,body,removed⟩ := result
    have hrest : rest = [] := by
      by_contra hne
      simp [hloop,hne] at h
    subst hrest
    obtain ⟨cs,hcs⟩ := stripWebpChunks_sound (by simp) hloop
    refine ⟨(b.drop 4).take 4,cs,by rw [List.length_take,List.length_drop]; omega,?_⟩
    rw [webpFile,← hcs,← not_not.1 hriff,← not_not.1 hwebp]
    have h12 : b.drop 12 = (b.drop 8).drop 4 := by rw [List.drop_drop]
    have h8 : b.drop 8 = (b.drop 4).drop 4 := by rw [List.drop_drop]
    rw [h12,List.take_append_drop,h8,List.take_append_drop,List.take_append_drop]

theorem length_clearFlags (body : Bytes) : (clearFlags body).length = body.length := by
  unfold clearFlags
  split <;> simp

theorem UpToFlags.fourCC {c d : WebpChunk} (h : UpToFlags c d) : d.fourCC = c.fourCC := by
  obtain rfl | ⟨hc,hd,_⟩ := h
  · rfl
  · rw [hc,hd]

theorem UpToFlags.isShort {c d : WebpChunk} (h : UpToFlags c d) : d.IsShort ↔ c.IsShort := by
  obtain rfl | ⟨_,_,_,f,g,tail,hc,hd,_⟩ := h
  · rfl
  · simp [WebpChunk.IsShort,hc,hd]

theorem forall₂_upToFlags_refl (ks : List WebpChunk) : List.Forall₂ UpToFlags ks ks :=
  List.forall₂_same.2 fun _ _ => .inl rfl

theorem clearFlags_flatMap {ks : List WebpChunk} (h : ¬ ClearsName ks) :
    ∃ ds : List WebpChunk, clearFlags (ks.flatMap WebpChunk.encode) =
      ds.flatMap WebpChunk.encode ∧ List.Forall₂ UpToFlags ks ds := by
  cases ks with
  | nil => exact ⟨[],rfl,.nil⟩
  | cons v ws =>
    obtain ⟨c₀,c₁,c₂,c₃,s₀,s₁,s₂,s₃,henc,hcc,hsize,_⟩ := v.encode_eq
    have hbody : (v :: ws).flatMap WebpChunk.encode =
        c₀ :: c₁ :: c₂ :: c₃ :: s₀ :: s₁ :: s₂ :: s₃ ::
          (v.data ++ (v.pad ++ ws.flatMap WebpChunk.encode)) := by
      simp [henc]
    by_cases hvp8x : v.fourCC = vp8x
    · cases hdata : v.data with
      | nil =>
        have hpad : v.pad = [] := List.eq_nil_of_length_eq_zero (by simp [v.length_pad,hdata])
        refine ⟨v :: ws,?_,forall₂_upToFlags_refl _⟩
        cases ws with
        | nil => simp [clearFlags,hbody,hdata,hpad]
        | cons w ws =>
          obtain ⟨x,y,z,t,hname⟩ := four_of_length w.length_fourCC
          have hx : x &&& 0xf3 = x := by
            by_contra hx
            exact h ⟨v,w,ws,x,_,rfl,hvp8x,hdata,hname,hx⟩
          simp only [clearFlags,hbody,hdata,hpad,List.nil_append,List.flatMap_cons,
            WebpChunk.encode,hname,List.cons_append]
          split
          · simp [hx]
          · rfl
      | cons f tail =>
        refine ⟨⟨v.fourCC,(f &&& 0xf3) :: tail,v.pad,v.length_fourCC,
          by simpa [hdata] using v.length_data,by simpa [hdata] using v.length_pad⟩ :: ws,?_,
          .cons (.inr ⟨hvp8x,hvp8x,rfl,f,_,tail,hdata,rfl,?_⟩) (forall₂_upToFlags_refl ws)⟩
        · have hname : [c₀,c₁,c₂,c₃] = vp8x := by rw [← hcc,hvp8x]
          have hsize : little32 (tail.length + 1) = [s₀,s₁,s₂,s₃] := by simpa [hdata] using hsize
          rw [clearFlags,hbody,if_pos ⟨by simp [hdata],hname⟩]
          simp [WebpChunk.encode,hsize,hcc,hdata]
        · rw [UInt8.and_assoc]
          rfl
    · refine ⟨v :: ws,?_,forall₂_upToFlags_refl _⟩
      have htake : ((v :: ws).flatMap WebpChunk.encode).take 4 = v.fourCC := by
        rw [hbody,hcc]
        rfl
      rw [clearFlags,htake,if_neg fun hc => hvp8x hc.2]

/-- The name of the chunk after an empty `VP8X` is not the same any more. -/
theorem ClearsName.not_upToFlags {ks : List WebpChunk} (h : ClearsName ks)
    {ds : List WebpChunk} (hds : clearFlags (ks.flatMap WebpChunk.encode) =
      ds.flatMap WebpChunk.encode) : ¬ List.Forall₂ UpToFlags ks ds := by
  obtain ⟨v,w,ws,x,name,rfl,hvp8x,hdata,hname,hx⟩ := h
  intro hsame
  obtain ⟨c₀,c₁,c₂,c₃,s₀,s₁,s₂,s₃,_,hcc,hsize,_⟩ := v.encode_eq
  have hsize : little32 0 = [s₀,s₁,s₂,s₃] := by simpa [hdata] using hsize
  have hpad : v.pad = [] := List.eq_nil_of_length_eq_zero (by simp [v.length_pad,hdata])
  have hfour : [c₀,c₁,c₂,c₃] = vp8x := by rw [← hcc,hvp8x]
  let w' : WebpChunk := ⟨(x &&& 0xf3) :: name,w.data,w.pad,
    by simpa [hname] using w.length_fourCC,w.length_data,w.length_pad⟩
  have hcleared : clearFlags ((v :: w :: ws).flatMap WebpChunk.encode) =
      (v :: w' :: ws).flatMap WebpChunk.encode := by
    have hbody : (v :: w :: ws).flatMap WebpChunk.encode =
        c₀ :: c₁ :: c₂ :: c₃ :: s₀ :: s₁ :: s₂ :: s₃ :: x :: (name ++ (little32 w.data.length ++
          (w.data ++ (w.pad ++ ws.flatMap WebpChunk.encode)))) := by
      simp [WebpChunk.encode,hcc,hsize,hdata,hpad,hname]
    rw [clearFlags,hbody,if_pos ⟨by simp,hfour⟩]
    simp [WebpChunk.encode,hcc,hsize,hdata,hpad,w']
  have hds := WebpChunk.encode_unmistakable.flatMap_inj WebpChunk.encode_ne_nil
    (hcleared.symm.trans hds)
  subst hds
  have hw : UpToFlags w w' := by
    cases hsame with
    | cons _ hrest =>
      cases hrest with
      | cons hw _ => exact hw
  have hsame := hw.fourCC
  rw [hname] at hsame
  exact hx (List.cons.inj hsame).1

theorem stripWebp_short {size : Bytes} (hsize : size.length = 4) {cs : List WebpChunk}
    (hne : cs ≠ []) (hshort : ∀ c ∈ cs, c.IsShort) :
    stripWebp (webpFile size cs) =
      if Removes cs then
        some (riff ++ little32 (4 + (webpKept cs).length) ++ webp ++ clearFlags (webpKept cs))
      else some (webpFile size cs) := by
  rw [stripWebp_webpFile hsize,if_neg]
  rintro (h | h)
  · exact hne h
  · exact h hshort

theorem WebpExact.not_astray {b : Bytes} (hexact : WebpExact b) : ¬ WebpAstray b := by
  rintro ⟨size,cs,hsize,rfl,hastray⟩
  have haccepted := hexact.accepted.2 ⟨size,cs,hsize,rfl⟩
  have hne : cs ≠ [] := by
    rintro rfl
    simp [stripWebp_webpFile hsize] at haccepted
  have hshort : ∀ c ∈ cs, c.IsShort := by
    by_contra hlong
    rw [stripWebp_webpFile hsize,if_pos (.inr hlong)] at haccepted
    simp at haccepted
  have hstrip := stripWebp_short hsize hne hshort
  have hlittle : ∀ n, (little32 n).length = 4 := length_little32
  have hfile : ∀ n, riff ++ little32 n ++ webp ++ clearFlags (webpKept cs) =
      riff ++ (little32 n ++ (webp ++ clearFlags (webpKept cs))) := fun n => by simp
  rcases hastray with ⟨c,hc,hlong⟩ | hnone | ⟨hremoves,hclears | hbig⟩
  · exact hlong (hshort c hc)
  · have hremoves : Removes cs := by
      obtain ⟨c,hc⟩ := List.exists_mem_of_ne_nil cs hne
      exact ⟨c,hc,hnone c hc⟩
    have hkept : webpKept cs = [] := by
      have : cs.filter (·.IsKept) = [] := by simpa using hnone
      rw [webpKept,this]
      rfl
    rw [if_pos hremoves,hkept] at hstrip
    have hagain := hexact.idempotent _ hstrip
    exact absurd hagain (by decide)
  · rw [if_pos hremoves] at hstrip
    obtain ⟨size',cs',hsize',hout,_,hsame,_⟩ := hexact.output _ size cs hstrip hsize rfl
    rw [hfile] at hout
    have hout := List.append_cancel_left hout
    obtain ⟨_,hout⟩ := List.append_inj hout (by rw [hlittle,hsize'])
    exact hclears.not_upToFlags (List.append_cancel_left hout) hsame
  · rw [if_pos hremoves] at hstrip
    obtain ⟨size',cs',hsize',hout,_,_,hnumber⟩ := hexact.output _ size cs hstrip hsize rfl
    have hnumber := hnumber hremoves
    obtain ⟨a,b,c,d,rfl⟩ := four_of_length hsize'
    have hlt := big32_lt d c b a
    simp only [numberOf] at hnumber
    rw [hnumber] at hlt
    simp only [List.length_append,length_clearFlags,hlittle] at hlt
    have hriff : riff.length = 4 := rfl
    have hwebp : webp.length = 4 := rfl
    omega

theorem exists_upToFlags {ks ds : List WebpChunk} (h : List.Forall₂ UpToFlags ks ds)
    {d : WebpChunk} (hd : d ∈ ds) : ∃ c ∈ ks, UpToFlags c d := by
  induction h with
  | nil => simp at hd
  | cons hcd _ ih =>
    rcases List.mem_cons.1 hd with rfl | hd
    · exact ⟨_,by simp,hcd⟩
    · obtain ⟨c,hc,hcd⟩ := ih hd
      exact ⟨c,by simp [hc],hcd⟩

theorem UpToFlags.isKept {c d : WebpChunk} (h : UpToFlags c d) (hc : c.IsKept) : d.IsKept := by
  rw [WebpChunk.IsKept,h.fourCC]
  exact hc

/-- A file some of whose chunks are left out is a file of the others. -/
theorem stripWebp_removes {cs : List WebpChunk} (h : ¬ ClearsName (cs.filter (·.IsKept))) :
    ∃ cs', riff ++ little32 (4 + (webpKept cs).length) ++ webp ++ clearFlags (webpKept cs) =
        webpFile (little32 (4 + (webpKept cs).length)) cs' ∧
      (∀ c ∈ cs', c.IsKept) ∧ List.Forall₂ UpToFlags (cs.filter (·.IsKept)) cs' := by
  obtain ⟨cs',hclear,hsame⟩ := clearFlags_flatMap h
  refine ⟨cs',?_,?_,hsame⟩
  · rw [webpKept,hclear]
    simp [webpFile]
  · intro d hd
    obtain ⟨c,hc,hcd⟩ := exists_upToFlags hsame hd
    exact hcd.isKept (by simpa using (List.mem_filter.1 hc).2)

theorem webpExact_iff (b : Bytes) : WebpExact b ↔ ¬ WebpAstray b := by
  refine ⟨WebpExact.not_astray,fun hastray => ?_⟩
  have hplain : ∀ size cs, size.length = 4 → b = webpFile size cs →
      (∀ c ∈ cs, c.IsShort) ∧ (∃ c ∈ cs, c.IsKept) ∧ (Removes cs →
        ¬ ClearsName (cs.filter (·.IsKept)) ∧ 4 + (webpKept cs).length < 2 ^ 32) := by
    intro size cs hsize hb
    by_contra hnot
    refine hastray ⟨size,cs,hsize,hb,?_⟩
    by_contra hnone
    push Not at hnone
    exact hnot ⟨hnone.1,hnone.2.1,hnone.2.2⟩
  have hne : ∀ size cs, size.length = 4 → b = webpFile size cs → cs ≠ [] := by
    rintro size cs hsize hb rfl
    obtain ⟨c,hc,_⟩ := (hplain size [] hsize hb).2.1
    simp at hc
  refine ⟨⟨fun h => ?_,?_⟩,?_,?_⟩
  · obtain ⟨out,hout⟩ := Option.isSome_iff_exists.1 h
    exact stripWebp_sound hout
  · rintro ⟨size,cs,hsize,hb⟩
    obtain ⟨hshort,_⟩ := hplain size cs hsize hb
    rw [hb,stripWebp_short hsize (hne size cs hsize hb) hshort]
    split <;> rfl
  · intro out size cs hout hsize hb
    obtain ⟨hshort,_,hplaced⟩ := hplain size cs hsize hb
    rw [hb,stripWebp_short hsize (hne size cs hsize hb) hshort] at hout
    by_cases hremoves : Removes cs
    · obtain ⟨cs',hfile,hkept,hsame⟩ := stripWebp_removes (hplaced hremoves).1
      rw [if_pos hremoves,hfile] at hout
      obtain rfl := Option.some.inj hout
      refine ⟨_,cs',length_little32 _,rfl,hkept,hsame,fun _ => ?_⟩
      have hlen := congrArg List.length hfile
      simp only [List.length_append,length_clearFlags,length_little32] at hlen
      obtain ⟨x,y,z,t,hlittle,hbig⟩ := little32_eq (4 + (webpKept cs).length)
      rw [← hlen,hlittle]
      have hriff : riff.length = 4 := rfl
      have hwebp : webp.length = 4 := rfl
      have hfits := (hplaced hremoves).2
      simp only [numberOf]
      omega
    · rw [if_neg hremoves] at hout
      obtain rfl := Option.some.inj hout
      have hall : ∀ c ∈ cs, c.IsKept := by
        intro c hc
        by_contra hdropped
        exact hremoves ⟨c,hc,hdropped⟩
      have hfilter : cs.filter (·.IsKept) = cs := List.filter_eq_self.2 (by simpa using hall)
      refine ⟨size,cs,hsize,rfl,hall,?_,fun h => absurd h hremoves⟩
      rw [hfilter]
      exact forall₂_upToFlags_refl cs
  · intro out hout
    obtain ⟨size,cs,hsize,hb⟩ := stripWebp_sound hout
    obtain ⟨hshort,⟨k,hk,hkkept⟩,hplaced⟩ := hplain size cs hsize hb
    have hstrip := hout
    rw [hb,stripWebp_short hsize (hne size cs hsize hb) hshort] at hstrip
    by_cases hremoves : Removes cs
    · obtain ⟨cs',hfile,hkept,hsame⟩ := stripWebp_removes (hplaced hremoves).1
      rw [if_pos hremoves,hfile] at hstrip
      obtain rfl := Option.some.inj hstrip
      have hne' : cs' ≠ [] := by
        rintro rfl
        have hnil := List.forall₂_nil_right_iff.1 hsame
        have : k ∈ cs.filter (·.IsKept) := by simp [hk,hkkept]
        simp [hnil] at this
      have hshort' : ∀ c ∈ cs', c.IsShort := by
        intro d hd
        obtain ⟨c,hc,hcd⟩ := exists_upToFlags hsame hd
        exact hcd.isShort.2 (hshort c (List.mem_filter.1 hc).1)
      have hnone : ¬ Removes cs' := fun ⟨c,hc,hdropped⟩ => hdropped (hkept c hc)
      rw [stripWebp_short (length_little32 _) hne' hshort',if_neg hnone]
    · rw [if_neg hremoves,← hb] at hstrip
      rwa [Option.some.inj hstrip] at hout

/-- The name `VP8 ` after an empty `VP8X` becomes `RP8 ` where a chunk is left out. -/
example : stripWebp (riff ++ [0,0,0,0] ++ webp ++ vp8x ++ [0,0,0,0] ++
    [0x56,0x50,0x38,0x20,0,0,0,0] ++ exif ++ [0,0,0,0]) =
    some (riff ++ [20,0,0,0] ++ webp ++ vp8x ++ [0,0,0,0] ++ [0x52,0x50,0x38,0x20,0,0,0,0]) := by
  decide

end webp

/-- Both strippings are exact just where the bytes are none of the files that go astray. -/
theorem stripped_exact_iff (b : Bytes) :
    PngExact b ∧ WebpExact b ↔ ¬ PngAstray b ∧ ¬ WebpAstray b := by
  rw [pngExact_iff,webpExact_iff]

section concrete

def lettersChunk : PngChunk := ⟨[0x61,0x62,0x63,0x64],iend,[0,0,0,0],rfl,by decide,rfl⟩

/-- It is taken for a PNG with an end. -/
theorem letters_taken_for_end : ¬ (PngExact (pngFile [lettersChunk]) ∧
    WebpExact (pngFile [lettersChunk])) := by
  rintro ⟨hexact,_⟩
  obtain ⟨cs,⟨_,c,hc,hend⟩,hfile⟩ := hexact.accepted.1 (by decide)
  rw [← pngFile_inj hfile] at hc
  obtain rfl : lettersChunk = c := by simpa using hc
  exact absurd hend (by decide)

end concrete

end Yurucommu.StripImage
