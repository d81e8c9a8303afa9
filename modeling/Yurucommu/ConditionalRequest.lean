import Yurucommu.ActorIdentity

/-!
The reading of `If-None-Match`: the scan of the field, the grammar of a list of entity-tags, and
how far they agree.
-/

set_option autoImplicit false

namespace Yurucommu.ConditionalRequest

open Whatwg (Text)
open ActorIdentity (trim)

section fields

def unmark (tag : Text) : Text := if ("W/".toList).isPrefixOf tag then tag.drop 2 else tag

def opaqueTagOf (tag : Text) : Option Text :=
  let bare := unmark tag
  if bare.length < 2 || bare.head? ≠ some '"' || bare.getLast? ≠ some '"' then none else some bare

def isOws (c : Char) : Bool := c = ' ' || c = '\t'

def readTag (opened : Text) : Option (Text × Text) :=
  match opened.dropWhile (· ≠ '"') with
  | [] => none
  | _ :: closed =>
    let after := closed.dropWhile isOws
    if after = [] || after.head? = some ',' then
      some ('"' :: (opened.takeWhile (· ≠ '"') ++ ['"']),after)
    else none

/-- The entity-tags from a place of the field on, unless the rest is malformed; every turn takes at
least one character. -/
def scanTags : Nat → Text → Option (List Text)
  | _, [] => some []
  | 0, _ :: _ => none
  | n + 1, c :: rest =>
    if c = ',' || isOws c then scanTags n rest
    else
      match unmark (c :: rest) with
      | '"' :: opened =>
        match readTag opened with
        | some (tag,after) => (scanTags n after).map (tag :: ·)
        | none => none
      | _ => none

def entityTags (field : Text) : List Text := (scanTags field.length field).getD []

def ifNoneMatchIsFresh (header : Option Text) (httpEtag : Text) : Bool :=
  match header with
  | none => false
  | some header =>
    if header = [] || httpEtag = [] then false
    else if trim header = ['*'] then true
    else
      match opaqueTagOf httpEtag with
      | none => false
      | some target => (entityTags (trim header)).contains target

end fields

section grammar

def etagc (c : Char) : Bool :=
  c.toNat = 0x21 || (0x23 ≤ c.toNat && c.toNat ≤ 0x7e) || 0x80 ≤ c.toNat

def opaqueTag (body : Text) : Text := '"' :: (body ++ ['"'])

/-- One backend etag in the spelling that an `ETag` header may carry. -/
def httpEtagOf (etag : Text) : Text :=
  let bare := unmark etag
  if 2 ≤ bare.length && bare.head? = some '"' && bare.getLast? = some '"' then etag
  else opaqueTag etag

def weakMark (weak : Bool) : Text := if weak then "W/".toList else []

/-- After optional white space, the end or a comma. -/
def Ends (rest : Text) : Prop :=
  rest.dropWhile isOws = [] ∨ (rest.dropWhile isOws).head? = some ','

/-- A list of entity-tags and the opaque-tags in it; elements of a list may be empty. -/
inductive TagList : Text → List Text → Prop where
  | nil : TagList [] []
  | separator {c : Char} {rest : Text} {tags : List Text} (hc : (c = ',' || isOws c) = true)
      (hrest : TagList rest tags) : TagList (c :: rest) tags
  | tag {weak : Bool} {body rest : Text} {tags : List Text} (hbody : body.all etagc = true)
      (hends : Ends rest) (hrest : TagList rest tags) :
      TagList (weakMark weak ++ '"' :: (body ++ '"' :: rest)) (opaqueTag body :: tags)

/-- A list of quoted runs, and these runs; all that a run may not hold is a quote. -/
inductive QuotedList : Text → List Text → Prop where
  | nil : QuotedList [] []
  | separator {c : Char} {rest : Text} {runs : List Text} (hc : (c = ',' || isOws c) = true)
      (hrest : QuotedList rest runs) : QuotedList (c :: rest) runs
  | run {weak : Bool} {body rest : Text} {runs : List Text} (hbody : '"' ∉ body)
      (hends : Ends rest) (hrest : QuotedList rest runs) :
      QuotedList (weakMark weak ++ '"' :: (body ++ '"' :: rest)) (opaqueTag body :: runs)

def Names (field etag : Text) : Prop :=
  trim field = ['*'] ∨ ∃ tags, TagList (trim field) tags ∧ etag ∈ tags

end grammar

section runs

variable {t rest body : Text} {runs : List Text} {c : Char}

theorem QuotedList.skip (h : QuotedList (t.dropWhile isOws) runs) : QuotedList t runs := by
  induction t with
  | nil => exact h
  | cons c t ih =>
    rw [List.dropWhile_cons] at h
    split at h
    · rename_i hc
      exact .separator (by rw [hc,Bool.or_true]) (ih h)
    · exact h

theorem QuotedList.cons_cases (h : QuotedList (c :: rest) runs) :
    (c = ',' || isOws c) = true ∧ QuotedList rest runs ∨
      (c = ',' || isOws c) = false ∧ ∃ weak body rest' runs',
        c :: rest = weakMark weak ++ '"' :: (body ++ '"' :: rest') ∧ '"' ∉ body ∧ Ends rest' ∧
          QuotedList rest' runs' ∧ runs = opaqueTag body :: runs' := by
  generalize ht : c :: rest = t at h
  cases h with
  | nil => cases ht
  | separator hc hrest =>
    obtain ⟨rfl,rfl⟩ := List.cons.inj ht
    exact .inl ⟨hc,hrest⟩
  | @run weak body rest' runs' hbody hends hrest =>
    refine .inr ⟨?_,weak,body,rest',runs',rfl,hbody,hends,hrest,rfl⟩
    cases weak with
    | true =>
      obtain ⟨rfl,_⟩ := List.cons.inj ht
      rfl
    | false =>
      obtain ⟨rfl,_⟩ := List.cons.inj ht
      rfl

theorem QuotedList.nil_inv (h : QuotedList [] runs) : runs = [] := by
  generalize ht : ([] : Text) = t at h
  cases h with
  | nil => rfl
  | separator _ _ => cases ht
  | @run weak _ _ _ _ _ _ => cases weak with
    | true => cases ht
    | false => cases ht

theorem QuotedList.unskip (h : QuotedList t runs) : QuotedList (t.dropWhile isOws) runs := by
  induction t with
  | nil => exact h
  | cons c t ih =>
    rw [List.dropWhile_cons]
    split
    · rename_i hc
      rcases h.cons_cases with ⟨_,hrest⟩ | ⟨hsep,_⟩
      · exact ih hrest
      · rw [hc,Bool.or_true] at hsep
        cases hsep
    · exact h

theorem readTag_run (hbody : '"' ∉ body) (hends : Ends rest) :
    readTag (body ++ '"' :: rest) = some (opaqueTag body,rest.dropWhile isOws) := by
  have hclean : ∀ c ∈ body, decide (c ≠ '"') = true := by
    intro c hc
    refine decide_eq_true fun heq => hbody ?_
    rwa [heq] at hc
  have hafter : (rest.dropWhile isOws = [] || (rest.dropWhile isOws).head? = some ',') = true := by
    rw [Bool.or_eq_true,decide_eq_true_eq,decide_eq_true_eq]
    exact hends
  unfold readTag
  rw [List.dropWhile_append_of_pos hclean,List.takeWhile_append_of_pos hclean]
  simp only [ne_eq,not_true_eq_false,decide_false,Bool.false_eq_true,not_false_eq_true,
    List.dropWhile_cons_of_neg,List.takeWhile_cons_of_neg,List.append_nil]
  rw [if_pos hafter]
  rfl

theorem readTag_eq_some {opened tag after : Text} (h : readTag opened = some (tag,after)) :
    ∃ body rest, opened = body ++ '"' :: rest ∧ '"' ∉ body ∧ tag = opaqueTag body ∧ Ends rest ∧
      after = rest.dropWhile isOws := by
  unfold readTag at h
  split at h
  · cases h
  · rename_i c closed hdrop
    have hquote : c = '"' := by
      have hhead := List.head?_dropWhile_not (fun c => decide (c ≠ '"')) opened
      rw [hdrop] at hhead
      simpa using hhead
    have hclean : '"' ∉ opened.takeWhile (· ≠ '"') := by
      intro hmem
      exact absurd (List.mem_takeWhile_imp hmem) (by decide)
    dsimp only at h
    split at h
    · rename_i hends
      obtain ⟨rfl,rfl⟩ := Prod.mk.inj (Option.some.inj h)
      rw [Bool.or_eq_true,decide_eq_true_eq,decide_eq_true_eq] at hends
      refine ⟨_,closed,?_,hclean,rfl,hends,rfl⟩
      rw [hquote] at hdrop
      rw [← hdrop,List.takeWhile_append_dropWhile]
    · cases h

theorem unmark_weakMark {weak : Bool} : unmark (weakMark weak ++ '"' :: rest) = '"' :: rest := by
  cases weak with
  | true => rfl
  | false => rfl

theorem eq_weakMark {opened : Text} (h : unmark t = '"' :: opened) :
    ∃ weak, t = weakMark weak ++ '"' :: opened := by
  unfold unmark at h
  split at h
  · rename_i hweak
    obtain ⟨rest,rfl⟩ := List.isPrefixOf_iff_prefix.mp hweak
    exact ⟨true,by rw [← h]; rfl⟩
  · exact ⟨false,h⟩

theorem scanTags_cons {n : Nat} (hc : (c = ',' || isOws c) = false) {opened : Text}
    (h : unmark (c :: rest) = '"' :: opened) : scanTags (n + 1) (c :: rest) =
      (readTag opened).bind fun r => (scanTags n r.2).map (r.1 :: ·) := by
  rw [scanTags,if_neg (by rw [hc]; exact Bool.false_ne_true),h]
  cases hread : readTag opened with
  | none => simp [hread]
  | some r => simp [hread]

theorem exists_unmark {n : Nat} (hc : (c = ',' || isOws c) = false)
    (h : scanTags (n + 1) (c :: rest) = some runs) :
    ∃ opened, unmark (c :: rest) = '"' :: opened := by
  rw [scanTags,if_neg (by rw [hc]; exact Bool.false_ne_true)] at h
  split at h
  · rename_i opened heq
    exact ⟨opened,heq⟩
  · cases h

theorem scanTags_eq_some_iff {n : Nat} (hn : t.length ≤ n) :
    scanTags n t = some runs ↔ QuotedList t runs := by
  induction n generalizing t runs with
  | zero =>
    rw [List.length_eq_zero_iff.mp (Nat.le_zero.mp hn),scanTags,Option.some.injEq]
    constructor
    · rintro rfl
      exact .nil
    · intro h
      exact h.nil_inv.symm
  | succ n ih =>
    cases t with
    | nil =>
      rw [scanTags,Option.some.injEq]
      constructor
      · rintro rfl
        exact .nil
      · intro h
        exact h.nil_inv.symm
    | cons c rest =>
      rw [List.length_cons] at hn
      cases hc : (c = ',' || isOws c) with
      | true =>
        rw [scanTags,if_pos hc,ih (Nat.le_of_succ_le_succ hn)]
        constructor
        · exact .separator hc
        · intro h
          rcases h.cons_cases with ⟨_,hrest⟩ | ⟨hsep,_⟩
          · exact hrest
          · rw [hc] at hsep
            cases hsep
      | false =>
        have hlen : ∀ {weak : Bool} {body rest' : Text},
            c :: rest = weakMark weak ++ '"' :: (body ++ '"' :: rest') →
            (rest'.dropWhile isOws).length ≤ n := by
          intro weak body rest' heq
          have hle := (List.dropWhile_sublist isOws (l := rest')).length_le
          have htotal := congrArg List.length heq
          simp only [List.length_cons,List.length_append] at htotal
          omega
        constructor
        · intro hscan
          obtain ⟨opened,hunmark⟩ := exists_unmark hc hscan
          rw [scanTags_cons hc hunmark,Option.bind_eq_some_iff] at hscan
          obtain ⟨⟨tag,after⟩,hread,hmap⟩ := hscan
          obtain ⟨runs',hrest,rfl⟩ := Option.map_eq_some_iff.mp hmap
          obtain ⟨body,rest',rfl,hbody,rfl,hends,rfl⟩ := readTag_eq_some hread
          obtain ⟨weak,heq⟩ := eq_weakMark hunmark
          have hlist := (ih (hlen heq)).mp hrest
          rw [heq]
          exact .run hbody hends hlist.skip
        · intro h
          rcases h.cons_cases with ⟨hsep,_⟩ | ⟨_,weak,body,rest',runs',heq,hbody,hends,hrest,rfl⟩
          · rw [hc] at hsep
            cases hsep
          · have hunmark : unmark (c :: rest) = '"' :: (body ++ '"' :: rest') := by
              rw [heq,unmark_weakMark]
            have hscan := (ih (hlen heq)).mpr hrest.unskip
            rw [scanTags_cons hc hunmark,readTag_run hbody hends,Option.bind_some,hscan]
            rfl

end runs

section tags

variable {t body : Text} {tags : List Text}

theorem dropLast_opaqueTag : ((opaqueTag body).drop 1).dropLast = body := by
  simp [opaqueTag]

theorem quote_not_etagc (hbody : body.all etagc = true) : '"' ∉ body := by
  intro hmem
  exact absurd (List.all_eq_true.mp hbody '"' hmem) (by decide)

theorem tagList_iff : TagList t tags ↔
    QuotedList t tags ∧ (tags.all fun tag => (tag.drop 1).dropLast.all etagc) = true := by
  constructor
  · intro h
    induction h with
    | nil => exact ⟨.nil,rfl⟩
    | separator hc _ ih => exact ⟨.separator hc ih.1,ih.2⟩
    | tag hbody hends _ ih =>
      refine ⟨.run (quote_not_etagc hbody) hends ih.1,?_⟩
      rw [List.all_cons,dropLast_opaqueTag,hbody,ih.2]
      rfl
  · rintro ⟨h,hclean⟩
    induction h with
    | nil => exact .nil
    | separator hc _ ih => exact .separator hc (ih hclean)
    | run _ hends _ ih =>
      rw [List.all_cons,dropLast_opaqueTag,Bool.and_eq_true] at hclean
      exact .tag hclean.1 hends (ih hclean.2)

/-- The scan reads the lists of entity-tags and no others, but for the characters in the tags. -/
theorem scanTags_iff {n : Nat} (hn : t.length ≤ n) :
    scanTags n t = some tags ∧ (tags.all fun tag => (tag.drop 1).dropLast.all etagc) = true ↔
      TagList t tags := by
  rw [scanTags_eq_some_iff hn,tagList_iff]

theorem entityTags_of_tagList {field : Text} (h : TagList field tags) :
    entityTags field = tags := by
  unfold entityTags
  rw [((scanTags_iff (le_refl _)).mpr h).1]
  rfl

theorem entityTags_iff {field tag : Text} (htag : tag ∈ entityTags field) :
    ((entityTags field).all fun tag => (tag.drop 1).dropLast.all etagc) = true ↔
      ∃ tags, TagList field tags ∧ tag ∈ tags := by
  unfold entityTags at htag ⊢
  constructor
  · intro hclean
    cases hscan : scanTags field.length field with
    | none =>
      rw [hscan] at htag
      cases htag
    | some tags =>
      rw [hscan] at htag hclean
      exact ⟨tags,(scanTags_iff (le_refl _)).mp ⟨hscan,hclean⟩,htag⟩
  · rintro ⟨tags,hlist,_⟩
    obtain ⟨hscan,hclean⟩ := (scanTags_iff (le_refl _)).mpr hlist
    rw [hscan]
    exact hclean

end tags

end Yurucommu.ConditionalRequest
