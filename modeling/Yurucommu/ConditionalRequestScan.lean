import Yurucommu.ConditionalRequest
import Yurucommu.Loop

/-!
`If-None-Match` against the grammar of entity-tags: the scan ends, and where it reads something that
is no list of entity-tags.
-/

set_option autoImplicit false

namespace Yurucommu.ConditionalRequest

open Whatwg (Text)
open ActorIdentity (trim isJsSpace)

section turns

/-- Where the scan of a field is: before an element of the list, or behind its end. -/
inductive Scan where
  | reading (index : Nat) (tags : List Text)
  | done (tags : List Text)

def Scan.Ended : Scan → Prop
  | .reading _ _ => False
  | .done _ => True

def indexOfQuote (field : Text) (index : Nat) : Option Nat :=
  let close := index + ((field.drop index).takeWhile (· ≠ '"')).length
  if close < field.length then some close else none

/-- The index behind the optional white space. -/
def skipOws (field : Text) (index : Nat) : Nat :=
  index + ((field.drop index).takeWhile isOws).length

/-- The entity-tag that is opened at an index, or the end of the scan. -/
def readTagAt (field : Text) (index : Nat) (tags : List Text) : Scan :=
  if field[index]? ≠ some '"' then .done []
  else
    match indexOfQuote field (index + 1) with
    | none => .done []
    | some close =>
      let after := skipOws field (close + 1)
      if after < field.length && field[after]? ≠ some ',' then .done []
      else .reading after (tags ++ [(field.drop index).take (close + 1 - index)])

/-- One turn of the outer loop of `entityTags`. -/
def Scan.turn (field : Text) : Scan → Scan
  | .done tags => .done tags
  | .reading index tags =>
    match field[index]? with
    | none => .done tags
    | some char =>
      if char = ',' || isOws char then .reading (index + 1) tags
      else if ("W/".toList).isPrefixOf (field.drop index) then readTagAt field (index + 2) tags
      else readTagAt field index tags

end turns

section ends

variable {field t rest : Text} {tags : List Text} {index : Nat} {c : Char}

def scan (t : Text) : Option (List Text) := scanTags t.length t

theorem scanTags_eq_scan {n : Nat} (hn : t.length ≤ n) : scanTags n t = scan t := by
  ext runs
  rw [scanTags_eq_some_iff hn,scan,scanTags_eq_some_iff (le_refl _)]

theorem scan_separator (hc : (c = ',' || isOws c) = true) : scan (c :: rest) = scan rest := by
  rw [scan,List.length_cons,scanTags,if_pos hc]
  rfl

theorem scan_opened (hc : (c = ',' || isOws c) = false) {opened : Text}
    (h : unmark (c :: rest) = '"' :: opened) : scan (c :: rest) =
      (readTag opened).bind fun r => (scan r.2).map (r.1 :: ·) := by
  rw [scan,List.length_cons,scanTags_cons hc h]
  cases hread : readTag opened with
  | none => rfl
  | some r =>
    obtain ⟨tag,after⟩ := r
    obtain ⟨body,rest',rfl,_,_,_,rfl⟩ := readTag_eq_some hread
    obtain ⟨weak,heq⟩ := eq_weakMark h
    have hle := (List.dropWhile_sublist isOws (l := rest')).length_le
    have htotal := congrArg List.length heq
    simp only [List.length_cons,List.length_append] at htotal
    rw [Option.bind_some,Option.bind_some,scanTags_eq_scan (by dsimp only; omega)]

theorem scan_unopened (hc : (c = ',' || isOws c) = false)
    (h : ∀ opened, unmark (c :: rest) ≠ '"' :: opened) : scan (c :: rest) = none := by
  rw [Option.eq_none_iff_forall_ne_some]
  intro runs hscan
  obtain ⟨opened,hunmark⟩ := exists_unmark hc hscan
  exact h opened hunmark

def Scan.result (field : Text) : Scan → List Text
  | .done tags => tags
  | .reading index tags => ((scan (field.drop index)).map (tags ++ ·)).getD []

theorem indexOfQuote_eq : indexOfQuote field index =
    if (field.drop index).dropWhile (· ≠ '"') = [] then none
    else some (index + ((field.drop index).takeWhile (· ≠ '"')).length) := by
  have hsplit := congrArg List.length
    (List.takeWhile_append_dropWhile (p := (· ≠ '"')) (l := field.drop index))
  rw [List.length_append,List.length_drop] at hsplit
  unfold indexOfQuote
  dsimp only
  cases hdrop : (field.drop index).dropWhile (· ≠ '"') with
  | nil =>
    rw [hdrop,List.length_nil] at hsplit
    rw [if_neg (by omega),if_pos rfl]
  | cons c closed =>
    rw [hdrop,List.length_cons] at hsplit
    rw [if_pos (by omega),if_neg (List.cons_ne_nil _ _)]

theorem drop_takeWhile (p : Char → Bool) (t : Text) :
    t.drop (t.takeWhile p).length = t.dropWhile p := by
  have hsplit := congrArg (List.drop (t.takeWhile p).length)
    (List.takeWhile_append_dropWhile (p := p) (l := t))
  rw [List.drop_left] at hsplit
  exact hsplit.symm

theorem drop_skipOws : field.drop (skipOws field index) = (field.drop index).dropWhile isOws := by
  rw [skipOws,← List.drop_drop,drop_takeWhile]

theorem getElem?_eq_head? (field : Text) (index : Nat) :
    field[index]? = (field.drop index).head? := by
  rw [List.head?_drop]

theorem lt_length_iff (field : Text) (index : Nat) :
    index < field.length ↔ field.drop index ≠ [] := by
  rw [ne_eq,List.drop_eq_nil_iff,Nat.not_le]

theorem drop_add_one {opened : Text} (h : field.drop index = c :: opened) :
    field.drop (index + 1) = opened := by
  rw [← List.drop_drop,h]
  rfl

theorem result_unopened (h : ∀ opened, field.drop index ≠ '"' :: opened) :
    (readTagAt field index tags).result field = [] := by
  unfold readTagAt
  rw [if_pos]
  · rfl
  · rw [getElem?_eq_head?]
    intro hhead
    cases hdrop : field.drop index with
    | nil =>
      rw [hdrop] at hhead
      cases hhead
    | cons c opened =>
      rw [hdrop,List.head?_cons,Option.some.injEq] at hhead
      exact h opened (by rw [hdrop,hhead])

theorem result_readTagAt {opened : Text} (h : field.drop index = '"' :: opened) :
    (readTagAt field index tags).result field =
      (((readTag opened).bind fun r => (scan r.2).map (r.1 :: ·)).map (tags ++ ·)).getD [] := by
  have hopened : field.drop (index + 1) = opened := drop_add_one h
  unfold readTagAt
  rw [if_neg (by rw [getElem?_eq_head?,h]; simp),indexOfQuote_eq,hopened]
  unfold readTag
  cases hdrop : opened.dropWhile (· ≠ '"') with
  | nil =>
    rw [if_pos rfl]
    rfl
  | cons quote closed =>
    rw [if_neg (List.cons_ne_nil _ _)]
    dsimp only
    obtain rfl : quote = '"' := by
      have hhead := List.head?_dropWhile_not (fun c => decide (c ≠ '"')) opened
      rw [hdrop] at hhead
      simpa using hhead
    have hsplit := (List.takeWhile_append_dropWhile (p := (· ≠ '"')) (l := opened)).symm
    have hlater := drop_takeWhile (· ≠ '"') opened
    rw [hdrop] at hsplit hlater
    generalize opened.takeWhile (· ≠ '"') = body at hsplit hlater ⊢
    have hclosed : field.drop (index + 1 + body.length + 1) = closed := by
      rw [← List.drop_drop,← List.drop_drop,hopened,hlater]
      rfl
    have htag : (field.drop index).take (index + 1 + body.length + 1 - index) =
        '"' :: (body ++ ['"']) := by
      have hlen : index + 1 + body.length + 1 - index = (body ++ ['"']).length + 1 := by
        rw [List.length_append,List.length_singleton]
        omega
      have hbody : opened = (body ++ ['"']) ++ closed := by
        rw [hsplit,List.append_assoc,List.singleton_append]
      rw [hlen,h,List.take_succ_cons,hbody,List.take_left]
    have hends : (skipOws field (index + 1 + body.length + 1) < field.length &&
        decide (field[skipOws field (index + 1 + body.length + 1)]? ≠ some ',')) =
          !(closed.dropWhile isOws = [] || (closed.dropWhile isOws).head? = some ',') := by
      rw [getElem?_eq_head?,drop_skipOws,hclosed,Bool.not_or]
      simp only [lt_length_iff,drop_skipOws,hclosed,ne_eq,decide_not]
    rw [htag,hends]
    cases hafter : (closed.dropWhile isOws = [] || (closed.dropWhile isOws).head? = some ',') with
    | true =>
      rw [if_neg (by simp),if_pos rfl]
      simp only [Scan.result,drop_skipOws,hclosed,Option.bind_some,Option.map_map]
      congr 2
      funext more
      simp
    | false =>
      rw [if_pos (by simp),if_neg (by simp)]
      rfl

theorem unmark_drop (field : Text) (index : Nat) : unmark (field.drop index) =
    if ("W/".toList).isPrefixOf (field.drop index) then field.drop (index + 2)
    else field.drop index := by
  rw [unmark,List.drop_drop]

theorem result_turn (s : Scan) : (s.turn field).result field = s.result field := by
  cases s with
  | done tags => rfl
  | reading index tags =>
    dsimp only [Scan.turn]
    rw [getElem?_eq_head?]
    cases hdrop : field.drop index with
    | nil =>
      simp only [Scan.result,hdrop]
      exact (List.append_nil tags).symm
    | cons c rest =>
      have hright : (Scan.reading index tags).result field =
          ((scan (c :: rest)).map (tags ++ ·)).getD [] := by
        simp only [Scan.result,hdrop]
      rw [hright,List.head?_cons]
      dsimp only
      cases hc : (c = ',' || isOws c) with
      | true =>
        rw [if_pos rfl,scan_separator hc]
        simp only [Scan.result,drop_add_one hdrop]
      | false =>
        rw [if_neg Bool.false_ne_true]
        have hmark := unmark_drop field index
        rw [hdrop] at hmark
        have hstart : ∀ start, unmark (c :: rest) = field.drop start →
            (readTagAt field start tags).result field =
              ((scan (c :: rest)).map (tags ++ ·)).getD [] := by
          intro start heq
          by_cases hopens : ∃ opened, field.drop start = '"' :: opened
          · obtain ⟨opened,hopened⟩ := hopens
            rw [result_readTagAt hopened,scan_opened hc (heq.trans hopened)]
          · have hclosed : ∀ opened, field.drop start ≠ '"' :: opened :=
              fun opened h => hopens ⟨opened,h⟩
            rw [result_unopened hclosed,scan_unopened hc fun opened h => hclosed opened (heq ▸ h)]
            rfl
        split
        · rename_i hweak
          rw [if_pos hweak] at hmark
          exact hstart _ hmark
        · rename_i hweak
          rw [if_neg hweak] at hmark
          exact hstart _ (hmark.trans hdrop.symm)

def Scan.left (field : Text) : Scan → Nat
  | .reading index _ => field.length - index + 1
  | .done _ => 0

theorem turn_ended {s : Scan} (h : s.Ended) : s.turn field = s := by
  cases s with
  | reading _ _ => exact h.elim
  | done _ => rfl

theorem left_readTagAt (hin : index < field.length) {start : Nat} (hle : index ≤ start) :
    (readTagAt field start tags).left field < field.length - index + 1 := by
  unfold readTagAt
  split
  · exact Nat.succ_pos _
  · split
    · exact Nat.succ_pos _
    · rename_i close hclose
      have hbehind : start + 1 ≤ close := by
        unfold indexOfQuote at hclose
        simp only [Option.ite_none_right_eq_some,Option.some.injEq] at hclose
        omega
      dsimp only
      split
      · exact Nat.succ_pos _
      · simp only [Scan.left,skipOws]
        omega

theorem left_turn {s : Scan} (h : ¬ s.Ended) : (s.turn field).left field < s.left field := by
  cases s with
  | done _ => exact absurd trivial h
  | reading index tags =>
    dsimp only [Scan.turn]
    cases hchar : field[index]? with
    | none => exact Nat.succ_pos _
    | some c =>
      obtain ⟨hin,_⟩ := List.getElem?_eq_some_iff.mp hchar
      dsimp only
      split
      · simp only [Scan.left]
        omega
      · split
        · exact left_readTagAt hin (by omega)
        · exact left_readTagAt hin (le_refl _)

theorem turns_end (field : Text) : ∀ n, field.length + 1 ≤ n →
    (Scan.turn field)^[n] (.reading 0 []) = .done (entityTags field) := by
  obtain ⟨r,hended,hresult,hturns⟩ :=
    @Loop.exists_end _ (Scan.turn field) Scan.Ended
      (fun s => s.result field = Scan.result field (.reading 0 [])) (.reading 0 [])
      (fun s => s.left field) (fun _ => turn_ended)
      (fun s hinv hgoes => ⟨(result_turn s).trans hinv,left_turn hgoes⟩) rfl
  have hdone : r = .done (entityTags field) := by
    cases r with
    | reading _ _ => exact hended.elim
    | done tags =>
      have htags : tags = ((scan field).map ([] ++ ·)).getD [] := hresult
      rw [htags]
      cases hscan : scan field with
      | none =>
        unfold entityTags
        rw [← scan,hscan]
        rfl
      | some tags =>
        unfold entityTags
        rw [← scan,hscan]
        rfl
  intro n hle
  rw [← hdone]
  exact hturns n hle

end ends

section etags

variable {field t rest etag target body : Text} {runs : List Text} {c : Char}

/-- A backend etag of characters that an entity-tag may hold, bare or quoted already, and its
opaque-tag. -/
inductive BackendEtag : Text → Text → Prop where
  | bare {body : Text} (hbody : body.all etagc = true) : BackendEtag body (opaqueTag body)
  | quoted {weak : Bool} {body : Text} (hbody : body.all etagc = true) :
      BackendEtag (weakMark weak ++ opaqueTag body) (opaqueTag body)

theorem unmark_opaqueTag (weak : Bool) : unmark (weakMark weak ++ opaqueTag body) =
    opaqueTag body :=
  unmark_weakMark

theorem getLast?_opaqueTag : (opaqueTag body).getLast? = some '"' :=
  List.getLast?_concat (l := '"' :: body)

theorem two_le_length_opaqueTag (body : Text) : 2 ≤ (opaqueTag body).length := by
  simp [opaqueTag]

theorem opaqueTagOf_opaqueTag (weak : Bool) : opaqueTagOf (weakMark weak ++ opaqueTag body) =
    some (opaqueTag body) := by
  have hlen := Nat.not_lt.mpr (two_le_length_opaqueTag body)
  unfold opaqueTagOf
  rw [unmark_opaqueTag]
  dsimp only
  rw [if_neg]
  rw [getLast?_opaqueTag,decide_eq_false hlen]
  simp [opaqueTag]

theorem mem_unmark (h : c ∈ unmark t) : c ∈ t := by
  unfold unmark at h
  split at h
  · exact List.mem_of_mem_drop h
  · exact h

theorem httpEtagOf_bare (hbody : body.all etagc = true) : httpEtagOf body = opaqueTag body := by
  unfold httpEtagOf
  dsimp only
  split
  · rename_i hquoted
    simp only [Bool.and_eq_true,decide_eq_true_eq] at hquoted
    exact absurd (mem_unmark (List.mem_of_head? hquoted.1.2)) (quote_not_etagc hbody)
  · rfl

theorem httpEtagOf_quoted (weak : Bool) : httpEtagOf (weakMark weak ++ opaqueTag body) =
    weakMark weak ++ opaqueTag body := by
  unfold httpEtagOf
  rw [unmark_opaqueTag]
  dsimp only
  rw [if_pos]
  rw [getLast?_opaqueTag,decide_eq_true (two_le_length_opaqueTag body)]
  rfl

theorem BackendEtag.opaqueTagOf (h : BackendEtag etag target) :
    opaqueTagOf (httpEtagOf etag) = some target ∧ httpEtagOf etag ≠ [] := by
  cases h with
  | bare hbody =>
    rw [httpEtagOf_bare hbody]
    exact ⟨opaqueTagOf_opaqueTag false,List.cons_ne_nil _ _⟩
  | @quoted weak body hbody =>
    rw [httpEtagOf_quoted]
    refine ⟨opaqueTagOf_opaqueTag weak,?_⟩
    cases weak with
    | true => exact List.cons_ne_nil _ _
    | false => exact List.cons_ne_nil _ _

theorem entityTags_contains : (entityTags field).contains target = true ↔
    ∃ runs, QuotedList field runs ∧ target ∈ runs := by
  rw [List.contains_iff_mem,entityTags]
  constructor
  · intro hmem
    cases hscan : scanTags field.length field with
    | none =>
      rw [hscan] at hmem
      exact absurd hmem List.not_mem_nil
    | some runs =>
      rw [hscan] at hmem
      exact ⟨runs,(scanTags_eq_some_iff (le_refl _)).mp hscan,hmem⟩
  · rintro ⟨runs,hlist,hmem⟩
    rw [(scanTags_eq_some_iff (le_refl _)).mpr hlist]
    exact hmem

/-- What the evaluation accepts. -/
theorem fresh_iff (field : Text) (h : BackendEtag etag target) :
    ifNoneMatchIsFresh (some field) (httpEtagOf etag) = true ↔
      trim field = ['*'] ∨ ∃ runs, QuotedList (trim field) runs ∧ target ∈ runs := by
  obtain ⟨htarget,hne⟩ := h.opaqueTagOf
  rw [← entityTags_contains]
  unfold ifNoneMatchIsFresh
  dsimp only
  by_cases hfield : field = []
  · subst hfield
    rw [if_pos (by simp)]
    simp [trim,entityTags,scanTags]
  · rw [if_neg (by simp [hfield,hne]),htarget]
    split
    · rename_i hstar
      simp [hstar]
    · rename_i hstar
      simp [hstar]

end etags

section white

variable {field t rest : Text} {runs : List Text} {c : Char}

theorem isOws_of_space (hc : isJsSpace c = true) (hsep : (c = ',' || isOws c) = true) :
    isOws c = true := by
  rw [Bool.or_eq_true,decide_eq_true_eq] at hsep
  rcases hsep with rfl | hows
  · exact absurd hc (by decide)
  · exact hows

theorem quotedList_cons_space (hc : isJsSpace c = true) :
    QuotedList (c :: t) runs ↔ isOws c = true ∧ QuotedList t runs := by
  constructor
  · intro h
    rcases h.cons_cases with ⟨hsep,hrest⟩ | ⟨_,weak,body,rest,_,heq,_⟩
    · exact ⟨isOws_of_space hc hsep,hrest⟩
    · cases weak with
      | true =>
        obtain ⟨rfl,_⟩ := List.cons.inj heq
        exact absurd hc (by decide)
      | false =>
        obtain ⟨rfl,_⟩ := List.cons.inj heq
        exact absurd hc (by decide)
  · rintro ⟨hows,h⟩
    exact .separator (by rw [hows,Bool.or_true]) h

theorem ends_snoc (hc : isOws c = true) : Ends (rest ++ [c]) ↔ Ends rest := by
  unfold Ends
  rw [List.dropWhile_append]
  cases hdrop : rest.dropWhile isOws with
  | nil => simp [hc]
  | cons d ds => simp

theorem QuotedList.snoc (h : QuotedList t runs) (hc : isOws c = true) :
    QuotedList (t ++ [c]) runs := by
  induction h with
  | nil => exact .separator (by rw [hc,Bool.or_true]) .nil
  | separator hsep _ ih => exact .separator hsep ih
  | @run weak body rest runs hbody hends _ ih =>
    have hlist := @QuotedList.run weak body (rest ++ [c]) runs hbody ((ends_snoc hc).mpr hends) ih
    simpa using hlist

theorem QuotedList.of_snoc (h : QuotedList (t ++ [c]) runs) (hc : isJsSpace c = true) :
    isOws c = true ∧ QuotedList t runs := by
  generalize ht : t ++ [c] = u at h
  induction h generalizing t with
  | nil => exact absurd ht (by simp)
  | @separator d rest runs hsep hrest ih =>
    cases t with
    | nil =>
      obtain ⟨rfl,rfl⟩ := List.cons.inj ht
      exact ⟨isOws_of_space hc hsep,hrest⟩
    | cons d' t =>
      obtain ⟨rfl,htail⟩ := List.cons.inj ht
      obtain ⟨hows,hlist⟩ := ih htail
      exact ⟨hows,.separator hsep hlist⟩
  | @run weak body rest runs hbody hends hrest ih =>
    rcases List.eq_nil_or_concat rest with rfl | ⟨rest',d,rfl⟩
    · have hlast : t ++ [c] = (weakMark weak ++ '"' :: body) ++ ['"'] := by simpa using ht
      obtain ⟨_,hquote⟩ := List.append_inj' hlast rfl
      obtain rfl := List.singleton_inj.mp hquote
      exact absurd hc (by decide)
    · have hlast : t ++ [c] = (weakMark weak ++ '"' :: (body ++ '"' :: rest')) ++ [d] := by
        simpa using ht
      obtain ⟨rfl,hsame⟩ := List.append_inj' hlast rfl
      obtain rfl := List.singleton_inj.mp hsame
      rw [List.concat_eq_append] at ih hends
      obtain ⟨hows,hlist⟩ := ih rfl
      exact ⟨hows,.run hbody ((ends_snoc hows).mp hends) hlist⟩

theorem quotedList_snoc_space (hc : isJsSpace c = true) :
    QuotedList (t ++ [c]) runs ↔ isOws c = true ∧ QuotedList t runs :=
  ⟨fun h => h.of_snoc hc,fun h => h.2.snoc h.1⟩

def EdgesOws (field : Text) : Prop :=
  (field.takeWhile isJsSpace).all isOws = true ∧
    ((field.dropWhile isJsSpace).rtakeWhile isJsSpace).all isOws = true

theorem quotedList_dropWhile : QuotedList t runs ↔
    (t.takeWhile isJsSpace).all isOws = true ∧ QuotedList (t.dropWhile isJsSpace) runs := by
  induction t with
  | nil => simp
  | cons c t ih =>
    rw [List.takeWhile_cons,List.dropWhile_cons]
    split
    · rename_i hc
      rw [quotedList_cons_space hc,ih,List.all_cons,Bool.and_eq_true,and_assoc]
    · simp

theorem quotedList_rdropWhile : QuotedList t runs ↔
    (t.rtakeWhile isJsSpace).all isOws = true ∧ QuotedList (t.rdropWhile isJsSpace) runs := by
  induction t using List.reverseRecOn with
  | nil => simp
  | append_singleton t c ih =>
    rw [List.rtakeWhile_concat,List.rdropWhile_concat]
    split
    · rename_i hc
      rw [quotedList_snoc_space hc,ih,List.all_append,Bool.and_eq_true,List.all_cons,List.all_nil,
        Bool.and_true]
      constructor
      · rintro ⟨hows,hall,hlist⟩
        exact ⟨⟨hall,hows⟩,hlist⟩
      · rintro ⟨⟨hall,hows⟩,hlist⟩
        exact ⟨hows,hall,hlist⟩
    · simp

theorem quotedList_trim : QuotedList field runs ↔
    EdgesOws field ∧ QuotedList (trim field) runs := by
  rw [quotedList_dropWhile,quotedList_rdropWhile (t := field.dropWhile isJsSpace),← and_assoc]
  rfl

end white

section verdicts

variable {field etag target : Text}

/-- A field names a representation: it is the wildcard, or a list of entity-tags with this one. -/
def Matches (field target : Text) : Prop :=
  trim field = ['*'] ∨ ∃ tags, TagList field tags ∧ target ∈ tags

/-- A field that is no list of entity-tags, though it is a list of quoted runs with this one in it:
a run holds a character that an entity-tag may not, or there is other white space around it. -/
def Loose (field target : Text) : Prop :=
  ∃ runs, QuotedList (trim field) runs ∧ target ∈ runs ∧
    ((∃ run ∈ runs, (run.drop 1).dropLast.all etagc = false) ∨ ¬ EdgesOws field)

theorem QuotedList.unique {t : Text} {runs runs' : List Text} (h : QuotedList t runs)
    (h' : QuotedList t runs') : runs = runs' := by
  have hscan := (scanTags_eq_some_iff (le_refl _)).mpr h
  rw [(scanTags_eq_some_iff (le_refl _)).mpr h'] at hscan
  exact (Option.some.inj hscan).symm

theorem not_quotedList_star {runs : List Text} : ¬ QuotedList ['*'] runs := by
  intro h
  have hscan := (scanTags_eq_some_iff (le_refl _)).mpr h
  cases hscan

theorem accepted_iff_or : (trim field = ['*'] ∨
    ∃ runs, QuotedList (trim field) runs ∧ target ∈ runs) ↔
      Matches field target ∨ Loose field target := by
  unfold Matches Loose
  constructor
  · rintro (hstar | ⟨runs,hlist,hmem⟩)
    · exact .inl (.inl hstar)
    · by_cases hedges : EdgesOws field
      · cases hclean : runs.all fun run => (run.drop 1).dropLast.all etagc with
        | true =>
          exact .inl (.inr ⟨runs,tagList_iff.mpr ⟨quotedList_trim.mpr ⟨hedges,hlist⟩,hclean⟩,hmem⟩)
        | false =>
          rw [List.all_eq_false] at hclean
          obtain ⟨run,hrun,hdirty⟩ := hclean
          exact .inr ⟨runs,hlist,hmem,.inl ⟨run,hrun,Bool.eq_false_iff.mpr hdirty⟩⟩
      · exact .inr ⟨runs,hlist,hmem,.inr hedges⟩
  · rintro ((hstar | ⟨tags,htags,hmem⟩) | ⟨runs,hlist,hmem,_⟩)
    · exact .inl hstar
    · exact .inr ⟨tags,(quotedList_trim.mp (tagList_iff.mp htags).1).2,hmem⟩
    · exact .inr ⟨runs,hlist,hmem⟩

theorem not_matches_of_loose (h : Loose field target) : ¬ Matches field target := by
  obtain ⟨runs,hlist,_,hwrong⟩ := h
  rintro (hstar | ⟨tags,htags,_⟩)
  · rw [hstar] at hlist
    exact not_quotedList_star hlist
  · obtain ⟨hquoted,hclean⟩ := tagList_iff.mp htags
    obtain ⟨hedges,htrim⟩ := quotedList_trim.mp hquoted
    obtain rfl := hlist.unique htrim
    rcases hwrong with ⟨run,hrun,hdirty⟩ | hwhite
    · rw [List.all_eq_true.mp hclean run hrun] at hdirty
      cases hdirty
    · exact hwhite hedges

/-- The scan ends, a list that names the representation always matches, and a field matches exactly
where it should, unless it is a loose one. -/
theorem fresh_matches_iff (field : Text) (h : BackendEtag etag target) :
    (∀ n, (trim field).length + 1 ≤ n →
      (Scan.turn (trim field))^[n] (.reading 0 []) = .done (entityTags (trim field))) ∧
    (Matches field target → ifNoneMatchIsFresh (some field) (httpEtagOf etag) = true) ∧
    ((ifNoneMatchIsFresh (some field) (httpEtagOf etag) = true ↔ Matches field target) ↔
      ¬ Loose field target) := by
  have hfresh := (fresh_iff field h).trans accepted_iff_or
  refine ⟨turns_end (trim field),fun hmatches => hfresh.mpr (.inl hmatches),?_⟩
  rw [hfresh]
  constructor
  · intro hagree hloose
    exact not_matches_of_loose hloose (hagree.mp (.inr hloose))
  · intro hstrict
    constructor
    · rintro (hmatches | hloose)
      · exact hmatches
      · exact absurd hloose hstrict
    · exact .inl

theorem fresh_matches_iff_weak :
    (ifNoneMatchIsFresh (some "W/\"a\" , ,\"x\"".toList) (httpEtagOf ['x']) = true ↔
      Matches "W/\"a\" , ,\"x\"".toList (opaqueTag ['x'])) ↔
      ¬ Loose "W/\"a\" , ,\"x\"".toList (opaqueTag ['x']) :=
  (fresh_matches_iff _ (.bare (by decide))).2.2

/-- A field with a space inside a tag is no list of entity-tags, and it matches. -/
theorem loose_field_matches :
    ¬ (ifNoneMatchIsFresh (some "\"a b\", \"x\"".toList) (httpEtagOf ['x']) = true ↔
      Matches "\"a b\", \"x\"".toList (opaqueTag ['x'])) := by
  have hscan : scanTags (trim "\"a b\", \"x\"".toList).length (trim "\"a b\", \"x\"".toList) =
      some [opaqueTag "a b".toList,opaqueTag ['x']] := by decide +kernel
  have hlist := (scanTags_eq_some_iff (le_refl _)).mp hscan
  have hmem : opaqueTag ['x'] ∈ [opaqueTag "a b".toList,opaqueTag ['x']] :=
    List.mem_cons_of_mem _ List.mem_cons_self
  intro hagree
  have hfresh := (fresh_iff _ (.bare (by decide))).mpr (.inr ⟨_,hlist,hmem⟩)
  have hdirty : ((opaqueTag "a b".toList).drop 1).dropLast.all etagc = false := by decide
  exact not_matches_of_loose ⟨_,hlist,hmem,.inl ⟨_,List.mem_cons_self,hdirty⟩⟩ (hagree.mp hfresh)

end verdicts

end Yurucommu.ConditionalRequest
