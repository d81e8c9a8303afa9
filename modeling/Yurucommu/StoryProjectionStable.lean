import Yurucommu.StoryProjection

/-!
What the functions that normalize a Story make of their own results: everything stays but a text
that was cut behind white space, which loses that when it is read again.
-/

set_option autoImplicit false

namespace Yurucommu.StoryProjection

open ActorIdentity (Platform isSafeRemoteUrl)

section texts

variable {t : Units} {max : Nat} {value : Option Json}

def Flush (t : Units) : Prop := ∀ u, t.head? = some u → isSpace u = false

def Tidy (t : Units) : Prop := ∀ u, t.getLast? = some u → isSpace u = false

instance (t : Units) : Decidable (Tidy t) :=
  decidable_of_iff (t.getLast?.all (!isSpace ·) = true) (by
    unfold Tidy
    cases t.getLast? with
    | none => simp
    | some u => simp)

theorem dropWhile_of_flush (h : Flush t) : t.dropWhile isSpace = t := by
  cases t with
  | nil => rfl
  | cons u t => rw [List.dropWhile_cons_of_neg (by rw [h u rfl]; simp)]

theorem rdropWhile_of_tidy (h : Tidy t) : t.rdropWhile isSpace = t := by
  rw [List.rdropWhile_eq_self_iff]
  intro hne hspace
  rw [h _ (List.getLast?_eq_some_getLast hne)] at hspace
  cases hspace

theorem flush_dropWhile (t : Units) : Flush (t.dropWhile isSpace) := by
  induction t with
  | nil =>
    intro u h
    cases h
  | cons u t ih =>
    cases hu : isSpace u with
    | true =>
      rw [List.dropWhile_cons_of_pos hu]
      exact ih
    | false =>
      rw [List.dropWhile_cons_of_neg (by simp [hu])]
      intro v hv
      cases hv
      exact hu

theorem Flush.mono {s : Units} (h : Flush t) (hs : s <+: t) : Flush s := by
  intro u hu
  cases s with
  | nil => cases hu
  | cons v s =>
    obtain ⟨rest,rfl⟩ := hs
    exact h u hu

theorem tidy_rdropWhile (t : Units) : Tidy (t.rdropWhile isSpace) := by
  intro u hu
  have hne : t.rdropWhile isSpace ≠ [] := by
    intro hnil
    rw [hnil] at hu
    cases hu
  have hlast := List.rdropWhile_last_not isSpace t hne
  rw [List.getLast?_eq_some_getLast hne,Option.some.injEq] at hu
  rw [hu] at hlast
  exact Bool.eq_false_iff.mpr hlast

theorem flush_trim (t : Units) : Flush (trim t) :=
  (flush_dropWhile t).mono (List.rdropWhile_prefix _ _)

theorem tidy_trim (t : Units) : Tidy (trim t) := tidy_rdropWhile _

theorem trim_of_flush (h : Flush t) : trim t = t.rdropWhile isSpace := by
  unfold trim
  rw [dropWhile_of_flush h]

theorem trim_eq (h : Flush t) (h' : Tidy t) : trim t = t := by
  rw [trim_of_flush h,rdropWhile_of_tidy h']

@[simp] theorem trim_trim (t : Units) : trim (trim t) = trim t :=
  trim_eq (flush_trim t) (tidy_trim t)

theorem trim_eq_iff (h : Flush t) : trim t = t ↔ Tidy t :=
  ⟨fun heq => heq ▸ tidy_trim t,trim_eq h⟩

theorem trim_ne_nil (h : Flush t) (hne : t ≠ []) : trim t ≠ [] := by
  rw [trim_of_flush h]
  intro hnil
  obtain ⟨u,rest,rfl⟩ := List.exists_cons_of_ne_nil hne
  have hspace := List.rdropWhile_eq_nil_iff.mp hnil u List.mem_cons_self
  rw [h u rfl] at hspace
  cases hspace

theorem length_trim_le (h : Flush t) : (trim t).length ≤ t.length := by
  rw [trim_of_flush h]
  exact (List.rdropWhile_prefix _ _).length_le

structure Bounded (max : Nat) (t : Units) : Prop where
  ne : t ≠ []
  length : t.length ≤ max
  flush : Flush t

theorem Bounded.trim (h : Bounded max t) : Bounded max (trim t) :=
  ⟨trim_ne_nil h.flush h.ne,(length_trim_le h.flush).trans h.length,flush_trim t⟩

theorem bounded_boundedText (hmax : 0 < max) (h : boundedText value max = some t) :
    Bounded max t := by
  unfold boundedText at h
  split at h
  · rename_i s
    split at h
    · rename_i hpos
      cases h
      refine ⟨fun hnil => ?_,List.length_take_le _ _,
        (flush_trim s).mono (List.take_prefix _ _)⟩
      rw [List.take_eq_nil_iff] at hnil
      rcases hnil with hzero | hnil
      · omega
      · rw [hnil] at hpos
        exact absurd hpos (Nat.lt_irrefl _)
    · cases h
  · cases h

theorem boundedText_again (h : Bounded max t) :
    boundedText (some (.string t)) max = some (trim t) := by
  have hpos : 0 < (StoryProjection.trim t).length :=
    List.length_pos_iff.mpr (trim_ne_nil h.flush h.ne)
  unfold boundedText
  dsimp only
  rw [if_pos hpos,List.take_of_length_le h.trim.length]

end texts

section attachments

variable {P : Platform} {value : Option Json} {t : Units}

theorem trim_trimmedText (value : Option Json) : trim (trimmedText value) = trimmedText value := by
  unfold trimmedText
  split
  · exact trim_trim _
  · rfl

theorem safeUrl_again (h : safeUrl P value = some t) : safeUrl P (some (.string t)) = some t := by
  unfold safeUrl at h
  dsimp only at h
  split at h
  · cases h
  · rename_i hsafe
    obtain rfl := Option.some.inj h
    have hsame : trimmedText (some (.string (trimmedText value))) = trimmedText value :=
      trim_trimmedText value
    unfold safeUrl
    dsimp only
    rw [hsame,if_neg hsafe]

theorem lowerUnit_of_tokenUnit {u : Nat} (h : tokenUnit u = true) : lowerUnit u = u := by
  unfold lowerUnit
  rw [if_neg,if_neg]
  · rintro rfl
    revert h
    decide
  · rintro ⟨hlow,hhigh⟩
    interval_cases u <;> revert h <;> decide

theorem not_isSpace_of_tokenUnit {u : Nat} (h : tokenUnit u = true) : isSpace u = false := by
  have hle : u < 123 := by
    simp only [tokenUnit,Bool.or_eq_true,Bool.and_eq_true,decide_eq_true_eq,List.mem_cons,
      List.not_mem_nil,or_false] at h
    omega
  have hall : ∀ v < 123, tokenUnit v = true → isSpace v = false := by decide
  exact hall u hle h

theorem unit_of_matchesMediaType (h : matchesMediaType t = true) {u : Nat} (hu : u ∈ t) :
    tokenUnit u = true ∨ u = 47 := by
  unfold matchesMediaType at h
  rw [Bool.and_eq_true] at h
  obtain ⟨_,h⟩ := h
  rw [← List.takeWhile_append_dropWhile (p := tokenUnit) (l := t),List.mem_append] at hu
  rcases hu with hu | hu
  · exact Or.inl (List.mem_takeWhile_imp hu)
  · split at h
    · rename_i subtype heq
      rw [heq] at hu
      rw [Bool.and_eq_true,List.all_eq_true] at h
      rcases List.mem_cons.mp hu with rfl | hu
      · exact Or.inr rfl
      · exact Or.inl (h.2 u hu)
    · cases h

theorem normalizedMediaType_of_matches (h : matchesMediaType t = true)
    (hlength : t.length ≤ maxMediaTypeLength) : normalizedMediaType (some (.string t)) = t := by
  have hnospace : ∀ u ∈ t, isSpace u = false := by
    intro u hu
    rcases unit_of_matchesMediaType h hu with htoken | rfl
    · exact not_isSpace_of_tokenUnit htoken
    · decide
  have htrim : trim t = t := by
    refine trim_eq (fun u hu => hnospace u ?_) fun u hu => hnospace u ?_
    · exact List.mem_of_mem_head? hu
    · exact List.mem_of_mem_getLast? hu
  have hlower : t.map lowerUnit = t := by
    refine (List.map_congr_left fun u hu => ?_).trans (List.map_id _)
    rcases unit_of_matchesMediaType h hu with htoken | rfl
    · exact lowerUnit_of_tokenUnit htoken
    · rfl
  have hpos : t.length ≠ 0 := by
    intro hzero
    rw [List.length_eq_zero_iff.mp hzero] at h
    cases h
  unfold normalizedMediaType
  dsimp only
  rw [htrim,hlower,if_neg]
  rintro (hzero | hlong | hno)
  · exact hpos hzero
  · omega
  · rw [h] at hno
    cases hno

theorem normalizedMediaType_again (value : Option Json) :
    normalizedMediaType (some (.string (normalizedMediaType value))) =
      normalizedMediaType value := by
  have hdefault : matchesMediaType defaultMediaType = true := by decide +kernel
  have hmatches : matchesMediaType (normalizedMediaType value) = true ∧
      (normalizedMediaType value).length ≤ maxMediaTypeLength := by
    unfold normalizedMediaType
    split
    · dsimp only
      split
      · exact ⟨hdefault,by decide +kernel⟩
      · rename_i hfits
        simp only [not_or,not_lt,Bool.not_eq_false] at hfits
        exact ⟨hfits.2.2,hfits.2.1⟩
    · exact ⟨hdefault,by decide +kernel⟩
  exact normalizedMediaType_of_matches hmatches.1 hmatches.2

theorem normalizedDimension_bounds {fallback : Nat} (h : 1 ≤ fallback ∧ fallback ≤ 32768) :
    1 ≤ normalizedDimension value fallback ∧ normalizedDimension value fallback ≤ 32768 := by
  unfold normalizedDimension
  split
  · rename_i v
    split
    · exact h
    · rename_i hv
      rw [not_or,not_le,not_lt] at hv
      refine ⟨le_max_left _ _,max_le (by norm_num) ?_⟩
      have hlt : v + 1 / 2 < ((32768 + 1 : ℕ) : ℚ) := by
        have hle := hv.2
        unfold maxMediaDimension at hle
        push_cast
        linarith
      have hfloor := (Nat.floor_lt (by linarith [hv.1])).mpr hlt
      omega
  · exact h

theorem normalizedDimension_again {n : Nat} (fallback : Nat) (h : 1 ≤ n ∧ n ≤ 32768) :
    normalizedDimension (some (.number (some n))) fallback = n := by
  have hn : (1 : ℚ) ≤ n := by exact_mod_cast h.1
  have hn' : (n : ℚ) ≤ 32768 := by exact_mod_cast h.2
  unfold normalizedDimension maxMediaDimension
  dsimp only
  rw [if_neg (by rw [not_or,not_le,not_lt]; constructor <;> linarith)]
  have hfloor : ⌊(n : ℚ) + 1 / 2⌋₊ = n := by
    rw [Nat.floor_eq_iff (by linarith)]
    constructor <;> linarith
  rw [hfloor]
  exact max_eq_right h.1

structure StoryAttachmentProjection.Stored (P : Platform) (a : StoryAttachmentProjection) :
    Prop where
  content_type : normalizedMediaType (some (.string a.content_type)) = a.content_type
  url : safeUrl P (some (.string a.url)) = some a.url
  width : 1 ≤ a.width ∧ a.width ≤ 32768
  height : 1 ≤ a.height ∧ a.height ≤ 32768

theorem stored_normalizedRemoteAttachment {a : StoryAttachmentProjection}
    (h : normalizedRemoteAttachment P value = some a) : a.Stored P := by
  unfold normalizedRemoteAttachment at h
  dsimp only at h
  split at h
  · obtain ⟨url,hurl,rfl⟩ := Option.map_eq_some_iff.mp h
    exact ⟨normalizedMediaType_again _,safeUrl_again hurl,
      normalizedDimension_bounds (by norm_num),normalizedDimension_bounds (by norm_num)⟩
  · cases h

theorem normalizedRemoteAttachment_again {a : StoryAttachmentProjection} (h : a.Stored P) :
    normalizedRemoteAttachment P (some a.toJson) = some a := by
  have hread : normalizedRemoteAttachment P (some a.toJson) =
      (safeUrl P (some (.string a.url))).map fun url =>
        { content_type := normalizedMediaType (some (.string a.content_type))
          url := url
          width := normalizedDimension (some (.number (some a.width))) 1080
          height := normalizedDimension (some (.number (some a.height))) 1920 } := rfl
  rw [hread,h.url,h.content_type,normalizedDimension_again 1080 h.width,
    normalizedDimension_again 1920 h.height]
  rfl

end attachments

section overlays

variable {P : Platform} {c : Json} {o : StoryOverlayProjection}

def StoryOverlayPosition.Stored (p : StoryOverlayPosition) : Prop :=
  (0 ≤ p.x ∧ p.x ≤ 1) ∧ (0 ≤ p.y ∧ p.y ≤ 1) ∧ (0 ≤ p.width ∧ p.width ≤ 1) ∧
    (0 ≤ p.height ∧ p.height ≤ 1)

theorem share_eq_some_iff {value : Option Json} {v : ℚ} :
    share value = some v ↔ value = some (.number (some v)) ∧ 0 ≤ v ∧ v ≤ 1 := by
  unfold share
  split
  · rename_i w
    by_cases hw : w < 0 ∨ 1 < w
    · rw [if_pos hw]
      constructor
      · intro h
        cases h
      · rintro ⟨heq,hbounds⟩
        cases heq
        exact absurd hw (not_or.mpr ⟨not_lt.mpr hbounds.1,not_lt.mpr hbounds.2⟩)
    · rw [if_neg hw]
      rw [not_or,not_lt,not_lt] at hw
      constructor
      · intro h
        cases h
        exact ⟨rfl,hw⟩
      · rintro ⟨heq,_⟩
        cases heq
        rfl
  · rename_i hno
    constructor
    · intro h
      cases h
    · rintro ⟨heq,_⟩
      exact (hno _ heq).elim

theorem stored_normalizedPosition {value : Option Json} {p : StoryOverlayPosition}
    (h : normalizedPosition value = some p) : p.Stored := by
  unfold normalizedPosition at h
  split at h
  · simp only [Option.bind_eq_bind,Option.bind_eq_some_iff] at h
    obtain ⟨x,hx,y,hy,width,hwidth,height,hheight,heq⟩ := h
    cases heq
    exact ⟨(share_eq_some_iff.mp hx).2,(share_eq_some_iff.mp hy).2,
      (share_eq_some_iff.mp hwidth).2,(share_eq_some_iff.mp hheight).2⟩
  · cases h

theorem normalizedPosition_again {p : StoryOverlayPosition} (h : p.Stored) :
    normalizedPosition (some p.toJson) = some p := by
  have hshare : ∀ v : ℚ, 0 ≤ v ∧ v ≤ 1 → share (some (.number (some v))) = some v :=
    fun v hv => share_eq_some_iff.mpr ⟨rfl,hv⟩
  have hread : normalizedPosition (some p.toJson) =
      (share (some (.number (some p.x)))).bind fun x =>
        (share (some (.number (some p.y)))).bind fun y =>
          (share (some (.number (some p.width)))).bind fun width =>
            (share (some (.number (some p.height)))).bind fun height =>
              some ⟨x,y,width,height⟩ := rfl
  rw [hread,hshare _ h.1,hshare _ h.2.1,hshare _ h.2.2.1,hshare _ h.2.2.2]
  rfl

def StoryOverlayProjection.Stored (P : Platform) : StoryOverlayProjection → Prop
  | .question position name oneOf => position.Stored ∧
      (∀ t ∈ name, Bounded maxStoryTextLength t) ∧ (2 ≤ oneOf.length ∧ oneOf.length ≤ 4) ∧
      ∀ t ∈ oneOf, Bounded maxStoryTextLength t
  | .link position name href => position.Stored ∧
      (∀ t ∈ name, Bounded maxStoryTextLength t) ∧ safeUrl P (some (.string href)) = some href
  | .note position name => position.Stored ∧ ∀ t ∈ name, Bounded maxStoryTextLength t

def StoryOverlayProjection.reread : StoryOverlayProjection → StoryOverlayProjection
  | .question position name oneOf => .question position (name.map trim) (oneOf.map trim)
  | .link position name href => .link position (name.map trim) href
  | .note position name => .note position (name.map trim)

def StoryOverlayProjection.texts : StoryOverlayProjection → List Units
  | .question _ name oneOf => name.toList ++ oneOf
  | .link _ name _ | .note _ name => name.toList

@[simp] theorem isQuestion_reread : o.reread.isQuestion = o.isQuestion := by
  cases o <;> rfl

theorem bounded_name {c : Json} : ∀ t ∈ boundedText (c.get .name) maxStoryTextLength,
    Bounded maxStoryTextLength t := fun _ ht => bounded_boundedText (by decide) ht

theorem mapM_optionName {entries : List Json} {oneOf : List Units}
    (h : entries.mapM optionName = some oneOf) :
    oneOf.length = entries.length ∧ ∀ t ∈ oneOf, Bounded maxStoryTextLength t := by
  induction entries generalizing oneOf with
  | nil =>
    cases h
    exact ⟨rfl,fun t ht => (by cases ht)⟩
  | cons c entries ih =>
    simp only [List.mapM_cons,Option.bind_eq_bind,Option.bind_eq_some_iff] at h
    obtain ⟨t,ht,ts,hts,heq⟩ := h
    cases heq
    obtain ⟨hlength,hbounded⟩ := ih hts
    refine ⟨congrArg (· + 1) hlength,fun u hu => ?_⟩
    rcases List.mem_cons.mp hu with rfl | hu
    · exact bounded_name _ ht
    · exact hbounded u hu

theorem normalizedQuestionOptions_some {value : Option Json} {oneOf : List Units}
    (h : normalizedQuestionOptions value = some oneOf) :
    (2 ≤ oneOf.length ∧ oneOf.length ≤ 4) ∧ ∀ t ∈ oneOf, Bounded maxStoryTextLength t := by
  unfold normalizedQuestionOptions at h
  split at h
  · rename_i entries
    split at h
    · cases h
    · rename_i hlength
      rw [not_or,not_lt,not_lt] at hlength
      obtain ⟨heq,hbounded⟩ := mapM_optionName h
      rw [heq]
      exact ⟨hlength,hbounded⟩
  · cases h

theorem stored_normalizedOverlay {hasQuestion : Bool}
    (h : normalizedOverlay P hasQuestion c = some o) :
    o.Stored P ∧ (o.isQuestion = true → hasQuestion = false) := by
  unfold normalizedOverlay at h
  rw [Option.bind_eq_some_iff] at h
  obtain ⟨position,hposition,h⟩ := h
  have hstored := stored_normalizedPosition hposition
  dsimp only at h
  split at h
  · split at h
    · cases h
    · rename_i hno
      obtain ⟨oneOf,honeOf,rfl⟩ := Option.map_eq_some_iff.mp h
      obtain ⟨hlength,hbounded⟩ := normalizedQuestionOptions_some honeOf
      exact ⟨⟨hstored,bounded_name,hlength,hbounded⟩,fun _ => Bool.eq_false_iff.mpr hno⟩
  · split at h
    · obtain ⟨href,hhref,rfl⟩ := Option.map_eq_some_iff.mp h
      exact ⟨⟨hstored,bounded_name,safeUrl_again hhref⟩,fun hq => (by cases hq)⟩
    · split at h
      · cases h
        exact ⟨⟨hstored,bounded_name⟩,fun hq => (by cases hq)⟩
      · cases h

theorem types_differ : questionType ≠ linkType ∧ questionType ≠ noteType ∧ linkType ≠ noteType := by
  decide +kernel

theorem isText_iff {s t : Units} : Json.isText s (some (.string t)) = true ↔ t = s := by
  simp [Json.isText]

theorem get_field {key : Key} {name : Option Units} {rest : List (Key × Json)}
    (h : (Json.object rest).get key = none) :
    (Json.object (field key name ++ rest)).get key = name.map Json.string := by
  cases name with
  | none => exact h
  | some t => simp [field,Json.get]

theorem get_field_ne {key other : Key} {name : Option Units} {rest : List (Key × Json)}
    (h : key ≠ other) : (Json.object (field key name ++ rest)).get other =
      (Json.object rest).get other := by
  cases name with
  | none => rfl
  | some t => simp [field,Json.get,h]

theorem boundedText_map {max : Nat} {name : Option Units} (h : ∀ t ∈ name, Bounded max t) :
    boundedText (name.map Json.string) max = name.map trim := by
  cases name with
  | none => rfl
  | some t => exact boundedText_again (h t rfl)

theorem mapM_optionName_again {oneOf : List Units}
    (h : ∀ t ∈ oneOf, Bounded maxStoryTextLength t) :
    (oneOf.map optionJson).mapM optionName = some (oneOf.map trim) := by
  induction oneOf with
  | nil => rfl
  | cons t oneOf ih =>
    have hname : optionName (optionJson t) = some (trim t) :=
      boundedText_again (h t List.mem_cons_self)
    rw [List.map_cons,List.mapM_cons,hname,
      ih fun u hu => h u (List.mem_cons_of_mem _ hu)]
    rfl

theorem normalizedOverlay_again {hasQuestion : Bool} (h : o.Stored P)
    (hq : o.isQuestion = true → hasQuestion = false) :
    normalizedOverlay P hasQuestion o.toJson = some o.reread := by
  obtain ⟨hlink,hnote,hdiffer⟩ := types_differ
  cases o with
  | question position name oneOf =>
    obtain ⟨hposition,hname,hlength,hoptions⟩ := h
    have htype : (StoryOverlayProjection.question position name oneOf).toJson.get .type =
        some (.string questionType) := rfl
    have hget : (StoryOverlayProjection.question position name oneOf).toJson.get .name =
        name.map Json.string := by
      change (Json.object (field .name name ++ _)).get .name = _
      exact get_field rfl
    have honeOf : (StoryOverlayProjection.question position name oneOf).toJson.get .oneOf =
        some (.array (oneOf.map optionJson)) := by
      change (Json.object (field .name name ++ _)).get .oneOf = _
      rw [get_field_ne (by decide)]
      rfl
    have hoptions' : normalizedQuestionOptions (some (.array (oneOf.map optionJson))) =
        some (oneOf.map trim) := by
      unfold normalizedQuestionOptions
      dsimp only
      rw [List.length_map,if_neg (by omega)]
      exact mapM_optionName_again hoptions
    unfold normalizedOverlay
    change (normalizedPosition (some position.toJson)).bind _ = _
    rw [normalizedPosition_again hposition,Option.bind_some]
    dsimp only
    rw [htype,if_pos (isText_iff.mpr rfl),hq rfl,hget,honeOf,hoptions',boundedText_map hname]
    rfl
  | link position name href =>
    obtain ⟨hposition,hname,hhref⟩ := h
    have htype : (StoryOverlayProjection.link position name href).toJson.get .type =
        some (.string linkType) := rfl
    have hget : (StoryOverlayProjection.link position name href).toJson.get .name =
        name.map Json.string := by
      change (Json.object (field .name name ++ _)).get .name = _
      exact get_field rfl
    have hurl : (StoryOverlayProjection.link position name href).toJson.get .href =
        some (.string href) := by
      change (Json.object (field .name name ++ _)).get .href = _
      rw [get_field_ne (by decide)]
      rfl
    unfold normalizedOverlay
    change (normalizedPosition (some position.toJson)).bind _ = _
    rw [normalizedPosition_again hposition,Option.bind_some]
    dsimp only
    rw [htype,if_neg (fun ht => hlink (isText_iff.mp ht).symm),if_pos (isText_iff.mpr rfl),hget,
      hurl,
      hhref,boundedText_map hname]
    rfl
  | note position name =>
    obtain ⟨hposition,hname⟩ := h
    have htype : (StoryOverlayProjection.note position name).toJson.get .type =
        some (.string noteType) := rfl
    have hget : (StoryOverlayProjection.note position name).toJson.get .name =
        name.map Json.string := by
      change (Json.object (field .name name)).get .name = _
      rw [← List.append_nil (field .name name)]
      exact get_field rfl
    unfold normalizedOverlay
    change (normalizedPosition (some position.toJson)).bind _ = _
    rw [normalizedPosition_again hposition,Option.bind_some]
    dsimp only
    rw [htype,if_neg (fun ht => hnote (isText_iff.mp ht).symm),
      if_neg (fun ht => hdiffer (isText_iff.mp ht).symm),if_pos (isText_iff.mpr rfl),hget,
      boundedText_map hname]
    rfl

def Single : Bool → List StoryOverlayProjection → Prop
  | _, [] => True
  | hasQuestion, o :: rest =>
    (o.isQuestion = true → hasQuestion = false) ∧ Single (hasQuestion || o.isQuestion) rest

theorem overlayLoop_stored (hasQuestion : Bool) (candidates : List Json) :
    (∀ o ∈ overlayLoop P hasQuestion candidates, o.Stored P) ∧
      Single hasQuestion (overlayLoop P hasQuestion candidates) ∧
      (overlayLoop P hasQuestion candidates).length ≤ candidates.length := by
  induction candidates generalizing hasQuestion with
  | nil => exact ⟨fun o ho => (by cases ho),trivial,Nat.le_refl _⟩
  | cons c candidates ih =>
    unfold overlayLoop
    split
    · rename_i o ho
      obtain ⟨hstored,hquestion⟩ := stored_normalizedOverlay ho
      obtain ⟨hrest,hsingle,hlength⟩ := ih (hasQuestion || o.isQuestion)
      refine ⟨fun o' ho' => ?_,⟨hquestion,hsingle⟩,Nat.succ_le_succ hlength⟩
      rcases List.mem_cons.mp ho' with rfl | ho'
      · exact hstored
      · exact hrest o' ho'
    · obtain ⟨hrest,hsingle,hlength⟩ := ih hasQuestion
      exact ⟨hrest,hsingle,hlength.trans (Nat.le_succ _)⟩

theorem overlayLoop_again {hasQuestion : Bool} {overlays : List StoryOverlayProjection}
    (h : ∀ o ∈ overlays, o.Stored P) (hsingle : Single hasQuestion overlays) :
    overlayLoop P hasQuestion (overlays.map (·.toJson)) = overlays.map (·.reread) := by
  induction overlays generalizing hasQuestion with
  | nil => rfl
  | cons o overlays ih =>
    have hread := normalizedOverlay_again (h o List.mem_cons_self) hsingle.1
    rw [List.map_cons,overlayLoop,hread]
    dsimp only
    rw [isQuestion_reread,ih (fun o' ho' => h o' (List.mem_cons_of_mem _ ho')) hsingle.2]
    rfl

end overlays

section durations

variable {n : Nat} {t rest : Units}

theorem digitUnits_spec : ∀ n ≤ 60, (digitUnits n).all isDigit = true ∧ digitUnits n ≠ [] ∧
    digitsValue (digitUnits n) = n := by
  decide +kernel

theorem isDigit_add {d : Nat} (h : d < 10) : isDigit (48 + d) = true := by
  simp only [isDigit,Bool.and_eq_true,decide_eq_true_eq]
  omega

theorem fractionUnits_spec (h : n < 1000) (hne : n ≠ 0) :
    (fractionUnits n).all isDigit = true ∧ fractionUnits n ≠ [] ∧
      digitsValue (fractionUnits n) * 1000 = n * 10 ^ (fractionUnits n).length := by
  have hfirst := isDigit_add (Nat.mod_lt (n / 100) (by norm_num : 0 < 10))
  have hsecond := isDigit_add (Nat.mod_lt (n / 10) (by norm_num : 0 < 10))
  have hthird := isDigit_add (Nat.mod_lt n (by norm_num : 0 < 10))
  unfold fractionUnits
  by_cases hc : n % 10 = 0
  · by_cases hb : n / 10 % 10 = 0
    · have ha : n / 100 % 10 ≠ 0 := by omega
      simp [List.rdropWhile,hc,hb,ha,hfirst,digitsValue]
      omega
    · simp [List.rdropWhile,hc,hb,hfirst,hsecond,digitsValue]
      omega
  · simp [List.rdropWhile,hc,hfirst,hsecond,hthird,digitsValue]
    omega

theorem span_digits {u : Nat} (h : t.all isDigit = true) (hu : isDigit u = false) :
    (t ++ u :: rest).takeWhile isDigit = t ∧ (t ++ u :: rest).dropWhile isDigit = u :: rest := by
  rw [List.all_eq_true] at h
  have htake : (u :: rest).takeWhile isDigit = [] := List.takeWhile_cons_of_neg (by simp [hu])
  have hdrop : (u :: rest).dropWhile isDigit = u :: rest :=
    List.dropWhile_cons_of_neg (by simp [hu])
  rw [List.takeWhile_append_of_pos h,List.dropWhile_append_of_pos h,htake,hdrop,List.append_nil]
  exact ⟨rfl,rfl⟩

theorem decimal_thousandthsText (h : n ≤ 60000) :
    decimal (thousandthsText n ++ [83]) = some ((n / 1000 : ℚ),[83]) := by
  obtain ⟨hdigits,hne,hvalue⟩ := digitUnits_spec (n / 1000) (by omega)
  unfold thousandthsText
  by_cases hzero : n % 1000 = 0
  · rw [if_pos hzero,List.append_nil]
    obtain ⟨htake,hdrop⟩ := @span_digits (digitUnits (n / 1000)) [] 83 hdigits rfl
    have hexact : ((n / 1000 : ℕ) : ℚ) = n / 1000 := by
      rw [Nat.cast_div (Nat.dvd_of_mod_eq_zero hzero) (by norm_num)]
      norm_num
    unfold decimal
    dsimp only
    rw [htake,if_neg hne,hdrop,hvalue,hexact]
    rfl
  · rw [if_neg hzero]
    obtain ⟨hfdigits,hfne,hfvalue⟩ :=
      fractionUnits_spec (Nat.mod_lt n (by norm_num)) hzero
    rw [List.append_assoc,List.cons_append]
    obtain ⟨htake,hdrop⟩ :=
      @span_digits (digitUnits (n / 1000)) (fractionUnits (n % 1000) ++ [83]) 46 hdigits rfl
    obtain ⟨hftake,hfdrop⟩ := @span_digits (fractionUnits (n % 1000)) [] 83 hfdigits rfl
    have hexact : ((n / 1000 : ℕ) : ℚ) +
        (digitsValue (fractionUnits (n % 1000)) : ℚ) / 10 ^ (fractionUnits (n % 1000)).length =
          n / 1000 := by
      have hpow : (10 : ℚ) ^ (fractionUnits (n % 1000)).length ≠ 0 := by positivity
      have hcast : (digitsValue (fractionUnits (n % 1000)) : ℚ) * 1000 =
          (n % 1000 : ℕ) * 10 ^ (fractionUnits (n % 1000)).length := by exact_mod_cast hfvalue
      have hsplit : (n : ℚ) = 1000 * (n / 1000 : ℕ) + (n % 1000 : ℕ) := by
        exact_mod_cast (Nat.div_add_mod n 1000).symm
      rw [eq_div_iff (by norm_num),add_mul,div_mul_eq_mul_div,hcast,mul_div_assoc,div_self hpow,
        mul_one]
      linarith
    unfold decimal
    dsimp only
    rw [htake,if_neg hne,hdrop,hvalue]
    change (if (fractionUnits (n % 1000) ++ [83]).takeWhile isDigit = [] then _ else _) = _
    rw [hftake,if_neg hfne,hfdrop,hexact]

theorem component_thousandthsText (h : n ≤ 60000) (letter : Nat) :
    component letter (thousandthsText n ++ [83]) =
      if letter = 83 then (some (n / 1000 : ℚ),[]) else (none,thousandthsText n ++ [83]) := by
  unfold component
  rw [decimal_thousandthsText h]
  dsimp only
  by_cases hletter : letter = 83
  · rw [if_pos hletter,if_pos hletter.symm]
  · rw [if_neg hletter,if_neg (Ne.symm hletter)]

theorem unit_small (h : n ≤ 60000) : (2 : ℚ) ^ Binary64.unit ((n : ℚ) / 1000) / 2 < 1 / 2000 := by
  have hle : (n : ℚ) / 1000 < 2 ^ (6 : ℤ) := by
    have hcast : (n : ℚ) ≤ 60000 := by exact_mod_cast h
    norm_num
    linarith
  have hlog : Int.log 2 ((n : ℚ) / 1000) ≤ 6 := by
    rcases Nat.eq_zero_or_pos n with rfl | hpos
    · simp
    · have hq : (0 : ℚ) < n / 1000 := by positivity
      have hlt : Int.log 2 ((n : ℚ) / 1000) < 6 := by
        rw [← Int.lt_zpow_iff_log_lt (by norm_num) hq]
        exact_mod_cast hle
      omega
  have hunit : Binary64.unit ((n : ℚ) / 1000) ≤ -40 := by
    unfold Binary64.unit
    omega
  have hpow : (2 : ℚ) ^ Binary64.unit ((n : ℚ) / 1000) ≤ 2 ^ (-40 : ℤ) :=
    zpow_le_zpow_right₀ (by norm_num) hunit
  have hnum : (2 : ℚ) ^ (-40 : ℤ) < 1 / 1000 := by norm_num
  linarith

theorem round_close (h : n ≤ 60000) :
    |Binary64.round ((n : ℚ) / 1000) - (n : ℚ) / 1000| < 1 / 2000 :=
  lt_of_le_of_lt (Binary64.abs_round_sub_le _) (unit_small h)

theorem thousandths_round (h : n ≤ 60000) :
    thousandths (Binary64.round ((n : ℚ) / 1000)) = n := by
  have hclose := abs_lt.mp (round_close h)
  have hnonneg : (0 : ℚ) ≤ n := by positivity
  unfold thousandths
  rw [Nat.floor_eq_iff]
  · constructor <;> linarith [hclose.1,hclose.2]
  · linarith [hclose.1]

theorem round_sixty : Binary64.round 60 = 60 :=
  @Binary64.round_natCast_mul 60 60 0 (by norm_num) (by norm_num) (by norm_num)

def StoredDuration (t : Units) : Prop := ∃ n, 1 ≤ n ∧ n ≤ 60000 ∧ t = durationText n

theorem stored_boundedDuration {seconds : ℚ} (h : boundedDuration seconds = some t) :
    StoredDuration t := by
  unfold boundedDuration at h
  split at h
  · cases h
  · rename_i hbounds
    rw [not_or,not_lt,not_lt] at hbounds
    cases h
    have hlow := (abs_lt.mp (round_close (n := 1) (by norm_num))).1
    rw [Nat.cast_one] at hlow
    have hleast := hbounds.1
    have hmost := hbounds.2
    unfold maxDisplayDurationSeconds at hmost
    refine ⟨thousandths seconds,?_,?_,rfl⟩
    · unfold thousandths
      rw [Nat.one_le_floor_iff]
      linarith
    · have hlt : thousandths seconds < 60001 := by
        unfold thousandths
        rw [Nat.floor_lt (by linarith)]
        push_cast
        linarith
      omega

theorem stored_normalizedDisplayDuration (h : normalizedDisplayDuration rest = some t) :
    StoredDuration t := by
  unfold normalizedDisplayDuration at h
  split at h
  · unfold durationGroups at h
    dsimp only at h
    split at h
    · cases h
    · exact stored_boundedDuration h
  · cases h

theorem boundedDuration_round (hlow : 1 ≤ n) (hhigh : n ≤ 60000) :
    boundedDuration (Binary64.round ((n : ℚ) / 1000)) = some (durationText n) := by
  have hn : (1 : ℚ) ≤ n := by exact_mod_cast hlow
  have hn' : (n : ℚ) ≤ 60000 := by exact_mod_cast hhigh
  have hleast : Binary64.round (1 / 1000) ≤ Binary64.round ((n : ℚ) / 1000) :=
    Binary64.round_mono (by norm_num) (by linarith)
  have hmost : Binary64.round ((n : ℚ) / 1000) ≤ Binary64.round 60 :=
    Binary64.round_mono (by positivity) (by linarith)
  rw [round_sixty] at hmost
  unfold boundedDuration maxDisplayDurationSeconds
  rw [if_neg (not_or.mpr ⟨not_lt.mpr hleast,not_lt.mpr hmost⟩),thousandths_round hhigh]

theorem totalSeconds_none (seconds : ℚ) (h : 0 ≤ seconds) :
    totalSeconds none none (some seconds) = Binary64.round seconds := by
  have hnone : groupNumber none = 0 := Binary64.round_zero
  have hsome : groupNumber (some seconds) = Binary64.round seconds := rfl
  unfold totalSeconds
  rw [hnone,hsome,zero_mul,zero_mul,Binary64.round_zero,add_zero,Binary64.round_zero,zero_add]
  exact Binary64.round_round h

theorem durationText_eq (n : Nat) : durationText n = 80 :: 84 :: (thousandthsText n ++ [83]) := by
  simp [durationText]

theorem trim_durationText (n : Nat) : trim (durationText n) = durationText n := by
  refine trim_eq (fun u hu => ?_) fun u hu => ?_
  · rw [durationText_eq,List.head?_cons,Option.some.injEq] at hu
    rw [← hu]
    rfl
  · unfold durationText at hu
    rw [List.getLast?_concat,Option.some.injEq] at hu
    rw [← hu]
    rfl

theorem durationGroups_thousandthsText (h : n ≤ 60000) :
    durationGroups (thousandthsText n ++ [83]) =
      boundedDuration (totalSeconds none none (some ((n : ℚ) / 1000))) := by
  have hhours : component 72 (thousandthsText n ++ [83]) = (none,thousandthsText n ++ [83]) := by
    rw [component_thousandthsText h,if_neg (by norm_num)]
  have hminutes : component 77 (thousandthsText n ++ [83]) = (none,thousandthsText n ++ [83]) := by
    rw [component_thousandthsText h,if_neg (by norm_num)]
  have hseconds : component 83 (thousandthsText n ++ [83]) = (some ((n : ℚ) / 1000),[]) := by
    rw [component_thousandthsText h,if_pos rfl]
  simp [durationGroups,hhours,hminutes,hseconds]

theorem normalizedDisplayDuration_again (h : StoredDuration t) :
    normalizedDisplayDuration t = some t := by
  obtain ⟨n,hlow,hhigh,rfl⟩ := h
  have htrim := trim_durationText n
  rw [durationText_eq] at htrim
  have hread : normalizedDisplayDuration (durationText n) =
      durationGroups (thousandthsText n ++ [83]) := by
    unfold normalizedDisplayDuration
    rw [durationText_eq,htrim]
    generalize thousandthsText n ++ [83] = rest
    rfl
  rw [hread,durationGroups_thousandthsText hhigh,totalSeconds_none _ (by positivity),
    boundedDuration_round hlow hhigh]

end durations

section projections

variable {P : Platform} {numberText : ℚ → Units} {p : InboundStoryProjection} {object : StoryObject}

structure InboundStoryProjection.Stored (P : Platform) (p : InboundStoryProjection) : Prop where
  attachment : p.attachment.Stored P
  displayDuration : StoredDuration p.displayDuration
  caption : ∀ t ∈ p.caption, Bounded maxStoryCaptionLength t
  overlays : ∀ o ∈ p.overlays, o.Stored P
  single : Single false p.overlays
  count : p.overlays.length ≤ maxStoryOverlays

def InboundStoryProjection.reread (p : InboundStoryProjection) : InboundStoryProjection :=
  { p with caption := p.caption.map trim, overlays := p.overlays.map (·.reread) }

def InboundStoryProjection.texts (p : InboundStoryProjection) : List Units :=
  p.caption.toList ++ p.overlays.flatMap (·.texts)

def InboundStoryProjection.AllTidy (p : InboundStoryProjection) : Prop := ∀ t ∈ p.texts, Tidy t

instance (p : InboundStoryProjection) : Decidable p.AllTidy :=
  inferInstanceAs (Decidable (∀ t ∈ p.texts, Tidy t))

theorem map_trim_eq_iff {name : Option Units} {max : Nat} (h : ∀ t ∈ name, Bounded max t) :
    name.map trim = name ↔ ∀ t ∈ name.toList, Tidy t := by
  cases name with
  | none => simp
  | some t =>
    have hiff := trim_eq_iff (h t rfl).flush
    simp [hiff]

theorem list_map_trim_eq_iff {ts : List Units} {max : Nat} (h : ∀ t ∈ ts, Bounded max t) :
    ts.map trim = ts ↔ ∀ t ∈ ts, Tidy t := by
  induction ts with
  | nil => simp
  | cons t ts ih =>
    have hiff := trim_eq_iff (h t List.mem_cons_self).flush
    have hrest := ih fun u hu => h u (List.mem_cons_of_mem _ hu)
    rw [List.map_cons,List.cons.injEq,hiff,hrest,List.forall_mem_cons]

theorem StoryOverlayProjection.reread_eq_iff {o : StoryOverlayProjection} (h : o.Stored P) :
    o.reread = o ↔ ∀ t ∈ o.texts, Tidy t := by
  cases o with
  | question position name oneOf =>
    obtain ⟨_,hname,_,honeOf⟩ := h
    simp only [StoryOverlayProjection.reread,StoryOverlayProjection.texts,
      StoryOverlayProjection.question.injEq,true_and,map_trim_eq_iff hname,
      list_map_trim_eq_iff honeOf,List.forall_mem_append]
  | link position name href =>
    simp only [StoryOverlayProjection.reread,StoryOverlayProjection.texts,
      StoryOverlayProjection.link.injEq,true_and,and_true,map_trim_eq_iff h.2.1]
  | note position name =>
    simp only [StoryOverlayProjection.reread,StoryOverlayProjection.texts,
      StoryOverlayProjection.note.injEq,true_and,map_trim_eq_iff h.2]

theorem map_reread_eq_iff {overlays : List StoryOverlayProjection}
    (h : ∀ o ∈ overlays, o.Stored P) :
    overlays.map (·.reread) = overlays ↔ ∀ t ∈ overlays.flatMap (·.texts), Tidy t := by
  induction overlays with
  | nil => simp
  | cons o overlays ih =>
    have hiff := StoryOverlayProjection.reread_eq_iff (h o List.mem_cons_self)
    have hrest := ih fun u hu => h u (List.mem_cons_of_mem _ hu)
    rw [List.map_cons,List.cons.injEq,hiff,hrest,List.flatMap_cons,List.forall_mem_append]

theorem reread_eq_iff (h : p.Stored P) : p.reread = p ↔ p.AllTidy := by
  have hcaption := map_trim_eq_iff h.caption
  have hoverlays := map_reread_eq_iff h.overlays
  unfold InboundStoryProjection.AllTidy InboundStoryProjection.texts
  rw [List.forall_mem_append,← hcaption,← hoverlays]
  constructor
  · intro heq
    exact ⟨congrArg InboundStoryProjection.caption heq,congrArg InboundStoryProjection.overlays heq⟩
  · rintro ⟨hc,ho⟩
    unfold InboundStoryProjection.reread
    rw [hc,ho]

theorem single_reread {hasQuestion : Bool} {overlays : List StoryOverlayProjection}
    (h : Single hasQuestion overlays) : Single hasQuestion (overlays.map (·.reread)) := by
  induction overlays generalizing hasQuestion with
  | nil => trivial
  | cons o overlays ih =>
    refine ⟨?_,?_⟩
    · rw [isQuestion_reread]
      exact h.1
    · rw [isQuestion_reread]
      exact ih h.2

theorem StoryOverlayProjection.stored_reread {o : StoryOverlayProjection} (h : o.Stored P) :
    o.reread.Stored P := by
  have hmap : ∀ name : Option Units, (∀ t ∈ name, Bounded maxStoryTextLength t) →
      ∀ t ∈ name.map trim, Bounded maxStoryTextLength t := by
    intro name hname t ht
    obtain ⟨u,hu,rfl⟩ := Option.map_eq_some_iff.mp ht
    exact (hname u hu).trim
  cases o with
  | question position name oneOf =>
    refine ⟨h.1,hmap _ h.2.1,?_,fun t ht => ?_⟩
    · rw [List.length_map]
      exact h.2.2.1
    · obtain ⟨u,hu,rfl⟩ := List.mem_map.mp ht
      exact (h.2.2.2 u hu).trim
  | link position name href => exact ⟨h.1,hmap _ h.2.1,h.2.2⟩
  | note position name => exact ⟨h.1,hmap _ h.2⟩

theorem stored_reread (h : p.Stored P) : p.reread.Stored P := by
  refine ⟨h.attachment,h.displayDuration,fun t ht => ?_,fun o ho => ?_,single_reread h.single,?_⟩
  · obtain ⟨u,hu,rfl⟩ := Option.map_eq_some_iff.mp ht
    exact (h.caption u hu).trim
  · obtain ⟨o',ho',rfl⟩ := List.mem_map.mp ho
    exact StoryOverlayProjection.stored_reread (h.overlays o' ho')
  · change (p.overlays.map _).length ≤ _
    rw [List.length_map]
    exact h.count

theorem overlaysOr_again (h : p.Stored P) :
    overlaysOr P [] (p.toJson.get .overlays) = some (p.overlays.map (·.reread)) := by
  have hget : p.toJson.get .overlays = if p.overlays = [] then none
      else some (.array (p.overlays.map (·.toJson))) := by
    change (Json.object (field .caption p.caption ++ _)).get .overlays = _
    rw [get_field_ne (by decide)]
    split
    · rfl
    · rfl
  rw [hget]
  split
  · rename_i hnil
    rw [hnil]
    rfl
  · have hcount : (p.overlays.map (·.toJson)).length ≤ maxStoryOverlays := by
      rw [List.length_map]
      exact h.count
    change some (overlayLoop P false _) = _
    rw [List.take_of_length_le hcount,overlayLoop_again h.overlays h.single]

/-- What is stored is read again, but for the white space that a text was cut behind. -/
theorem parseStoredStoryProjection_toJson (h : p.Stored P) :
    parseStoredStoryProjection P p.toJson = some p.reread := by
  have hattachment : normalizedRemoteAttachment P (p.toJson.get .attachment) = some p.attachment :=
    normalizedRemoteAttachment_again h.attachment
  have hduration : durationOf (p.toJson.get .displayDuration) = some p.displayDuration :=
    normalizedDisplayDuration_again h.displayDuration
  have hcaption : boundedText (p.toJson.get .caption) maxStoryCaptionLength =
      p.caption.map trim := by
    have hget : p.toJson.get .caption = p.caption.map Json.string := by
      change (Json.object (field .caption p.caption ++ _)).get .caption = _
      refine get_field ?_
      split <;> rfl
    rw [hget,boundedText_map h.caption]
  unfold parseStoredStoryProjection
  rw [hattachment,hduration,overlaysOr_again h,hcaption]
  rfl

section parts

theorem stored_attachmentOr {absent : Option StoryAttachmentProjection} {raw : Option Json}
    {a : StoryAttachmentProjection} (h : attachmentOr P absent raw = some a)
    (habsent : ∀ a ∈ absent, a.Stored P) : a.Stored P ∧ (raw = none → absent = some a) := by
  cases raw with
  | none => exact ⟨habsent a h,fun _ => h⟩
  | some raw => exact ⟨stored_normalizedRemoteAttachment h,fun hnone => (by cases hnone)⟩

theorem stored_durationOr {absent t : Units} {raw : Option Units}
    (h : durationOr absent raw = some t) (habsent : StoredDuration absent) :
    StoredDuration t ∧ (raw = none → t = absent) := by
  cases raw with
  | none =>
    cases h
    exact ⟨habsent,fun _ => rfl⟩
  | some raw => exact ⟨stored_normalizedDisplayDuration h,fun hnone => (by cases hnone)⟩

structure StoredOverlays (P : Platform) (list : List StoryOverlayProjection) : Prop where
  overlays : ∀ o ∈ list, o.Stored P
  single : Single false list
  count : list.length ≤ maxStoryOverlays

theorem storedOverlays_nil : StoredOverlays P [] :=
  ⟨fun o ho => (by cases ho),trivial,Nat.zero_le _⟩

theorem stored_overlaysOr {absent overlays : List StoryOverlayProjection} {raw : Option Json}
    (h : overlaysOr P absent raw = some overlays) (habsent : StoredOverlays P absent) :
    StoredOverlays P overlays ∧ (raw = none → overlays = absent) := by
  cases raw with
  | none =>
    cases h
    exact ⟨habsent,fun _ => rfl⟩
  | some raw =>
    refine ⟨?_,fun hnone => (by cases hnone)⟩
    cases raw with
    | null =>
      cases h
      exact storedOverlays_nil
    | array entries =>
      cases h
      obtain ⟨hstored,hsingle,hlength⟩ :=
        @overlayLoop_stored P false (entries.take maxStoryOverlays)
      exact ⟨hstored,hsingle,hlength.trans (List.length_take_le _ _)⟩
    | bool value | number value | string value | object entries => cases h

theorem bounded_captionOr {absent content : Option Units}
    (habsent : ∀ t ∈ absent, Bounded maxStoryCaptionLength t) :
    (∀ t ∈ captionOr absent content, Bounded maxStoryCaptionLength t) ∧
      (content = none → captionOr absent content = absent) := by
  cases content with
  | none => exact ⟨habsent,fun _ => rfl⟩
  | some content =>
    refine ⟨fun t ht => ?_,fun hnone => (by cases hnone)⟩
    change boundedText (some (.string content)) maxStoryCaptionLength = some t at ht
    exact bounded_boundedText (by decide) ht

end parts

theorem serializedProjection_some {drop : Bool} {q : InboundStoryProjection}
    (h : serializedProjection numberText p drop = some q) :
    (q = p ∨ drop = true ∧ q = p.withoutOverlays) ∧
      q.size numberText ≤ maxAttachmentsJsonLength := by
  have hchoice : (if maxAttachmentsJsonLength < p.size numberText ∧ drop = true
      then p.withoutOverlays else p) = p ∨ drop = true ∧
        (if maxAttachmentsJsonLength < p.size numberText ∧ drop = true
          then p.withoutOverlays else p) = p.withoutOverlays := by
    split
    · rename_i hdrop
      exact Or.inr ⟨hdrop.2,rfl⟩
    · exact Or.inl rfl
  unfold serializedProjection at h
  dsimp only at h
  generalize (if maxAttachmentsJsonLength < p.size numberText ∧ drop = true
    then p.withoutOverlays else p) = r at h hchoice
  by_cases hsize : r.size numberText ≤ maxAttachmentsJsonLength
  · rw [if_pos hsize] at h
    obtain rfl := Option.some.inj h
    exact ⟨hchoice,hsize⟩
  · rw [if_neg hsize] at h
    cases h

theorem storedDuration_default : StoredDuration defaultDisplayDuration :=
  ⟨5000,by norm_num,by norm_num,by decide +kernel⟩

theorem stored_create (h : buildInboundStoryCreateProjection P numberText object = some p) :
    p.Stored P ∧ p.size numberText ≤ maxAttachmentsJsonLength := by
  unfold buildInboundStoryCreateProjection at h
  simp only [Option.bind_eq_bind,Option.bind_eq_some_iff] at h
  obtain ⟨attachment,hattachment,duration,hduration,overlays,hoverlays,h⟩ := h
  have hattached := (stored_attachmentOr hattachment fun a ha => (by cases ha)).1
  have hlong := (stored_durationOr hduration storedDuration_default).1
  have hlist := (stored_overlaysOr hoverlays storedOverlays_nil).1
  have hcaption := (@bounded_captionOr none object.content fun t ht => (by cases ht)).1
  obtain ⟨hp,hsize⟩ := serializedProjection_some h
  refine ⟨?_,hsize⟩
  rcases hp with rfl | ⟨_,rfl⟩
  · exact ⟨hattached,hlong,hcaption,hlist.overlays,hlist.single,hlist.count⟩
  · have hnil := @storedOverlays_nil P
    exact ⟨hattached,hlong,hcaption,hnil.overlays,hnil.single,hnil.count⟩

structure Kept (object : StoryObject) (e p : InboundStoryProjection) : Prop where
  attachment : object.attachment = none → p.attachment = e.attachment
  displayDuration : object.displayDuration = none → p.displayDuration = e.displayDuration
  caption : object.content = none → p.caption = e.caption
  overlays : object.overlays = none → p.overlays = e.overlays

theorem stored_update {e : InboundStoryProjection} (he : e.Stored P)
    (h : buildInboundStoryUpdateProjection P numberText object e.toJson = some p) :
    (p.Stored P ∧ p.size numberText ≤ maxAttachmentsJsonLength) ∧ Kept object e.reread p := by
  have hread := stored_reread he
  unfold buildInboundStoryUpdateProjection at h
  rw [parseStoredStoryProjection_toJson he] at h
  simp only [Option.bind_eq_bind,Option.bind_some,Option.bind_eq_some_iff] at h
  obtain ⟨attachment,hattachment,duration,hduration,overlays,hoverlays,h⟩ := h
  obtain ⟨hattached,hattachment⟩ := stored_attachmentOr hattachment fun a ha =>
    Option.some.inj ha ▸ hread.attachment
  obtain ⟨hlong,hduration⟩ := stored_durationOr hduration hread.displayDuration
  obtain ⟨hlist,hoverlays⟩ := stored_overlaysOr hoverlays ⟨hread.overlays,hread.single,hread.count⟩
  obtain ⟨hbounded,hcaption⟩ := @bounded_captionOr e.reread.caption object.content hread.caption
  obtain ⟨rfl | ⟨hno,_⟩,hsize⟩ := serializedProjection_some h
  · exact ⟨⟨⟨hattached,hlong,hbounded,hlist.overlays,hlist.single,hlist.count⟩,hsize⟩,
      ⟨fun hnone => (Option.some.inj (hattachment hnone)).symm,hduration,hcaption,hoverlays⟩⟩
  · cases hno

end projections

end Yurucommu.StoryProjection
