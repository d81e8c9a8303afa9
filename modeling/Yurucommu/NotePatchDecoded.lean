import Yurucommu.NotePatch

/-!
A patch that was admitted is read back from its text as it was: what is checked again of the fields
that are kept was checked of the whole object.
-/

set_option autoImplicit false

namespace Yurucommu.NotePatch

open ActorIdentity (Platform isSafeRemoteUrl)
open JsonText
open Utf16 (IsUnits Paired)

section addressing

variable {ν : Type} {field : AddressField} {c d : Collected} {t u : Units}

def Absorbed (field : AddressField) (c : Collected) (t : Units) : Prop :=
  t.length = 0 ∨ ¬maxInboundAddressLength < t.length ∧ (field,t) ∈ c.seen

theorem collectText_absorbed (h : Absorbed field c t) : collectText field c t = .ok c := by
  unfold collectText
  obtain h | ⟨hlength,hseen⟩ := h
  · rw [if_pos h]
  · rw [if_neg hlength,if_pos hseen,ite_self]

theorem Absorbed.of_ok (h : collectText field c t = .ok d) : Absorbed field d t := by
  unfold collectText at h
  split_ifs at h with hempty hlong hseen hmany
  · exact .inl hempty
  · cases h
    exact .inr ⟨hlong,hseen⟩
  · cases h
    exact .inr ⟨hlong,List.mem_cons_self⟩

theorem Absorbed.mono (h : Absorbed field c t) (hu : collectText field c u = .ok d) :
    Absorbed field d t := by
  unfold collectText at hu
  split_ifs at hu
  · cases hu
    exact h
  · cases hu
    exact h
  · cases hu
    exact h.imp_right fun h => ⟨h.1,List.mem_cons_of_mem _ h.2⟩

theorem foldlM_filter (h : Absorbed field c t) (ts : List Units) :
    (ts.filter (· ≠ t)).foldlM (collectText field) c = ts.foldlM (collectText field) c := by
  induction ts generalizing c with
  | nil => rfl
  | cons u ts ih =>
    by_cases hu : u = t
    · rw [List.filter_cons_of_neg (by simp [hu]),List.foldlM_cons,hu,collectText_absorbed h]
      exact ih h
    · rw [List.filter_cons_of_pos (by simp [hu]),List.foldlM_cons,List.foldlM_cons]
      cases hstep : collectText field c u with
      | error e => rfl
      | ok d => exact ih (h.mono hstep)

theorem foldlM_eraseDups (n : Nat) (ts : List Units) (hn : ts.length ≤ n) :
    ts.eraseDups.foldlM (collectText field) c = ts.foldlM (collectText field) c := by
  induction n generalizing ts c with
  | zero =>
    rw [List.length_eq_zero_iff.mp (Nat.le_zero.mp hn)]
    rfl
  | succ n ih =>
    cases ts with
    | nil => rfl
    | cons t ts =>
      have hfilter : (ts.filter fun u => !u == t) = ts.filter (· ≠ t) :=
        List.filter_congr fun u _ => by by_cases hu : u = t <;> simp [hu]
      have hlength := List.length_filter_le (· ≠ t) ts
      rw [List.length_cons] at hn
      rw [List.eraseDups_cons,hfilter,List.foldlM_cons,List.foldlM_cons]
      cases hstep : collectText field c t with
      | error e => rfl
      | ok d =>
        change (ts.filter (· ≠ t)).eraseDups.foldlM (collectText field) d = _
        rw [ih (ts.filter (· ≠ t)) (by omega),foldlM_filter (.of_ok hstep)]
        rfl

theorem foldlM_strings (entries : List (Json ν)) :
    entries.foldlM (collectCandidate field) c =
      (entries.filterMap fun v => asString (some v)).foldlM (collectText field) c := by
  induction entries generalizing c with
  | nil => rfl
  | cons v entries ih =>
    cases v with
    | string t =>
      have htexts : (Json.string t :: entries).filterMap (fun v => asString (some v)) =
          t :: entries.filterMap fun v => asString (some v) := rfl
      rw [htexts,List.foldlM_cons,List.foldlM_cons]
      change (collectText field c t).bind _ = (collectText field c t).bind _
      cases collectText field c t with
      | error e => rfl
      | ok d => exact ih
    | null | bool | number | array | object => exact ih

theorem foldlM_map_string (ts : List Units) :
    (ts.map (Json.string (ν := ν))).foldlM (collectCandidate field) c =
      ts.foldlM (collectText field) c := by
  rw [List.foldlM_map]
  rfl

theorem foldlM_noteAddressList (value : Option (Json ν)) :
    (candidates (some (strings (noteAddressList value)) : Option (Json ν))).foldlM
      (collectCandidate field) c = (candidates value).foldlM (collectCandidate field) c := by
  change ((noteAddressList value).map (Json.string (ν := ν))).foldlM _ c = _
  rw [foldlM_map_string]
  cases value with
  | none => rfl
  | some v =>
    cases v with
    | array entries =>
      rw [noteAddressList,foldlM_eraseDups _ _ le_rfl]
      exact (foldlM_strings entries).symm
    | string t =>
      change _ = [Json.string t].foldlM _ c
      rw [← foldlM_map_string]
      rfl
    | null | bool | number | object => rfl

theorem collects_congr {source other : AddressSource ν}
    (h : ∀ field c, (candidates (source field)).foldlM (collectCandidate field) c =
      (candidates (other field)).foldlM (collectCandidate field) c) :
    collects [source] = collects [other] := by
  have hsame : collectSource (ν := ν) = fun c source => addressFields.foldlM
    (fun c field => (candidates (source field)).foldlM (collectCandidate field) c) c := rfl
  unfold collects collectBoundedInboundAddresses
  simp only [List.foldlM_cons,hsame,h]

end addressing

section fields

variable {ν : Type} {P : Platform} {F : NumberFormat ν} {object : Json ν} {p : AdmittedNotePatch}

theorem plain_patchFields : Plain patchFields ∧
    Plain ([AddressField.to_,.cc,.bto,.bcc].map AddressField.key) := by
  decide +kernel

theorem hasOnly_defined {members : List (Units × Option (Json ν))} :
    hasOnly (members.map Prod.fst) (.object (defined members)) = true := by
  refine List.all_eq_true.mpr fun m hm => decide_eq_true ?_
  exact List.mem_map_of_mem (f := Prod.fst) (mem_defined hm)

theorem stringList_strings (ts : List Units) :
    stringList (some (strings ts : Json ν)) = some ts := by
  change (ts.map (Json.string (ν := ν))).mapM _ = _
  induction ts with
  | nil => rfl
  | cons t ts ih =>
    rw [List.map_cons,List.mapM_cons,ih]
    rfl

theorem addressingField_members (a : Option Addressing) :
    addressingField (a.map fun a => (.object (defined a.members) : Json ν)) = some a := by
  cases a with
  | none => rfl
  | some a =>
    have hkeys : ((a.members (ν := ν)).map Prod.fst).Nodup := plain_patchFields.2.1
    have hget {key : Units} {value : Option (Json ν)} (n : Nat)
        (hn : a.members[n]? = some (key,value)) :
        (Json.object (defined a.members)).get key = value :=
      get_defined hkeys (List.mem_of_getElem? hn)
    have honly : hasOnly ([AddressField.to_,.cc,.bto,.bcc].map AddressField.key)
        (.object (defined a.members) : Json ν) = true := hasOnly_defined
    rw [Option.map_some,addressingField,hget 0 rfl,hget 1 rfl,hget 2 rfl,hget 3 rfl]
    simp only [honly,stringList_strings,Option.bind_eq_bind,Option.bind_some]
    rfl

theorem proper_strings {ts : List Units} (h : ∀ t ∈ ts, IsUnits t) :
    Proper (strings ts : Json ν) := by
  refine .array fun v hv => ?_
  obtain ⟨t,ht,rfl⟩ := List.mem_map.mp hv
  exact .string (h t ht)

theorem units_noteAddressList {value : Option (Json ν)} (h : ∀ v ∈ value, Proper v) :
    ∀ t ∈ noteAddressList value, IsUnits t := by
  intro t ht
  unfold noteAddressList at ht
  split at ht
  · rw [List.mem_singleton.mp ht]
    cases h _ rfl with
    | string units => exact units
  · rename_i entries
    obtain ⟨v,hv,hstring⟩ := List.mem_filterMap.mp (List.mem_eraseDups.mp ht)
    cases h _ rfl with
    | array hall =>
      have hproper := hall v hv
      obtain rfl := Option.some.inj (asString_some hstring)
      cases hproper with
      | string units => exact units
  · cases ht

theorem units_truncate {t : Units} (h : IsUnits t) (n : Nat) : IsUnits (truncate t n) := by
  unfold truncate
  split
  · exact fun u hu => h u (List.mem_of_mem_take hu)
  · exact h

theorem units_emptyList : IsUnits emptyList :=
  show ∀ u ∈ [91,93], u < 0x10000 from by decide

theorem boundAttachmentsJson_list {t : Units} (h : IsUnits t ∧ isList (parse F t) = true) :
    IsUnits (boundAttachmentsJson t) ∧ isList (parse F (boundAttachmentsJson t)) = true := by
  unfold boundAttachmentsJson
  split
  · exact ⟨units_emptyList,rfl⟩
  · exact h

theorem collects_patchSource (h : p.addressing = addressingOf object)
    (haudience : p.audience = (object.get AddressField.audience.key).map fun audience =>
      noteAddressList (some audience)) :
    collects [patchSource (ν := ν) p] = collects [objectSource object] := by
  have hlist (field : AddressField) (c : Collected) (ha : addressingOf object = none)
      (hfield : field ∈ [AddressField.to_,.cc,.bto,.bcc]) :
      (candidates (none : Option (Json ν))).foldlM (collectCandidate field) c =
        (candidates (object.get field.key)).foldlM (collectCandidate field) c := by
    unfold addressingOf at ha
    split at ha
    · cases ha
    · rename_i hno
      have hnone : object.get field.key = none := by
        simp only [List.any_eq_true,not_exists,not_and,Bool.not_eq_true,Option.isSome_eq_false_iff,
          Option.isNone_iff_eq_none] at hno
        exact hno field hfield
      rw [hnone]
  refine collects_congr fun field c => ?_
  have hsome (a : Addressing) (ha : addressingOf object = some a) :
      a = ⟨noteAddressList (object.get AddressField.to_.key),
        noteAddressList (object.get AddressField.cc.key),
        noteAddressList (object.get AddressField.bto.key),
        noteAddressList (object.get AddressField.bcc.key)⟩ := by
    unfold addressingOf at ha
    split at ha
    · exact (Option.some.inj ha).symm
    · cases ha
  cases field with
  | audience =>
    simp only [patchSource,haudience,objectSource]
    cases hvalue : object.get AddressField.audience.key with
    | none => rfl
    | some v => exact foldlM_noteAddressList (some v)
  | to_ | cc | bto | bcc =>
    simp only [patchSource,h,objectSource]
    cases ha : addressingOf object with
    | none => exact hlist _ c ha (by decide)
    | some a =>
      rw [hsome a ha]
      exact foldlM_noteAddressList _

theorem validate_again {value : Option (Json ν)} {parentId : Option (Option Units)}
    (h : validateInboundReplyTarget P value = .ok parentId) :
    validateInboundReplyTarget P
      (parentId.map fun parentId => (nullable (parentId.map .string) : Json ν)) =
        .ok parentId := by
  have hkept := h
  unfold validateInboundReplyTarget at h
  split at h
  · cases h
    rfl
  · cases h
    rfl
  · split_ifs at h
    cases h
    exact hkept
  · cases h

theorem validate_string {value : Option (Json ν)} {t : Units}
    (h : validateInboundReplyTarget P value = .ok (some (some t))) : value = some (.string t) := by
  unfold validateInboundReplyTarget at h
  split at h
  · cases h
  · cases h
  · split_ifs at h
    cases h
    rfl
  · cases h

theorem roomOf_some {value : Option (Json ν)} {room : Option Units}
    (h : roomOf value = some room) :
    (∀ t ∈ room, value = some (.string t)) ∧
      room.all (fun room => room.length ≤ maxRoomLength) = true := by
  unfold roomOf at h
  split at h
  · cases h
    exact ⟨fun _ ht => (by cases ht),rfl⟩
  · cases h
    exact ⟨fun _ ht => (by cases ht),rfl⟩
  · split_ifs at h with hempty hlong
    · cases h
      exact ⟨fun _ ht => (by cases ht),rfl⟩
    · cases h
      refine ⟨fun _ ht => (by cases ht; rfl),?_⟩
      exact decide_eq_true (Nat.le_of_not_lt hlong)
  · cases h

theorem units_content {v : Json ν} (h : Proper v) : IsUnits (boundInboundContent v) := by
  cases h with
  | string units => exact units_truncate units _
  | null | bool | number | array | object => exact fun _ hu => absurd hu List.not_mem_nil

theorem units_summary {v : Json ν} (h : Proper v) : ∀ t ∈ boundInboundSummary v, IsUnits t := by
  intro t ht
  cases h with
  | string units =>
    simp only [boundInboundSummary] at ht
    split at ht
    · cases ht
      exact units_truncate units _
    · cases ht
  | null | bool | number | array | object => cases ht

theorem proper_addressing {a : Addressing} (hv : Proper object)
    (h : addressingOf object = some a) : Proper (.object (defined a.members) : Json ν) := by
  have hunits (field : AddressField) :
      ∀ t ∈ noteAddressList (object.get field.key), IsUnits t :=
    units_noteAddressList fun v hmem => proper_get hv hmem
  unfold addressingOf at h
  split at h
  · cases h
    refine proper_defined plain_patchFields.2 ?_
    simp only [Addressing.members,List.forall_mem_cons]
    exact ⟨proper_some (proper_strings (hunits _)),proper_some (proper_strings (hunits _)),
      proper_some (proper_strings (hunits _)),proper_some (proper_strings (hunits _)),
      fun _ hm => absurd hm List.not_mem_nil⟩
  · cases h

end fields

section text

variable {ν : Type} [Zero ν] {P : Platform} {F : NumberFormat ν} {object : Json ν}
  {p : AdmittedNotePatch}

structure Admitted (P : Platform) (F : NumberFormat ν) (p : AdmittedNotePatch) : Prop where
  proper : Proper (p.toJson : Json ν)
  acceptable : acceptable P F p = true

theorem reread_strings (ts : List Units) : reread (strings ts : Json ν) = strings ts := by
  rw [strings,reread,rereadAll_eq,List.map_map]
  rfl

theorem reread_string (t : Option Units) : reread (nullable (t.map .string) : Json ν) =
    nullable (t.map .string) := by
  cases t <;> rfl

theorem reread_addressing (a : Addressing) :
    reread (.object (defined a.members) : Json ν) = .object (defined a.members) := by
  rw [reread_defined]
  simp only [Addressing.members,List.map_cons,List.map_nil,Option.map_some,reread_strings]

theorem reread_toJson (p : AdmittedNotePatch) : reread (p.toJson : Json ν) = p.toJson := by
  have htext (t : Option Units) :
      (t.map (Json.string (ν := ν))).map reread = t.map .string := by
    cases t <;> rfl
  have hnullable (t : Option (Option Units)) :
      (t.map fun t => (nullable (t.map .string) : Json ν)).map reread =
        t.map fun t => nullable (t.map .string) := by
    cases t with
    | none => rfl
    | some t => exact congrArg some (reread_string t)
  have hstrings (ts : Option (List Units)) :
      (ts.map (strings (ν := ν))).map reread = ts.map strings := by
    cases ts with
    | none => rfl
    | some ts => exact congrArg some (reread_strings ts)
  have haddressing (a : Option Addressing) :
      (a.map fun a => (.object (defined a.members) : Json ν)).map reread =
        a.map fun a => .object (defined a.members) := by
    cases a with
    | none => rfl
    | some a => exact congrArg some (reread_addressing a)
  unfold AdmittedNotePatch.toJson
  rw [reread_defined]
  simp only [AdmittedNotePatch.members,List.map_cons,List.map_nil,htext,hnullable,hstrings,
    haddressing]

theorem Admitted.decode (h : Admitted P F p) :
    decodeNoteUpdatePatch P F (some (stringify F p.toJson)) = some p := by
  have hkeys : ((p.members (ν := ν)).map Prod.fst).Nodup := plain_patchFields.1.1
  have hget {key : Units} {value : Option (Json ν)} (n : Nat)
      (hn : p.members[n]? = some (key,value)) : (p.toJson : Json ν).get key = value :=
    get_defined hkeys (List.mem_of_getElem? hn)
  have honly : hasOnly patchFields (p.toJson : Json ν) = true := hasOnly_defined
  have hstring (t : Option Units) : stringField (t.map (Json.string (ν := ν))) = some t := by
    cases t <;> rfl
  have hnullable (t : Option (Option Units)) :
      nullableField (t.map fun t => (nullable (t.map .string) : Json ν)) = some t := by
    cases t with
    | none => rfl
    | some t => cases t <;> rfl
  have haudience (ts : Option (List Units)) :
      audienceField (ts.map (strings (ν := ν))) = some ts := by
    cases ts with
    | none => rfl
    | some ts =>
      change (stringList (some (strings ts))).map some = _
      rw [stringList_strings]
      rfl
  unfold decodeNoteUpdatePatch
  rw [Option.bind_eq_bind,Option.bind_some,parse_stringify h.proper,reread_toJson]
  simp only [Option.bind_eq_bind,Option.bind_some]
  rw [hget 0 rfl,hget 1 rfl,hget 2 rfl,hget 3 rfl,hget 4 rfl,hget 5 rfl,hget 6 rfl,hget 7 rfl]
  simp only [honly,hstring,hnullable,haudience,addressingField_members,Option.bind_some,
    h.acceptable]
  rfl

theorem normalizeBoundedRecordArray_list {value : Json ν} (h : Proper value) (n m : Nat) :
    IsUnits (normalizeBoundedRecordArray F value n m) ∧
      isList (parse F (normalizeBoundedRecordArray F value n m)) = true := by
  have hproper {entries : List (Json ν)} (hentries : ∀ v ∈ entries, Proper v) :
      Proper (.array ((entries.filter (·.isObject)).take n)) :=
    .array fun v hv => hentries v (List.mem_of_mem_filter (List.mem_of_mem_take hv))
  have hrecords : ∃ records : List (Json ν), Proper (.array records) ∧
      normalizeBoundedRecordArray F value n m =
        if (stringify F (.array records)).length ≤ m then stringify F (.array records)
        else emptyList := by
    cases h with
    | null =>
      have hnone : ∀ v ∈ ([] : List (Json ν)), Proper v := fun _ hv => absurd hv List.not_mem_nil
      exact ⟨_,hproper hnone,rfl⟩
    | @array entries hall => exact ⟨_,hproper hall,rfl⟩
    | bool b => exact ⟨_,hproper fun v hv => List.mem_singleton.mp hv ▸ .bool b,rfl⟩
    | number x => exact ⟨_,hproper fun v hv => List.mem_singleton.mp hv ▸ .number x,rfl⟩
    | string units => exact ⟨_,hproper fun v hv => List.mem_singleton.mp hv ▸ .string units,rfl⟩
    | object keys units hall =>
      exact ⟨_,hproper fun v hv => List.mem_singleton.mp hv ▸ .object keys units hall,rfl⟩
  obtain ⟨records,hlist,htext⟩ := hrecords
  rw [htext]
  split
  · refine ⟨(paired_stringify hlist).isUnits,?_⟩
    rw [parse_stringify hlist]
    rfl
  · exact ⟨units_emptyList,rfl⟩

theorem normalize_admitted (hv : Proper object)
    (h : normalizeNoteUpdatePatch P F object = some p) : Admitted P F p := by
  have hget {key : Units} {w : Json ν} (hw : object.get key = some w) : Proper w := proper_get hv hw
  unfold normalizeNoteUpdatePatch at h
  split at h
  · rename_i hcollects
    split at h
    · cases h
    · rename_i parentId hparent
      split at h
      · cases h
      · obtain ⟨room,hroom,rfl⟩ := Option.map_eq_some_iff.mp h
        obtain ⟨hroomText,hroomLength⟩ := roomOf_some hroom
        have hattachments : ∀ t ∈ (object.get (JsString.units "attachment")).map
            (boundInboundNoteAttachmentsJson F), IsUnits t ∧ isList (parse F t) = true := by
          intro t ht
          obtain ⟨value,hvalue,rfl⟩ := Option.map_eq_some_iff.mp ht
          exact boundAttachmentsJson_list (normalizeBoundedRecordArray_list (hget hvalue) _ _)
        have htags : ∀ t ∈ (object.get (JsString.units "tag")).map (boundInboundTagsJson F),
            IsUnits t ∧ isList (parse F t) = true := by
          intro t ht
          obtain ⟨value,hvalue,rfl⟩ := Option.map_eq_some_iff.mp ht
          exact normalizeBoundedRecordArray_list (hget hvalue) _ _
        have hall {json : Option Units}
            (hjson : ∀ t ∈ json, IsUnits t ∧ isList (parse F t) = true) :
            json.all (fun t => isList (parse F t)) = true := by
          cases json with
          | none => rfl
          | some t => exact (hjson t rfl).2
        constructor
        case proper =>
          refine proper_defined plain_patchFields.1 ?_
          simp only [AdmittedNotePatch.members,List.forall_mem_cons]
          refine ⟨proper_string fun t ht => ?_,fun w hw => ?_,
            proper_string fun t ht => (hattachments t ht).1,
            proper_string fun t ht => (htags t ht).1,fun w hw => ?_,fun w hw => ?_,fun w hw => ?_,
            proper_string fun t ht => ?_,fun _ hm => absurd hm List.not_mem_nil⟩
          · obtain ⟨value,hvalue,rfl⟩ := Option.map_eq_some_iff.mp ht
            exact units_content (hget hvalue)
          · obtain ⟨summary,hsummary,rfl⟩ := Option.map_eq_some_iff.mp hw
            obtain ⟨value,hvalue,rfl⟩ := Option.map_eq_some_iff.mp hsummary
            exact proper_nullable (proper_string (units_summary (hget hvalue)))
          · obtain ⟨a,ha,rfl⟩ := Option.map_eq_some_iff.mp hw
            exact proper_addressing hv ha
          · obtain ⟨ts,hts,rfl⟩ := Option.map_eq_some_iff.mp hw
            obtain ⟨value,hvalue,rfl⟩ := Option.map_eq_some_iff.mp hts
            refine proper_strings (units_noteAddressList fun v hmem => ?_)
            cases hmem
            exact hget hvalue
          · obtain ⟨parent,hkept,rfl⟩ := Option.map_eq_some_iff.mp hw
            refine proper_nullable (proper_string fun t ht => ?_)
            cases hkept
            cases ht
            cases hget (validate_string hparent) with
            | string units => exact units
          · cases hget (hroomText t ht) with
            | string units => exact units
        case acceptable =>
          unfold acceptable
          simp only [validate_again hparent,hroomLength,Bool.and_true]
          rw [collects_patchSource rfl rfl,hcollects]
          simp only [List.all_cons,List.all_nil,hall hattachments,hall htags,Bool.and_true]
  · cases h

/-- Whatever object is admitted, the text of its patch is decoded, as the same patch. -/
theorem normalize_decodes (hv : Proper object)
    (h : normalizeNoteUpdatePatch P F object = some p) :
    decodeNoteUpdatePatch P F (some (stringify F p.toJson)) = some p :=
  (normalize_admitted hv h).decode

end text

section cleared

def clearing : Json ℤ :=
  .object [(JsString.units "to",.string [97]),
    (JsString.units "tag",.object [(JsString.units "name",.string [98])]),
    (JsString.units "summary",.null),(JsString.units "inReplyTo",.null)]

theorem proper_clearing : Proper clearing := by
  have hkeys : Plain (["to","tag","summary","inReplyTo"].map JsString.units) ∧
      Plain (["name"].map JsString.units) := by decide +kernel
  have hunits (u : Nat) (h : u < 0x10000) : Proper (.string [u] : Json ℤ) :=
    .string fun w hw => List.mem_singleton.mp hw ▸ h
  refine @proper_defined _ [(_,some _),(_,some _),(_,some _),(_,some _)] hkeys.1 ?_
  simp only [List.forall_mem_cons]
  refine ⟨proper_some (hunits _ (by decide)),proper_some ?_,proper_some .null,proper_some .null,
    fun _ hm => absurd hm List.not_mem_nil⟩
  refine @proper_defined _ [(_,some _)] hkeys.2 ?_
  simp only [List.forall_mem_cons]
  exact ⟨proper_some (hunits _ (by decide)),fun _ hm => absurd hm List.not_mem_nil⟩

theorem normalize_decodes_clearing : ∃ p, normalizeNoteUpdatePatch ActorIdentity.hostless
    integerFormat clearing = some p ∧ p.content = none ∧ p.summary = some none ∧
      decodeNoteUpdatePatch ActorIdentity.hostless integerFormat
        (some (stringify integerFormat p.toJson)) = some p := by
  have hpatch : ∃ p, normalizeNoteUpdatePatch ActorIdentity.hostless integerFormat clearing =
      some p ∧ p.content = none ∧ p.summary = some none := ⟨_,rfl,rfl,rfl⟩
  obtain ⟨p,hp,hcontent,hsummary⟩ := hpatch
  exact ⟨p,hp,hcontent,hsummary,normalize_decodes proper_clearing hp⟩

end cleared

end Yurucommu.NotePatch
