import Yurucommu.S3Fetch

/-!
Which keys share the path of a request: the keys that differ only in whole segments of dots and
their escapes, and no others.
-/

set_option autoImplicit false

namespace Yurucommu.S3Fetch

open Whatwg

section segments

variable {t t' : Text} {c : Char}

def segmentSet (c : Char) : Bool := uriComponentSet c || ".!'()*".toList.contains c

theorem hexDigit_unreserved : ∀ n < 16, ".!'()*".toList.contains (hexDigit n) = false := by
  decide

theorem escapeReserved_append : escapeReserved (t ++ t') = escapeReserved t ++ escapeReserved t' :=
  List.flatMap_append

theorem escapeReserved_byte (b : UInt8) :
    escapeReserved (percentEncodeByte b) = percentEncodeByte b := by
  have hlt := b.toNat_lt
  have hhigh := hexDigit_unreserved (b.toNat / 16) (by omega)
  have hlow := hexDigit_unreserved (b.toNat % 16) (by omega)
  have hpercent : ".!'()*".toList.contains '%' = false := by decide
  simp only [escapeReserved,percentEncodeByte,List.flatMap_cons,List.flatMap_nil,hhigh,hlow,
    hpercent,Bool.false_eq_true,if_false,List.append_nil,List.singleton_append]

theorem escapeReserved_bytes (bytes : List UInt8) :
    escapeReserved (bytes.flatMap percentEncodeByte) = bytes.flatMap percentEncodeByte := by
  induction bytes with
  | nil => rfl
  | cons b bytes ih => rw [List.flatMap_cons,escapeReserved_append,escapeReserved_byte,ih]

theorem percentEncode_reserved (h : ".!'()*".toList.contains c = true) :
    percentEncode segmentSet c = percentEncodeByte (UInt8.ofNat c.toNat) := by
  have hascii : ∀ c ∈ ".!'()*".toList, c.val ≤ 127 := by simp
  have hsize := Char.utf8Size_eq_one_iff.mpr (hascii c (by simpa using h))
  unfold percentEncode
  rw [if_pos (by rw [segmentSet,h,Bool.or_true]),String.utf8EncodeChar_eq_singleton hsize,
    List.flatMap_singleton]
  rfl

theorem escapeReserved_encodeURIComponent (t : Text) :
    escapeReserved (encodeURIComponent t) = encode segmentSet t := by
  induction t with
  | nil => rfl
  | cons c t ih =>
    rw [encodeURIComponent,encode,List.flatMap_cons,escapeReserved_append,← encode,
      ← encodeURIComponent,ih,encode,encode,List.flatMap_cons]
    congr 1
    unfold percentEncode
    cases hset : uriComponentSet c with
    | true =>
      rw [if_pos rfl,if_pos (by rw [segmentSet,hset,Bool.true_or]),escapeReserved_bytes]
    | false =>
      rw [if_neg Bool.false_ne_true]
      cases hreserved : ".!'()*".toList.contains c with
      | true =>
        have hencode := percentEncode_reserved hreserved
        unfold percentEncode at hencode
        rw [hencode]
        simp only [escapeReserved,List.flatMap_cons,List.flatMap_nil,hreserved,if_true,
          List.append_nil]
      | false =>
        rw [if_neg (by rw [segmentSet,hset,hreserved]; exact Bool.false_ne_true)]
        simp only [escapeReserved,List.flatMap_cons,List.flatMap_nil,hreserved,Bool.false_eq_true,
          if_false,List.append_nil]

/-- A segment of dots is sent as the segment that spells its escapes. -/
def undotted (value : Text) : Text :=
  if value = ['.'] then "%2E".toList
  else if value = ['.','.'] then "%2E%2E".toList
  else value

theorem encodePathSegment_eq (value : Text) :
    encodePathSegment value = encode segmentSet (undotted value) := by
  unfold encodePathSegment undotted
  rw [escapeReserved_encodeURIComponent]
  by_cases hdot : value = ['.']
  · rw [hdot]
    decide
  · by_cases hdots : value = ['.','.']
    · rw [hdots]
      decide
    · rw [if_neg hdot,if_neg hdots]
      simp [hdot,hdots]

theorem encodePathSegment_inj : encodePathSegment t = encodePathSegment t' ↔
    undotted t = undotted t' := by
  rw [encodePathSegment_eq,encodePathSegment_eq]
  constructor
  · exact encode_injective (by decide)
  · intro h
    rw [h]

def foreign (c : Char) : Bool :=
  c.toNat ≤ 0x20 || 0x7e < c.toNat ||
    [0x22,0x23,0x2e,0x2f,0x3c,0x3e,0x3f,0x5c,0x5e,0x60,0x7b,0x7d].contains c.toNat

theorem not_foreign_of_unreserved (h : segmentSet c = false) : foreign c = false := by
  have hkept : isAsciiAlphanumeric c = true ∨ c = '-' ∨ c = '_' ∨ c = '~' := by
    rw [segmentSet,Bool.or_eq_false_iff,uriComponentSet,Bool.not_eq_false',Bool.or_eq_true] at h
    obtain ⟨hplain,hno⟩ := h
    rcases hplain with halnum | hmark
    · exact .inl halnum
    · simp only [String.reduceToList,List.contains_eq_mem,List.mem_cons,List.not_mem_nil,or_false,
        decide_eq_true_eq,decide_eq_false_iff_not,not_or] at hmark hno
      rcases hmark with h | h | h | h | h | h | h | h | h
      · exact .inr (.inl h)
      · exact .inr (.inr (.inl h))
      · exact absurd h hno.1
      · exact absurd h hno.2.1
      · exact .inr (.inr (.inr h))
      · exact absurd h hno.2.2.2.2.2
      · exact absurd h hno.2.2.1
      · exact absurd h hno.2.2.2.1
      · exact absurd h hno.2.2.2.2.1
  rcases hkept with halnum | rfl | rfl | rfl
  · simp [isAsciiAlphanumeric] at halnum
    simp [foreign]
    omega
  · decide
  · decide
  · decide

theorem not_foreign_of_mem (h : c ∈ encode segmentSet t) : foreign c = false :=
  @encode_avoids segmentSet t foreign (by decide) (by decide)
    (fun _ _ => not_foreign_of_unreserved) c h

theorem chars_of_not_foreign (h : foreign c = false) : 0x20 < c.toNat ∧ pathSet c = false ∧
    isSlash c = false ∧ c ≠ '?' ∧ c ≠ '#' ∧ c ≠ '.' := by
  refine ⟨?_,?_,?_,?_,?_,?_⟩
  · simp [foreign] at h
    omega
  · simp [foreign] at h
    simp [pathSet,querySet,c0ControlSet]
    omega
  · by_contra hslash
    rw [Bool.not_eq_false,isSlash,Bool.or_eq_true,decide_eq_true_eq,decide_eq_true_eq] at hslash
    rcases hslash with rfl | rfl
    · exact absurd h (by decide)
    · exact absurd h (by decide)
  · rintro rfl
    exact absurd h (by decide)
  · rintro rfl
    exact absurd h (by decide)
  · rintro rfl
    exact absurd h (by decide)

theorem eq_of_encode {e : Text} (h : encode segmentSet t = e)
    (hbytes : percentDecode e = t'.flatMap String.utf8EncodeChar) : t = t' := by
  rw [← h,percentDecode_encode (by decide)] at hbytes
  exact utf8_injective hbytes

theorem eq_or_of_toLower {d : Char} (h : c.toLower = d) : c = d ∨ c = d.toUpper := by
  by_cases hupper : c.isUpper = true
  · have hnot : ¬ c.isLower = true := Char.not_isLower_of_isUpper hupper
    refine .inr ?_
    rw [← h,Char.toUpper_toLower_eq_toUpper,Char.toUpper_eq_of_not_isLower hnot]
  · refine .inl ?_
    rwa [Char.toLower_eq_of_not_isUpper hupper] at h

theorem of_lower_cons {e l : Text} {d : Char} (h : lower e = d :: l) :
    ∃ c rest, e = c :: rest ∧ (c = d ∨ c = d.toUpper) ∧ lower rest = l := by
  cases e with
  | nil => cases h
  | cons c rest =>
    obtain ⟨hhead,htail⟩ := List.cons.inj h
    exact ⟨c,rest,rfl,eq_or_of_toLower hhead,htail⟩

theorem of_lower_escape {e l : Text} (h : lower e = "%2e".toList ++ l) :
    ∃ rest, (e = "%2E".toList ++ rest ∨ e = "%2e".toList ++ rest) ∧ lower rest = l := by
  obtain ⟨c,e₁,rfl,hc,h₁⟩ := of_lower_cons h
  obtain ⟨c',e₂,rfl,hc',h₂⟩ := of_lower_cons h₁
  obtain ⟨c'',e₃,rfl,hc'',h₃⟩ := of_lower_cons h₂
  obtain rfl : c = '%' := hc.elim id id
  obtain rfl : c' = '2' := hc'.elim id id
  rcases hc'' with rfl | rfl
  · exact ⟨e₃,.inr rfl,h₃⟩
  · exact ⟨e₃,.inl rfl,h₃⟩

theorem dot_not_mem_encode : '.' ∉ encode segmentSet t := by
  intro h
  exact absurd (not_foreign_of_mem h) (by decide)

theorem eq_dot_of_isSingleDot (h : isSingleDot (encode segmentSet t) = true) : t = ['.'] := by
  rw [isSingleDot,List.any_eq_true] at h
  obtain ⟨spelled,hmem,hlower⟩ := h
  simp only [List.mem_cons,List.not_mem_nil,or_false] at hmem
  rw [decide_eq_true_eq] at hlower
  rcases hmem with rfl | rfl
  · obtain ⟨c,rest,heq,hc,_⟩ := of_lower_cons hlower
    obtain rfl : c = '.' := hc.elim id id
    exact absurd (heq ▸ List.mem_cons_self) dot_not_mem_encode
  · obtain ⟨rest,heq,hrest⟩ := of_lower_escape (l := []) hlower
    obtain rfl : rest = [] := List.map_eq_nil_iff.mp hrest
    rcases heq with heq | heq
    · exact eq_of_encode heq (by decide)
    · have ht : t = ['N'] := eq_of_encode heq (by decide)
      rw [ht] at heq
      exact absurd heq (by decide)

theorem eq_dots_of_isDoubleDot (h : isDoubleDot (encode segmentSet t) = true) :
    t = ['.','.'] := by
  rw [isDoubleDot,List.any_eq_true] at h
  obtain ⟨spelled,hmem,hlower⟩ := h
  simp only [List.mem_cons,List.not_mem_nil,or_false] at hmem
  rw [decide_eq_true_eq] at hlower
  have hdot : ∀ {l}, lower (encode segmentSet t) ≠ '.' :: l := by
    intro l hlower
    obtain ⟨c,rest,heq,hc,_⟩ := of_lower_cons hlower
    obtain rfl : c = '.' := hc.elim id id
    exact absurd (heq ▸ List.mem_cons_self) dot_not_mem_encode
  rcases hmem with rfl | rfl | rfl | rfl
  · exact absurd hlower hdot
  · exact absurd hlower hdot
  · obtain ⟨rest,heq,hrest⟩ := of_lower_escape (l := ['.']) hlower
    obtain ⟨c,rest,rfl,hc,_⟩ := of_lower_cons hrest
    obtain rfl : c = '.' := hc.elim id id
    refine absurd ?_ (dot_not_mem_encode (t := t))
    rcases heq with heq | heq
    · rw [heq]
      simp
    · rw [heq]
      simp
  · obtain ⟨rest,heq,hrest⟩ := of_lower_escape (l := "%2e".toList) hlower
    obtain ⟨rest,heq',hrest'⟩ := of_lower_escape (l := []) hrest
    obtain rfl : rest = [] := List.map_eq_nil_iff.mp hrest'
    rcases heq with heq | heq
    · rcases heq' with rfl | rfl
      · exact eq_of_encode heq (by decide)
      · have ht : t = ['.','N'] := eq_of_encode heq (by decide)
        rw [ht] at heq
        exact absurd heq (by decide)
    · rcases heq' with rfl | rfl
      · have ht : t = ['N','.'] := eq_of_encode heq (by decide)
        rw [ht] at heq
        exact absurd heq (by decide)
      · have ht : t = ['N','N'] := eq_of_encode heq (by decide)
        rw [ht] at heq
        exact absurd heq (by decide)

theorem undotted_ne (value : Text) : undotted value ≠ ['.'] ∧ undotted value ≠ ['.','.'] := by
  unfold undotted
  split
  · exact ⟨by decide,by decide⟩
  · split
    · exact ⟨by decide,by decide⟩
    · exact ⟨by assumption,by assumption⟩

theorem cleanSegment_encodePathSegment (value : Text) :
    CleanSegment (encodePathSegment value) := by
  rw [encodePathSegment_eq]
  obtain ⟨hdot,hdots⟩ := undotted_ne value
  refine ⟨fun c hc => ?_,?_,?_⟩
  · obtain ⟨_,hpath,hslash,_⟩ := chars_of_not_foreign (not_foreign_of_mem hc)
    exact ⟨hpath,hslash⟩
  · rw [Bool.eq_false_iff]
    exact fun h => hdot (eq_dot_of_isSingleDot h)
  · rw [Bool.eq_false_iff]
    exact fun h => hdots (eq_dots_of_isDoubleDot h)

end segments

section paths

variable {parseHost : Text → Option Text} {key key' : Text}

def sentSegments (key : Text) : List Text := (key.splitOn '/').map encodePathSegment

theorem sentSegments_ne_nil : sentSegments key ≠ [] := by
  unfold sentSegments
  rw [ne_eq,List.map_eq_nil_iff]
  exact List.splitOn_ne_nil _ _

theorem sentSegments_clean : ∀ t ∈ sentSegments key, CleanSegment t := by
  intro t ht
  obtain ⟨value,_,rfl⟩ := List.mem_map.mp ht
  exact cleanSegment_encodePathSegment value

theorem joined_chars : ∀ c ∈ joined (sentSegments key), 0x20 < c.toNat ∧ c ≠ '#' ∧ c ≠ '?' := by
  intro c hc
  obtain ⟨t,ht,hmem⟩ := List.mem_flatMap.mp hc
  obtain ⟨value,_,rfl⟩ := List.mem_map.mp ht
  rw [List.mem_cons,encodePathSegment_eq] at hmem
  rcases hmem with rfl | hmem
  · decide
  · obtain ⟨hspace,_,_,hquery,hhash,_⟩ := chars_of_not_foreign (not_foreign_of_mem hmem)
    exact ⟨hspace,hhash,hquery⟩

theorem joined_eq_intercalate {segments : List Text} (h : segments ≠ []) :
    joined segments = '/' :: ['/'].intercalate segments := by
  induction segments with
  | nil => exact absurd rfl h
  | cons t segments ih =>
    cases segments with
    | nil => simp [joined,List.intercalate]
    | cons t' segments =>
      have hrest := ih (List.cons_ne_nil _ _)
      rw [joined,List.flatMap_cons,← joined,hrest]
      simp [List.intercalate]

theorem objectUrl_eq : objectUrl key =
    "https".toList ++ "://".toList ++ "s3.invalid".toList ++ joined (sentSegments key) ++ [] := by
  rw [joined_eq_intercalate sentSegments_ne_nil,List.append_nil]
  rfl

/-- The parser takes no segment away and joins none. -/
theorem parse_objectUrl : parse parseHost (objectUrl key) =
    (parseHost "s3.invalid".toList).map fun hostname => {
      hostname
      scheme := "https".toList
      username := []
      password := []
      port := none
      path := sentSegments key
      query := none } := by
  have hpath : ∀ c ∈ joined (sentSegments key), decide (c ≠ '?') = true :=
    fun c hc => decide_eq_true (joined_chars c hc).2.2
  have hquery : queryState (joined (sentSegments key)) = none := by
    rw [queryState,List.dropWhile_eq_nil_iff.mpr hpath]
  have hstart : StartsPath (joined (sentSegments key)) :=
    .inr ⟨_,.inl (joined_eq_intercalate sentSegments_ne_nil)⟩
  have hhost : ∀ c ∈ "s3.invalid".toList, 0x20 < c.toNat ∧ isSlash c = false ∧ c ≠ '#' ∧
      c ≠ '?' ∧ c ≠ '@' := by
    simp [isSlash]
  have hscheme : lower "https".toList = "https".toList := by decide
  have hauthority : hostState false "s3.invalid".toList = ("s3.invalid".toList,[]) := by decide
  have hport : portState "https".toList [] = some none := by decide
  rw [objectUrl_eq,parse_written (.inr hscheme) (by decide)
    (fun c hc => ⟨(hhost c hc).1,(hhost c hc).2.1,(hhost c hc).2.2.1⟩)
    (fun c hc => ⟨(joined_chars c hc).1,(joined_chars c hc).2.1⟩) (.inl rfl),hscheme,
    parseAuthority_written _ (fun c hc => ⟨(hhost c hc).2.1,(hhost c hc).2.2.2⟩) hstart,
    hauthority,hquery,hport,List.takeWhile_eq_self_iff.mpr hpath,
    pathStart_joined sentSegments_clean sentSegments_ne_nil,
    if_neg (by decide)]
  cases parseHost "s3.invalid".toList with
  | none => rfl
  | some hostname => rfl

theorem requestPath_eq (key : Text)
    (hhost : (parseHost "s3.invalid".toList).isSome = true) :
    requestPath parseHost key = some (joined (sentSegments key)) := by
  obtain ⟨hostname,hhost⟩ := Option.isSome_iff_exists.mp hhost
  rw [requestPath,parse_objectUrl,hhost]
  rfl

theorem joined_inj {segments segments' : List Text} (h : ∀ t ∈ segments, CleanSegment t)
    (h' : ∀ t ∈ segments', CleanSegment t) (hne : segments ≠ []) (hne' : segments' ≠ []) :
    joined segments = joined segments' ↔ segments = segments' := by
  constructor
  · intro heq
    rw [← pathStart_joined h hne,heq,pathStart_joined h' hne']
  · rintro rfl
    rfl

/-- The segments of a key, with the dots and their escapes spelled alike. -/
def undottedSegments (key : Text) : List Text := (key.splitOn '/').map undotted

def decodeSegment (t : Text) : Text :=
  ((percentDecode t).toByteArray.utf8Decode?.getD #[]).toList

theorem decodeSegment_encodePathSegment (value : Text) :
    decodeSegment (encodePathSegment value) = undotted value := by
  rw [encodePathSegment_eq,decodeSegment,percentDecode_encode (by decide)]
  change ((undotted value).utf8Encode.utf8Decode?.getD #[]).toList = undotted value
  rw [List.utf8Decode?_utf8Encode]
  rfl

def decodePath (path : Text) : List Text := ((path.drop 1).splitOnP isSlash).map decodeSegment

theorem decodePath_joined : decodePath (joined (sentSegments key)) = undottedSegments key := by
  have hslash : ∀ t ∈ sentSegments key, ∀ c ∈ t, isSlash c = false :=
    fun t ht c hc => ((sentSegments_clean t ht).chars c hc).2
  rw [decodePath,splitOnP_joined hslash sentSegments_ne_nil,sentSegments,undottedSegments,
    List.map_map]
  exact List.map_congr_left fun value _ => decodeSegment_encodePathSegment value

/-- The key, among these, whose segments a pathname spells. -/
noncomputable def decodeKey (keys : Set Text) (path : Text) : Text :=
  Function.invFunOn undottedSegments keys (decodePath path)

theorem sentSegments_inj : sentSegments key = sentSegments key' ↔
    undottedSegments key = undottedSegments key' := by
  unfold sentSegments undottedSegments
  generalize key.splitOn '/' = segments
  generalize key'.splitOn '/' = segments'
  induction segments generalizing segments' with
  | nil =>
    cases segments' with
    | nil => simp
    | cons t' segments' => simp
  | cons t segments ih =>
    cases segments' with
    | nil => simp
    | cons t' segments' =>
      rw [List.map_cons,List.map_cons,List.map_cons,List.map_cons,List.cons_eq_cons,
        List.cons_eq_cons,encodePathSegment_inj,ih]

/-- Two keys share a path where only whole segments of dots and their escapes tell them apart. -/
theorem requestPath_inj (hhost : (parseHost "s3.invalid".toList).isSome = true) :
    requestPath parseHost key = requestPath parseHost key' ↔
      undottedSegments key = undottedSegments key' := by
  rw [requestPath_eq key hhost,requestPath_eq key' hhost,Option.some.injEq,
    joined_inj sentSegments_clean sentSegments_clean sentSegments_ne_nil sentSegments_ne_nil,
    sentSegments_inj]

end paths

section isolation

variable {parseHost : Text → Option Text} {σ β : Type} {fetcher : S3ObjectFetcher σ β} {path : Text}
variable {key : Text}

theorem object_fetchFromS3 (h : requestPath parseHost key ≠ some path) (s : σ)
    (operation : Operation) (payload : Option β) :
    fetcher.object (fetchFromS3 parseHost fetcher s operation key payload).2 path =
      fetcher.object s path := by
  unfold fetchFromS3
  unfold requestPath at h
  cases hurl : parse parseHost (objectUrl key) with
  | none => rfl
  | some url =>
    rw [hurl,Option.map_some,ne_eq,Option.some.injEq] at h
    have hsame := fetcher.confined s { operation,url,payload } path h
    dsimp only
    rw [← hsame]
    split
    · rename_i heq
      rw [heq]
    · rename_i heq
      rw [heq]

theorem object_send (h : requestPath parseHost key ≠ some path) (s : σ) (operation : Operation)
    (payload : Option β) : fetcher.object (send parseHost fetcher s operation key payload).2 path =
      fetcher.object s path := by
  rw [← object_fetchFromS3 h s operation payload]
  unfold send
  split
  · rename_i heq
    rw [heq]
  · rename_i heq
    rw [heq]

theorem object_deleteEach {keys : List Text}
    (h : ∀ key ∈ keys, requestPath parseHost key ≠ some path) (s : σ) :
    fetcher.object (deleteEach parseHost fetcher s keys).2 path = fetcher.object s path := by
  induction keys generalizing s with
  | nil => rfl
  | cons key keys ih =>
    rw [List.forall_mem_cons] at h
    rw [← object_send h.1 s .delete none]
    unfold deleteEach
    split
    · rename_i s' heq
      rw [heq]
      exact ih h.2 s'
    · rename_i failure s' heq
      rw [heq]
      exact ih h.2 s'

theorem object_perform {command : Command β}
    (h : ∀ key ∈ command.keys, requestPath parseHost key ≠ some path) (s : σ) :
    fetcher.object (perform parseHost fetcher s command) path = fetcher.object s path := by
  cases command with
  | put key payload contentType =>
    have hkey := h key List.mem_cons_self
    unfold perform put
    dsimp only
    split
    · rfl
    · exact object_send hkey s .put (some payload)
  | get key maxObjectBytes =>
    have hkey := h key List.mem_cons_self
    rw [← object_fetchFromS3 hkey s .get none]
    unfold perform get
    dsimp only
    split
    · rename_i heq
      rw [heq]
    · rename_i heq
      rw [heq]
  | delete keys isBatch =>
    have hkeys : ∀ key ∈ uniqueKeys keys, requestPath parseHost key ≠ some path := by
      intro key hmem
      rw [uniqueKeys,List.mem_reverse,List.mem_dedup,List.mem_reverse] at hmem
      exact h key hmem
    rw [← object_deleteEach hkeys s]
    unfold perform delete
    dsimp only
    split
    · rename_i heq
      rw [heq]
    · rename_i heq
      rw [heq]
      split
      · rfl
      · rfl

theorem object_run {commands : List (Command β)}
    (h : ∀ command ∈ commands, ∀ key ∈ command.keys, requestPath parseHost key ≠ some path)
    (s : σ) :
    fetcher.object (commands.foldl (perform parseHost fetcher) s) path = fetcher.object s path := by
  induction commands generalizing s with
  | nil => rfl
  | cons command commands ih =>
    rw [List.forall_mem_cons] at h
    rw [List.foldl_cons,ih h.2,object_perform h.1]

end isolation

section keys

variable {parseHost : Text → Option Text} {keys : Set Text}

/-- Keys that never meet: each has a path of its own, the parser leaves its segments as they are
sent, `decodeKey` reads the keys back, and commands on other keys leave its object alone. -/
structure Apart (parseHost : Text → Option Text) (keys : Set Text) : Prop where
  paths : ∀ key ∈ keys, ∀ key' ∈ keys, key ≠ key' →
    requestPath parseHost key ≠ requestPath parseHost key'
  segments : ∀ key ∈ keys, ∃ url, parse parseHost (objectUrl key) = some url ∧
    url.path = (key.splitOn '/').map encodePathSegment
  decoded : ∀ key ∈ keys, (requestPath parseHost key).map (decodeKey keys) = some key
  isolated : ∀ (σ β : Type) (fetcher : S3ObjectFetcher σ β) (s : σ) (commands : List (Command β)),
    ∀ key' ∈ keys, ∀ path, requestPath parseHost key' = some path →
      (∀ command ∈ commands, ∀ key ∈ command.keys, key ∈ keys ∧ key ≠ key') →
      fetcher.object (commands.foldl (perform parseHost fetcher) s) path = fetcher.object s path

/-- Keys never meet exactly where no two of them are told apart by a segment of dots and its escapes
alone. -/
theorem keys_apart_iff (hhost : (parseHost "s3.invalid".toList).isSome = true) (keys : Set Text) :
    Apart parseHost keys ↔ Set.InjOn undottedSegments keys := by
  constructor
  · intro h key hkey key' hkey' heq
    by_contra hne
    exact h.paths key hkey key' hkey' hne ((requestPath_inj hhost).mpr heq)
  · intro h
    have hpaths : ∀ key ∈ keys, ∀ key' ∈ keys, key ≠ key' →
        requestPath parseHost key ≠ requestPath parseHost key' :=
      fun key hkey key' hkey' hne heq => hne (h hkey hkey' ((requestPath_inj hhost).mp heq))
    refine ⟨hpaths,fun key _ => ?_,fun key hkey => ?_,?_⟩
    · obtain ⟨hostname,hhost⟩ := Option.isSome_iff_exists.mp hhost
      rw [parse_objectUrl,hhost]
      exact ⟨_,rfl,rfl⟩
    · rw [requestPath_eq key hhost,Option.map_some,decodeKey,decodePath_joined,
        h.leftInvOn_invFunOn hkey]
    · intro σ β fetcher s commands key' hkey' path hpath hothers
      refine object_run (fun command hcommand key hkey heq => ?_) s
      obtain ⟨hmem,hne⟩ := hothers command hcommand key hkey
      exact hpaths key hmem key' hkey' hne (heq.trans hpath.symm)

def bucket (β : Type) : S3ObjectFetcher (Text → Option β) β where
  fetch s request :=
    match request.operation with
    | .put => (some ⟨200,none,none,none,none⟩,
        Function.update s request.url.pathname request.payload)
    | .get => (some ⟨if (s request.url.pathname).isSome then 200 else 404,none,none,none,
        s request.url.pathname⟩,s)
    | .delete => (some ⟨204,none,none,none,none⟩,Function.update s request.url.pathname none)
  object s path := s path
  confined s request path h := by
    cases hoperation : request.operation with
    | get => rfl
    | put | delete => exact Function.update_of_ne (Ne.symm h) ..

/-- In a bucket the object of the one key stays what it is while the other is put and deleted. -/
theorem keys_apart_dots : Apart some {"a/../b".toList,"a//b".toList} ∧
    ∀ s, (bucket ℕ).object ([.put "a//b".toList 8 none,.delete ["a//b".toList] false].foldl
      (perform some (bucket ℕ)) s) "/a/%252E%252E/b".toList = s "/a/%252E%252E/b".toList := by
  have hapart : Apart some {"a/../b".toList,"a//b".toList} := by
    refine (keys_apart_iff rfl _).mpr ?_
    have hne : undottedSegments "a/../b".toList ≠ undottedSegments "a//b".toList := by decide
    rw [Set.injOn_pair]
    exact fun heq => absurd heq hne
  refine ⟨hapart,fun s => hapart.isolated _ _ (bucket ℕ) s _ _ (Set.mem_insert _ _) _ ?_ ?_⟩
  · have hsent : joined (sentSegments "a/../b".toList) = "/a/%252E%252E/b".toList := by decide
    rw [requestPath_eq _ rfl,hsent]
  · simp [Command.keys]

/-- The key of a dot and the key of its escape have one path. -/
theorem dot_aliases_escape : ¬ Apart some {".".toList,"%2E".toList} := by
  intro h
  have hsame : undottedSegments ".".toList = undottedSegments "%2E".toList := by decide
  exact h.paths _ (Set.mem_insert _ _) _ (Set.mem_insert_of_mem _ rfl) (by decide)
    ((requestPath_inj rfl).mpr hsame)

end keys

end Yurucommu.S3Fetch
