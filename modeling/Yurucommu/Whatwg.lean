import Mathlib

/-!
The URL parser of the WHATWG for http and https without a base; every other scheme is answered
with none. What turns the text of a host into a host is a parameter.
-/

set_option autoImplicit false

namespace Whatwg

abbrev Text := List Char

instance lawfulBEqText : LawfulBEq Text := inferInstance

instance lawfulBEqPair : LawfulBEq (Text × Text) := inferInstance

def lower (t : Text) : Text := t.map Char.toLower

def isC0ControlOrSpace (c : Char) : Bool := c.toNat ≤ 0x20

def isTabOrNewline (c : Char) : Bool := c.toNat = 0x09 || c.toNat = 0x0a || c.toNat = 0x0d

/-- A slash, for a special scheme. -/
def isSlash (c : Char) : Bool := c = '/' || c = '\\'

section encoding

def c0ControlSet (c : Char) : Bool := c.toNat < 0x20 || 0x7e < c.toNat

def querySet (c : Char) : Bool :=
  c0ControlSet c || [0x20,0x22,0x23,0x3c,0x3e].contains c.toNat

def specialQuerySet (c : Char) : Bool := querySet c || c.toNat = 0x27

def pathSet (c : Char) : Bool := querySet c || [0x3f,0x5e,0x60,0x7b,0x7d].contains c.toNat

def userinfoSet (c : Char) : Bool :=
  pathSet c || [0x2f,0x3a,0x3b,0x3d,0x40,0x5b,0x5c,0x5d,0x7c].contains c.toNat

def hexDigit (n : Nat) : Char := (Nat.digitChar n).toUpper

def percentEncodeByte (b : UInt8) : Text :=
  ['%',hexDigit (b.toNat / 16),hexDigit (b.toNat % 16)]

def percentEncode (set : Char → Bool) (c : Char) : Text :=
  if set c then (String.utf8EncodeChar c).flatMap percentEncodeByte else [c]

def encode (set : Char → Bool) (t : Text) : Text := t.flatMap (percentEncode set)

end encoding

def isSingleDot (t : Text) : Bool := [".","%2e"].any fun s => lower t = s.toList

def isDoubleDot (t : Text) : Bool :=
  ["..",".%2e","%2e.","%2e%2e"].any fun s => lower t = s.toList

/-- The path state, one segment after the other; the last one is ended by the end of the path
and not by a slash. -/
def pathState (path : List Text) : List Text → List Text
  | [] => path
  | [segment] =>
    let buffer := encode pathSet segment
    if isDoubleDot buffer then path.dropLast ++ [[]]
    else if isSingleDot buffer then path ++ [[]]
    else path ++ [buffer]
  | segment :: rest =>
    let buffer := encode pathSet segment
    pathState
      (if isDoubleDot buffer then path.dropLast
        else if isSingleDot buffer then path
        else path ++ [buffer]) rest

def pathStart (t : Text) : List Text := pathState [] ((t.drop 1).splitOnP isSlash)

def defaultPort (scheme : Text) : Nat := if scheme = "https".toList then 443 else 80

def portState (scheme buffer : Text) : Option (Option Nat) :=
  if buffer.all Char.isDigit then
    if buffer = [] then some none
    else
      let port := Nat.ofDigitChars 10 buffer 0
      if 65535 < port then none
      else some (if port = defaultPort scheme then none else some port)
  else none

def hostState (insideBrackets : Bool) : Text → Text × Text
  | [] => ([],[])
  | c :: rest =>
    if c = ':' && !insideBrackets then ([],rest)
    else
      let (host,port) := hostState
        (if c = '[' then true else if c = ']' then false else insideBrackets) rest
      (c :: host,port)

def authorityState (authority : Text) : Text × Text :=
  let behind := authority.rtakeWhile (· ≠ '@')
  (authority.take (authority.length - behind.length - 1),behind)

structure URL where
  scheme : Text
  username : Text
  password : Text
  hostname : Text
  port : Option Nat
  path : List Text
  query : Option Text
deriving DecidableEq, Repr

namespace URL

variable (url : URL)

def protocol : Text := url.scheme ++ [':']

def host : Text :=
  match url.port with
  | none => url.hostname
  | some port => url.hostname ++ ':' :: Nat.toDigits 10 port

def pathname : Text := url.path.flatMap fun segment => '/' :: segment

def search : Text :=
  match url.query with
  | none | some [] => []
  | some query => '?' :: query

end URL

def behindAuthority (rest : Text) : Text := rest.dropWhile fun c => !(isSlash c || c = '?')

def queryState (rest : Text) : Option Text :=
  match rest.dropWhile (· ≠ '?') with
  | [] => none
  | _ :: query => some (encode specialQuerySet query)

def parseAuthority (parseHost : Text → Option Text) (scheme rest : Text) : Option URL :=
  let (credentials,hostPort) := authorityState (rest.takeWhile fun c => !(isSlash c || c = '?'))
  let (host,portBuffer) := hostState false hostPort
  if host = [] then none
  else
    (parseHost host).bind fun hostname =>
      (portState scheme portBuffer).map fun port => {
        scheme,hostname,port
        username := encode userinfoSet (credentials.takeWhile (· ≠ ':'))
        password := encode userinfoSet ((credentials.dropWhile (· ≠ ':')).drop 1)
        path := pathStart ((behindAuthority rest).takeWhile (· ≠ '?'))
        query := queryState (behindAuthority rest) }

/-- The fragment is not read, for nothing here asks for it. -/
def parse (parseHost : Text → Option Text) (input : Text) : Option URL :=
  let input := (input.dropWhile isC0ControlOrSpace).rdropWhile isC0ControlOrSpace
  let input := input.filter fun c => !isTabOrNewline c
  let scheme := lower (input.takeWhile (· ≠ ':'))
  match input.dropWhile (· ≠ ':') with
  | [] => none
  | _ :: rest =>
    if scheme = "http".toList || scheme = "https".toList then
      parseAuthority parseHost scheme ((rest.dropWhile isSlash).takeWhile (· ≠ '#'))
    else none

/-- A segment that the path state leaves alone. -/
structure CleanSegment (t : Text) : Prop where
  chars : ∀ c ∈ t, pathSet c = false ∧ isSlash c = false
  notSingleDot : isSingleDot t = false
  notDoubleDot : isDoubleDot t = false

section encode

variable {set : Char → Bool} {t : Text}

theorem encode_of_clean (h : ∀ c ∈ t, set c = false) : encode set t = t := by
  induction t with
  | nil => rfl
  | cons c t ih =>
    simp only [List.forall_mem_cons] at h
    simp only [encode,List.flatMap_cons,percentEncode,h.1,Bool.false_eq_true,if_false]
    rw [← encode,ih h.2]
    rfl

theorem mem_encode {c : Char} (h : c ∈ encode set t) :
    (c ∈ t ∧ set c = false) ∨ c = '%' ∨ ∃ n < 16, c = hexDigit n := by
  obtain ⟨d,hd,hc⟩ := List.mem_flatMap.mp h
  unfold percentEncode at hc
  split at hc
  · obtain ⟨b,_,hb⟩ := List.mem_flatMap.mp hc
    have hlt := b.toNat_lt
    simp only [percentEncodeByte,List.mem_cons,List.not_mem_nil,or_false] at hb
    rcases hb with rfl | rfl | rfl
    · exact .inr (.inl rfl)
    · exact .inr (.inr ⟨b.toNat / 16,by omega,rfl⟩)
    · exact .inr (.inr ⟨b.toNat % 16,by omega,rfl⟩)
  · rename_i hset
    simp only [List.mem_singleton] at hc
    subst hc
    exact .inl ⟨hd,by simpa using hset⟩

theorem encode_avoids {p : Char → Bool} (hpercent : p '%' = false)
    (hhex : ∀ n < 16, p (hexDigit n) = false) (ht : ∀ c ∈ t, set c = false → p c = false) :
    ∀ c ∈ encode set t, p c = false := by
  intro c hc
  rcases mem_encode hc with ⟨hct,hset⟩ | rfl | ⟨n,hn,rfl⟩
  · exact ht c hct hset
  · exact hpercent
  · exact hhex n hn

theorem encode_pathSet (t : Text) : ∀ c ∈ encode pathSet t, pathSet c = false :=
  encode_avoids (by decide) (by decide) fun _ _ h => h

theorem encode_specialQuerySet (t : Text) :
    ∀ c ∈ encode specialQuerySet t, specialQuerySet c = false :=
  encode_avoids (by decide) (by decide) fun _ _ h => h

end encode

section path

variable {path segments : List Text}

theorem cleanSegment_nil : CleanSegment [] := ⟨by simp,by decide,by decide⟩

theorem cleanSegment_encode {t : Text} (ht : ∀ c ∈ t, isSlash c = false)
    (hd : isDoubleDot (encode pathSet t) = false) (hs : isSingleDot (encode pathSet t) = false) :
    CleanSegment (encode pathSet t) := by
  refine ⟨fun c hc => ⟨encode_pathSet t c hc,?_⟩,hs,hd⟩
  exact encode_avoids (by decide) (by decide) (fun c hc _ => ht c hc) c hc

theorem pathState_clean (hp : ∀ t ∈ path, CleanSegment t)
    (hs : ∀ t ∈ segments, ∀ c ∈ t, isSlash c = false) :
    ∀ t ∈ pathState path segments, CleanSegment t := by
  induction segments generalizing path with
  | nil => exact hp
  | cons t segments ih =>
    simp only [List.forall_mem_cons] at hs
    have hdrop : ∀ t ∈ path.dropLast, CleanSegment t := fun t ht =>
      hp t (List.dropLast_subset path ht)
    cases segments with
    | nil =>
      simp only [pathState]
      split
      · simpa using fun t ht => ht.elim (hdrop t) fun h => h ▸ cleanSegment_nil
      · rename_i hd
        split
        · simpa using fun t ht => ht.elim (hp t) fun h => h ▸ cleanSegment_nil
        · rename_i hs'
          have hclean := cleanSegment_encode hs.1 (by simpa using hd) (by simpa using hs')
          simpa using fun t ht => ht.elim (hp t) fun h => h ▸ hclean
    | cons t' segments =>
      simp only [pathState]
      apply ih
      · split
        · exact hdrop
        · rename_i hd
          split
          · exact hp
          · rename_i hs'
            have hclean := cleanSegment_encode hs.1 (by simpa using hd) (by simpa using hs')
            simpa using fun t ht => ht.elim (hp t) fun h => h ▸ hclean
      · exact hs.2

theorem pathState_ne_nil (h : segments ≠ []) : pathState path segments ≠ [] := by
  induction segments generalizing path with
  | nil => exact absurd rfl h
  | cons t segments ih =>
    cases segments with
    | nil =>
      simp only [pathState]
      split
      · simp
      · split <;> simp
    | cons t' segments =>
      simp only [pathState]
      exact ih (by simp)

theorem pathState_of_clean (h : ∀ t ∈ segments, CleanSegment t) :
    pathState path segments = path ++ segments := by
  induction segments generalizing path with
  | nil => simp [pathState]
  | cons t segments ih =>
    simp only [List.forall_mem_cons] at h
    have henc : encode pathSet t = t := encode_of_clean fun c hc => (h.1.chars c hc).1
    have hd := h.1.notDoubleDot
    have hs := h.1.notSingleDot
    cases segments with
    | nil => simp [pathState,henc,hd,hs]
    | cons t' segments =>
      simp only [pathState,henc,hd,hs,Bool.false_eq_true,if_false]
      rw [ih h.2,List.append_assoc,List.singleton_append]

def joined (segments : List Text) : Text := segments.flatMap fun segment => '/' :: segment

theorem splitOnP_joined (h : ∀ t ∈ segments, ∀ c ∈ t, isSlash c = false) (hne : segments ≠ []) :
    ((joined segments).drop 1).splitOnP isSlash = segments := by
  induction segments with
  | nil => exact absurd rfl hne
  | cons t segments ih =>
    simp only [List.forall_mem_cons] at h
    cases segments with
    | nil => simp [joined,List.splitOnP_eq_singleton h.1]
    | cons t' segments =>
      have hrest := ih h.2 (by simp)
      simp only [joined,List.flatMap_cons,List.cons_append,List.drop_succ_cons,
        List.drop_zero] at hrest ⊢
      rw [List.splitOnP_append_cons_of_forall_mem h.1 '/' (by decide),hrest]

theorem splitOnP_avoids {p : Char → Bool} (t : Text) :
    ∀ part ∈ t.splitOnP p, ∀ c ∈ part, p c = false := by
  induction t with
  | nil => simp
  | cons c t ih =>
    rw [List.splitOnP_cons_eq_if_modifyHead]
    split
    · simpa using ih
    · rename_i hc
      obtain ⟨part,parts,heq⟩ := List.exists_cons_of_ne_nil (List.splitOnP_ne_nil p t)
      rw [heq] at ih ⊢
      simp only [List.modifyHead_cons,List.forall_mem_cons] at ih ⊢
      exact ⟨⟨by simpa using hc,ih.1⟩,ih.2⟩

theorem pathStart_clean (t : Text) : ∀ segment ∈ pathStart t, CleanSegment segment :=
  pathState_clean (by simp) (splitOnP_avoids _)

theorem pathStart_ne_nil (t : Text) : pathStart t ≠ [] := pathState_ne_nil (List.splitOnP_ne_nil _ _)

theorem pathStart_joined (h : ∀ t ∈ segments, CleanSegment t) (hne : segments ≠ []) :
    pathStart (joined segments) = segments := by
  rw [pathStart,splitOnP_joined (fun t ht c hc => ((h t ht).chars c hc).2) hne,
    pathState_of_clean h,List.nil_append]

end path

section parse

variable {parseHost : Text → Option Text} {input : Text} {url : URL}

/-- What every URL is that the parser answers with. -/
structure URL.Valid (parseHost : Text → Option Text) (url : URL) : Prop where
  scheme : url.scheme = "http".toList ∨ url.scheme = "https".toList
  hostname : ∃ t, parseHost t = some url.hostname
  port : ∀ n, url.port = some n → n ≤ 65535 ∧ n ≠ defaultPort url.scheme
  nonempty : url.path ≠ []
  path : ∀ t ∈ url.path, CleanSegment t
  query : ∀ q, url.query = some q → ∀ c ∈ q, specialQuerySet c = false

theorem portState_some {scheme buffer : Text} {port : Option Nat}
    (h : portState scheme buffer = some port) :
    ∀ n, port = some n → n ≤ 65535 ∧ n ≠ defaultPort scheme := by
  rintro n rfl
  unfold portState at h
  split at h
  · split at h
    · cases h
    · simp only at h
      split at h
      · cases h
      · rename_i hle
        simp only [Option.some.injEq,Option.ite_none_left_eq_some] at h
        obtain ⟨hne,rfl⟩ := h
        exact ⟨by omega,hne⟩
  · cases h

theorem queryState_some {rest q : Text} (h : queryState rest = some q) :
    ∀ c ∈ q, specialQuerySet c = false := by
  unfold queryState at h
  split at h
  · cases h
  · cases h
    exact encode_specialQuerySet _

theorem parse_valid (h : parse parseHost input = some url) : url.Valid parseHost := by
  unfold parse at h
  simp only at h
  split at h
  · cases h
  · split at h
    · rename_i hs
      unfold parseAuthority at h
      simp only at h
      split at h
      · cases h
      · obtain ⟨hostname,hh,h⟩ := Option.bind_eq_some_iff.mp h
        obtain ⟨port,hp,rfl⟩ := Option.map_eq_some_iff.mp h
        constructor
        case scheme => simpa using hs
        case hostname => exact ⟨_,hh⟩
        case port => exact portState_some hp
        case nonempty => exact pathStart_ne_nil _
        case path => exact pathStart_clean _
        case query => exact fun q hq => queryState_some hq
    · cases h

end parse

section written

variable {parseHost : Text → Option Text} {scheme authority rest fragment : Text}

theorem rdropWhile_append_cons {p : Char → Bool} {c : Char} (hc : p c = false) (x y : Text) :
    (x ++ c :: y).rdropWhile p = x ++ c :: y.rdropWhile p := by
  induction y using List.reverseRecOn with
  | nil =>
    rw [List.rdropWhile_concat_neg p x c (by simp [hc])]
    simp
  | append_singleton y d ih =>
    rw [show x ++ c :: (y ++ [d]) = x ++ c :: y ++ [d] by simp]
    cases hd : p d with
    | true => rw [List.rdropWhile_concat_pos p _ d hd,List.rdropWhile_concat_pos p _ d hd,ih]
    | false =>
      rw [List.rdropWhile_concat_neg p _ d (by simp [hd]),
        List.rdropWhile_concat_neg p _ d (by simp [hd])]
      simp

theorem rdropWhile_of_avoids {p : Char → Bool} {t : Text} (h : ∀ c ∈ t, p c = false) :
    t.rdropWhile p = t := by
  rw [List.rdropWhile_eq_self_iff]
  intro hne
  simp [h _ (List.getLast_mem hne)]

theorem rdropWhile_fragment {p : Char → Bool} (hp : p '#' = false) {body : Text}
    (hb : ∀ c ∈ body, p c = false) (hf : fragment = [] ∨ ∃ f, fragment = '#' :: f) :
    ∃ fragment', (fragment' = [] ∨ ∃ f, fragment' = '#' :: f) ∧
      (body ++ fragment).rdropWhile p = body ++ fragment' := by
  rcases hf with rfl | ⟨f,rfl⟩
  · exact ⟨[],.inl rfl,by simpa using rdropWhile_of_avoids hb⟩
  · exact ⟨_,.inr ⟨_,rfl⟩,rdropWhile_append_cons hp body f⟩

theorem filter_fragment {p : Char → Bool} (hp : p '#' = true) {body : Text}
    (hb : ∀ c ∈ body, p c = true) (hf : fragment = [] ∨ ∃ f, fragment = '#' :: f) :
    ∃ fragment', (fragment' = [] ∨ ∃ f, fragment' = '#' :: f) ∧
      (body ++ fragment).filter p = body ++ fragment' := by
  have hbody : body.filter p = body := List.filter_eq_self.mpr hb
  rcases hf with rfl | ⟨f,rfl⟩
  · exact ⟨[],.inl rfl,by simpa using hbody⟩
  · exact ⟨'#' :: f.filter p,.inr ⟨_,rfl⟩,by simp [hbody,hp]⟩

theorem lt_of_isAlpha {c : Char} (h : c.isAlpha = true) : 0x40 < c.toNat := by
  simp only [Char.isAlpha,Char.isUpper,Char.isLower,Bool.or_eq_true,Bool.and_eq_true,
    decide_eq_true_eq,ge_iff_le,UInt32.le_iff_toNat_le] at h
  have htoNat : c.toNat = c.val.toNat := rfl
  have hA : 'A'.val.toNat = 65 := rfl
  have ha : 'a'.val.toNat = 97 := rfl
  omega

theorem ne_of_isAlpha {c : Char} (h : c.isAlpha = true) :
    isC0ControlOrSpace c = false ∧ c ≠ ':' ∧ c ≠ '/' := by
  have hlt := lt_of_isAlpha h
  refine ⟨?_,?_,?_⟩
  · simp only [isC0ControlOrSpace,decide_eq_false_iff_not]
    omega
  · rintro rfl
    exact absurd h (by decide)
  · rintro rfl
    exact absurd h (by decide)

theorem isAlpha_scheme (h : lower scheme = "http".toList ∨ lower scheme = "https".toList) :
    ∀ c ∈ scheme, c.isAlpha = true := by
  have hall : ∀ c ∈ lower scheme, c.isAlpha = true := by
    rcases h with h | h
    · simp [h]
    · simp [h]
  intro c hc
  rw [← Char.isAlpha_toLower_eq_isAlpha]
  exact hall _ (List.mem_map_of_mem hc)

/-- The scheme, the slashes, an authority, what follows it up to the fragment, and a fragment. -/
theorem parse_written (hs : lower scheme = "http".toList ∨ lower scheme = "https".toList)
    (ha : authority ≠ [])
    (hac : ∀ c ∈ authority, 0x20 < c.toNat ∧ isSlash c = false ∧ c ≠ '#')
    (hrc : ∀ c ∈ rest, 0x20 < c.toNat ∧ c ≠ '#')
    (hf : fragment = [] ∨ ∃ f, fragment = '#' :: f) :
    parse parseHost (scheme ++ "://".toList ++ authority ++ rest ++ fragment) =
      parseAuthority parseHost (lower scheme) (authority ++ rest) := by
  have halpha := isAlpha_scheme hs
  have hbody : ∀ c ∈ scheme ++ "://".toList ++ authority ++ rest, 0x20 < c.toNat := by
    intro c hc
    simp only [List.mem_append] at hc
    rcases hc with ((hc | hc) | hc) | hc
    · have := lt_of_isAlpha (halpha c hc)
      omega
    · revert c
      simp
    · exact (hac c hc).1
    · exact (hrc c hc).1
  have hne : scheme ≠ [] := by
    rintro rfl
    rcases hs with hs | hs <;> cases hs
  obtain ⟨fragment₁,hf₁,htrim⟩ := rdropWhile_fragment (p := isC0ControlOrSpace) (by decide)
    (fun c hc => by simpa [isC0ControlOrSpace] using hbody c hc) hf
  obtain ⟨fragment₂,hf₂,hfilter⟩ := filter_fragment (p := fun c => !isTabOrNewline c) (by decide)
    (fun c hc => by have := hbody c hc; simp [isTabOrNewline]; omega) hf₁
  have hdrop : (scheme ++ "://".toList ++ authority ++ rest ++ fragment).dropWhile
      isC0ControlOrSpace = scheme ++ "://".toList ++ authority ++ rest ++ fragment := by
    obtain ⟨c,scheme,rfl⟩ := List.exists_cons_of_ne_nil hne
    have hc := (ne_of_isAlpha (halpha c List.mem_cons_self)).1
    simp [hc]
  have hcolon : ∀ c ∈ scheme, decide (c ≠ ':') = true := fun c hc =>
    decide_eq_true (ne_of_isAlpha (halpha c hc)).2.1
  have hnotHash : ∀ c ∈ authority ++ rest, decide (c ≠ '#') = true := by
    intro c hc
    rcases List.mem_append.mp hc with hc | hc
    · exact decide_eq_true (hac c hc).2.2
    · exact decide_eq_true (hrc c hc).2
  have hslashes : ('/' :: '/' :: (authority ++ (rest ++ fragment₂))).dropWhile isSlash =
      authority ++ (rest ++ fragment₂) := by
    obtain ⟨c,authority,rfl⟩ := List.exists_cons_of_ne_nil ha
    have hc := (hac c List.mem_cons_self).2.1
    have hslash : isSlash '/' = true := by decide
    simp [hc,hslash]
  have hfragment : (authority ++ (rest ++ fragment₂)).takeWhile (· ≠ '#') = authority ++ rest := by
    rw [← List.append_assoc,List.takeWhile_append_of_pos hnotHash]
    rcases hf₂ with rfl | ⟨f,rfl⟩ <;> simp
  rw [parse,hdrop,htrim,hfilter]
  simp only [String.reduceToList,List.append_assoc,List.cons_append,List.nil_append]
  rw [List.takeWhile_append_of_pos hcolon,List.dropWhile_append_of_pos hcolon]
  simp only [ne_eq,not_true_eq_false,decide_false,Bool.false_eq_true,not_false_eq_true,
    List.takeWhile_cons_of_neg,List.dropWhile_cons_of_neg,List.append_nil]
  rw [if_pos (by simpa using hs),hslashes]
  simpa using congrArg (parseAuthority parseHost (lower scheme)) hfragment

def StartsPath (rest : Text) : Prop := rest = [] ∨ ∃ r, rest = '/' :: r ∨ rest = '?' :: r

theorem authorityState_plain (h : ∀ c ∈ authority, c ≠ '@') :
    authorityState authority = ([],authority) := by
  have hbehind : authority.rtakeWhile (fun c => decide (c ≠ '@')) = authority :=
    List.rtakeWhile_eq_self_iff.mpr fun c hc => decide_eq_true (h c hc)
  simp only [authorityState,hbehind,Nat.sub_self,Nat.zero_sub,List.take_zero]

theorem parseAuthority_written (scheme : Text)
    (hac : ∀ c ∈ authority, isSlash c = false ∧ c ≠ '?' ∧ c ≠ '@') (hr : StartsPath rest) :
    parseAuthority parseHost scheme (authority ++ rest) =
      if (hostState false authority).1 = [] then none
      else
        (parseHost (hostState false authority).1).bind fun hostname =>
          (portState scheme (hostState false authority).2).map fun port => {
            scheme,hostname,port,username := [],password := []
            path := pathStart (rest.takeWhile (· ≠ '?')),query := queryState rest } := by
  have hall : ∀ c ∈ authority, (!(isSlash c || decide (c = '?'))) = true := by
    intro c hc
    obtain ⟨hs,hq,_⟩ := hac c hc
    simp [hs,hq]
  have htake : (authority ++ rest).takeWhile (fun c => !(isSlash c || decide (c = '?'))) =
      authority := by
    rw [List.takeWhile_append_of_pos hall]
    rcases hr with rfl | ⟨r,rfl | rfl⟩ <;> simp [isSlash]
  have hdrop : behindAuthority (authority ++ rest) = rest := by
    rw [behindAuthority,List.dropWhile_append_of_pos hall]
    rcases hr with rfl | ⟨r,rfl | rfl⟩ <;> simp [isSlash]
  rw [parseAuthority,htake,hdrop,authorityState_plain fun c hc => (hac c hc).2.2]
  rfl

theorem hostState_written (h : ∀ c ∈ authority, c ≠ '[') :
    hostState false authority =
      (authority.takeWhile (· ≠ ':'),(authority.dropWhile (· ≠ ':')).drop 1) := by
  induction authority with
  | nil => rfl
  | cons c authority ih =>
    simp only [List.forall_mem_cons] at h
    by_cases hc : c = ':'
    · simp [hostState,hc]
    · have hrest := ih h.2
      simp [hostState,hc,h.1,hrest]

end written

end Whatwg
