import Yurucommu.ActorIdentity

/-!
The ids that JavaScript and SQL read alike: those written as the URL parser writes them, up to
the case of scheme and host, a default port, a fragment and one slash at the end.
-/

set_option autoImplicit false

namespace Yurucommu.ActorIdentity

open Whatwg (Text URL lower isSlash CleanSegment joined specialQuerySet StartsPath)
open Sqlite (instr substr substrFrom)

section dropSlash

theorem dropSlash_append (x : Text) {y : Text} (h : y ≠ []) :
    dropSlash (x ++ y) = x ++ dropSlash y := by
  obtain ⟨z,c,rfl⟩ := y.eq_nil_or_concat.resolve_left h
  unfold dropSlash
  rw [List.concat_eq_append,← List.append_assoc]
  simp only [List.getLast?_concat,List.dropLast_concat]
  split <;> simp

theorem dropSlash_of_avoids {x : Text} (h : '/' ∉ x) : dropSlash x = x := by
  unfold dropSlash
  rw [if_neg]
  intro hlast
  exact h (List.mem_of_getLast? hlast)

theorem dropSlash_cases (x : Text) : x = dropSlash x ∨ x = dropSlash x ++ ['/'] := by
  unfold dropSlash
  split
  · rename_i hlast
    right
    rw [List.dropLast_append_getLast? _ hlast]
  · exact .inl rfl

end dropSlash

namespace Sql

theorem clean_eq (t : Text) : clean t = dropSlash t := Sqlite.substr_dropLast t '/'

theorem fragmentless_of_avoids {t : Text} (h : '#' ∉ t) : fragmentless t = t := by
  simp [fragmentless,Sqlite.instr_char_none t '#' h]

theorem fragmentless_append {t : Text} (h : '#' ∉ t) (f : Text) :
    fragmentless (t ++ '#' :: f) = t := by
  have hinstr := Sqlite.instr_char f h
  have hlen : ((t.length + 1 : Nat) : Int) - 1 = (t.length : Int) := by omega
  simp only [fragmentless,hinstr,Nat.succ_pos,if_true,hlen,Sqlite.substr_take]
  simp

theorem fragmentless_written {body fragment : Text} (h : '#' ∉ body)
    (hf : fragment = [] ∨ ∃ f, fragment = '#' :: f) : fragmentless (body ++ fragment) = body := by
  rcases hf with rfl | ⟨f,rfl⟩
  · rw [List.append_nil]
    exact fragmentless_of_avoids h
  · exact fragmentless_append h f

section authority

variable {scheme authority rest : Text}

theorem boundary_written (h : ∀ c ∈ authority, c ≠ '/' ∧ c ≠ '?') (hr : StartsPath rest) :
    boundary (authority ++ rest) = if rest = [] then 0 else authority.length + 1 := by
  have hslash : '/' ∉ authority := fun hc => (h _ hc).1 rfl
  have hquestion : '?' ∉ authority := fun hc => (h _ hc).2 rfl
  unfold boundary
  rw [Sqlite.instr_char_append authority hslash,Sqlite.instr_char_append authority hquestion]
  rcases hr with rfl | ⟨r,rfl | rfl⟩
  · simp [instr]
  · simp only [instr]
    simp
    grind
  · simp only [instr]
    simp
    grind

theorem authority_written (h : ∀ c ∈ authority, c ≠ '/' ∧ c ≠ '?') (hr : StartsPath rest) :
    Sql.authority (authority ++ rest) = authority := by
  rw [Sql.authority,boundary_written h hr]
  by_cases hne : rest = []
  · simp [hne]
  · simp [hne]

def slashed (rest : Text) : Text := if rest.head? = some '?' then '/' :: rest else rest

theorem pathQuery_written (h : ∀ c ∈ authority, c ≠ '/' ∧ c ≠ '?') (hr : StartsPath rest) :
    pathQuery (authority ++ rest) = slashed rest := by
  rw [pathQuery,boundary_written h hr]
  have hfrom : substrFrom (authority ++ rest) ((authority.length : Int) + 1) = rest := by
    rw [Sqlite.substrFrom_succ,List.drop_left]
  have hfirst : substr (authority ++ rest) ((authority.length : Int) + 1) 1 = rest.take 1 := by
    rw [Sqlite.substr_one,List.drop_left]
  rcases hr with rfl | ⟨r,rfl | rfl⟩
  · simp [slashed]
  · simp [slashed,hfrom,hfirst]
  · simp [slashed,hfrom,hfirst]

theorem startsPath_cons {c : Char} {r : Text} :
    StartsPath (c :: r) ↔ c = '/' ∨ c = '?' := by
  simp only [StartsPath,List.cons.injEq]
  constructor
  · rintro (h | ⟨_,h | h⟩)
    · cases h
    · exact .inl h.1
    · exact .inr h.1
  · rintro (rfl | rfl)
    · exact .inr ⟨r,.inl ⟨rfl,rfl⟩⟩
    · exact .inr ⟨r,.inr ⟨rfl,rfl⟩⟩

theorem startsPath_dropSlash (hr : StartsPath rest) : StartsPath (dropSlash rest) := by
  have hcases := dropSlash_cases rest
  cases hd : dropSlash rest with
  | nil => exact .inl rfl
  | cons c r =>
    rw [hd,List.cons_append] at hcases
    rcases hcases with h | h
    · rw [h] at hr
      exact hr
    · rw [h] at hr
      exact startsPath_cons.mpr (startsPath_cons.mp hr)

variable {fragment : Text}

theorem clean_fragmentless (scheme : Text) (hs : ∀ c ∈ scheme, c ≠ '#') (ha : authority ≠ [])
    (hac : ∀ c ∈ authority, c ≠ '/' ∧ c ≠ '#') (hrc : '#' ∉ rest)
    (hf : fragment = [] ∨ ∃ f, fragment = '#' :: f) :
    clean (fragmentless (scheme ++ "://".toList ++ authority ++ rest ++ fragment)) =
      scheme ++ "://".toList ++ authority ++ dropSlash rest := by
  have hbody : '#' ∉ scheme ++ "://".toList ++ authority ++ rest := by
    simp only [List.mem_append,not_or]
    exact ⟨⟨⟨fun hc => hs _ hc rfl,by simp⟩,fun hc => (hac _ hc).2 rfl⟩,hrc⟩
  rw [fragmentless_written hbody hf,clean_eq]
  by_cases hr : rest = []
  · subst hr
    rw [List.append_nil,dropSlash_append _ ha,dropSlash_of_avoids fun hc => (hac _ hc).1 rfl]
    exact (List.append_nil _).symm
  · exact dropSlash_append _ hr

theorem normalized_written (hs : lower scheme = "http".toList ∨ lower scheme = "https".toList)
    (ha : authority ≠ [])
    (hac : ∀ c ∈ authority, c ≠ '/' ∧ c ≠ '?' ∧ c ≠ '#' ∧ c ≠ '@')
    (hr : StartsPath rest) (hrc : '#' ∉ rest) (hf : fragment = [] ∨ ∃ f, fragment = '#' :: f) :
    normalized (scheme ++ "://".toList ++ authority ++ rest ++ fragment) =
      if normalizedAuthority (lower scheme) authority = [] then none
      else some (lower scheme ++ "://".toList ++ normalizedAuthority (lower scheme) authority ++
        slashed (dropSlash rest)) := by
  have halpha := Whatwg.isAlpha_scheme hs
  have hhash : ∀ c ∈ scheme, c ≠ '#' := by
    rintro c hc rfl
    exact absurd (halpha _ hc) (by decide)
  have hclean := clean_fragmentless scheme hhash ha
    (fun c hc => ⟨(hac c hc).1,(hac c hc).2.2.1⟩) hrc hf
  generalize htext : scheme ++ "://".toList ++ authority ++ dropSlash rest = text at hclean
  have hcolon : ':' ∉ scheme := fun hc => (Whatwg.ne_of_isAlpha (halpha _ hc)).2.1 rfl
  have hseparator : separator text = scheme.length + 1 := by
    have h := Sqlite.instr_append "//".toList (authority ++ dropSlash rest) hcolon
    rw [separator,← htext]
    simpa using h
  have htail : tail text = authority ++ dropSlash rest := by
    have hlen : ((scheme.length + 1 : Nat) : Int) + 3 = ((scheme.length + 3 : Nat) : Int) + 1 := by
      omega
    rw [tail,← separator,hseparator,hlen,Sqlite.substrFrom_succ,← htext]
    simp
  have hscheme : Sql.scheme text = lower scheme := by
    have hlen : ((scheme.length + 1 : Nat) : Int) - 1 = (scheme.length : Int) := by omega
    rw [Sql.scheme,hseparator,hlen,Sqlite.substr_take,← htext]
    simp [Sqlite.lower,lower]
  have hpath := startsPath_dropSlash hr
  have hauth : ∀ c ∈ authority, c ≠ '/' ∧ c ≠ '?' := fun c hc => ⟨(hac c hc).1,(hac c hc).2.1⟩
  have hat : instr authority ['@'] = 0 :=
    Sqlite.instr_char_none _ _ fun hc => (hac _ hc).2.2.2 rfl
  have hne : 1 < scheme.length + 1 := by
    cases scheme with
    | nil => rcases hs with hs | hs <;> cases hs
    | cons c scheme => simp
  simp only [normalized,hclean,htail,hscheme,hseparator,authority_written hauth hpath,
    pathQuery_written hauth hpath,hat,hne]
  have hs' : (decide (lower scheme = "http".toList) || decide (lower scheme = "https".toList)) =
      true := by
    rw [Bool.or_eq_true,decide_eq_true_eq,decide_eq_true_eq]
    exact hs
  simp only [hs',decide_true,Bool.true_and,Bool.and_true,List.length_pos_iff]
  by_cases h : normalizedAuthority (lower scheme) authority = []
  · simp [h]
  · simp [h]

theorem exists_authority (t : Text) : ∃ authority rest, t = authority ++ rest ∧
    (∀ c ∈ authority, c ≠ '/' ∧ c ≠ '?') ∧ StartsPath rest := by
  induction t with
  | nil => exact ⟨[],[],rfl,by simp,.inl rfl⟩
  | cons c t ih =>
    by_cases hc : c = '/' ∨ c = '?'
    · exact ⟨[],c :: t,rfl,by simp,startsPath_cons.mpr hc⟩
    · obtain ⟨authority,rest,rfl,hauth,hrest⟩ := ih
      refine ⟨c :: authority,rest,rfl,?_,hrest⟩
      rw [List.forall_mem_cons]
      exact ⟨not_or.mp hc,hauth⟩

theorem exists_fragment (t : Text) : ∃ body fragment, t = body ++ fragment ∧ '#' ∉ body ∧
    (fragment = [] ∨ ∃ f, fragment = '#' :: f) := by
  by_cases hc : '#' ∈ t
  · obtain ⟨before,after,rfl,hb⟩ := List.eq_append_cons_of_mem hc
    exact ⟨before,_,rfl,hb,.inr ⟨after,rfl⟩⟩
  · exact ⟨t,[],(List.append_nil _).symm,hc,.inl rfl⟩

theorem startsPath_append_slash (hr : StartsPath rest) : StartsPath (rest ++ ['/']) := by
  cases rest with
  | nil => exact startsPath_cons.mpr (.inl rfl)
  | cons c r => exact startsPath_cons.mpr (startsPath_cons.mp hr)

theorem normalized_some {actorId value : Text} (h : normalized actorId = some value) :
    ∃ scheme authority rest fragment,
      actorId = scheme ++ "://".toList ++ authority ++ rest ++ fragment ∧
      (lower scheme = "http".toList ∨ lower scheme = "https".toList) ∧ authority ≠ [] ∧
      (∀ c ∈ authority, c ≠ '/' ∧ c ≠ '?' ∧ c ≠ '#' ∧ c ≠ '@') ∧
      StartsPath rest ∧ '#' ∉ rest ∧ (fragment = [] ∨ ∃ f, fragment = '#' :: f) := by
  obtain ⟨body,fragment,rfl,hbody,hf⟩ := exists_fragment actorId
  simp only [normalized,fragmentless_written hbody hf,clean_eq,Option.ite_none_right_eq_some,
    Bool.and_eq_true,decide_eq_true_eq,Bool.or_eq_true] at h
  have hcases := dropSlash_cases body
  generalize dropSlash body = cleaned at h hcases
  obtain ⟨⟨⟨⟨hat,hsep⟩,hs⟩,hlen⟩,_⟩ := h
  obtain ⟨n,hn⟩ : ∃ n, separator cleaned = n + 1 := ⟨separator cleaned - 1,by omega⟩
  have hsplit := Sqlite.instr_split cleaned hn
  have htail : tail cleaned = cleaned.drop (n + 3) := by
    have hlen : ((n + 1 : Nat) : Int) + 3 = ((n + 3 : Nat) : Int) + 1 := by omega
    rw [tail,← separator,hn,hlen,Sqlite.substrFrom_succ]
  have hscheme : Sql.scheme cleaned = lower (cleaned.take n) := by
    have hlen : ((n + 1 : Nat) : Int) - 1 = (n : Int) := by omega
    rw [Sql.scheme,hn,hlen,Sqlite.substr_take]
    rfl
  obtain ⟨authority,rest,hauthority,hauth,hrest⟩ := exists_authority (tail cleaned)
  rw [hauthority,authority_written hauth hrest] at hat hlen
  rw [hscheme] at hs hlen
  have hcleaned : cleaned = cleaned.take n ++ "://".toList ++ authority ++ rest := by
    rw [List.append_assoc _ authority,← hauthority,htail]
    exact hsplit
  have hne : authority ≠ [] := by
    rintro rfl
    revert hlen
    simp [normalizedAuthority,Sqlite.lower,substrFrom]
  have hat' : '@' ∉ authority := Sqlite.not_mem_of_instr _ hat
  generalize cleaned.take n = scheme at hs hcleaned
  subst hcleaned
  rcases hcases with rfl | rfl
  · simp only [List.mem_append,not_or] at hbody
    refine ⟨scheme,authority,rest,fragment,rfl,hs,hne,?_,hrest,hbody.2,hf⟩
    intro c hc
    refine ⟨(hauth c hc).1,(hauth c hc).2,?_,?_⟩
    · rintro rfl
      exact hbody.1.2 hc
    · rintro rfl
      exact hat' hc
  · simp only [List.mem_append,not_or] at hbody
    refine ⟨scheme,authority,rest ++ ['/'],fragment,by simp,hs,hne,?_,
      startsPath_append_slash hrest,by simpa using hbody.1.2,hf⟩
    intro c hc
    refine ⟨(hauth c hc).1,(hauth c hc).2,?_,?_⟩
    · rintro rfl
      exact hbody.1.1.2 hc
    · rintro rfl
      exact hat' hc

end authority

end Sql

section lists

variable {c : Char} {x y z w : Text}

theorem append_cons_inj_last (hy : c ∉ y) (hw : c ∉ w) (h : x ++ c :: y = z ++ c :: w) :
    x = z ∧ y = w := by
  rcases List.append_eq_append_iff.mp h with ⟨v,rfl,hv⟩ | ⟨v,rfl,hv⟩
  · cases v with
    | nil => simpa using hv
    | cons d v =>
      simp only [List.cons_append,List.cons.injEq] at hv
      exact absurd (by rw [hv.2]; simp) hy
  · cases v with
    | nil => simpa [eq_comm] using hv
    | cons d v =>
      simp only [List.cons_append,List.cons.injEq] at hv
      exact absurd (by rw [hv.2]; simp) hw

theorem append_inj_at {p : Char → Bool} (hx : ∀ d ∈ x, p d = false) (hz : ∀ d ∈ z, p d = false)
    (hy : ∀ d ∈ y.head?, p d = true) (hw : ∀ d ∈ w.head?, p d = true) (h : x ++ y = z ++ w) :
    x = z ∧ y = w := by
  rcases List.append_eq_append_iff.mp h with ⟨v,rfl,rfl⟩ | ⟨v,rfl,rfl⟩
  · cases v with
    | nil => simp
    | cons d v =>
      have htrue := hy d rfl
      rw [hz d (by simp)] at htrue
      cases htrue
  · cases v with
    | nil => simp
    | cons d v =>
      have htrue := hw d rfl
      rw [hx d (by simp)] at htrue
      cases htrue

theorem append_inj_first (hx : c ∉ x) (hz : c ∉ z) (hy : y = [] ∨ ∃ v, y = c :: v)
    (hw : w = [] ∨ ∃ v, w = c :: v) (h : x ++ y = z ++ w) : x = z ∧ y = w := by
  have hhead : ∀ t : Text, t = [] ∨ (∃ v, t = c :: v) → ∀ d ∈ t.head?, decide (d = c) = true := by
    rintro t (rfl | ⟨v,rfl⟩) <;> simp
  refine append_inj_at (p := fun d => decide (d = c)) ?_ ?_ (hhead y hy) (hhead w hw) h
  · exact fun d hd => decide_eq_false fun heq => hx (heq ▸ hd)
  · exact fun d hd => decide_eq_false fun heq => hz (heq ▸ hd)

end lists

section chars

variable {c : Char}

theorem lt_of_isAlphanum (h : c.isAlphanum = true) : 0x20 < c.toNat := by
  simp only [Char.isAlphanum,Char.isDigit,Bool.or_eq_true,Bool.and_eq_true,decide_eq_true_eq,
    ge_iff_le,UInt32.le_iff_toNat_le] at h
  rcases h with h | h
  · have := Whatwg.lt_of_isAlpha h
    omega
  · have htoNat : c.toNat = c.val.toNat := rfl
    have h0 : '0'.val.toNat = 48 := rfl
    omega

theorem isHostnameChar_cases (h : isHostnameChar c = true) :
    0x20 < c.toNat ∧ isSlash c = false ∧ c ∉ ":?#@[".toList := by
  refine ⟨?_,?_,?_⟩
  · simp only [isHostnameChar,Bool.or_eq_true,decide_eq_true_eq] at h
    rcases h with (h | rfl) | rfl
    · exact lt_of_isAlphanum h
    · decide
    · decide
  · by_contra hs
    simp only [isSlash,Bool.not_eq_false,Bool.or_eq_true,decide_eq_true_eq] at hs
    rcases hs with rfl | rfl <;> exact absurd h (by decide)
  · intro hs
    simp only [String.reduceToList,List.mem_cons,List.not_mem_nil,or_false] at hs
    rcases hs with rfl | rfl | rfl | rfl | rfl <;> exact absurd h (by decide)

theorem authorityChar_cases (h : isHostnameChar c = true ∨ c = ':') :
    0x20 < c.toNat ∧ isSlash c = false ∧ c ≠ '/' ∧ c ≠ '?' ∧ c ≠ '#' ∧ c ≠ '@' ∧ c ≠ '[' := by
  rcases h with h | rfl
  · have hcases := isHostnameChar_cases h
    refine ⟨hcases.1,hcases.2.1,?_⟩
    simp only [String.reduceToList,List.mem_cons,List.not_mem_nil,or_false,not_or,
      isSlash,Bool.or_eq_false_iff,decide_eq_false_iff_not] at hcases
    tauto
  · decide

theorem isDigit_cases (h : c.isDigit = true) : isHostnameChar c = true ∧ c.toLower = c := by
  refine ⟨?_,?_⟩
  · simp [isHostnameChar,Char.isAlphanum,h]
  · refine Char.toLower_eq_of_not_isUpper ?_
    simp only [Char.isDigit,Char.isUpper,Bool.and_eq_true,decide_eq_true_eq,ge_iff_le,
      UInt32.le_iff_toNat_le] at h ⊢
    have h9 : '9'.val.toNat = 57 := rfl
    have hA : 'A'.val.toNat = 65 := rfl
    omega

theorem toLower_eq_of_not_isLower {d : Char} (h : c.toLower = d) (hd : d.isLower = false) :
    c = d := by
  by_cases hu : c.isUpper = true
  · have halpha : d.isLower = true := by
      rw [← h,Char.isLower_toLower_eq_isAlpha]
      simp [Char.isAlpha,hu]
    rw [hd] at halpha
    cases halpha
  · rwa [Char.toLower_eq_of_not_isUpper hu] at h

theorem isHostnameChar_toLower (h : isHostnameChar c.toLower = true) :
    isHostnameChar c = true := by
  by_cases hu : c.isUpper = true
  · simp [isHostnameChar,Char.isAlphanum,Char.isAlpha,hu]
  · rwa [Char.toLower_eq_of_not_isUpper hu] at h

end chars

theorem lower_of_isDigit {t : Text} (h : ∀ c ∈ t, c.isDigit = true) : lower t = t := by
  induction t with
  | nil => rfl
  | cons c t ih =>
    simp only [List.forall_mem_cons] at h
    simp only [lower,List.map_cons,(isDigit_cases h.1).2]
    rw [← lower,ih h.2]

theorem isDigit_toDigits (n : Nat) : ∀ c ∈ Nat.toDigits 10 n, c.isDigit = true :=
  fun _ hc => Nat.isDigit_of_mem_toDigits (by decide) (by decide) hc

theorem not_mem_of_isDigit {t : Text} (h : ∀ c ∈ t, c.isDigit = true) : ':' ∉ t :=
  fun hc => absurd (h _ hc) (by decide)

theorem not_mem_of_isHostnameChar {t : Text} (h : ∀ c ∈ t, isHostnameChar c = true) : ':' ∉ t :=
  fun hc => absurd (h _ hc) (by decide)

theorem toDigits_inj {m n : Nat} (h : Nat.toDigits 10 m = Nat.toDigits 10 n) : m = n := by
  have hm := Nat.ofDigitChars_ten_toDigits (n := m)
  rw [h,Nat.ofDigitChars_ten_toDigits] at hm
  exact hm.symm

def portText : Option Nat → Text
  | none => []
  | some n => ':' :: Nat.toDigits 10 n

def queryText : Option Text → Text
  | none => []
  | some q => '?' :: q

def fragmentText : Option Text → Text
  | none => []
  | some f => '#' :: f

/-- An id written as the URL parser writes it, but for the case of scheme and host, a default
port, a fragment and a path left out. -/
structure Spelling (P : Platform) where
  scheme : Text
  host : Text
  port : Option Nat
  path : List Text
  query : Option Text
  fragment : Option Text
  schemeWeb : lower scheme = "http".toList ∨ lower scheme = "https".toList
  hostParsed : P.parseHost host = some (lower host)
  hostChars : host ≠ [] ∧ ∀ c ∈ host, isHostnameChar c = true
  portRange : ∀ n, port = some n → n ≤ 65535
  pathClean : ∀ segment ∈ path, CleanSegment segment
  queryClean : ∀ q, query = some q → q ≠ [] ∧ ∀ c ∈ q, specialQuerySet c = false

namespace Spelling

variable {P : Platform} (s : Spelling P)

def authority : Text := s.host ++ portText s.port

def rest : Text := joined s.path ++ queryText s.query

def text : Text :=
  s.scheme ++ "://".toList ++ s.authority ++ s.rest ++ fragmentText s.fragment

def foldedPort : Option Nat :=
  if s.port = some (Whatwg.defaultPort (lower s.scheme)) then none else s.port

/-- Scheme and host in small letters, no default port, no fragment. -/
def folded : Text :=
  lower s.scheme ++ "://".toList ++ (lower s.host ++ portText s.foldedPort) ++ Sql.slashed s.rest

def normal : Text :=
  lower s.scheme ++ "://".toList ++ (lower s.host ++ portText s.foldedPort) ++
    Sql.slashed (dropSlash s.rest)

theorem portText_chars (port : Option Nat) : ∀ c ∈ portText port, c = ':' ∨ c.isDigit = true := by
  cases port with
  | none => simp [portText]
  | some n =>
    intro c hc
    rcases List.mem_cons.mp hc with rfl | hc
    · exact .inl rfl
    · exact .inr (Nat.isDigit_of_mem_toDigits (by decide) (by decide) hc)

end Spelling

section port

variable {scheme host digits : Text}

theorem lower_authority (hd : ∀ c ∈ digits, c.isDigit = true) :
    Sqlite.lower (host ++ ':' :: digits) = lower host ++ ':' :: digits := by
  have hdigits : digits.map Char.toLower = digits := lower_of_isDigit hd
  have hcolon : ':'.toLower = ':' := by decide
  simp [Sqlite.lower,lower,hdigits,hcolon]

theorem substrFrom_port (host y : Text) (hd : ':' ∉ digits) (hy : ':' ∉ y) :
    substrFrom (host ++ ':' :: digits) (-((y.length + 1 : Nat) : Int)) = ':' :: y ↔ digits = y := by
  rw [Sqlite.substrFrom_neg _ _ (Nat.succ_pos _)]
  constructor
  · intro h
    have hsplit := List.take_append_drop ((host ++ ':' :: digits).length - (y.length + 1))
      (host ++ ':' :: digits)
    rw [h] at hsplit
    exact (append_cons_inj_last hy hd hsplit).2.symm
  · rintro rfl
    simp

theorem normalizedAuthority_port (hs : scheme = "http".toList ∨ scheme = "https".toList)
    (hd : ∀ c ∈ digits, c.isDigit = true) :
    Sql.normalizedAuthority scheme (host ++ ':' :: digits) =
      if digits = Nat.toDigits 10 (Whatwg.defaultPort scheme) then lower host
      else lower host ++ ':' :: digits := by
  have hcolon := not_mem_of_isDigit hd
  have hlen : (host ++ ':' :: digits).length = (lower host ++ ':' :: digits).length := by
    simp [lower]
  rw [Sql.normalizedAuthority,lower_authority hd,hlen]
  rcases hs with rfl | rfl
  · have hport : Nat.toDigits 10 (Whatwg.defaultPort "http".toList) = "80".toList := by decide
    have h80 : substrFrom (lower host ++ ':' :: digits) (-3) = ":80".toList ↔
        digits = "80".toList := substrFrom_port _ "80".toList hcolon (by simp)
    rw [hport,if_neg (by simp)]
    by_cases hd' : digits = "80".toList
    · have hcut : (((lower host ++ ':' :: digits).length : Int) - 3) = (lower host).length := by
        simp [hd']
      rw [if_pos (by rw [h80.mpr hd']; decide),if_pos hd',hcut,Sqlite.substr_take,List.take_left]
    · rw [if_neg (by simpa using fun h => hd' (h80.mp h)),if_neg hd']
  · have hport : Nat.toDigits 10 (Whatwg.defaultPort "https".toList) = "443".toList := by decide
    have h443 : substrFrom (lower host ++ ':' :: digits) (-4) = ":443".toList ↔
        digits = "443".toList := substrFrom_port _ "443".toList hcolon (by simp)
    rw [hport]
    by_cases hd' : digits = "443".toList
    · have hcut : (((lower host ++ ':' :: digits).length : Int) - 4) = (lower host).length := by
        simp [hd']
      rw [if_pos (by rw [h443.mpr hd']; decide),if_pos hd',hcut,Sqlite.substr_take,List.take_left]
    · rw [if_neg (by simpa using fun h => hd' (h443.mp h)),if_neg (by simp),if_neg hd']

theorem normalizedAuthority_host (scheme : Text) (hh : ':' ∉ host) :
    Sql.normalizedAuthority scheme host = lower host := by
  have hlower : ':' ∉ Sqlite.lower host := by
    intro hc
    obtain ⟨c,hc,heq⟩ := List.mem_map.mp hc
    have hcolon := toLower_eq_of_not_isLower heq (by decide)
    exact hh (hcolon ▸ hc)
  have hsuffix : ∀ (n : Nat) (y : Text), 0 < n → substrFrom (Sqlite.lower host) (-n) ≠ ':' :: y := by
    intro n y hn h
    rw [Sqlite.substrFrom_neg _ _ hn] at h
    have hmem : ':' ∈ (Sqlite.lower host).drop ((Sqlite.lower host).length - n) := by
      rw [h]
      simp
    exact hlower (List.mem_of_mem_drop hmem)
  have h443 := hsuffix 4 "443".toList (by decide)
  have h80 := hsuffix 3 "80".toList (by decide)
  simp only [Nat.cast_ofNat,String.reduceToList] at h443 h80
  simp [Sql.normalizedAuthority,h443,h80]
  rfl

end port

section sets

variable {c : Char}

theorem querySet_chars (h : Whatwg.querySet c = false) : 0x20 < c.toNat ∧ c ≠ '#' := by
  refine ⟨?_,?_⟩
  · by_contra hle
    revert h
    simp [Whatwg.querySet,Whatwg.c0ControlSet]
    omega
  · rintro rfl
    exact absurd h (by decide)

theorem querySet_of_pathSet (h : Whatwg.pathSet c = false) : Whatwg.querySet c = false :=
  (Bool.or_eq_false_iff.mp h).1

theorem querySet_of_specialQuerySet (h : specialQuerySet c = false) :
    Whatwg.querySet c = false := (Bool.or_eq_false_iff.mp h).1

theorem joined_chars {path : List Text} (hc : ∀ t ∈ path, CleanSegment t) :
    ∀ c ∈ joined path, c = '/' ∨ Whatwg.pathSet c = false := by
  intro c h
  obtain ⟨t,ht,h⟩ := List.mem_flatMap.mp h
  rcases List.mem_cons.mp h with rfl | h
  · exact .inl rfl
  · exact .inr ((hc t ht).chars c h).1

end sets

theorem dropSlash_url (url : URL) (h : url.path ≠ []) :
    dropSlash (url.protocol ++ "//".toList ++ url.host ++ url.pathname ++ url.search) =
      url.scheme ++ "://".toList ++ (url.hostname ++ portText url.port) ++
        dropSlash (joined url.path ++ url.search) := by
  have hhost : url.host = url.hostname ++ portText url.port := by
    unfold URL.host
    cases url.port <;> simp [portText]
  have hne : joined url.path ++ url.search ≠ [] := by
    obtain ⟨t,path,hp⟩ := List.exists_cons_of_ne_nil h
    simp [hp,joined]
  have hprotocol : url.protocol ++ "//".toList = url.scheme ++ "://".toList := by
    simp [URL.protocol]
  rw [hprotocol,hhost,List.append_assoc _ url.pathname,dropSlash_append]
  · rfl
  · exact hne

namespace Spelling

variable {P : Platform} (s : Spelling P)

theorem authority_chars : ∀ c ∈ s.authority, isHostnameChar c = true ∨ c = ':' := by
  intro c hc
  rcases List.mem_append.mp hc with hc | hc
  · exact .inl (s.hostChars.2 c hc)
  · rcases portText_chars s.port c hc with rfl | hc
    · exact .inr rfl
    · exact .inl (isDigit_cases hc).1

theorem authority_ne_nil : s.authority ≠ [] := by
  simp [authority,s.hostChars.1]

theorem path_chars : ∀ c ∈ joined s.path, 0x20 < c.toNat ∧ c ≠ '#' ∧ c ≠ '?' := by
  intro c hc
  rcases joined_chars s.pathClean c hc with rfl | hset
  · decide
  · have hquery := querySet_of_pathSet hset
    refine ⟨(querySet_chars hquery).1,(querySet_chars hquery).2,?_⟩
    rintro rfl
    exact absurd hset (by decide)

theorem query_chars : ∀ c ∈ queryText s.query, 0x20 < c.toNat ∧ c ≠ '#' := by
  cases hq : s.query with
  | none => simp [queryText]
  | some q =>
    intro c hc
    rcases List.mem_cons.mp hc with rfl | hc
    · decide
    · exact querySet_chars (querySet_of_specialQuerySet ((s.queryClean q hq).2 c hc))

theorem rest_chars : ∀ c ∈ s.rest, 0x20 < c.toNat ∧ c ≠ '#' := by
  intro c hc
  rcases List.mem_append.mp hc with hc | hc
  · have h := s.path_chars c hc
    exact ⟨h.1,h.2.1⟩
  · exact s.query_chars c hc

theorem startsPath_rest : StartsPath s.rest := by
  unfold rest
  cases hp : s.path with
  | cons segment path => exact Sql.startsPath_cons.mpr (.inl rfl)
  | nil =>
    cases hq : s.query with
    | none => exact .inl rfl
    | some q => exact Sql.startsPath_cons.mpr (.inr rfl)

theorem fragmentText_cases (fragment : Option Text) :
    fragmentText fragment = [] ∨ ∃ f, fragmentText fragment = '#' :: f := by
  cases fragment with
  | none => exact .inl rfl
  | some f => exact .inr ⟨f,rfl⟩

theorem normalizedAuthority_authority :
    Sql.normalizedAuthority (lower s.scheme) s.authority =
      lower s.host ++ portText s.foldedPort := by
  have hhost := not_mem_of_isHostnameChar s.hostChars.2
  unfold authority foldedPort
  cases hp : s.port with
  | none =>
    simp only [portText,List.append_nil]
    rw [normalizedAuthority_host _ hhost]
    simp
  | some n =>
    simp only [portText,Option.some.injEq]
    rw [normalizedAuthority_port s.schemeWeb (isDigit_toDigits n)]
    by_cases hn : n = Whatwg.defaultPort (lower s.scheme)
    · simp [hn]
    · rw [if_neg fun h => hn (toDigits_inj h),if_neg hn]

theorem normalized_text : Sql.normalized s.text = some s.normal := by
  have hchars : ∀ c ∈ s.authority, c ≠ '/' ∧ c ≠ '?' ∧ c ≠ '#' ∧ c ≠ '@' := by
    intro c hc
    obtain ⟨_,_,h1,h2,h3,h4,_⟩ := authorityChar_cases (s.authority_chars c hc)
    exact ⟨h1,h2,h3,h4⟩
  have hhash : '#' ∉ s.rest := fun hc => (s.rest_chars _ hc).2 rfl
  rw [text,Sql.normalized_written s.schemeWeb s.authority_ne_nil hchars s.startsPath_rest hhash
    (fragmentText_cases _),normalizedAuthority_authority,if_neg]
  · rfl
  · simp [lower,s.hostChars.1]

theorem portState_text : Whatwg.portState (lower s.scheme) ((portText s.port).drop 1) =
    some s.foldedPort := by
  unfold foldedPort
  cases hp : s.port with
  | none => simp [portText,Whatwg.portState]
  | some n =>
    have hn := s.portRange n hp
    have hall : (Nat.toDigits 10 n).all Char.isDigit = true :=
      List.all_eq_true.mpr (isDigit_toDigits n)
    simp only [portText,List.drop_succ_cons,List.drop_zero,Whatwg.portState,hall,if_true,
      Nat.toDigits_ne_nil,if_false,Nat.ofDigitChars_ten_toDigits,Option.some.injEq]
    rw [if_neg (by omega)]

theorem takeWhile_rest : s.rest.takeWhile (· ≠ '?') = joined s.path := by
  have hall : ∀ c ∈ joined s.path, decide (c ≠ '?') = true := fun c hc =>
    decide_eq_true (s.path_chars c hc).2.2
  rw [rest,List.takeWhile_append_of_pos hall]
  cases s.query <;> simp [queryText]

theorem queryState_rest : Whatwg.queryState s.rest = s.query := by
  have hall : ∀ c ∈ joined s.path, decide (c ≠ '?') = true := fun c hc =>
    decide_eq_true (s.path_chars c hc).2.2
  rw [Whatwg.queryState,rest,List.dropWhile_append_of_pos hall]
  cases hq : s.query with
  | none => simp [queryText]
  | some q =>
    have hclean := Whatwg.encode_of_clean (s.queryClean q hq).2
    simp [queryText,hclean]

theorem parse_text : Whatwg.parse P.parseHost s.text = some {
    scheme := lower s.scheme,username := [],password := [],hostname := lower s.host
    port := s.foldedPort,path := Whatwg.pathStart (joined s.path),query := s.query } := by
  have hchars : ∀ c ∈ s.authority, 0x20 < c.toNat ∧ isSlash c = false ∧ c ≠ '#' ∧ c ≠ '?' ∧
      c ≠ '@' ∧ c ≠ '[' := by
    intro c hc
    obtain ⟨h1,h2,_,h3,h4,h5,h6⟩ := authorityChar_cases (s.authority_chars c hc)
    exact ⟨h1,h2,h4,h3,h5,h6⟩
  have hhost : ∀ c ∈ s.host, decide (c ≠ ':') = true := by
    intro c hc
    exact decide_eq_true fun h => not_mem_of_isHostnameChar s.hostChars.2 (h ▸ hc)
  have hstate : Whatwg.hostState false s.authority = (s.host,(portText s.port).drop 1) := by
    rw [Whatwg.hostState_written fun c hc => (hchars c hc).2.2.2.2.2,authority,
      List.takeWhile_append_of_pos hhost,List.dropWhile_append_of_pos hhost]
    cases s.port <;> simp [portText]
  rw [text,Whatwg.parse_written s.schemeWeb s.authority_ne_nil
    (fun c hc => ⟨(hchars c hc).1,(hchars c hc).2.1,(hchars c hc).2.2.1⟩) s.rest_chars
    (fragmentText_cases _),Whatwg.parseAuthority_written _
    (fun c hc => ⟨(hchars c hc).2.1,(hchars c hc).2.2.2.1,(hchars c hc).2.2.2.2.1⟩)
    s.startsPath_rest,hstate,if_neg s.hostChars.1]
  simp only [s.hostParsed,s.portState_text,takeWhile_rest,queryState_rest,Option.bind_some,
    Option.map_some]

theorem slashed_rest : Sql.slashed (dropSlash s.rest) =
    dropSlash (joined (Whatwg.pathStart (joined s.path)) ++ queryText s.query) := by
  unfold rest
  cases hp : s.path with
  | cons segment path =>
    rw [← hp,Whatwg.pathStart_joined s.pathClean (by simp [hp]),hp]
    simp only [joined,List.flatMap_cons,List.cons_append]
    generalize segment ++ _ ++ queryText s.query = t
    rcases dropSlash_cases ('/' :: t) with h | h
    · rw [← h]
      rfl
    · cases hd : dropSlash ('/' :: t) with
      | nil => rfl
      | cons c r =>
        rw [hd,List.cons_append,List.cons.injEq] at h
        rw [← h.1]
        rfl
  | nil =>
    have hpath : joined (Whatwg.pathStart (joined [])) = ['/'] := by decide
    rw [hpath]
    cases hq : s.query with
    | none => decide
    | some q =>
      have hne := (s.queryClean q hq).1
      have hdrop : dropSlash ('?' :: q) = '?' :: dropSlash q := dropSlash_append ['?'] hne
      have hdrop' : dropSlash ('/' :: '?' :: q) = '/' :: '?' :: dropSlash q :=
        dropSlash_append ['/','?'] hne
      simp [joined,queryText,Sql.slashed,hdrop,hdrop']

theorem normalize_text : normalizeActivityPubActorId P s.text = some s.normal := by
  rw [normalizeActivityPubActorId,s.parse_text,Option.map_some,
    dropSlash_url _ (Whatwg.pathStart_ne_nil _)]
  have hsearch : URL.search (URL.mk (lower s.scheme) [] [] (lower s.host) s.foldedPort
      (Whatwg.pathStart (joined s.path)) s.query) = queryText s.query := by
    unfold URL.search
    cases hq : s.query with
    | none => rfl
    | some q =>
      obtain ⟨c,q,rfl⟩ := List.exists_cons_of_ne_nil (s.queryClean q hq).1
      rfl
  rw [hsearch,normal,slashed_rest]

end Spelling

end Yurucommu.ActorIdentity
