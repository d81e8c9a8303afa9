import Yurucommu.ActorSpelling

/-!
JavaScript and SQL give an admitted id the same canonical text exactly when it is spelled.
-/

set_option autoImplicit false

namespace Yurucommu.ActorIdentity

open Whatwg (Text URL lower isSlash CleanSegment joined specialQuerySet StartsPath)

section path

variable {path : List Text} {p d : Text}

theorem joined_append (segments segments' : List Text) :
    joined (segments ++ segments') = joined segments ++ joined segments' := List.flatMap_append

theorem joined_dropSlash (hc : ∀ t ∈ path, CleanSegment t) (h : joined path = d ++ ['/']) :
    ∃ path', (∀ t ∈ path', CleanSegment t) ∧ joined path' = d := by
  rcases path.eq_nil_or_concat with rfl | ⟨init,last,rfl⟩
  · simp [joined] at h
  · rw [List.concat_eq_append] at h hc
    have hinit : ∀ t ∈ init, CleanSegment t := fun t ht => hc t (List.mem_append_left _ ht)
    have hlast : '/' ∉ last := by
      intro hm
      have hclean := hc last (by simp)
      exact absurd (hclean.chars _ hm).2 (by decide)
    rw [joined_append] at h
    have hsplit : joined init ++ '/' :: last = d ++ '/' :: [] := by
      simpa [joined] using h
    exact ⟨init,hinit,(append_cons_inj_last hlast (by simp) hsplit).1⟩

theorem exists_path (hc : ∀ t ∈ path, CleanSegment t)
    (h : dropSlash p = dropSlash (joined path) ∨ p = dropSlash (joined path)) :
    ∃ path', (∀ t ∈ path', CleanSegment t) ∧ joined path' = p := by
  have hslash : ∀ t ∈ path ++ [[]], CleanSegment t := by
    intro t ht
    rcases List.mem_append.mp ht with ht | ht
    · exact hc t ht
    · rw [List.mem_singleton.mp ht]
      exact Whatwg.cleanSegment_nil
  have hp : p = dropSlash (joined path) ∨ p = dropSlash (joined path) ++ ['/'] := by
    rcases h with h | h
    · rw [← h]
      exact dropSlash_cases p
    · exact .inl h
  rcases hp with rfl | rfl
  · rcases dropSlash_cases (joined path) with h | h
    · exact ⟨path,hc,h⟩
    · exact joined_dropSlash hc h
  · rcases dropSlash_cases (joined path) with h | h
    · refine ⟨path ++ [[]],hslash,?_⟩
      rw [joined_append,← h]
      rfl
    · exact ⟨path,hc,h⟩

end path

section rest

variable {P : Platform} {url : URL} {rest : Text}

theorem mem_of_mem_slashed {t : Text} {c : Char} (h : c ∈ t) : c ∈ Sql.slashed t := by
  unfold Sql.slashed
  split
  · exact List.mem_cons_of_mem _ h
  · exact h

theorem mem_dropSlash {t : Text} {c : Char} (h : c ∈ t) (hc : c ≠ '/') : c ∈ dropSlash t := by
  rcases dropSlash_cases t with ht | ht
  · exact ht ▸ h
  · rw [ht] at h
    rcases List.mem_append.mp h with h | h
    · exact h
    · exact absurd (List.mem_singleton.mp h) hc

theorem mem_of_mem_dropSlash {t : Text} {c : Char} (h : c ∈ dropSlash t) : c ∈ t := by
  rcases dropSlash_cases t with ht | ht
  · exact ht ▸ h
  · rw [ht]
    exact List.mem_append_left _ h

theorem dropSlash_question (q : Text) (hq : q ≠ []) :
    dropSlash ('?' :: q) = '?' :: dropSlash q := dropSlash_append ['?'] hq

theorem exists_query (rest : Text) : ∃ p query, rest = p ++ queryText query ∧ '?' ∉ p := by
  by_cases hc : '?' ∈ rest
  · obtain ⟨p,q,rfl,hp⟩ := List.eq_append_cons_of_mem hc
    exact ⟨p,some q,rfl,hp⟩
  · exact ⟨rest,none,(List.append_nil _).symm,hc⟩

theorem queryState_written {p : Text} (hp : '?' ∉ p) (query : Option Text) :
    (p ++ queryText query).takeWhile (· ≠ '?') = p ∧
      Whatwg.queryState (p ++ queryText query) = query.map (Whatwg.encode specialQuerySet) := by
  have hall : ∀ c ∈ p, decide (c ≠ '?') = true := by
    intro c hc
    exact decide_eq_true fun h => hp (h ▸ hc)
  rw [Whatwg.queryState,List.takeWhile_append_of_pos hall,List.dropWhile_append_of_pos hall]
  cases query <;> simp [queryText]

theorem clean_query {q : Text} (h : dropSlash q = dropSlash (Whatwg.encode specialQuerySet q) ∨
    q = dropSlash (Whatwg.encode specialQuerySet q)) : ∀ c ∈ q, specialQuerySet c = false := by
  intro c hc
  by_cases hslash : c = '/'
  · rw [hslash]
    decide
  · have hmem : c ∈ dropSlash (Whatwg.encode specialQuerySet q) := by
      rcases h with h | h
      · exact h ▸ mem_dropSlash hc hslash
      · exact h ▸ hc
    exact Whatwg.encode_specialQuerySet q c (mem_of_mem_dropSlash hmem)

theorem encode_ne_nil {q : Text} (h : q ≠ []) : Whatwg.encode specialQuerySet q ≠ [] := by
  obtain ⟨c,q,rfl⟩ := List.exists_cons_of_ne_nil h
  intro hnil
  have hlength := congrArg List.length hnil
  simp only [Whatwg.encode,List.flatMap_cons,List.length_append,List.length_nil] at hlength
  have hchar : 0 < (Whatwg.percentEncode specialQuerySet c).length := by
    unfold Whatwg.percentEncode
    split
    · have hsize : (String.utf8EncodeChar c).length = c.utf8Size := String.length_utf8EncodeChar c
      have hpos := Char.utf8Size_pos c
      obtain ⟨b,bytes,hb⟩ := List.exists_cons_of_ne_nil
        (List.ne_nil_of_length_pos (by omega : 0 < (String.utf8EncodeChar c).length))
      simp [hb,Whatwg.percentEncodeByte]
    · simp
  omega

theorem exists_rest (hc : ∀ t ∈ url.path, CleanSegment t)
    (hquery : url.query = Whatwg.queryState rest)
    (h : Sql.slashed (dropSlash rest) = dropSlash (joined url.path ++ url.search) ∨
      rest = dropSlash (joined url.path ++ url.search)) :
    ∃ path query, (∀ t ∈ path, CleanSegment t) ∧
      (∀ q, query = some q → q ≠ [] ∧ ∀ c ∈ q, specialQuerySet c = false) ∧
      rest = joined path ++ queryText query := by
  obtain ⟨p,query,rfl,hp⟩ := exists_query rest
  rw [(queryState_written hp query).2] at hquery
  have hquestion : '?' ∉ joined url.path := by
    intro hm
    rcases joined_chars hc _ hm with h | h
    · cases h
    · exact absurd h (by decide)
  cases query with
  | none =>
    have hsearch : url.search = [] := by simp [URL.search,hquery]
    simp only [queryText,List.append_nil,hsearch] at h ⊢
    have hslashed : Sql.slashed (dropSlash p) = dropSlash p := by
      unfold Sql.slashed
      rw [if_neg]
      intro hhead
      exact hp (mem_of_mem_dropSlash (List.mem_of_mem_head? hhead))
    rw [hslashed] at h
    obtain ⟨path,hpath,rfl⟩ := exists_path hc h
    exact ⟨path,none,hpath,by simp,by simp⟩
  | some q =>
    by_cases hq : q = []
    · subst hq
      have hsearch : url.search = [] := by
        simp [URL.search,hquery,Whatwg.encode]
      rw [hsearch,List.append_nil] at h
      have hmem : '?' ∈ dropSlash (joined url.path) := by
        rcases h with h | h
        · rw [← h]
          exact mem_of_mem_slashed (mem_dropSlash (by simp [queryText]) (by decide))
        · rw [← h]
          simp [queryText]
      exact absurd (mem_of_mem_dropSlash hmem) hquestion
    · have he := encode_ne_nil hq
      have hsearch : url.search = '?' :: Whatwg.encode specialQuerySet q := by
        obtain ⟨c,e,heq⟩ := List.exists_cons_of_ne_nil he
        simp [URL.search,hquery,heq]
      have hurl : dropSlash (joined url.path ++ url.search) =
          joined url.path ++ '?' :: dropSlash (Whatwg.encode specialQuerySet q) := by
        rw [hsearch,dropSlash_append _ (by simp),dropSlash_question _ he]
      have hwritten : dropSlash (p ++ queryText (some q)) = p ++ '?' :: dropSlash q := by
        rw [dropSlash_append _ (by simp [queryText])]
        simp [queryText,dropSlash_question _ hq]
      have hclean (hx : dropSlash q = dropSlash (Whatwg.encode specialQuerySet q) ∨
          q = dropSlash (Whatwg.encode specialQuerySet q)) :
          ∀ q', some q = some q' → q' ≠ [] ∧ ∀ c ∈ q', specialQuerySet c = false := by
        intro q' heq
        cases heq
        exact ⟨hq,clean_query hx⟩
      rw [hurl,hwritten] at h
      rcases h with h | h
      · by_cases hnil : p = []
        · have hslash : ['/'] ++ '?' :: dropSlash q = joined url.path ++
              '?' :: dropSlash (Whatwg.encode specialQuerySet q) := by
            rw [← h,hnil]
            rfl
          have hinj := append_inj_first (c := '?') (by simp) hquestion (.inr ⟨_,rfl⟩)
            (.inr ⟨_,rfl⟩) hslash
          exact ⟨[],some q,by simp,hclean (.inl (List.cons.inj hinj.2).2),
            by simp [hnil,joined]⟩
        · have hhead : (p ++ '?' :: dropSlash q).head? ≠ some '?' := by
            obtain ⟨c,p,rfl⟩ := List.exists_cons_of_ne_nil hnil
            simp only [List.mem_cons,not_or] at hp
            simpa using Ne.symm hp.1
          rw [Sql.slashed,if_neg hhead] at h
          have hinj := append_inj_first hp hquestion (.inr ⟨_,rfl⟩) (.inr ⟨_,rfl⟩) h
          exact ⟨url.path,some q,hc,hclean (.inl (List.cons.inj hinj.2).2),by rw [hinj.1]⟩
      · have hinj := append_inj_first hp hquestion (.inr ⟨_,rfl⟩) (.inr ⟨_,rfl⟩) h
        exact ⟨url.path,some q,hc,hclean (.inr (List.cons.inj hinj.2).2),by rw [hinj.1]⟩

end rest

section authority

variable {scheme authority hostname : Text} {port : Option Nat}

theorem isHostnameChar_portText (port : Option Nat) :
    ∀ c ∈ portText port, isHostnameChar c = true ∨ c = ':' := by
  intro c hc
  rcases Spelling.portText_chars port c hc with rfl | hc
  · exact .inr rfl
  · exact .inl (isDigit_cases hc).1

theorem normalizedAuthority_cases (scheme authority : Text) :
    lower authority = Sql.normalizedAuthority scheme authority ∨
      lower authority = Sql.normalizedAuthority scheme authority ++
        portText (some (Whatwg.defaultPort scheme)) := by
  have hcut : ∀ (n : Nat) (y : Text), y.length = n → 0 < n →
      Sqlite.substrFrom (Sqlite.lower authority) (-n) = y →
      lower authority = Sqlite.substr (Sqlite.lower authority) 1 (authority.length - n) ++ y := by
    intro n y hn hpos h
    have hlen : (Sqlite.lower authority).length = authority.length := Sqlite.length_lower _
    rw [Sqlite.substrFrom_neg _ _ hpos,hlen] at h
    have hle : n ≤ authority.length := by
      have hlength := congrArg List.length h
      rw [List.length_drop,hlen,hn] at hlength
      omega
    have hint : ((authority.length : Int) - n) = ((authority.length - n : Nat) : Int) := by omega
    rw [hint,Sqlite.substr_take,← h,List.take_append_drop]
    rfl
  unfold Sql.normalizedAuthority
  split
  · rename_i h
    simp only [Bool.and_eq_true,decide_eq_true_eq] at h
    right
    rw [h.1]
    exact hcut 4 _ (by decide) (by decide) h.2
  · split
    · rename_i h
      simp only [Bool.and_eq_true,decide_eq_true_eq] at h
      right
      rw [h.1]
      exact hcut 3 _ (by decide) (by decide) h.2
    · exact .inl rfl

theorem exists_colon (t : Text) : ∃ before after, t = before ++ after ∧ ':' ∉ before ∧
    (after = [] ∨ ∃ digits, after = ':' :: digits) := by
  by_cases hc : ':' ∈ t
  · obtain ⟨before,after,rfl,hb⟩ := List.eq_append_cons_of_mem hc
    exact ⟨before,_,rfl,hb,.inr ⟨after,rfl⟩⟩
  · exact ⟨t,[],(List.append_nil _).symm,hc,.inl rfl⟩

theorem portState_digits {digits : Text} (h : Whatwg.portState scheme digits = some port) :
    (∀ c ∈ digits, c.isDigit = true) ∧ (digits = [] → port = none) ∧
      (digits ≠ [] → Nat.ofDigitChars 10 digits 0 ≤ 65535 ∧
        port = if Nat.ofDigitChars 10 digits 0 = Whatwg.defaultPort scheme then none
          else some (Nat.ofDigitChars 10 digits 0)) := by
  unfold Whatwg.portState at h
  split at h
  · rename_i hall
    refine ⟨List.all_eq_true.mp hall,?_,?_⟩
    · intro hnil
      rw [if_pos hnil] at h
      exact (Option.some.inj h).symm
    · intro hne
      rw [if_neg hne] at h
      simp only at h
      split at h
      · cases h
      · exact ⟨by omega,(Option.some.inj h).symm⟩
  · cases h

theorem exists_host (hc : ∀ c ∈ hostname, isHostnameChar c = true)
    (h : Sql.normalizedAuthority scheme authority = hostname ++ portText port)
    (hport : Whatwg.portState scheme ((authority.dropWhile (· ≠ ':')).drop 1) = some port) :
    ∃ p, authority = authority.takeWhile (· ≠ ':') ++ portText p ∧
      lower (authority.takeWhile (· ≠ ':')) = hostname ∧ ∀ n, p = some n → n ≤ 65535 := by
  obtain ⟨host,t,rfl,hhost,ht⟩ := exists_colon authority
  have hall : ∀ c ∈ host, decide (c ≠ ':') = true := by
    intro c hc
    exact decide_eq_true fun h => hhost (h ▸ hc)
  have hlowerHost : ':' ∉ lower host := by
    intro hm
    obtain ⟨c,hm,heq⟩ := List.mem_map.mp hm
    exact hhost (toLower_eq_of_not_isLower heq (by decide) ▸ hm)
  have hhostname := not_mem_of_isHostnameChar hc
  have hcases := normalizedAuthority_cases scheme (host ++ t)
  rw [h] at hcases
  rw [List.dropWhile_append_of_pos hall] at hport
  rw [List.takeWhile_append_of_pos hall]
  rcases ht with rfl | ⟨digits,rfl⟩
  · refine ⟨none,by simp [portText],?_,by simp⟩
    simp only [List.append_nil,List.takeWhile_nil] at hcases ⊢
    cases port with
    | none =>
      rcases hcases with hcases | hcases
      · simpa [portText] using hcases
      · rw [hcases] at hlowerHost
        simp [portText] at hlowerHost
    | some n =>
      rcases hcases with hcases | hcases
      · rw [hcases] at hlowerHost
        simp [portText] at hlowerHost
      · rw [hcases] at hlowerHost
        simp [portText] at hlowerHost
  · simp only [ne_eq,not_true_eq_false,decide_false,Bool.false_eq_true,not_false_eq_true,
      List.dropWhile_cons_of_neg,List.takeWhile_cons_of_neg,List.drop_succ_cons,List.drop_zero,
      List.append_nil] at hport ⊢
    obtain ⟨hdigits,hvalue⟩ := portState_digits hport
    have hcolon := not_mem_of_isDigit hdigits
    have hlower : lower (host ++ ':' :: digits) = lower host ++ ':' :: digits :=
      lower_authority hdigits
    rw [hlower] at hcases
    have hrange : ∀ n, digits = Nat.toDigits 10 n → ∀ m, some n = some m → m ≤ 65535 := by
      intro n hn m hm
      have hle := (hvalue.2 (hn ▸ Nat.toDigits_ne_nil)).1
      rw [hn,Nat.ofDigitChars_ten_toDigits] at hle
      cases hm
      exact hle
    rcases hcases with hcases | hcases
    · cases port with
      | none =>
        have hm : ':' ∈ lower host ++ ':' :: digits := by simp
        rw [hcases] at hm
        simp [portText,hhostname] at hm
      | some n =>
        obtain ⟨hhost',hn⟩ := append_cons_inj_last hcolon
          (not_mem_of_isDigit (isDigit_toDigits n)) hcases
        exact ⟨some n,by rw [hn]; rfl,hhost',hrange n hn⟩
    · obtain ⟨hhost',hn⟩ := append_cons_inj_last hcolon
        (not_mem_of_isDigit (isDigit_toDigits (Whatwg.defaultPort scheme))) hcases
      refine ⟨some (Whatwg.defaultPort scheme),by rw [hn]; rfl,?_,hrange _ hn⟩
      cases port with
      | none => simpa [portText] using hhost'
      | some n =>
        rw [hhost'] at hlowerHost
        simp [portText] at hlowerHost

end authority

section spelling

variable {P : Platform} {actorId : Text}

theorem safe_url (h : isSafeRemoteUrl P actorId = true) : ∃ url,
    Whatwg.parse P.parseHost actorId = some url ∧ url.hostname ≠ [] ∧
      (∀ c ∈ url.hostname, isHostnameChar c = true) ∧ '.' ∈ url.hostname := by
  unfold isSafeRemoteUrl at h
  cases hp : Whatwg.parse P.parseHost actorId with
  | none =>
    rw [hp] at h
    cases h
  | some url =>
    rw [hp] at h
    simp only [Bool.and_eq_true,decide_eq_true_eq,List.all_eq_true,List.contains_iff_mem] at h
    exact ⟨url,rfl,h.1.1.1.2,h.1.1.2,h.1.2⟩

theorem authority_chars_of_eq {scheme authority hostname : Text} {port : Option Nat}
    (hc : ∀ c ∈ hostname, isHostnameChar c = true)
    (h : Sql.normalizedAuthority scheme authority = hostname ++ portText port) :
    ∀ c ∈ authority, isHostnameChar c = true ∨ c = ':' := by
  have hlower : ∀ c ∈ lower authority, isHostnameChar c = true ∨ c = ':' := by
    intro c hm
    have hsplit : c ∈ hostname ++ portText port ∨
        c ∈ portText (some (Whatwg.defaultPort scheme)) := by
      rcases normalizedAuthority_cases scheme authority with heq | heq
      · rw [heq,h] at hm
        exact .inl hm
      · rw [heq,h] at hm
        exact List.mem_append.mp hm
    rcases hsplit with hm | hm
    · rcases List.mem_append.mp hm with hm | hm
      · exact .inl (hc c hm)
      · exact isHostnameChar_portText _ c hm
    · exact isHostnameChar_portText _ c hm
  intro c hm
  rcases hlower c.toLower (List.mem_map_of_mem hm) with h | h
  · exact .inl (isHostnameChar_toLower h)
  · exact .inr (toLower_eq_of_not_isLower h (by decide))

theorem rest_chars_of_eq {url : URL} {rest : Text} (hv : url.Valid P.parseHost)
    (h : Sql.slashed (dropSlash rest) = dropSlash (joined url.path ++ url.search) ∨
      rest = dropSlash (joined url.path ++ url.search)) :
    ∀ c ∈ rest, 0x20 < c.toNat ∧ c ≠ '#' := by
  have hurl : ∀ c ∈ joined url.path ++ url.search, 0x20 < c.toNat ∧ c ≠ '#' := by
    intro c hc
    rcases List.mem_append.mp hc with hc | hc
    · rcases joined_chars hv.path c hc with rfl | hset
      · decide
      · exact querySet_chars (querySet_of_pathSet hset)
    · unfold URL.search at hc
      split at hc
      · cases hc
      · cases hc
      · rename_i q _ hq
        rcases List.mem_cons.mp hc with rfl | hc
        · decide
        · exact querySet_chars (querySet_of_specialQuerySet (hv.query q hq c hc))
  intro c hc
  by_cases hslash : c = '/'
  · rw [hslash]
    decide
  · have hmem : c ∈ dropSlash (joined url.path ++ url.search) := by
      rcases h with h | h
      · rw [← h]
        exact mem_of_mem_slashed (mem_dropSlash hc hslash)
      · rw [← h]
        exact hc
    exact hurl c (mem_of_mem_dropSlash hmem)

theorem exists_spelling {url : URL} {scheme authority rest fragment : Text}
    (hparse : Whatwg.parse P.parseHost (scheme ++ "://".toList ++ authority ++ rest ++ fragment) =
      some url)
    (hne : url.hostname ≠ []) (hc : ∀ c ∈ url.hostname, isHostnameChar c = true)
    (hs : lower scheme = "http".toList ∨ lower scheme = "https".toList) (ha : authority ≠ [])
    (hr : StartsPath rest) (hf : fragment = [] ∨ ∃ f, fragment = '#' :: f)
    (hauthority : Sql.normalizedAuthority (lower scheme) authority =
      url.hostname ++ portText url.port)
    (hrest : Sql.slashed (dropSlash rest) = dropSlash (joined url.path ++ url.search) ∨
      rest = dropSlash (joined url.path ++ url.search)) :
    ∃ s : Spelling P, s.text = scheme ++ "://".toList ++ authority ++ rest ++ fragment := by
  have hv := Whatwg.parse_valid hparse
  have hac := authority_chars_of_eq hc hauthority
  have hchars : ∀ c ∈ authority, 0x20 < c.toNat ∧ isSlash c = false ∧ c ≠ '#' ∧ c ≠ '?' ∧
      c ≠ '@' ∧ c ≠ '[' := by
    intro c hm
    obtain ⟨h1,h2,_,h3,h4,h5,h6⟩ := authorityChar_cases (hac c hm)
    exact ⟨h1,h2,h4,h3,h5,h6⟩
  rw [Whatwg.parse_written hs ha
    (fun c hc => ⟨(hchars c hc).1,(hchars c hc).2.1,(hchars c hc).2.2.1⟩)
    (rest_chars_of_eq hv hrest) hf,Whatwg.parseAuthority_written _
    (fun c hc => ⟨(hchars c hc).2.1,(hchars c hc).2.2.2.1,(hchars c hc).2.2.2.2.1⟩) hr,
    Whatwg.hostState_written fun c hc => (hchars c hc).2.2.2.2.2] at hparse
  simp only [Option.ite_none_left_eq_some] at hparse
  obtain ⟨hhost,hparse⟩ := hparse
  obtain ⟨hostname,hparsed,hparse⟩ := Option.bind_eq_some_iff.mp hparse
  obtain ⟨port,hport,rfl⟩ := Option.map_eq_some_iff.mp hparse
  obtain ⟨p,hp,hlower,hrange⟩ := exists_host hc hauthority hport
  obtain ⟨path,query,hpath,hquery,rfl⟩ := exists_rest hv.path rfl hrest
  obtain ⟨fragment',rfl⟩ : ∃ f, fragment = fragmentText f := by
    rcases hf with rfl | ⟨f,rfl⟩
    · exact ⟨none,rfl⟩
    · exact ⟨some f,rfl⟩
  have hhostChars : ∀ c ∈ authority.takeWhile (· ≠ ':'), isHostnameChar c = true := by
    intro c hm
    have hcolon := List.mem_takeWhile_imp (p := fun c => decide (c ≠ ':')) hm
    exact (hac c (List.takeWhile_subset _ hm)).resolve_right (of_decide_eq_true hcolon)
  refine ⟨{
    scheme,path,query
    host := authority.takeWhile (· ≠ ':')
    port := p
    fragment := fragment'
    schemeWeb := hs
    hostParsed := by rw [hlower]; exact hparsed
    hostChars := ⟨hhost,hhostChars⟩
    portRange := hrange
    pathClean := hpath
    queryClean := hquery },?_⟩
  unfold Spelling.text Spelling.authority
  rw [← hp]
  rfl

/-- Written as the URL parser writes it, up to the case of scheme and host, a default port, a
fragment and one slash at the end. -/
def Spelled (P : Platform) (actorId : Text) : Prop := ∃ s : Spelling P, s.text = actorId

theorem normalize_url {url : URL} (h : Whatwg.parse P.parseHost actorId = some url) :
    normalizeActivityPubActorId P actorId =
      some (url.scheme ++ "://".toList ++ (url.hostname ++ portText url.port) ++
        dropSlash (joined url.path ++ url.search)) := by
  rw [normalizeActivityPubActorId,h,Option.map_some,
    dropSlash_url _ (Whatwg.parse_valid h).nonempty]

theorem Spelled.normalized (h : Spelled P actorId) :
    ∃ n, normalizeActivityPubActorId P actorId = some n ∧ Sql.normalized actorId = some n := by
  obtain ⟨s,rfl⟩ := h
  exact ⟨s.normal,s.normalize_text,s.normalized_text⟩

theorem startsPath_url {url : URL} (h : url.path ≠ []) :
    dropSlash (joined url.path ++ url.search) = [] ∨
      ∃ r, dropSlash (joined url.path ++ url.search) = '/' :: r := by
  obtain ⟨t,path,hp⟩ := List.exists_cons_of_ne_nil h
  have hcons : joined url.path ++ url.search = '/' :: (t ++ joined path ++ url.search) := by
    simp [hp,joined]
  rcases dropSlash_cases (joined url.path ++ url.search) with hd | hd
  · exact .inr ⟨_,hd.symm.trans hcons⟩
  · cases hr : dropSlash (joined url.path ++ url.search) with
    | nil => exact .inl rfl
    | cons c r =>
      rw [hr,hcons,List.cons_append,List.cons.injEq] at hd
      exact .inr ⟨r,by rw [← hd.1]⟩

theorem scheme_inj {x y p q : Text} (hx : x = "http".toList ∨ x = "https".toList)
    (hy : y = "http".toList ∨ y = "https".toList)
    (h : x ++ "://".toList ++ p = y ++ "://".toList ++ q) : x = y ∧ p = q := by
  have hcolon : ∀ t : Text, t = "http".toList ∨ t = "https".toList → ':' ∉ t := by
    rintro t (rfl | rfl) <;> simp
  rw [List.append_assoc,List.append_assoc] at h
  have hinj := append_inj_first (hcolon x hx) (hcolon y hy) (.inr ⟨_,rfl⟩) (.inr ⟨_,rfl⟩) h
  exact ⟨hinj.1,by simpa using hinj.2⟩

theorem not_mem_normalizedAuthority {c : Char} {scheme authority : Text} (hl : c.isLower = false)
    (h : c ∉ authority) : c ∉ Sql.normalizedAuthority scheme authority := by
  intro hm
  have hlower : c ∈ lower authority := by
    rcases normalizedAuthority_cases scheme authority with heq | heq
    · rw [heq]
      exact hm
    · rw [heq]
      exact List.mem_append_left _ hm
  obtain ⟨d,hd,heq⟩ := List.mem_map.mp hlower
  exact h (toLower_eq_of_not_isLower heq hl ▸ hd)

theorem startsPath_slashed {rest : Text} (h : StartsPath rest) :
    Sql.slashed rest = [] ∨ ∃ r, Sql.slashed rest = '/' :: r := by
  rcases h with rfl | ⟨r,rfl | rfl⟩
  · exact .inl rfl
  · exact .inr ⟨r,rfl⟩
  · exact .inr ⟨_,rfl⟩

/-- SQL gives an id the canonical text that JavaScript gives it exactly when it is spelled. -/
theorem normalized_iff (h : isSafeRemoteUrl P actorId = true) :
    Sql.normalized actorId = normalizeActivityPubActorId P actorId ↔ Spelled P actorId := by
  constructor
  · intro heq
    obtain ⟨url,hparse,hne,hc,_⟩ := safe_url h
    have hv := Whatwg.parse_valid hparse
    rw [normalize_url hparse] at heq
    obtain ⟨scheme,authority,rest,fragment,rfl,hs,ha,hac,hr,hrc,hf⟩ := Sql.normalized_some heq
    rw [Sql.normalized_written hs ha hac hr hrc hf,Option.ite_none_left_eq_some] at heq
    obtain ⟨_,heq⟩ := heq
    have htext : lower scheme ++ "://".toList ++ (Sql.normalizedAuthority (lower scheme) authority ++
          Sql.slashed (dropSlash rest)) =
        url.scheme ++ "://".toList ++ (url.hostname ++ portText url.port ++
          dropSlash (joined url.path ++ url.search)) := by
      simpa only [List.append_assoc] using Option.some.inj heq
    have hbehind := (scheme_inj hs hv.scheme htext).2
    have hNA : '/' ∉ Sql.normalizedAuthority (lower scheme) authority :=
      not_mem_normalizedAuthority (by decide) fun hm => (hac _ hm).1 rfl
    have hHP : '/' ∉ url.hostname ++ portText url.port := by
      intro hm
      rcases List.mem_append.mp hm with hm | hm
      · exact absurd (hc _ hm) (by decide)
      · exact absurd (isHostnameChar_portText _ _ hm) (by decide)
    obtain ⟨hauthority,hrest⟩ := append_inj_first hNA hHP
      (startsPath_slashed (Sql.startsPath_dropSlash hr)) (startsPath_url hv.nonempty) hbehind
    exact exists_spelling hparse hne hc hs ha hr hf hauthority (.inl hrest)
  · intro hspelled
    obtain ⟨n,hn,hs⟩ := hspelled.normalized
    rw [hn,hs]

theorem normalizedAuthority_url {url : URL} (hv : url.Valid P.parseHost)
    (hc : ∀ c ∈ url.hostname, isHostnameChar c = true) :
    Sql.normalizedAuthority url.scheme (url.hostname ++ portText url.port) =
      url.hostname ++ portText url.port := by
  obtain ⟨t,ht⟩ := hv.hostname
  have hlower := P.lower_parseHost t _ ht
  cases hp : url.port with
  | none =>
    simp only [portText,List.append_nil]
    rw [normalizedAuthority_host _ (not_mem_of_isHostnameChar hc),hlower]
  | some n =>
    simp only [portText]
    rw [normalizedAuthority_port hv.scheme (isDigit_toDigits n),if_neg,hlower]
    exact fun h => (hv.port n hp).2 (toDigits_inj h)

theorem lower_scheme {scheme : Text} (h : scheme = "http".toList ∨ scheme = "https".toList) :
    lower scheme = scheme := by
  rcases h with rfl | rfl <;> decide

theorem spelled_of_fixed (h : isSafeRemoteUrl P actorId = true)
    (hfixed : normalizeActivityPubActorId P actorId = some actorId) : Spelled P actorId := by
  obtain ⟨url,hparse,hne,hc,_⟩ := safe_url h
  have hv := Whatwg.parse_valid hparse
  rw [normalize_url hparse] at hfixed
  have htext := Option.some.inj hfixed
  have hrest : StartsPath (dropSlash (joined url.path ++ url.search)) := by
    rcases startsPath_url hv.nonempty with h | ⟨r,h⟩
    · exact .inl h
    · exact .inr ⟨r,.inl h⟩
  have hurl := lower_scheme hv.scheme
  rw [← htext] at hparse ⊢
  rw [← List.append_nil (_ ++ dropSlash _)] at hparse ⊢
  refine exists_spelling hparse hne hc (by rw [hurl]; exact hv.scheme) (by simp [hne]) hrest
    (.inl rfl) ?_ (.inr rfl)
  rw [hurl]
  exact normalizedAuthority_url hv hc

end spelling

theorem toLower_hostnameChar {c : Char} (h : isHostnameChar c = true) :
    isHostnameChar c.toLower = true := by
  by_cases hu : c.isUpper = true
  · have halpha : c.toLower.isAlpha = true := by
      rw [Char.isAlpha_toLower_eq_isAlpha]
      simp [Char.isAlpha,hu]
    simp [isHostnameChar,Char.isAlphanum,halpha]
  · rwa [Char.toLower_eq_of_not_isUpper hu]

theorem lower_lower (t : Text) : lower (lower t) = lower t := by
  simp [lower]

theorem slashed_of_slash {t : Text} (h : t = [] ∨ ∃ r, t = '/' :: r) : Sql.slashed t = t := by
  rcases h with rfl | ⟨r,rfl⟩ <;> rfl

theorem dropSlash_slash {t : Text} (h : t = [] ∨ ∃ r, t = '/' :: r) :
    dropSlash t = [] ∨ ∃ r, dropSlash t = '/' :: r := by
  have hs : StartsPath t := h.imp_right fun ⟨r,hr⟩ => ⟨r,.inl hr⟩
  rcases Sql.startsPath_dropSlash hs with hd | ⟨r,hd | hd⟩
  · exact .inl hd
  · exact .inr ⟨r,hd⟩
  · have hcases := dropSlash_cases t
    rw [hd] at hcases
    rcases h with rfl | ⟨r',rfl⟩
    · simp at hcases
    · simp at hcases

namespace Spelling

variable {P : Platform} (s : Spelling P)

/-- Up to the path: what `normal` and `folded` share. -/
def origin : Text :=
  lower s.scheme ++ "://".toList ++ (lower s.host ++ portText s.foldedPort)

theorem normal_eq : s.normal = s.origin ++ Sql.slashed (dropSlash s.rest) := rfl

theorem folded_eq : s.folded = s.origin ++ Sql.slashed s.rest := rfl

theorem lower_host_chars : ∀ c ∈ lower s.host, isHostnameChar c = true := by
  intro c hc
  obtain ⟨d,hd,rfl⟩ := List.mem_map.mp hc
  exact toLower_hostnameChar (s.hostChars.2 d hd)

theorem lower_authority_chars (port : Option Nat) :
    ∀ c ∈ lower s.host ++ portText port, isHostnameChar c = true ∨ c = ':' := by
  intro c hc
  rcases List.mem_append.mp hc with hc | hc
  · exact .inl (s.lower_host_chars c hc)
  · exact isHostnameChar_portText _ c hc

theorem foldedPort_ne : s.foldedPort ≠ some (Whatwg.defaultPort (lower s.scheme)) := by
  unfold foldedPort
  split
  · simp
  · assumption

theorem normalized_normal : Sql.normalized s.normal = some (dropSlash s.normal) := by
  have hrest := startsPath_slashed (Sql.startsPath_dropSlash s.startsPath_rest)
  have hpath : StartsPath (Sql.slashed (dropSlash s.rest)) :=
    hrest.imp_right fun ⟨r,hr⟩ => ⟨r,.inl hr⟩
  have hne : lower s.host ++ portText s.foldedPort ≠ [] := by
    simp [lower,s.hostChars.1]
  have hchars : ∀ c ∈ lower s.host ++ portText s.foldedPort,
      c ≠ '/' ∧ c ≠ '?' ∧ c ≠ '#' ∧ c ≠ '@' := by
    intro c hc
    obtain ⟨_,_,h1,h2,h3,h4,_⟩ := authorityChar_cases (s.lower_authority_chars _ c hc)
    exact ⟨h1,h2,h3,h4⟩
  have hhash : '#' ∉ Sql.slashed (dropSlash s.rest) := by
    intro hm
    have hmem : '#' ∈ s.rest := by
      unfold Sql.slashed at hm
      split at hm
      · exact mem_of_mem_dropSlash ((List.mem_cons.mp hm).resolve_left (by decide))
      · exact mem_of_mem_dropSlash hm
    exact (s.rest_chars _ hmem).2 rfl
  have hauthority : Sql.normalizedAuthority (lower s.scheme)
      (lower s.host ++ portText s.foldedPort) = lower s.host ++ portText s.foldedPort := by
    have hport := s.foldedPort_ne
    cases hp : s.foldedPort with
    | none =>
      simp only [portText,List.append_nil]
      rw [normalizedAuthority_host _ (not_mem_of_isHostnameChar s.lower_host_chars),lower_lower]
    | some n =>
      simp only [portText]
      rw [normalizedAuthority_port s.schemeWeb (isDigit_toDigits n),if_neg,lower_lower]
      intro h
      exact hport (hp.trans (congrArg some (toDigits_inj h)))
  have hfragment : ([] : Text) = [] ∨ ∃ f, ([] : Text) = '#' :: f := .inl rfl
  have hwritten := Sql.normalized_written (by rw [lower_lower]; exact s.schemeWeb) hne hchars
    hpath hhash hfragment
  rw [List.append_nil,lower_lower,hauthority,if_neg hne,
    slashed_of_slash (dropSlash_slash hrest)] at hwritten
  rw [normal,hwritten]
  by_cases hnil : Sql.slashed (dropSlash s.rest) = []
  · have hslash : '/' ∉ lower s.host ++ portText s.foldedPort := fun hc => (hchars _ hc).1 rfl
    rw [hnil,List.append_nil,dropSlash_append _ hne,dropSlash_of_avoids hslash]
    simp [dropSlash]
  · rw [dropSlash_append _ hnil]

end Spelling

end Yurucommu.ActorIdentity
