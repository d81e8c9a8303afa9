import Yurucommu.BlocklistCovers

/-!
The three decisions agree on an admitted actor, and a domain block covers it, whatever is
blocked, exactly when its id is spelled, its host ends with one dot at most, and nothing is left
to fold in it once scheme and host have small letters.
-/

set_option autoImplicit false

namespace Yurucommu.Blocklist

open Whatwg (Text lower)
open ActorIdentity

section promise

variable (P : Platform)

def TwoLabels (blockedDomains : List Text) : Prop :=
  ∀ domain ∈ blockedDomains, 2 ≤ (domain.splitOn '.').length

def Covered (domain actorApId : Text) : Prop :=
  ∃ url, Whatwg.parse P.parseHost actorApId = some url ∧
    Beneath (dropDot (lower url.hostname)) domain

structure BlockCovers (actorApId : Text) : Prop where
  covered : ∀ blockedDomains blockedActors, TwoLabels blockedDomains →
    (∃ domain ∈ blockedDomains, Covered P domain actorApId) →
      isActorBlockedStrict P blockedDomains blockedActors actorApId = true ∧
      (∀ actorApIds, actorApId ∈ actorApIds →
        actorApId ∈ filterBlockedActorApIds P blockedDomains blockedActors actorApIds) ∧
      operatorActorNotBlockedSql blockedDomains blockedActors actorApId = false
  agree : ∀ blockedDomains blockedActors, TwoLabels blockedDomains →
    ∀ actorApIds, actorApId ∈ actorApIds →
      (isActorBlockedStrict P blockedDomains blockedActors actorApId = true ↔
        actorApId ∈ filterBlockedActorApIds P blockedDomains blockedActors actorApIds) ∧
      (isActorBlockedStrict P blockedDomains blockedActors actorApId = true ↔
        operatorActorNotBlockedSql blockedDomains blockedActors actorApId = false)

end promise

section domains

variable {P : Platform} {blockedDomains blockedActors : List Text} {a n : Text}

theorem domainBlocked_iff (hD : TwoLabels blockedDomains) :
    DomainBlocked blockedDomains (if n = [] then none else some n) ↔
      ∃ domain ∈ blockedDomains, Beneath n domain := by
  have hdot : ∀ domain ∈ blockedDomains, '.' ∈ domain := fun domain hd =>
    mem_of_two_le_labels (hD domain hd)
  unfold DomainBlocked
  by_cases hn : n = []
  · simp only [hn,if_true]
    constructor
    · rintro ⟨_,h,_⟩
      cases h
    · rintro ⟨domain,hd,h | ⟨x,h⟩⟩
      · exact absurd (h ▸ hdot domain hd) (by simp)
      · simp at h
  · simp only [hn,if_false,Option.some.injEq,exists_eq_left']
    constructor
    · rintro ⟨domain,hc,hd⟩
      exact ⟨domain,hd,(mem_domainSuffixCandidates (hdot domain hd)).mp hc⟩
    · rintro ⟨domain,hd,h⟩
      exact ⟨domain,(mem_domainSuffixCandidates (hdot domain hd)).mpr h,hd⟩

theorem operatorActorNotBlockedSql_iff :
    operatorActorNotBlockedSql blockedDomains blockedActors a = false ↔
      Retained blockedActors a ∨
        ∃ host, Sql.hostname a = some host ∧ ∃ domain ∈ blockedDomains, Beneath host domain := by
  have hempty := isEmpty_matches_iff blockedActors a
  unfold operatorActorNotBlockedSql operatorActorDomainNotBlockedSql
  rw [Bool.and_eq_false_iff,Bool.not_eq_false',← Bool.not_eq_true,hempty,not_not]
  cases Sql.hostname a <;> simp [covers_iff]

end domains

section spelled

variable {P : Platform} {s : Spelling P}

theorem covered_iff (s : Spelling P) (domain : Text) :
    Covered P domain s.text ↔ Beneath (domainOf s) domain := by
  unfold Covered
  rw [s.parse_text]
  simp only [Option.some.injEq,exists_eq_left',lower_lower]
  rfl

theorem getLast?_lower {t : Text} {c : Char} (hc : c.isLower = false)
    (h : (lower t).getLast? = some c) : t.getLast? = some c := by
  rw [lower,List.getLast?_map] at h
  obtain ⟨d,hd,heq⟩ := Option.map_eq_some_iff.mp h
  rw [hd,toLower_eq_of_not_isLower heq hc]

theorem dropDot_domainOf (h : ¬"..".toList <:+ s.host) : dropDot (domainOf s) = domainOf s := by
  refine if_neg fun hlast => h ?_
  unfold domainOf dropDot at hlast
  split at hlast
  · rename_i hdot
    have hhost := getLast?_lower (by decide) hdot
    have hinit := List.dropLast_append_getLast? _ hhost
    rw [lower,← List.map_dropLast] at hlast
    have hagain := List.dropLast_append_getLast? _ (getLast?_lower (by decide) hlast)
    refine ⟨s.host.dropLast.dropLast,?_⟩
    rw [← hinit]
    nth_rewrite 2 [← hagain]
    simp
  · rename_i hdot
    exact absurd hlast hdot

theorem strict_iff {blockedDomains : List Text} (hD : TwoLabels blockedDomains)
    (blockedActors : List Text) (s : Spelling P) :
    isActorBlockedStrict P blockedDomains blockedActors s.text = true ↔
      Retained blockedActors s.text ∨
        domainOf s ≠ [] ∧ ∃ domain ∈ blockedDomains, Beneath (dropDot (domainOf s)) domain := by
  rw [isActorBlockedStrict_iff (Spelled.ne_nil ⟨s,rfl⟩),normalizeDomain_text]
  refine or_congr_right ?_
  by_cases hnil : domainOf s = []
  · simp [hnil,DomainBlocked]
  · rw [if_neg hnil,Option.bind_some,normalizeDomain_domainOf,domainBlocked_iff hD]
    simp [hnil]

theorem filter_iff {blockedDomains actorApIds : List Text} (hD : TwoLabels blockedDomains)
    (blockedActors : List Text) (hm : s.text ∈ actorApIds) :
    s.text ∈ filterBlockedActorApIds P blockedDomains blockedActors actorApIds ↔
      s.text ∈ blockedActors ∨ s.normal ∈ activityPubActorIdentitySetSql blockedActors ∨
        ∃ domain ∈ blockedDomains, Beneath (domainOf s) domain := by
  rw [mem_filterBlockedActorApIds_iff (Spelled.ne_nil ⟨s,rfl⟩) hm s.normalize_text,
    normalizeDomain_text,domainBlocked_iff hD]

theorem sql_iff (blockedDomains blockedActors : List Text) (s : Spelling P) :
    operatorActorNotBlockedSql blockedDomains blockedActors s.text = false ↔
      Retained blockedActors s.text ∨ ∃ domain ∈ blockedDomains, Beneath (domainOf s) domain := by
  rw [operatorActorNotBlockedSql_iff,hostname_text]
  simp

/-- Of a firm id, a row that retains it is the id itself or has its canonical text. -/
theorem retained_iff (h : Firm s) (blockedActors : List Text) :
    Retained blockedActors s.text ↔
      s.text ∈ blockedActors ∨ s.normal ∈ activityPubActorIdentitySetSql blockedActors := by
  have hvalues : ∀ value, value ∈ ActorIdentity.Sql.values s.text ↔
      value = s.text ∨ value = s.normal := by
    intro value
    simp [ActorIdentity.Sql.values,s.normalized_text]
  unfold Retained
  simp only [hvalues,mem_set_iff]
  constructor
  · rintro ⟨actor,ha,value,hv,rfl | rfl⟩
    · rcases List.mem_cons.mp hv with heq | hsql
      · exact .inl (heq ▸ ha)
      · have hsmall := small_of_normalized (Option.mem_toList.mp hsql)
        exact .inr ⟨actor,ha,hsmall.normal_eq_iff.mpr (h.small hsmall) ▸ hv⟩
    · exact .inr ⟨actor,ha,hv⟩
  · rintro (ha | ⟨actor,ha,hv⟩)
    · exact ⟨_,ha,_,List.mem_cons_self,.inl rfl⟩
    · exact ⟨actor,ha,_,hv,.inr rfl⟩

theorem domainOf_ne_nil {blockedDomains : List Text} (hD : TwoLabels blockedDomains)
    (h : ∃ domain ∈ blockedDomains, Beneath (domainOf s) domain) : domainOf s ≠ [] := by
  intro hnil
  have hblocked := (domainBlocked_iff hD).mpr h
  rw [if_pos hnil] at hblocked
  obtain ⟨_,hnone,_⟩ := hblocked
  cases hnone

theorem Firm.blockCovers (h : Firm s) : BlockCovers P s.text := by
  have hstrict : ∀ {blockedDomains : List Text} (blockedActors : List Text),
      TwoLabels blockedDomains →
      (isActorBlockedStrict P blockedDomains blockedActors s.text = true ↔
        Retained blockedActors s.text ∨ ∃ domain ∈ blockedDomains, Beneath (domainOf s) domain) := by
    intro blockedDomains blockedActors hD
    rw [strict_iff hD,dropDot_domainOf h.dots]
    refine or_congr_right ⟨fun hd => hd.2,fun hd => ⟨domainOf_ne_nil hD hd,hd⟩⟩
  constructor
  · intro blockedDomains blockedActors hD hcovered
    simp only [covered_iff] at hcovered
    refine ⟨(hstrict blockedActors hD).mpr (.inr hcovered),?_,
      (sql_iff blockedDomains blockedActors s).mpr (.inr hcovered)⟩
    intro actorApIds hm
    exact (filter_iff hD blockedActors hm).mpr (.inr (.inr hcovered))
  · intro blockedDomains blockedActors hD actorApIds hm
    rw [hstrict blockedActors hD,filter_iff hD blockedActors hm,sql_iff,retained_iff h,or_assoc]
    exact ⟨Iff.rfl,Iff.rfl⟩

end spelled

section covers

variable {P : Platform} {s : Spelling P} {a b n : Text}

theorem twoLabels_nil : TwoLabels [] := by
  intro domain hd
  cases hd

theorem retained_singleton : Retained [b] a ↔
    ∃ value ∈ ActorIdentity.Sql.values b, value ∈ ActorIdentity.Sql.values a := by
  simp [Retained]

theorem BlockCovers.agree_actor (h : BlockCovers P a) (ha : a ≠ [])
    (hn : normalizeActivityPubActorId P a = some n) (b : Text) :
    (∃ value ∈ ActorIdentity.Sql.values b, value ∈ ActorIdentity.Sql.values a) ↔
      a = b ∨ n ∈ ActorIdentity.Sql.values b := by
  have hnone : ∀ domain : Option Text, ¬DomainBlocked [] domain := by
    rintro domain ⟨_,_,_,_,hm⟩
    cases hm
  have hagree := (h.agree [] [b] twoLabels_nil [a] (List.mem_singleton.mpr rfl)).1
  rw [isActorBlockedStrict_iff ha,retained_singleton,
    mem_filterBlockedActorApIds_iff ha (List.mem_singleton.mpr rfl) hn] at hagree
  simpa [hnone,mem_set_iff] using hagree

theorem normalized_row (h : isSafeRemoteUrl P a = true)
    (hn : normalizeActivityPubActorId P a = some n) :
    ActorIdentity.Sql.normalized (n ++ "/#".toList) = some n := by
  obtain ⟨url,hparse,hne,hc,_⟩ := safe_url h
  have hv := Whatwg.parse_valid hparse
  have hscheme := lower_scheme hv.scheme
  have hchars : ∀ c ∈ url.hostname ++ portText url.port,
      c ≠ '/' ∧ c ≠ '?' ∧ c ≠ '#' ∧ c ≠ '@' := by
    intro c hm
    have hchar : isHostnameChar c = true ∨ c = ':' := by
      rcases List.mem_append.mp hm with hm | hm
      · exact .inl (hc c hm)
      · exact isHostnameChar_portText _ c hm
    obtain ⟨_,_,h1,h2,h3,h4,_⟩ := authorityChar_cases hchar
    exact ⟨h1,h2,h3,h4⟩
  have hrest := startsPath_url hv.nonempty
  have hhash : '#' ∉ dropSlash (Whatwg.joined url.path ++ url.search) := fun hm =>
    (rest_chars_of_eq hv (.inr rfl) _ hm).2 rfl
  rw [normalize_url hparse] at hn
  generalize dropSlash (Whatwg.joined url.path ++ url.search) = rest at *
  have hpath : Whatwg.StartsPath (rest ++ ['/']) :=
    ActorIdentity.Sql.startsPath_append_slash (hrest.imp_right fun ⟨r,hr⟩ => ⟨r,.inl hr⟩)
  have hhash' : '#' ∉ rest ++ ['/'] := by simp [hhash]
  have hfragment : ['#'] = [] ∨ ∃ f, ['#'] = '#' :: f := .inr ⟨[],rfl⟩
  have hwritten := ActorIdentity.Sql.normalized_written (by rw [hscheme]; exact hv.scheme)
    (by simp [hne]) hchars hpath hhash' hfragment
  rw [hscheme,normalizedAuthority_url hv hc,dropSlash_append_slash,slashed_of_slash hrest,
    if_neg (by simp [hne]),Option.some.inj hn] at hwritten
  rw [← hwritten,← Option.some.inj hn]
  simp

theorem BlockCovers.spelled (h : BlockCovers P a) (hsafe : isSafeRemoteUrl P a = true) :
    Spelled P a := by
  obtain ⟨url,hparse,hne,_⟩ := safe_url hsafe
  have hn := normalize_url hparse
  have ha : a ≠ [] := by
    rintro rfl
    cases hparse
  generalize url.scheme ++ "://".toList ++ (url.hostname ++ portText url.port) ++
    dropSlash (Whatwg.joined url.path ++ url.search) = n at hn
  have hrow := normalized_row hsafe hn
  have hagree := (h.agree_actor ha hn (n ++ "/#".toList)).mpr
    (.inr (List.mem_cons_of_mem _ (Option.mem_toList.mpr hrow)))
  have hsql : ActorIdentity.Sql.normalized a = some n → Spelled P a := fun hsql =>
    (normalized_iff hsafe).mp (hsql.trans hn.symm)
  simp only [ActorIdentity.Sql.values,hrow,Option.toList_some,List.mem_cons,List.not_mem_nil,
    or_false,Option.mem_toList,exists_eq_or_imp,exists_eq_left] at hagree
  rcases hagree with (heq | hnorm) | heq | hnorm
  · exact hsql (heq ▸ hrow)
  · exact absurd (by simp) (not_mem_normalized hnorm)
  · exact spelled_of_fixed hsafe (by rw [← heq]; rw [← heq] at hn; exact hn)
  · exact hsql hnorm

theorem BlockCovers.dots (h : BlockCovers P s.text) : ¬"..".toList <:+ s.host := by
  rintro ⟨x,hx⟩
  have hlower : lower s.host = lower x ++ ['.'] ++ ['.'] := by
    rw [← hx]
    simp [lower]
  have hdomain : domainOf s = lower x ++ ['.'] := by
    simp [domainOf,dropDot,hlower]
  have htwo : TwoLabels [domainOf s] := by
    intro domain hd
    rw [List.mem_singleton.mp hd,hdomain]
    exact two_le_labels (by simp)
  have hcovered : ∃ domain ∈ [domainOf s], Covered P domain s.text :=
    ⟨_,List.mem_singleton.mpr rfl,(covered_iff s _).mpr (.inl rfl)⟩
  rcases (strict_iff htwo [] s).mp (h.covered _ [] htwo hcovered).1 with ⟨_,hm,_⟩ | ⟨_,d,hd,hb⟩
  · cases hm
  · rw [List.mem_singleton.mp hd,hdomain] at hb
    have hdrop : dropDot (lower x ++ ['.']) = lower x := by simp [dropDot]
    rw [hdrop] at hb
    rcases hb with heq | ⟨y,heq⟩
    · simpa using congrArg List.length heq
    · have hlen := congrArg List.length heq
      simp only [List.length_append,List.length_cons] at hlen
      omega

theorem Small.normalized_row (h : Small s) : ActorIdentity.Sql.normalized
    (s.scheme ++ "://".toList ++
      (s.authority ++ portText (some (Whatwg.defaultPort s.scheme))) ++ (s.rest ++ ['/'])) =
      some s.text := by
  have hscheme : s.scheme = "http".toList ∨ s.scheme = "https".toList := by
    rw [← h.scheme]
    exact s.schemeWeb
  have hauthority : lower s.authority = s.authority := by
    rw [lower_authority_text,h.host]
    rfl
  have hchars : ∀ c ∈ s.authority ++ portText (some (Whatwg.defaultPort s.scheme)),
      c ≠ '/' ∧ c ≠ '?' ∧ c ≠ '#' ∧ c ≠ '@' := by
    intro c hm
    have hchar : isHostnameChar c = true ∨ c = ':' := by
      rcases List.mem_append.mp hm with hm | hm
      · exact s.authority_chars c hm
      · exact isHostnameChar_portText _ c hm
    obtain ⟨_,_,h1,h2,h3,h4,_⟩ := authorityChar_cases hchar
    exact ⟨h1,h2,h3,h4⟩
  have hpath := ActorIdentity.Sql.startsPath_append_slash s.startsPath_rest
  have hhash : '#' ∉ s.rest ++ ['/'] := by
    have hrest : '#' ∉ s.rest := fun hm => (s.rest_chars _ hm).2 rfl
    simp [hrest]
  have hfragment : ([] : Text) = [] ∨ ∃ f, ([] : Text) = '#' :: f := .inl rfl
  have hport : ActorIdentity.Sql.normalizedAuthority s.scheme
      (s.authority ++ portText (some (Whatwg.defaultPort s.scheme))) = s.authority := by
    rw [portText,normalizedAuthority_port hscheme (isDigit_toDigits _),if_pos rfl,hauthority]
  have hwritten := ActorIdentity.Sql.normalized_written s.schemeWeb (by simp [s.authority_ne_nil])
    hchars hpath hhash hfragment
  rw [h.scheme,hport,dropSlash_append_slash,slashed_of_slash h.rest_cases,
    if_neg s.authority_ne_nil,List.append_nil] at hwritten
  rw [hwritten,h.text_eq]
  rfl

theorem BlockCovers.normal_eq (h : BlockCovers P s.text) (hs : Small s) : s.normal = s.text := by
  have hrow := hs.normalized_row
  have hlen := hs.length_normal
  have hagree := h.agree_actor (Spelled.ne_nil ⟨s,rfl⟩) s.normalize_text
    (s.scheme ++ "://".toList ++
      (s.authority ++ portText (some (Whatwg.defaultPort s.scheme))) ++ (s.rest ++ ['/']))
  have htext : s.text.length < (s.scheme ++ "://".toList ++
      (s.authority ++ portText (some (Whatwg.defaultPort s.scheme))) ++
        (s.rest ++ ['/'])).length := by
    rw [hs.text_eq]
    simp [Spelling.authority]
    omega
  generalize s.scheme ++ "://".toList ++ (s.authority ++
    portText (some (Whatwg.defaultPort s.scheme))) ++ (s.rest ++ ['/']) = row at *
  have hself : s.text ∈ ActorIdentity.Sql.values row := by
    simp [ActorIdentity.Sql.values,hrow]
  rcases hagree.mp ⟨s.text,hself,List.mem_cons_self⟩ with heq | hm
  · rw [heq] at htext
    exact absurd htext (Nat.lt_irrefl _)
  · rcases List.mem_cons.mp hm with heq | hsql
    · rw [← heq] at htext
      omega
    · exact Option.some.inj ((Option.mem_toList.mp hsql).symm.trans hrow)

/-- The decisions cover an admitted id and agree on it, whatever is blocked, exactly when its id
is spelled and firm. -/
theorem block_covers_iff (h : isSafeRemoteUrl P a = true) :
    BlockCovers P a ↔ ∃ s : Spelling P, s.text = a ∧ Firm s := by
  constructor
  · intro hcovers
    obtain ⟨s,rfl⟩ := hcovers.spelled h
    exact ⟨s,rfl,hcovers.dots,fun hs => hs.normal_eq_iff.mp (hcovers.normal_eq hs)⟩
  · rintro ⟨s,rfl,hs⟩
    exact hs.blockCovers

theorem block_covers_iff_port :
    BlockCovers plainHosts "https://b.example:443/users/x".toList ↔
      ∃ s : Spelling plainHosts, s.text = "https://b.example:443/users/x".toList ∧ Firm s :=
  block_covers_iff (by decide)

/-- With a single slash behind the scheme the host is beneath no blocked domain. -/
theorem single_slash_uncovered : ¬∀ (P : Platform) (actorApId : Text),
    isSafeRemoteUrl P actorApId = true → BlockCovers P actorApId := by
  intro h
  have hcovers := h plainHosts "https:/evil.example/users/x".toList (by decide)
  have hblocked := hcovers.covered ["evil.example".toList] [] (by
    intro domain hd
    rw [List.mem_singleton.mp hd]
    decide) ⟨_,List.mem_singleton.mpr rfl,_,rfl,.inl (by decide)⟩
  exact absurd hblocked.1 (by decide)

end covers

end Yurucommu.Blocklist
