import Yurucommu.Blocklist

/-!
What each decision comes to: rows that retain the actor, and domains its host is beneath.
-/

set_option autoImplicit false

namespace Yurucommu.Blocklist

open Whatwg (Text lower)
open ActorIdentity

section chunks

theorem mem_chunks_iff {l : List Text} {x : Text} :
    (∃ chunk ∈ chunks l, x ∈ chunk) ↔ x ∈ l := by
  constructor
  · rintro ⟨chunk,hc,hx⟩
    obtain ⟨i,_,rfl⟩ := List.mem_map.mp hc
    exact List.mem_of_mem_drop (List.mem_of_mem_take hx)
  · intro hx
    obtain ⟨k,hk,rfl⟩ := List.getElem_of_mem hx
    have hdiv := Nat.div_add_mod k blocklistInChunk
    have hmod := Nat.mod_lt k (by decide : 0 < blocklistInChunk)
    refine ⟨_,List.mem_map.mpr ⟨k / blocklistInChunk,?_,rfl⟩,?_⟩
    · rw [List.mem_range,Nat.lt_div_iff_mul_lt (by decide),Nat.mul_comm]
      omega
    · have hlen : k % blocklistInChunk <
          (l.drop (blocklistInChunk * (k / blocklistInChunk))).length := by
        rw [List.length_drop]
        omega
      refine List.mem_take_iff_getElem.mpr ⟨k % blocklistInChunk,by omega,?_⟩
      rw [List.getElem_drop]
      simp only [hdiv]

theorem mem_flatMap_chunks {l rows : List Text} {x : Text} :
    x ∈ (chunks l).flatMap (fun chunk => rows.filter fun row => row ∈ chunk) ↔ x ∈ rows ∧ x ∈ l := by
  rw [← mem_chunks_iff (l := l)]
  simp only [List.mem_flatMap,List.mem_filter,decide_eq_true_eq]
  tauto

end chunks

section candidates

variable {n d : Text}

theorem two_le_labels (h : '.' ∈ d) : 2 ≤ (d.splitOn '.').length := by
  obtain ⟨before,after,rfl⟩ := List.append_of_mem h
  have hbefore := List.length_pos_iff.mpr (List.splitOn_ne_nil '.' before)
  have hafter := List.length_pos_iff.mpr (List.splitOn_ne_nil '.' after)
  rw [List.splitOn_append_cons_self,List.length_append]
  omega

theorem mem_of_two_le_labels (h : 2 ≤ (d.splitOn '.').length) : '.' ∈ d := by
  by_contra hd
  rw [List.splitOn_eq_singleton hd] at h
  simp at h

theorem intercalate_append {as bs : List Text} (ha : as ≠ []) (hb : bs ≠ []) :
    ['.'].intercalate (as ++ bs) = ['.'].intercalate as ++ '.' :: ['.'].intercalate bs := by
  induction as with
  | nil => exact absurd rfl ha
  | cons t as ih =>
    cases as with
    | nil => simp [List.intercalate_cons_of_ne_nil hb]
    | cons t' as =>
      have hrest := ih (by simp)
      simp only [List.cons_append] at hrest ⊢
      rw [List.intercalate_cons_cons,hrest,List.intercalate_cons_cons]
      simp

def Beneath (host domain : Text) : Prop := host = domain ∨ ∃ x, host = x ++ '.' :: domain

theorem beneath_of_candidate (h : d ∈ domainSuffixCandidates n) : Beneath n d := by
  unfold domainSuffixCandidates at h
  simp only [List.length_map,List.length_range] at h
  split at h
  · exact .inl (List.mem_singleton.mp h).symm
  · simp only [List.mem_map,List.mem_range] at h
    obtain ⟨i,hi,rfl⟩ := h
    cases i with
    | zero => exact .inl (List.intercalate_splitOn '.').symm
    | succ i =>
      right
      have hsplit := List.take_append_drop (i + 1) (n.splitOn '.')
      refine ⟨['.'].intercalate ((n.splitOn '.').take (i + 1)),?_⟩
      rw [← intercalate_append,hsplit,List.intercalate_splitOn]
      · simp [List.take_eq_nil_iff]
      · intro hnil
        rw [List.drop_eq_nil_iff] at hnil
        omega

theorem mem_domainSuffixCandidates (hd : '.' ∈ d) :
    d ∈ domainSuffixCandidates n ↔ Beneath n d := by
  refine ⟨beneath_of_candidate,?_⟩
  have htwo := two_le_labels hd
  have hbehind : ∀ x, n = x ++ '.' :: d → n.splitOn '.' = x.splitOn '.' ++ d.splitOn '.' := by
    rintro x rfl
    exact List.splitOn_append_cons_self x d
  unfold domainSuffixCandidates
  simp only [List.length_map,List.length_range]
  split
  · rename_i hone
    rw [List.mem_singleton]
    rintro (h | ⟨x,hx⟩)
    · exact h.symm
    · have hlen := congrArg List.length (hbehind x hx)
      have hpos := List.length_pos_iff.mpr (List.splitOn_ne_nil '.' x)
      rw [List.length_append] at hlen
      omega
  · rename_i hmany
    simp only [List.mem_map,List.mem_range]
    rintro (rfl | ⟨x,hx⟩)
    · exact ⟨0,by omega,List.intercalate_splitOn '.'⟩
    · have hlabels := hbehind x hx
      refine ⟨(x.splitOn '.').length,?_,?_⟩
      · rw [hlabels,List.length_append]
        omega
      · rw [hlabels,List.drop_left,List.intercalate_splitOn]

/-- So does SQL compare, from the end. -/
theorem covers_iff : Sql.covers n d = true ↔ Beneath n d := by
  unfold Sql.covers Beneath
  rw [Bool.or_eq_true,decide_eq_true_eq,decide_eq_true_eq,Sqlite.substrFrom_neg _ _ (by simp)]
  refine or_congr_right ⟨?_,?_⟩
  · intro h
    refine ⟨n.take (n.length - ('.' :: d).length),?_⟩
    have hsplit := List.take_append_drop (n.length - ('.' :: d).length) n
    rw [h] at hsplit
    exact hsplit.symm
  · rintro ⟨x,rfl⟩
    simp

end candidates

section decisions

variable {P : Platform} {blockedDomains blockedActors actorApIds : List Text} {a n : Text}

/-- Some blocked row's values and the actor's have a common one. -/
def Retained (blockedActors : List Text) (a : Text) : Prop :=
  ∃ actor ∈ blockedActors, ∃ value ∈ ActorIdentity.Sql.values actor, value ∈ ActorIdentity.Sql.values a

theorem mem_matches_iff {actor : Text} :
    actor ∈ activityPubActorIdentityMatchesSql blockedActors a ↔
      actor ∈ blockedActors ∧
        ∃ value ∈ ActorIdentity.Sql.values actor, value ∈ ActorIdentity.Sql.values a := by
  simp [activityPubActorIdentityMatchesSql]

theorem isEmpty_matches_iff (blockedActors : List Text) (a : Text) :
    (activityPubActorIdentityMatchesSql blockedActors a).isEmpty = true ↔
      ¬Retained blockedActors a := by
  rw [List.isEmpty_iff,List.eq_nil_iff_forall_not_mem]
  simp [mem_matches_iff,Retained]

theorem normalized_ne_nil (a : Text) : ActorIdentity.Sql.normalized a ≠ some [] := by
  intro h
  unfold ActorIdentity.Sql.normalized at h
  obtain ⟨_,h⟩ := Option.ite_none_right_eq_some.mp h
  obtain ⟨h,_⟩ := List.append_eq_nil_iff.mp (Option.some.inj h)
  obtain ⟨h,_⟩ := List.append_eq_nil_iff.mp h
  exact absurd (List.append_eq_nil_iff.mp h).2 (by decide)

theorem nil_not_mem_values (ha : a ≠ []) : [] ∉ ActorIdentity.Sql.values a := by
  intro hm
  rcases List.mem_cons.mp hm with h | h
  · exact ha h.symm
  · exact normalized_ne_nil a (Option.mem_toList.mp h)

theorem head?_matches_iff (blockedActors : List Text) (ha : a ≠ []) :
    (activityPubActorIdentityMatchesSql blockedActors a).head?.any (· ≠ []) = true ↔
      Retained blockedActors a := by
  have hnil : [] ∉ activityPubActorIdentityMatchesSql blockedActors a := by
    intro hm
    obtain ⟨_,value,hv,hva⟩ := mem_matches_iff.mp hm
    have hvalue : value = [] := by
      have hnone : ActorIdentity.Sql.values [] = [[]] := by decide
      rw [hnone] at hv
      exact List.mem_singleton.mp hv
    exact nil_not_mem_values ha (hvalue ▸ hva)
  have hempty := isEmpty_matches_iff blockedActors a
  cases hh : activityPubActorIdentityMatchesSql blockedActors a with
  | nil =>
    rw [hh] at hempty
    simpa using hempty.mp rfl
  | cons x xs =>
    rw [hh] at hempty hnil
    have hx : x ≠ [] := fun hx => hnil (by simp [hx])
    simpa [hx] using hempty

theorem mem_set_iff : n ∈ activityPubActorIdentitySetSql blockedActors ↔
    ∃ actor ∈ blockedActors, n ∈ ActorIdentity.Sql.values actor := by
  simp [activityPubActorIdentitySetSql]

def DomainBlocked (blockedDomains : List Text) (domain : Option Text) : Prop :=
  ∃ d, domain = some d ∧ ∃ candidate ∈ domainSuffixCandidates d, candidate ∈ blockedDomains

theorem isDomainBlockedStrict_iff : isDomainBlockedStrict P blockedDomains a = true ↔
    DomainBlocked blockedDomains (normalizeDomain P a) := by
  unfold isDomainBlockedStrict DomainBlocked
  cases normalizeDomain P a <;> simp

theorem isActorBlockedStrict_iff (ha : a ≠ []) :
    isActorBlockedStrict P blockedDomains blockedActors a = true ↔
      Retained blockedActors a ∨
        DomainBlocked blockedDomains ((normalizeDomain P a).bind (normalizeDomain P)) := by
  have hself : a ∈ blockedActors → Retained blockedActors a := by
    intro hm
    refine ⟨a,hm,a,?_,?_⟩ <;> simp [ActorIdentity.Sql.values]
  have hlen : ¬a.length = 0 := by simpa using ha
  have hmatches := head?_matches_iff blockedActors ha
  unfold isActorBlockedStrict
  rw [if_neg hlen]
  by_cases hactor : a ∈ blockedActors
  · simp [hactor,hself hactor]
  · rw [if_neg hactor]
    by_cases hr : Retained blockedActors a
    · rw [if_pos (hmatches.mpr hr)]
      simp [hr]
    · rw [if_neg fun h => hr (hmatches.mp h)]
      simp only [hr,false_or]
      cases normalizeDomain P a with
      | none => simp [DomainBlocked]
      | some domain => exact isDomainBlockedStrict_iff

theorem mem_filterBlockedActorApIds_iff (ha : a ≠ []) (hm : a ∈ actorApIds)
    (hn : normalizeActivityPubActorId P a = some n) :
    a ∈ filterBlockedActorApIds P blockedDomains blockedActors actorApIds ↔
      a ∈ blockedActors ∨ n ∈ activityPubActorIdentitySetSql blockedActors ∨
        DomainBlocked blockedDomains (normalizeDomain P a) := by
  have hlen : 0 < a.length := List.length_pos_iff.mpr ha
  have hunique : a ∈ (actorApIds.filter fun id => 0 < id.length).dedup := by
    simp [hm,hlen]
  have hidentity : n ∈ ((actorApIds.filter fun id => 0 < id.length).dedup.filterMap
      (normalizeActivityPubActorId P)).dedup := by
    rw [List.mem_dedup,List.mem_filterMap]
    exact ⟨a,hunique,hn⟩
  unfold filterBlockedActorApIds
  simp only [List.mem_filter,hunique,true_and,Bool.or_eq_true,decide_eq_true_eq,
    mem_flatMap_chunks,and_true,hn,Option.any_some,hidentity,List.any_eq_true,or_assoc]
  refine or_congr_right (or_congr_right ?_)
  constructor
  · rintro ⟨candidate,hc,hblocked,_⟩
    cases hd : normalizeDomain P a with
    | none =>
      rw [hd] at hc
      cases hc
    | some domain =>
      rw [hd] at hc
      exact ⟨domain,rfl,candidate,hc,hblocked⟩
  · rintro ⟨domain,hd,candidate,hc,hblocked⟩
    refine ⟨candidate,by rw [hd]; exact hc,hblocked,?_⟩
    rw [List.mem_dedup,List.mem_flatMap]
    exact ⟨a,hunique,by rw [hd]; exact hc⟩

end decisions

section spelled

variable {P : Platform} (s : Spelling P)

theorem isHostnameChar_lt {c : Char} (h : isHostnameChar c = true) : c.toNat < 128 := by
  simp only [isHostnameChar,Bool.or_eq_true,decide_eq_true_eq] at h
  rcases h with (h | rfl) | rfl
  · simp only [Char.isAlphanum,Char.isDigit,Char.isAlpha,Char.isUpper,Char.isLower,
      Bool.or_eq_true,Bool.and_eq_true,decide_eq_true_eq,ge_iff_le,UInt32.le_iff_toNat_le] at h
    have htoNat : c.toNat = c.val.toNat := rfl
    have h9 : '9'.val.toNat = 57 := rfl
    have hZ : 'Z'.val.toNat = 90 := rfl
    have hz : 'z'.val.toNat = 122 := rfl
    omega
  · decide
  · decide

theorem not_isJsSpace {c : Char} (h : isHostnameChar c = true) : isJsSpace c = false := by
  have hlow := (isHostnameChar_cases h).1
  have hhigh := isHostnameChar_lt h
  simp [isJsSpace]
  omega

theorem trim_host {t : Text} (h : ∀ c ∈ t, isHostnameChar c = true) : trim t = t := by
  have hspace : ∀ c ∈ t, isJsSpace c = false := fun c hc => not_isJsSpace (h c hc)
  have hdrop : t.dropWhile isJsSpace = t := by
    cases t with
    | nil => rfl
    | cons c t => simp [hspace c List.mem_cons_self]
  rw [trim,hdrop]
  exact Whatwg.rdropWhile_of_avoids hspace

def domainOf : Text := dropDot (lower s.host)

theorem toLowerCase_host {t : Text} (h : ∀ c ∈ t, isHostnameChar c = true) :
    P.toLowerCase t = lower t :=
  P.toLowerCase_ascii t fun c hc => isHostnameChar_lt (h c hc)

theorem lower_dropDot {t : Text} (h : lower t = t) : lower (dropDot t) = dropDot t := by
  unfold dropDot
  split
  · have hmap : t.map Char.toLower = t := h
    rw [lower,List.map_dropLast,hmap]
  · exact h

theorem lower_domainOf : lower (domainOf s) = domainOf s := lower_dropDot (lower_lower _)

theorem dropDot_chars {t : Text} (h : ∀ c ∈ t, isHostnameChar c = true) :
    ∀ c ∈ dropDot t, isHostnameChar c = true := by
  intro c hc
  unfold dropDot at hc
  split at hc
  · exact h c (List.dropLast_subset _ hc)
  · exact h c hc

theorem domainOf_chars : ∀ c ∈ domainOf s, isHostnameChar c = true :=
  dropDot_chars s.lower_host_chars

theorem normalize_hostname {t : Text} (hc : ∀ c ∈ t, isHostnameChar c = true)
    (hl : lower t = t) :
    (if 0 < (P.toLowerCase (dropDot (trim t))).length then
        some (P.toLowerCase (dropDot (trim t))) else none) =
      if dropDot t = [] then none else some (dropDot t) := by
  rw [trim_host hc,toLowerCase_host (dropDot_chars hc),lower_dropDot hl]
  by_cases h : dropDot t = []
  · simp [h]
  · rw [if_pos (List.length_pos_iff.mpr h),if_neg h]

theorem normalizeDomain_text : normalizeDomain P s.text =
    if domainOf s = [] then none else some (domainOf s) := by
  have hinfix : "://".toList <:+: s.text := by
    refine ⟨s.scheme,s.authority ++ s.rest ++ fragmentText s.fragment,?_⟩
    simp [Spelling.text]
  rw [normalizeDomain,if_pos hinfix,s.parse_text]
  exact normalize_hostname s.lower_host_chars (lower_lower _)

theorem normalizeDomain_domainOf : normalizeDomain P (domainOf s) =
    if dropDot (domainOf s) = [] then none else some (dropDot (domainOf s)) := by
  have hinfix : ¬"://".toList <:+: domainOf s := by
    intro h
    have hm : ':' ∈ domainOf s := h.subset (by simp)
    exact not_mem_of_isHostnameChar (domainOf_chars s) hm
  rw [normalizeDomain,if_neg hinfix]
  exact normalize_hostname (domainOf_chars s) (lower_domainOf s)

theorem fragmentless_text :
    ActorIdentity.Sql.fragmentless s.text = s.scheme ++ "://".toList ++ s.authority ++ s.rest := by
  refine ActorIdentity.Sql.fragmentless_written ?_ (Spelling.fragmentText_cases _)
  simp only [List.mem_append,not_or]
  refine ⟨⟨⟨?_,by simp⟩,?_⟩,?_⟩
  · exact fun hm => absurd (Whatwg.isAlpha_scheme s.schemeWeb _ hm) (by decide)
  · intro hm
    rcases s.authority_chars _ hm with h | h
    · exact absurd h (by decide)
    · cases h
  · exact fun hm => (s.rest_chars _ hm).2 rfl

theorem startsPath_lower {t : Text} (h : Whatwg.StartsPath t) : Whatwg.StartsPath (lower t) := by
  rcases h with rfl | ⟨r,rfl | rfl⟩
  · exact .inl rfl
  · exact .inr ⟨lower r,.inl rfl⟩
  · exact .inr ⟨lower r,.inr rfl⟩

theorem lower_authority_text : lower s.authority = lower s.host ++ portText s.port := by
  unfold Spelling.authority
  cases s.port with
  | none => simp [portText]
  | some n => exact lower_authority (isDigit_toDigits n)

theorem host_authority : Sql.host (lower s.authority) = lower s.host := by
  rw [lower_authority_text]
  have hcolon := not_mem_of_isHostnameChar s.lower_host_chars
  have hbracket : Sqlite.substr (lower s.host ++ portText s.port) 1 1 ≠ ['['] := by
    intro h
    have htake := Sqlite.substr_take (lower s.host ++ portText s.port) 1
    have hm : '[' ∈ lower s.host ++ portText s.port := by
      refine List.mem_of_mem_take (i := 1) ?_
      rw [← htake,Int.natCast_one,h]
      simp
    exact (authorityChar_cases (s.lower_authority_chars _ _ hm)).2.2.2.2.2.2 rfl
  unfold Sql.host
  rw [if_neg (by simp [hbracket])]
  cases s.port with
  | none => simp [portText,Sqlite.instr_char_none _ _ hcolon]
  | some n =>
    have hinstr : Sqlite.instr (lower s.host ++ portText (some n)) [':'] =
        (lower s.host).length + 1 := Sqlite.instr_char (Nat.toDigits 10 n) hcolon
    have hlen : (((lower s.host).length + 1 : Nat) : Int) - 1 = ((lower s.host).length : Int) := by
      omega
    rw [hinstr,if_pos (Nat.succ_pos _),hlen,Sqlite.substr_take,List.take_left]

theorem hostname_text : Sql.hostname s.text = some (domainOf s) := by
  have hcolon : ':' ∉ lower s.scheme := by
    rcases s.schemeWeb with h | h <;> simp [h]
  have htext : Sqlite.lower (s.scheme ++ "://".toList ++ s.authority ++ s.rest) =
      lower s.scheme ++ "://".toList ++ (lower s.authority ++ lower s.rest) := by
    simp [Sqlite.lower,lower]
  have hseparator : Sql.separator (s.scheme ++ "://".toList ++ s.authority ++ s.rest) =
      (lower s.scheme).length + 1 := by
    have h := Sqlite.instr_append "//".toList (lower s.authority ++ lower s.rest) hcolon
    rw [Sql.separator,htext]
    simpa using h
  have hweb := s.schemeWeb
  have hpos : 1 < (lower s.scheme).length + 1 := by
    rcases hweb with h | h <;> simp [h]
  generalize hbody : s.scheme ++ "://".toList ++ s.authority ++ s.rest = body at *
  generalize lower s.scheme = scheme at *
  have htail : Sql.tail body = lower s.authority ++ lower s.rest := by
    have hlen : ((scheme.length + 1 : Nat) : Int) + 3 = ((scheme.length + 3 : Nat) : Int) + 1 := by
      omega
    rw [Sql.tail,hseparator,hlen,Sqlite.substrFrom_succ,htext]
    simp
  have hscheme : Sql.scheme body = scheme := by
    have hlen : ((scheme.length + 1 : Nat) : Int) - 1 = (scheme.length : Int) := by omega
    rw [Sql.scheme,hseparator,hlen,Sqlite.substr_take,htext]
    simp
  have hchars : ∀ c ∈ lower s.authority, c ≠ '/' ∧ c ≠ '?' ∧ c ≠ '@' := by
    intro c hc
    rw [lower_authority_text] at hc
    obtain ⟨_,_,h1,h2,_,h3,_⟩ := authorityChar_cases (s.lower_authority_chars _ c hc)
    exact ⟨h1,h2,h3⟩
  have hauthority : ActorIdentity.Sql.authority (Sql.tail body) = lower s.authority := by
    rw [htail]
    exact ActorIdentity.Sql.authority_written (fun c hc => ⟨(hchars c hc).1,(hchars c hc).2.1⟩)
      (startsPath_lower s.startsPath_rest)
  have hat : Sqlite.instr (lower s.authority) ['@'] = 0 :=
    Sqlite.instr_char_none _ _ fun hm => (hchars _ hm).2.2 rfl
  have hne : 0 < (lower s.authority).length := by
    have := List.length_pos_iff.mpr s.authority_ne_nil
    simpa [lower] using this
  have hweb' : (decide (scheme = "http".toList) || decide (scheme = "https".toList)) = true := by
    rw [Bool.or_eq_true,decide_eq_true_eq,decide_eq_true_eq]
    exact hweb
  rw [Sql.hostname,fragmentless_text,hbody]
  simp only [hauthority,hseparator,hscheme,hat,hweb',hpos,hne,decide_true,Bool.and_true,if_true,
    host_authority]
  exact congrArg some (Sqlite.substr_dropLast (lower s.host) '.')

end spelled

section small

variable {P : Platform} {s : Spelling P}

/-- Scheme and host in small letters, no fragment, and a path before the query. -/
structure Small (s : Spelling P) : Prop where
  scheme : lower s.scheme = s.scheme
  host : lower s.host = s.host
  fragment : s.fragment = none
  path : s.path = [] → s.query = none

/-- One dot at most at the end of the host, and nothing left to fold in small letters. -/
structure Firm (s : Spelling P) : Prop where
  dots : ¬"..".toList <:+ s.host
  small : Small s →
    s.port ≠ some (Whatwg.defaultPort s.scheme) ∧ s.text.getLast? ≠ some '/'

theorem Small.text_eq (h : Small s) :
    s.text = s.scheme ++ "://".toList ++ (s.host ++ portText s.port) ++ s.rest := by
  simp [Spelling.text,h.fragment,fragmentText,Spelling.authority]

theorem Small.rest_cases (h : Small s) : s.rest = [] ∨ ∃ r, s.rest = '/' :: r := by
  unfold Spelling.rest
  cases hp : s.path with
  | nil => simp [h.path hp,queryText,Whatwg.joined]
  | cons t path => exact .inr ⟨_,rfl⟩

theorem Small.normal_text (h : Small s) : s.normal =
    s.scheme ++ "://".toList ++ (s.host ++ portText s.foldedPort) ++ dropSlash s.rest := by
  rw [Spelling.normal,slashed_of_slash (dropSlash_slash h.rest_cases),h.scheme,h.host]

theorem length_dropSlash (t : Text) : (dropSlash t).length ≤ t.length := by
  unfold dropSlash
  split <;> simp

theorem Small.length_normal (h : Small s) : s.normal.length ≤ s.text.length := by
  have hport : (portText s.foldedPort).length ≤ (portText s.port).length := by
    unfold Spelling.foldedPort
    split <;> simp [portText]
  have hrest := length_dropSlash s.rest
  rw [h.normal_text,h.text_eq]
  simp only [List.length_append]
  omega

theorem Small.getLast?_text (h : Small s) :
    s.text.getLast? = some '/' ↔ s.rest.getLast? = some '/' := by
  rw [h.text_eq,List.getLast?_append]
  cases hl : s.rest.getLast? with
  | some c => simp
  | none =>
    have hne : s.host ++ portText s.port ≠ [] := s.authority_ne_nil
    have hlast := s.authority_chars _ (List.getLast_mem hne)
    have hslash : (s.host ++ portText s.port).getLast hne ≠ '/' := by
      intro heq
      exact absurd (heq ▸ hlast) (by decide)
    rw [List.getLast?_append,List.getLast?_eq_some_getLast hne]
    simpa using hslash

theorem Small.normal_eq_iff (h : Small s) : s.normal = s.text ↔
    s.port ≠ some (Whatwg.defaultPort s.scheme) ∧ s.text.getLast? ≠ some '/' := by
  have hlen := length_dropSlash s.rest
  rw [Ne,Ne,h.getLast?_text,h.normal_text,h.text_eq]
  by_cases hp : s.port = some (Whatwg.defaultPort s.scheme)
  · have hport : s.foldedPort = none := by
      rw [Spelling.foldedPort,h.scheme,if_pos hp]
    simp only [hp,not_true_eq_false,false_and,iff_false]
    intro heq
    have hlength := congrArg List.length heq
    simp only [hport,portText,List.length_append,List.length_cons,List.length_nil] at hlength
    omega
  · have hport : s.foldedPort = s.port := by
      rw [Spelling.foldedPort,h.scheme,if_neg hp]
    rw [hport,List.append_cancel_left_eq]
    by_cases hl : s.rest.getLast? = some '/'
    · simp [hl,dropSlash_ne hl]
    · simp [hp,hl,dropSlash]

theorem lower_eq_iff {t : Text} : lower t = t ↔ ∀ c ∈ t, c.toLower = c := by
  induction t with
  | nil => simp [lower]
  | cons c t ih =>
    simp only [lower,List.map_cons,List.cons.injEq,List.forall_mem_cons] at ih ⊢
    rw [ih]

theorem lower_normalizedAuthority (scheme authority : Text) :
    lower (ActorIdentity.Sql.normalizedAuthority scheme authority) =
      ActorIdentity.Sql.normalizedAuthority scheme authority := by
  rw [lower_eq_iff]
  intro c hc
  have hm : c ∈ lower authority := by
    rcases normalizedAuthority_cases scheme authority with h | h
    · exact h ▸ hc
    · rw [h]
      exact List.mem_append_left _ hc
  obtain ⟨d,_,rfl⟩ := List.mem_map.mp hm
  exact Char.toLower_toLower_eq_toLower d

theorem mem_of_mem_slashed' {t : Text} {c : Char} (h : c ∈ ActorIdentity.Sql.slashed t)
    (hc : c ≠ '/') : c ∈ t := by
  unfold ActorIdentity.Sql.slashed at h
  split at h
  · exact (List.mem_cons.mp h).resolve_left hc
  · exact h

theorem head_of_startsPath {t : Text} (h : Whatwg.StartsPath t) :
    ∀ c ∈ t.head?, decide (c = '/' ∨ c = '?') = true := by
  rcases h with rfl | ⟨r,rfl | rfl⟩ <;> simp

theorem separated_inj {x y p q : Text} (hx : ':' ∉ x) (hy : ':' ∉ y)
    (h : x ++ "://".toList ++ p = y ++ "://".toList ++ q) : x = y ∧ p = q := by
  rw [List.append_assoc,List.append_assoc] at h
  have hinj := append_inj_first hx hy (.inr ⟨_,rfl⟩) (.inr ⟨_,rfl⟩) h
  exact ⟨hinj.1,by simpa using hinj.2⟩

theorem not_mem_normalized {actor value : Text}
    (h : ActorIdentity.Sql.normalized actor = some value) : '#' ∉ value := by
  obtain ⟨scheme,authority,rest,fragment,rfl,hs,ha,hac,hr,hrc,hf⟩ :=
    ActorIdentity.Sql.normalized_some h
  rw [ActorIdentity.Sql.normalized_written hs ha hac hr hrc hf,Option.ite_none_left_eq_some] at h
  rw [← Option.some.inj h.2]
  simp only [List.mem_append,not_or]
  refine ⟨⟨⟨?_,by simp⟩,?_⟩,?_⟩
  · rcases hs with hs | hs <;> simp [hs]
  · exact not_mem_normalizedAuthority (by decide) fun hm => (hac _ hm).2.2.1 rfl
  · exact fun hm => hrc (mem_of_mem_dropSlash (mem_of_mem_slashed' hm (by decide)))

/-- What SQL can make of another id is in small letters. -/
theorem small_of_normalized {actor : Text}
    (hactor : ActorIdentity.Sql.normalized actor = some s.text) : Small s := by
  have h := hactor
  obtain ⟨scheme,authority,rest,fragment,rfl,hs,ha,hac,hr,hrc,hf⟩ :=
    ActorIdentity.Sql.normalized_some h
  rw [ActorIdentity.Sql.normalized_written hs ha hac hr hrc hf,Option.ite_none_left_eq_some] at h
  have htext := Option.some.inj h.2
  have hcolon : ':' ∉ s.scheme := fun hm =>
    (Whatwg.ne_of_isAlpha (Whatwg.isAlpha_scheme s.schemeWeb _ hm)).2.1 rfl
  have hcolon' : ':' ∉ lower scheme := by
    rcases hs with hs | hs <;> simp [hs]
  have hhash := not_mem_normalized hactor
  have hfragment : s.fragment = none := by
    cases hfr : s.fragment with
    | none => rfl
    | some f => exact absurd (by simp [Spelling.text,hfr,fragmentText]) hhash
  rw [Spelling.text,hfragment] at htext
  simp only [fragmentText,List.append_nil] at htext
  rw [List.append_assoc,List.append_assoc _ s.authority] at htext
  obtain ⟨hscheme,hbehind⟩ := separated_inj hcolon' hcolon htext
  have hstart := startsPath_slashed (ActorIdentity.Sql.startsPath_dropSlash hr)
  have hends : ∀ c ∈ ActorIdentity.Sql.normalizedAuthority (lower scheme) authority,
      decide (c = '/' ∨ c = '?') = false := by
    intro c hc
    refine decide_eq_false ?_
    rintro (rfl | rfl)
    · exact not_mem_normalizedAuthority (by decide) (fun hm => (hac _ hm).1 rfl) hc
    · exact not_mem_normalizedAuthority (by decide) (fun hm => (hac _ hm).2.1 rfl) hc
  have hends' : ∀ c ∈ s.authority, decide (c = '/' ∨ c = '?') = false := by
    intro c hc
    obtain ⟨_,_,h1,h2,_⟩ := authorityChar_cases (s.authority_chars c hc)
    simp [h1,h2]
  have hpath : Whatwg.StartsPath
      (ActorIdentity.Sql.slashed (dropSlash rest)) :=
    hstart.imp_right (Exists.imp fun _ => Or.inl)
  obtain ⟨hnormal,hrest⟩ := append_inj_at hends hends' (head_of_startsPath hpath)
    (head_of_startsPath s.startsPath_rest) hbehind
  have hlower := lower_normalizedAuthority (lower scheme) authority
  rw [hnormal,lower_eq_iff] at hlower
  rw [hrest] at hstart
  refine ⟨?_,lower_eq_iff.mpr fun c hc => hlower c (List.mem_append_left _ hc),hfragment,?_⟩
  · rw [← hscheme]
    exact lower_lower scheme
  · intro hp
    cases hq : s.query with
    | none => rfl
    | some q => simp [Spelling.rest,hp,hq,queryText,Whatwg.joined] at hstart

end small

end Yurucommu.Blocklist
