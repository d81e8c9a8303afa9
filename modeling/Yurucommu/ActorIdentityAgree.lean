import Yurucommu.ActorIdentityExact

/-!
JavaScript and SQL agree on two admitted ids exactly when both are spelled and neither is the
other with one more slash at its end.
-/

set_option autoImplicit false

namespace Yurucommu.ActorIdentity

open Whatwg (Text lower StartsPath)

variable (P : Platform)

structure IdentityAgrees (a b : Text) : Prop where
  same : isSameActivityPubActor P a b = true ↔ a ∈ activityPubActorIdentityMatchesSql [a] b
  canonical : ∃ n, normalizeActivityPubActorId P a = some n ∧ n ∈ activityPubActorIdentitySetSql [a]

/-- `b` is `a` with one more slash at its end, but for the case of scheme and host, a default
port and a fragment. -/
def Overslashed (a b : Text) : Prop :=
  a.getLast? = some '/' ∧ ∃ s : Spelling P, s.text = b ∧ s.folded = a ++ ['/']

variable {P} {a b m n : Text}

theorem mem_set_iff {t : Text} : t ∈ activityPubActorIdentitySetSql [a] ↔
    t = a ∨ Sql.normalized a = some t := by
  simp [activityPubActorIdentitySetSql,Sql.values]

theorem mem_matches_iff (hm : Sql.normalized a = some m) (hn : Sql.normalized b = some n) :
    a ∈ activityPubActorIdentityMatchesSql [a] b ↔ a = b ∨ a = n ∨ m = b ∨ m = n := by
  simp [activityPubActorIdentityMatchesSql,Sql.values,hm,hn,or_assoc]

theorem isSame_iff (ha : a ≠ []) (hb : b ≠ []) (hm : normalizeActivityPubActorId P a = some m)
    (hn : normalizeActivityPubActorId P b = some n) :
    isSameActivityPubActor P a b = true ↔ a = b ∨ m = n := by
  simp [isSameActivityPubActor,ha,hb,hm,hn]

theorem Spelled.ne_nil (h : Spelled P a) : a ≠ [] := by
  obtain ⟨s,rfl⟩ := h
  simp [Spelling.text]

theorem canonical_iff (h : isSafeRemoteUrl P a = true) :
    (∃ n, normalizeActivityPubActorId P a = some n ∧ n ∈ activityPubActorIdentitySetSql [a]) ↔
      Spelled P a := by
  constructor
  · rintro ⟨n,hn,hmem⟩
    rcases mem_set_iff.mp hmem with rfl | hsql
    · exact spelled_of_fixed h hn
    · exact (normalized_iff h).mp (hsql.trans hn.symm)
  · intro hs
    obtain ⟨n,hn,hsql⟩ := hs.normalized
    exact ⟨n,hn,mem_set_iff.mpr (.inr hsql)⟩

theorem dropSlash_slashed {t : Text} (h : StartsPath t) :
    dropSlash (Sql.slashed t) = Sql.slashed (dropSlash t) := by
  rcases h with rfl | ⟨r,rfl | rfl⟩
  · rfl
  · exact (slashed_of_slash (dropSlash_slash (.inr ⟨r,rfl⟩))).symm
  · have hslashed : Sql.slashed ('?' :: r) = '/' :: '?' :: r := rfl
    have hdrop : dropSlash ('/' :: '?' :: r) = '/' :: dropSlash ('?' :: r) :=
      dropSlash_append ['/'] (by simp)
    rw [hslashed,hdrop]
    by_cases hr : r = []
    · rw [hr]
      decide
    · rw [dropSlash_question r hr]
      rfl

theorem Spelling.dropSlash_folded (s : Spelling P) : dropSlash s.folded = s.normal := by
  rw [s.folded_eq,s.normal_eq,← dropSlash_slashed s.startsPath_rest]
  by_cases hnil : Sql.slashed s.rest = []
  · have horigin : s.origin ≠ [] := by simp [Spelling.origin]
    have hlast : '/' ∉ lower s.host ++ portText s.foldedPort := fun hm =>
      (authorityChar_cases (s.lower_authority_chars _ _ hm)).2.2.1 rfl
    have hne : lower s.host ++ portText s.foldedPort ≠ [] := by
      simp [lower,s.hostChars.1]
    rw [hnil,List.append_nil,Spelling.origin,dropSlash_append _ hne,dropSlash_of_avoids hlast]
    simp [dropSlash]
  · rw [dropSlash_append _ hnil]

theorem dropSlash_append_slash (t : Text) : dropSlash (t ++ ['/']) = t := by
  simp [dropSlash]

theorem dropSlash_ne {t : Text} (h : t.getLast? = some '/') : dropSlash t ≠ t := by
  intro heq
  have hlen := congrArg List.length heq
  have hne : t ≠ [] := by
    rintro rfl
    cases h
  have hpos := List.length_pos_iff.mpr hne
  simp only [dropSlash,h,if_true,List.length_dropLast] at hlen
  omega

theorem overslashed_iff : Overslashed P a b ↔
    a.getLast? = some '/' ∧ ∃ s : Spelling P, s.text = b ∧ s.normal = a := by
  unfold Overslashed
  refine and_congr_right fun hlast => exists_congr fun s => and_congr_right fun _ => ?_
  rw [← s.dropSlash_folded]
  constructor
  · intro h
    rw [h,dropSlash_append_slash]
  · intro h
    rcases dropSlash_cases s.folded with hd | hd
    · rw [h] at hd
      rw [hd] at h
      exact absurd h (dropSlash_ne hlast)
    · rw [hd,h]

theorem Spelled.overslashed_iff (hb : Spelled P b) (hn : Sql.normalized b = some n) :
    Overslashed P a b ↔ a.getLast? = some '/' ∧ n = a := by
  rw [ActorIdentity.overslashed_iff]
  refine and_congr_right fun _ => ⟨?_,?_⟩
  · rintro ⟨s,rfl,rfl⟩
    exact Option.some.inj (hn.symm.trans s.normalized_text)
  · rintro rfl
    obtain ⟨s,rfl⟩ := hb
    exact ⟨s,rfl,Option.some.inj (s.normalized_text.symm.trans hn)⟩

/-- The canonical text of a spelled id has as canonical text itself, but for a slash at its end. -/
theorem Spelled.normalized_normalized (hb : Spelled P b) (hn : Sql.normalized b = some n) :
    Sql.normalized n = some (dropSlash n) := by
  obtain ⟨s,rfl⟩ := hb
  obtain rfl := Option.some.inj (s.normalized_text.symm.trans hn)
  exact s.normalized_normal

theorem same_iff (ha : Spelled P a) (hb : Spelled P b)
    (hm : Sql.normalized a = some m) (hn : Sql.normalized b = some n) :
    (a = b ∨ m = n ↔ a = b ∨ a = n ∨ m = b ∨ m = n) ↔
      ¬Overslashed P a b ∧ ¬Overslashed P b a := by
  rw [hb.overslashed_iff hn,ha.overslashed_iff hm]
  have hself : ∀ {a b m n : Text}, Spelled P b → Sql.normalized a = some m →
      Sql.normalized b = some n → n = a → m = dropSlash a := by
    rintro a b m n hb hm hn rfl
    exact Option.some.inj (hm.symm.trans (hb.normalized_normalized hn))
  have hfixed : ∀ t : Text, t.getLast? ≠ some '/' → dropSlash t = t := fun t ht => if_neg ht
  constructor
  · intro h
    constructor
    · rintro ⟨hlast,heq⟩
      have hmn : m = n := by
        rcases h.mpr (.inr (.inl heq.symm)) with rfl | hmn
        · exact Option.some.inj (hm.symm.trans hn)
        · exact hmn
      exact dropSlash_ne hlast ((hself hb hm hn heq).symm.trans (hmn.trans heq))
    · rintro ⟨hlast,heq⟩
      have hmn : m = n := by
        rcases h.mpr (.inr (.inr (.inl heq))) with rfl | hmn
        · exact Option.some.inj (hm.symm.trans hn)
        · exact hmn
      exact dropSlash_ne hlast ((hself ha hn hm heq).symm.trans (hmn.symm.trans heq))
  · rintro ⟨hab,hba⟩
    constructor
    · rintro (h | h)
      · exact .inl h
      · exact .inr (.inr (.inr h))
    · rintro (h | h | h | h)
      · exact .inl h
      · have hlast : a.getLast? ≠ some '/' := fun hlast => hab ⟨hlast,h.symm⟩
        right
        rw [hself hb hm hn h.symm,hfixed a hlast,h]
      · have hlast : b.getLast? ≠ some '/' := fun hlast => hba ⟨hlast,h⟩
        right
        rw [hself ha hn hm h,hfixed b hlast,h]
      · exact .inr h

/-- JavaScript and SQL agree on two admitted ids, either way round, exactly when both are spelled
and neither is the other with one more slash. -/
theorem identity_agrees_iff (ha : isSafeRemoteUrl P a = true) (hb : isSafeRemoteUrl P b = true) :
    IdentityAgrees P a b ∧ IdentityAgrees P b a ↔
      Spelled P a ∧ Spelled P b ∧ ¬Overslashed P a b ∧ ¬Overslashed P b a := by
  constructor
  · rintro ⟨hab,hba⟩
    have hsa := (canonical_iff ha).mp hab.canonical
    have hsb := (canonical_iff hb).mp hba.canonical
    obtain ⟨m,hm,hsm⟩ := hsa.normalized
    obtain ⟨n,hn,hsn⟩ := hsb.normalized
    have hsame := hab.same
    rw [isSame_iff hsa.ne_nil hsb.ne_nil hm hn,mem_matches_iff hsm hsn] at hsame
    exact ⟨hsa,hsb,(same_iff hsa hsb hsm hsn).mp hsame⟩
  · rintro ⟨hsa,hsb,hab,hba⟩
    obtain ⟨m,hm,hsm⟩ := hsa.normalized
    obtain ⟨n,hn,hsn⟩ := hsb.normalized
    constructor
    · refine ⟨?_,(canonical_iff ha).mpr hsa⟩
      rw [isSame_iff hsa.ne_nil hsb.ne_nil hm hn,mem_matches_iff hsm hsn]
      exact (same_iff hsa hsb hsm hsn).mpr ⟨hab,hba⟩
    · refine ⟨?_,(canonical_iff hb).mpr hsb⟩
      rw [isSame_iff hsb.ne_nil hsa.ne_nil hn hm,mem_matches_iff hsn hsm]
      exact (same_iff hsb hsa hsn hsm).mpr ⟨hba,hab⟩

/-- Hosts of letters, digits, dots and hyphens, as the URL parser reads them. -/
def plainHosts : Platform where
  parseHost t := if t.all isHostnameChar then some (lower t) else none
  lower_parseHost t h hp := by
    simp only [Option.ite_none_right_eq_some,Option.some.injEq] at hp
    rw [← hp.2,lower_lower]
  toLowerCase := lower
  toLowerCase_ascii := lower_ascii

theorem identity_agrees_iff_case :
    IdentityAgrees plainHosts "https://B.example/users/x".toList "https://b.example/users/x/".toList ∧
        IdentityAgrees plainHosts "https://b.example/users/x/".toList
          "https://B.example/users/x".toList ↔
      Spelled plainHosts "https://B.example/users/x".toList ∧
        Spelled plainHosts "https://b.example/users/x/".toList ∧
        ¬Overslashed plainHosts "https://B.example/users/x".toList
          "https://b.example/users/x/".toList ∧
        ¬Overslashed plainHosts "https://b.example/users/x/".toList
          "https://B.example/users/x".toList :=
  identity_agrees_iff (by decide) (by decide)

/-- The two spellings are one actor for JavaScript and two for SQL. -/
theorem dot_segment_disagrees : ¬∀ (P : Platform) (a b : Text),
    isSafeRemoteUrl P a = true → isSafeRemoteUrl P b = true → IdentityAgrees P a b := by
  intro h
  have hagrees := h plainHosts "https://b.example/users/x".toList
    "https://b.example/users/./x".toList (by decide) (by decide)
  exact absurd (hagrees.same.mp (by decide)) (by decide)

end Yurucommu.ActorIdentity
