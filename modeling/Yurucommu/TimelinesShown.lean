import Yurucommu.BlocklistAgree
import Yurucommu.Timelines

/-!
What the writers keep of every Note, and that a timeline then shows no row that the gate of one
object refuses to the viewer.
-/

set_option autoImplicit false

namespace Yurucommu.Timelines

open Whatwg (Text)
open ActorIdentity (Platform Spelling isSameActivityPubActor activityPubActorIdentitySetSql)
open Blocklist (isActorBlockedStrict operatorActorNotBlockedSql)
open ObjectCounts (Addressing Visibility noteVisibility normalizeVisibility)

section blocks

variable {P : Platform} {blockedDomains blockedActors : List Text} {a : Text}

theorem not_blocked (ha : Written P a)
    (h : operatorActorNotBlockedSql blockedDomains blockedActors a = true) :
    isActorBlockedStrict P blockedDomains blockedActors a = false := by
  obtain ⟨s,rfl,hdots⟩ := ha
  by_contra hblocked
  rw [Bool.not_eq_false,
    Blocklist.isActorBlockedStrict_iff (ActorIdentity.Spelled.ne_nil ⟨s,rfl⟩)] at hblocked
  have hcovered : Blocklist.Retained blockedActors s.text ∨
      ∃ domain ∈ blockedDomains, Blocklist.Beneath (Blocklist.domainOf s) domain := by
    refine hblocked.imp_right ?_
    rintro ⟨n,hn,domain,hcandidate,hdomain⟩
    rw [Blocklist.normalizeDomain_text] at hn
    by_cases hnil : Blocklist.domainOf s = []
    · rw [if_pos hnil] at hn
      cases hn
    · rw [if_neg hnil,Option.bind_some,Blocklist.normalizeDomain_domainOf,
        Blocklist.dropDot_domainOf hdots,if_neg hnil] at hn
      obtain rfl := Option.some.inj hn
      exact ⟨domain,hdomain,Blocklist.beneath_of_candidate hcandidate⟩
  rw [← Blocklist.sql_iff,h] at hcovered
  cases hcovered

end blocks

/-- What every Note is: written by an HTTP(S) actor, a group message only beneath its community, and
narrowed to a community that its audience names alone. -/
structure Narrowed (P : Platform) (d : Db) (o : Object) : Prop where
  written : Written P o.attributedTo
  group : o.visibility = .group → o.audienceJson ≠ [] ∧ o.communityApId = none
  unnarrowed : o.audienceJson = [] → o.communityApId = none
  alone : ∀ c, o.communityApId = some c →
    ∀ k ∈ d.communities, k.apId ∈ o.audienceJson → k.apId ≠ [] → k.apId = c

structure Sane (P : Platform) (d : Db) : Prop where
  notes : ∀ o ∈ d.objects, o.type = .note → Narrowed P d o
  communities : (d.communities.map (·.apId)).Nodup

section reads

variable {P : Platform} {d : Db} {o : Object} {viewer : Option Text} {now : Nat} {q : Query}
  {matching : Object → Bool} {c : Text}

theorem mem_page (h : o ∈ page d q matching) : o ∈ d.objects ∧ matching o = true := by
  have hsorted := List.mem_of_mem_drop (List.mem_of_mem_take (List.mem_of_mem_take h))
  exact List.mem_filter.1 ((List.mem_insertionSort newer).1 hsorted)

theorem readable_unnarrowed (haudience : o.audienceJson = [])
    (hcommunity : o.communityApId = none) : canViewerReadObject d o viewer = true := by
  simp [canViewerReadObject,communityApIdsFor,communityOf,haudience,hcommunity]

theorem readable_narrowed (hcommunity : o.communityApId = some c)
    (halone : ∀ k ∈ d.communities, k.apId ∈ o.audienceJson → k.apId ≠ [] → k.apId = c)
    (hlive : ∀ k ∈ d.communities, k.apId = c → k.deletedAt = none)
    (hmember : ∀ k ∈ d.communities, k.apId = c → k.isPrivate = true →
      ∃ v, viewer = some v ∧ isMember d c v = true) : canViewerReadObject d o viewer = true := by
  have hids : ∀ k ∈ d.communities, k.apId ∈ communityApIdsFor o → k.apId = c := by
    intro k hk hid
    simp only [communityApIdsFor,communityOf,hcommunity,List.mem_dedup,List.mem_append,
      Option.mem_toList,Option.filter_eq_some_iff,List.mem_filter,Option.some.injEq,
      decide_eq_true_eq] at hid
    obtain ⟨rfl,_⟩ | ⟨haudience,hne⟩ := hid
    · rfl
    · exact halone k hk haudience hne
  unfold canViewerReadObject
  simp only
  split
  · rfl
  · have hdeleted : ((d.communities.filter fun k => k.apId ∈ communityApIdsFor o).any
        fun k => k.deletedAt.isSome) = false := by
      rw [List.any_eq_false]
      intro k hk
      obtain ⟨hk,hid⟩ := List.mem_filter.1 hk
      rw [hlive k hk (hids k hk (of_decide_eq_true hid))]
      exact Bool.false_ne_true
    rw [hdeleted,if_neg Bool.false_ne_true]
    split
    · rfl
    · rename_i hprivate
      obtain ⟨k,hkept⟩ := List.exists_mem_of_ne_nil _ hprivate
      obtain ⟨hrow,hrequires⟩ := List.mem_filter.1 hkept
      obtain ⟨hk,hid⟩ := List.mem_filter.1 hrow
      have hkc := hids k hk (of_decide_eq_true hid)
      obtain ⟨v,rfl,hv⟩ := hmember k hk hkc hrequires
      obtain ⟨m,hm,hboth⟩ := List.any_eq_true.1 hv
      simp only [Bool.and_eq_true,decide_eq_true_eq] at hboth
      refine List.any_eq_true.2 ⟨m,hm,?_⟩
      simp only [Bool.and_eq_true,decide_eq_true_eq]
      exact ⟨List.mem_map.2 ⟨k,hkept,hkc.trans hboth.1.symm⟩,hboth.2⟩

def Seen (d : Db) (o : Object) (viewer : Option Text) : Prop :=
  openVisibility o = true ∨
    o.visibility = .followers ∧
      ∃ v, viewer = some v ∧ (o.attributedTo = v ∨ hasAcceptedFollow d v o.attributedTo = true)

theorem readableFull (hnote : o.type = .note)
    (hblocked : isActorBlockedStrict P d.blockedDomains d.blockedActors o.attributedTo = false)
    (hreadable : canViewerReadObject d o viewer = true) (hseen : Seen d o viewer) :
    canViewerReadObjectFull P d o viewer now = true := by
  unfold canViewerReadObjectFull
  rw [hblocked,hreadable]
  obtain hopen | ⟨hfollowers,v,rfl,hv⟩ := hseen
  · simp only [openVisibility,Bool.or_eq_true,decide_eq_true_eq] at hopen
    obtain hpub | hunlisted := hopen
    · simp [hnote,passesPostVisibilitySync,hpub]
    · simp [hnote,passesPostVisibilitySync,hunlisted]
  · simp only [hnote,passesPostVisibilitySync,hfollowers]
    obtain rfl | hfollow := hv
    · simp
    · by_cases hown : o.attributedTo = v
      · simp [hown]
      · cases hexplicit : isExplicitRecipient o v with
        | true => simp
        | false => cases hprojected : hasProjectedRecipient o v <;>
          simp [hown,hfollow,hexplicit,hprojected]

/-- A page of a feed shows what its source lets the viewer read. -/
theorem shown_of_page {source : Object → Bool} (h : Sane P d)
    (ho : o ∈ page d q fun o => base d viewer q o && source o)
    (hreadable : Narrowed P d o → o.visibility ≠ .direct → source o = true →
      canViewerReadObject d o viewer = true ∧ Seen d o viewer) : Shown P d viewer now o := by
  obtain ⟨hobject,hmatching⟩ := mem_page ho
  simp only [base,Bool.and_eq_true,decide_eq_true_eq] at hmatching
  obtain ⟨⟨⟨⟨⟨⟨hnote,_⟩,_⟩,hdirect⟩,hmoderated⟩,_⟩,hsource⟩ := hmatching
  simp only [excludeModeratedActors,Bool.and_eq_true,Option.all_eq_true] at hmoderated
  have hnarrowed := h.notes o hobject hnote
  obtain ⟨hread,hseen⟩ := hreadable hnarrowed hdirect hsource
  refine ⟨readableFull hnote (not_blocked hnarrowed.written hmoderated.1) hread hseen,?_,
    fun hboth => hdirect hboth.2⟩
  intro v hv actor hactor hvalues
  have hexcluded := hmoderated.2 v hv
  simp only [excludeBlockedMutedAuthors,Bool.not_eq_true',List.contains_eq_mem,
    decide_eq_false_iff_not] at hexcluded
  exact hexcluded (Blocklist.mem_set_iff.2 ⟨actor,hactor,hvalues⟩)

theorem seen_of_author (hdirect : o.visibility ≠ .direct) (hgroup : o.visibility ≠ .group)
    (hauthor : ∃ v, viewer = some v ∧
      (o.attributedTo = v ∨ hasAcceptedFollow d v o.attributedTo = true)) : Seen d o viewer := by
  cases hvisibility : o.visibility with
  | pub => exact .inl (by simp [openVisibility,hvisibility])
  | unlisted => exact .inl (by simp [openVisibility,hvisibility])
  | followers => exact .inr ⟨hvisibility,hauthor⟩
  | direct => exact absurd hvisibility hdirect
  | group => exact absurd hvisibility hgroup

theorem seen_of_follow {v : Text} (h : Narrowed P d o) (hdirect : o.visibility ≠ .direct)
    (haudience : o.audienceJson = [])
    (hauthor : o.attributedTo = v ∨ hasAcceptedFollow d v o.attributedTo = true) :
    canViewerReadObject d o (some v) = true ∧ Seen d o (some v) :=
  ⟨readable_unnarrowed haudience (h.unnarrowed haudience),
    seen_of_author hdirect (fun hg => (h.group hg).1 haudience) ⟨v,rfl,hauthor⟩⟩

theorem seen_of_gate (h : Narrowed P d o) (hdirect : o.visibility ≠ .direct)
    (hcommunity : o.communityApId = some c)
    (hgate : communityPostVisibilityGate d viewer o = true) : Seen d o viewer := by
  have hgroup : o.visibility ≠ .group := fun hg => by
    have hnone := (h.group hg).2
    rw [hcommunity] at hnone
    cases hnone
  simp only [communityPostVisibilityGate,Bool.or_eq_true,Option.any_eq_true,Bool.and_eq_true,
    decide_eq_true_eq] at hgate
  obtain (hopen | ⟨v,hv,hown⟩) | ⟨v,hv,hfollowers,hfollow⟩ := hgate
  · exact .inl hopen
  · exact seen_of_author hdirect hgroup ⟨v,hv,.inl hown⟩
  · exact .inr ⟨hfollowers,v,hv,.inr hfollow⟩

theorem community_unique (h : Sane P d) {k k' : Community} (hk : k ∈ d.communities)
    (hk' : k' ∈ d.communities) (hid : k.apId = k'.apId) : k = k' :=
  List.inj_on_of_nodup_map h.communities hk hk' hid

theorem shown_community {identifier : Text} (h : Sane P d)
    (ho : o ∈ (handleCommunityTimeline d identifier viewer q).getD []) :
    Shown P d viewer now o := by
  unfold handleCommunityTimeline at ho
  cases hresolved : resolveCommunityRead d identifier viewer with
  | none =>
    rw [hresolved] at ho
    cases ho
  | some k =>
    rw [hresolved,Option.map_some,Option.getD_some] at ho
    have hk : k ∈ d.communities ∧ k.deletedAt = none ∧
        (k.isPrivate = true → ∃ v, viewer = some v ∧ isMember d k.apId v = true) := by
      unfold resolveCommunityRead at hresolved
      split at hresolved
      · cases hresolved
      · rename_i k' hfound
        have hlive := List.find?_some hfound
        simp only [Bool.and_eq_true,Option.isNone_iff_eq_none] at hlive
        split at hresolved
        · rename_i hopen
          obtain rfl := Option.some.inj hresolved
          refine ⟨List.mem_of_find?_eq_some hfound,hlive.2,fun hprivate => ?_⟩
          rw [communityRequiresMembership,hprivate] at hopen
          cases hopen
        · split at hresolved
          · rename_i hmember
            obtain rfl := Option.some.inj hresolved
            obtain ⟨v,hv,hmember⟩ := (Option.any_eq_true _ _).1 hmember
            exact ⟨List.mem_of_find?_eq_some hfound,hlive.2,fun _ => ⟨v,hv,hmember⟩⟩
          · cases hresolved
    obtain ⟨hmem,hlive,hmember⟩ := hk
    refine shown_of_page h ho fun hnarrowed hdirect hsource => ?_
    simp only [communitySource,Bool.or_eq_true,Bool.and_eq_true,decide_eq_true_eq] at hsource
    obtain ⟨hcommunity,hgate⟩ | ⟨⟨haudience,_⟩,hopen⟩ := hsource
    · refine ⟨readable_narrowed hcommunity (hnarrowed.alone _ hcommunity) ?_ ?_,
        seen_of_gate hnarrowed hdirect hcommunity hgate⟩
      · intro k' hk' hid
        rw [community_unique h hk' hmem hid]
        exact hlive
      · intro k' hk' hid hprivate
        rw [community_unique h hk' hmem hid] at hprivate
        exact hmember hprivate
    · exact ⟨readable_unnarrowed haudience (hnarrowed.unnarrowed haudience),.inl hopen⟩

theorem shown_following {v : Text} (h : Sane P d) (ho : o ∈ followingTimeline d v q) :
    Shown P d (some v) now o := by
  refine shown_of_page h ho fun hnarrowed hdirect hsource => ?_
  simp only [followingSource,Bool.or_eq_true,Bool.and_eq_true,decide_eq_true_eq] at hsource
  exact seen_of_follow hnarrowed hdirect hsource.1.1 hsource.1.2

theorem shown_public (h : Sane P d) (ho : o ∈ homeTimeline d none q) : Shown P d none now o := by
  refine shown_of_page h ho fun hnarrowed _ hsource => ?_
  simp only [publicSource,Bool.and_eq_true,decide_eq_true_eq] at hsource
  exact ⟨readable_unnarrowed hsource.2 (hnarrowed.unnarrowed hsource.2),
    .inl (by simp [openVisibility,hsource.1])⟩

theorem mem_myCommunities {v c : Text} :
    c ∈ myCommunities d v ↔ ∃ m ∈ d.members, m.actorApId = v ∧ m.communityApId = c := by
  simp [myCommunities,and_assoc]

theorem shown_home {v : Text} (h : Sane P d) (hread : MeetsRead d (.timeline (some v)))
    (ho : o ∈ homeTimeline d (some v) q) : Shown P d (some v) now o := by
  refine shown_of_page h ho fun hnarrowed hdirect hsource => ?_
  simp only [homeSource,Bool.or_eq_true,Bool.and_eq_true,decide_eq_true_eq,
    Option.any_eq_true] at hsource
  obtain ⟨⟨haudience,hauthor⟩,_⟩ | ⟨_,⟨⟨haudience,_⟩,hopen⟩ | ⟨⟨c,hcommunity,hmine⟩,hgate⟩⟩ :=
    hsource
  · exact seen_of_follow hnarrowed hdirect haudience hauthor
  · exact ⟨readable_unnarrowed haudience (hnarrowed.unnarrowed haudience),.inl hopen⟩
  · obtain ⟨m,hm,hactor,rfl⟩ := mem_myCommunities.1 hmine
    refine ⟨readable_narrowed hcommunity (hnarrowed.alone _ hcommunity) (hread m hm hactor) ?_,
      seen_of_gate hnarrowed hdirect hcommunity hgate⟩
    exact fun _ _ _ _ => ⟨v,rfl,List.any_eq_true.2 ⟨m,hm,by simp [hactor]⟩⟩

/-- No feed shows what the gate of one object refuses. -/
theorem shown_of_sane {feed : Feed} (h : Sane P d) (hread : MeetsRead d feed)
    (ho : o ∈ feed.rows d q) : Shown P d feed.viewer now o := by
  cases feed with
  | timeline viewer =>
    cases viewer with
    | none => exact shown_public h ho
    | some v => exact shown_home h hread ho
  | following v => exact shown_following h ho
  | community identifier viewer => exact shown_community h ho

end reads

section writes

variable {P : Platform} {isLocal : Text → Bool} {d d' : Db} {o source before new : Object}
  {actor c : Text} {mayPost audience : List Text} {patch : Patch} {patches : List Patch}

theorem resolve_alone (hbounded : boundedAudience audience = true)
    (hclear : Clear d mayPost audience)
    (hresolve : resolveInboundCommunityScope d mayPost audience = some (some c)) :
    ∀ k ∈ d.communities, k.apId ∈ audience → k.apId ≠ [] → k.apId = c := by
  intro k hk hka hne
  cases hdeleted : k.deletedAt with
  | some at_ => exact absurd hka (hclear c hresolve k hk (by rw [hdeleted]; rfl))
  | none =>
    simp only [boundedAudience,decide_eq_true_eq] at hbounded
    have hbound : (audience.dedup.filter (· ≠ [])).length ≤ 64 :=
      (List.length_filter_le _ _).trans hbounded
    unfold resolveInboundCommunityScope at hresolve
    simp only [List.take_of_length_le hbound] at hresolve
    have hfound : k.apId ∈ ((d.communities.filter fun c => c.deletedAt.isNone &&
        ((audience.dedup.filter (· ≠ [])).contains c.apId ||
          (audience.dedup.filter (· ≠ [])).contains (followersUrl c.apId))).map
            (·.apId)).dedup := by
      rw [List.mem_dedup]
      exact List.mem_map.2 ⟨k,List.mem_filter.2 ⟨hk,by simp [hdeleted,hka,hne]⟩,rfl⟩
    split at hresolve
    · cases hresolve
    · rename_i found hone
      rw [hone,List.mem_singleton] at hfound
      split at hresolve
      · exact hfound.trans (Option.some.inj (Option.some.inj hresolve))
      · cases hresolve
    · cases hresolve

theorem resolve_nil (d : Db) (mayPost : List Text) :
    resolveInboundCommunityScope d mayPost [] = some none := by
  simp [resolveInboundCommunityScope]

theorem noteVisibility_ne_group (a : Addressing) : noteVisibility a ≠ .group := by
  unfold noteVisibility
  split_ifs <;> exact Visibility.noConfusion

theorem projectAdmittedNotePatch_narrowed (h : Narrowed P d source)
    (hclear : ∀ audience, patch.audience = some audience → Clear d patch.mayPost audience)
    (hproject : projectAdmittedNotePatch P d actor source patch = some o) : Narrowed P d o := by
  unfold projectAdmittedNotePatch at hproject
  split at hproject
  · cases hproject
  · rename_i hadmitted
    split at hproject
    · split at hproject
      · cases hproject
      · exact Option.some.inj hproject ▸ h
    · rename_i hgroup
      have hbounded : ∀ audience, patch.audience = some audience →
          boundedAudience audience = true := by
        intro audience haudience
        by_contra hover
        refine hadmitted ?_
        simp [haudience,Bool.not_eq_true _ ▸ hover]
      simp only at hproject
      split at hproject
      · cases hproject
      · rename_i communityApId hscope
        have hreach : (patch.audience.getD source.audienceJson = [] → communityApId = none) ∧
            ∀ c, communityApId = some c → ∀ k ∈ d.communities,
              k.apId ∈ patch.audience.getD source.audienceJson → k.apId ≠ [] → k.apId = c := by
          cases haudience : patch.audience with
          | some audience =>
            rw [haudience] at hscope
            simp only [Option.getD_some]
            refine ⟨?_,?_⟩
            · rintro rfl
              exact (Option.some.inj ((resolve_nil d patch.mayPost).symm.trans hscope)).symm
            · rintro c rfl
              exact resolve_alone (hbounded audience haudience) (hclear audience haudience) hscope
          | none =>
            rw [haudience] at hscope
            simp only [Option.getD_none]
            cases hcommunity : source.communityApId with
            | none =>
              rw [hcommunity] at hscope
              obtain rfl := Option.some.inj hscope
              exact ⟨fun _ => rfl,fun c hc => (by cases hc)⟩
            | some c =>
              rw [hcommunity] at hscope
              have hsame := of_decide_eq_true (Option.filter_eq_some_iff.1 hscope).2
              rw [hsame]
              refine ⟨fun hnil => ?_,fun c' hc' => ?_⟩
              · have hnone := h.unnarrowed hnil
                rw [hcommunity] at hnone
                exact hnone
              · exact h.alone c' (hcommunity.trans hc')
        split at hproject
        · obtain rfl := Option.some.inj hproject
          exact ⟨h.written,fun hg => absurd hg hgroup,hreach.1,hreach.2⟩
        · rename_i addressing _
          obtain rfl := Option.some.inj hproject
          exact ⟨h.written,fun hg => absurd hg (noteVisibility_ne_group addressing),hreach.1,
            hreach.2⟩

theorem projectAdmittedNotePatch_same
    (hproject : projectAdmittedNotePatch P d actor source patch = some o) :
    o.apId = source.apId ∧ o.type = source.type ∧ source.type = .note := by
  unfold projectAdmittedNotePatch at hproject
  split at hproject
  · cases hproject
  · rename_i hadmitted
    have hnote : source.type = .note := by
      by_contra hno
      exact hadmitted (by simp [hno])
    split at hproject
    · split at hproject
      · cases hproject
      · obtain rfl := Option.some.inj hproject
        exact ⟨rfl,rfl,hnote⟩
    · simp only at hproject
      split at hproject
      · cases hproject
      · split at hproject
        · obtain rfl := Option.some.inj hproject
          exact ⟨rfl,rfl,hnote⟩
        · obtain rfl := Option.some.inj hproject
          exact ⟨rfl,rfl,hnote⟩

theorem foldAdmittedNoteUpdates_kept (h : source.type = .note → Narrowed P d source)
    (hclear : ClearPatches d patches) :
    (foldAdmittedNoteUpdates P d actor patches source).type = .note →
      Narrowed P d (foldAdmittedNoteUpdates P d actor patches source) := by
  unfold foldAdmittedNoteUpdates
  induction patches generalizing source with
  | nil => exact h
  | cons patch patches ih =>
    rw [List.foldl_cons]
    refine ih ?_ fun p hp => hclear p (List.mem_cons_of_mem patch hp)
    cases hproject : projectAdmittedNotePatch P d actor source patch with
    | none => exact h
    | some o =>
      intro _
      exact projectAdmittedNotePatch_narrowed
        (h (projectAdmittedNotePatch_same hproject).2.2) (hclear patch List.mem_cons_self) hproject

theorem Narrowed.of_communities (h : Narrowed P d o)
    (hcommunities : ∀ k ∈ d'.communities, k.apId ∈ o.audienceJson → o.communityApId.isSome = true →
      ∃ k' ∈ d.communities, k'.apId = k.apId) : Narrowed P d' o := by
  refine ⟨h.written,h.group,h.unnarrowed,fun c hc k hk haudience hne => ?_⟩
  obtain ⟨k',hk',hid⟩ := hcommunities k hk haudience (by rw [hc]; rfl)
  rw [← hid] at haudience hne ⊢
  exact h.alone c hc k' hk' haudience hne

theorem Sane.objects (h : Sane P d) (hcommunities : d'.communities = d.communities)
    (hobjects : ∀ o ∈ d'.objects, o ∈ d.objects ∨ (o.type = .note → Narrowed P d o)) :
    Sane P d' := by
  refine ⟨fun o ho hnote => ?_,hcommunities ▸ h.communities⟩
  have hnarrowed : Narrowed P d o := (hobjects o ho).elim (h.notes o · hnote) (· hnote)
  exact hnarrowed.of_communities fun k hk _ _ => ⟨k,hcommunities ▸ hk,rfl⟩

theorem Sane.insertObject (h : Sane P d) (ho : o.type = .note → Narrowed P d o) :
    Sane P (insertObject o d) := by
  unfold Timelines.insertObject
  split
  · exact h
  · refine h.objects rfl fun o' ho' => ?_
    obtain ho' | ho' := List.mem_append.1 ho'
    · exact .inl ho'
    · exact .inr (List.mem_singleton.1 ho' ▸ ho)

theorem Sane.replaceObject (h : Sane P d) (ho : o.type = .note → Narrowed P d o) :
    Sane P (replaceObject o d) := by
  refine h.objects rfl fun o' ho' => ?_
  obtain ⟨r,hr,⟨_,rfl⟩ | ⟨_,rfl⟩⟩ := Table.mem_update.1 ho'
  · exact .inl hr
  · exact .inr ho

theorem Sane.commitNoteProjection {repair : Object → Object} (h : Sane P d)
    (hclear : ClearPatches d patches) (hnew : new.type = .note → Narrowed P d new)
    (hrepair : ∀ before, Narrowed P d before → Narrowed P d (repair before)) :
    Sane P (commitNoteProjection P d actor patches new repair) := by
  unfold Timelines.commitNoteProjection
  split
  · exact h.insertObject (foldAdmittedNoteUpdates_kept hnew hclear)
  · rename_i before hfound
    split
    · rename_i hretained
      simp only [retained,Bool.and_eq_true,decide_eq_true_eq] at hretained
      have hbefore := h.notes before (List.mem_of_find?_eq_some hfound) hretained.1.1.1
      exact h.replaceObject
        (foldAdmittedNoteUpdates_kept (fun _ => hrepair before hbefore) hclear)
    · exact h

theorem Narrowed.addressees (h : Narrowed P d before) (recipients : List Text) :
    Narrowed P d { before with addressees := recipients } :=
  ⟨h.written,h.group,h.unnarrowed,h.alone⟩

theorem repairRecipient_narrowed (direct : Bool) (recipient : Text) (h : Narrowed P d before) :
    Narrowed P d (repairRecipient direct recipient before) := by
  unfold repairRecipient
  split
  · exact h.addressees _
  · exact h

theorem newNote_narrowed {note : Incoming} {communityApId : Option Text}
    (hwritten : Written P note.actor) (hbounded : boundedAudience note.audience = true)
    (hclear : Clear d note.mayPost note.audience)
    (hscope : resolveInboundCommunityScope d note.mayPost note.audience = some communityApId) :
    Narrowed P d (newNote note false communityApId) := by
  refine ⟨hwritten,fun hg => absurd hg (noteVisibility_ne_group note.addressing),
    fun hnil => ?_,fun c hc => ?_⟩
  · have hnone : note.audience = [] := hnil
    rw [hnone,resolve_nil] at hscope
    exact (Option.some.inj hscope).symm
  · have hsome : communityApId = some c := hc
    rw [hsome] at hscope
    exact resolve_alone hbounded hclear hscope

theorem newDirect_narrowed {note : Incoming} (hwritten : Written P note.actor) :
    Narrowed P d (newNote note true none) :=
  ⟨hwritten,fun hg => (by cases hg),fun _ => rfl,fun c hc => (by cases hc)⟩

theorem Sane.handleCreate {note : Incoming} {recipient : Text} (h : Sane P d)
    (hmeets : Meets P d (.handleCreate note recipient)) :
    Sane P (handleCreate P isLocal d note recipient) := by
  obtain ⟨hwritten,hclear,hpatches⟩ := hmeets
  unfold Timelines.handleCreate
  simp only
  split
  · exact h
  · rename_i hpassed
    have hbounded : boundedAudience note.audience = true := by
      by_contra hover
      exact hpassed (by simp [hover])
    cases hdirect : ObjectCounts.isDirectNote note.addressing recipient with
    | true =>
      simp only [if_true]
      exact h.commitNoteProjection hpatches (fun _ => newDirect_narrowed hwritten)
        fun _ hb => repairRecipient_narrowed true recipient hb
    | false =>
      simp only [Bool.false_eq_true,if_false]
      split
      · exact h
      · rename_i communityApId hscope
        exact h.commitNoteProjection hpatches
          (fun _ => newNote_narrowed hwritten hbounded hclear hscope)
          fun _ hb => repairRecipient_narrowed false recipient hb

theorem Sane.handleGroupCreate {note : Incoming} {community : Text} (h : Sane P d)
    (hmeets : Meets P d (.handleGroupCreate note community)) :
    Sane P (handleGroupCreate P isLocal d note community) := by
  obtain ⟨hwritten,_,hpatches⟩ := hmeets
  unfold Timelines.handleGroupCreate
  split
  · exact h
  · refine h.commitNoteProjection hpatches (fun _ => ?_) fun _ hb => hb.addressees []
    exact ⟨hwritten,fun _ => ⟨List.cons_ne_nil _ _,rfl⟩,fun _ => rfl,fun c hc => (by cases hc)⟩

theorem Sane.fetchAndPersistAnnouncedNote {note : Incoming} (h : Sane P d)
    (hmeets : Meets P d (.fetchAndPersistAnnouncedNote note)) :
    Sane P (fetchAndPersistAnnouncedNote P isLocal d note) := by
  obtain ⟨hwritten,hclear,hpatches⟩ := hmeets
  unfold Timelines.fetchAndPersistAnnouncedNote
  split
  · exact h
  · rename_i hpassed
    have hbounded : boundedAudience note.audience = true := by
      by_contra hover
      exact hpassed (by simp [hover])
    simp only
    split
    · exact h
    · split
      · exact h
      · rename_i communityApId hscope
        split
        · exact h
        · exact h.commitNoteProjection hpatches
            (fun _ => (newNote_narrowed hwritten hbounded hclear hscope).addressees [])
            fun _ hb => hb

theorem Sane.handleUpdate {apId : Text} (h : Sane P d)
    (hclear : ClearPatches d patches) : Sane P (handleUpdate P d apId actor patches) := by
  unfold Timelines.handleUpdate
  split
  · exact h
  · rename_i before hfound
    split
    · exact h.replaceObject (foldAdmittedNoteUpdates_kept
        (h.notes before (List.mem_of_find?_eq_some hfound)) hclear)
    · exact h

theorem Sane.handleCreateStory {note : Incoming} {endTime : Nat} (h : Sane P d) :
    Sane P (handleCreateStory isLocal d note endTime) := by
  unfold Timelines.handleCreateStory
  split
  · exact h
  · split
    · exact h
    · exact h.insertObject fun hnote => by cases hnote

theorem newPost_narrowed {apId published : Text} {visibility : Visibility}
    {community inReplyTo : Option Text} {toIris ccIris : List Text} (hwritten : Written P actor) :
    Narrowed P d (newPost apId actor visibility community inReplyTo toIris ccIris published) := by
  refine ⟨hwritten,fun hg => ?_,fun hnil => ?_,fun c hc k _ haudience _ => ?_⟩
  · have hgroup : normalizeVisibility visibility = .group := hg
    cases visibility <;> cases hgroup
  · exact Option.toList_eq_nil_iff.1 hnil
  · have hsome : community = some c := hc
    have hmem : k.apId ∈ community.toList := haudience
    rw [hsome] at hmem
    exact List.mem_singleton.1 hmem

theorem Sane.createPost {apId published : Text} {visibility : Visibility}
    {community inReplyTo : Option Text} {toIris ccIris : List Text} (h : Sane P d)
    (hwritten : Written P actor) :
    Sane P (createPost d apId actor visibility community inReplyTo toIris ccIris published) := by
  unfold Timelines.createPost
  split
  · exact h.insertObject fun _ => newPost_narrowed hwritten
  · split
    · exact h
    · exact h.insertObject fun _ => newPost_narrowed hwritten

theorem Sane.createCommunity {apId name : Text} (h : Sane P d)
    (hmeets : Meets P d (.createCommunity apId name actor)) :
    Sane P (createCommunity d apId name actor) := by
  unfold Timelines.createCommunity
  split
  · exact h
  · rename_i hfree
    refine ⟨fun o ho hnote => (h.notes o ho hnote).of_communities
      fun k hk haudience hnarrowed => ?_,?_⟩
    · obtain hk | hk := List.mem_append.1 hk
      · exact ⟨k,hk,rfl⟩
      · obtain rfl := List.mem_singleton.1 hk
        exact absurd haudience (hmeets o ho hnarrowed)
    · have hnew : apId ∉ d.communities.map (·.apId) := by
        intro hm
        obtain ⟨k,hk,hid⟩ := List.mem_map.1 hm
        exact hfree (List.any_eq_true.2 ⟨k,hk,decide_eq_true hid⟩)
      simp only [List.map_append,List.map_cons,List.map_nil]
      exact h.communities.append (List.nodup_singleton apId)
        fun x hx hx' => hnew (List.mem_singleton.1 hx' ▸ hx)

theorem Sane.updateCommunity {apId : Text} {set : Community → Community} (h : Sane P d)
    (hset : ∀ k, (set k).apId = k.apId) : Sane P (updateCommunity d apId set) := by
  refine ⟨fun o ho hnote => (h.notes o ho hnote).of_communities fun k hk _ _ => ?_,?_⟩
  · obtain ⟨r,hr,⟨_,rfl⟩ | ⟨_,rfl⟩⟩ := Table.mem_update.1 hk
    · exact ⟨k,hr,rfl⟩
    · exact ⟨r,hr,(hset r).symm⟩
  · have hids : (Timelines.updateCommunity d apId set).communities.map (·.apId) =
        d.communities.map (·.apId) := Table.map_update hset d.communities
    exact hids ▸ h.communities

theorem Sane.same (h : Sane P d) (hobjects : d'.objects = d.objects)
    (hcommunities : d'.communities = d.communities) : Sane P d' :=
  h.objects hcommunities fun _ ho => .inl (hobjects ▸ ho)

theorem Sane.join {community : Text} (h : Sane P d) : Sane P (join d community actor) := by
  unfold Timelines.join
  split
  · exact h
  · exact h.same rfl rfl

theorem Sane.apply (h : Sane P d) (op : Op) (hmeets : Meets P d op) :
    Sane P (apply P isLocal d op) := by
  cases op with
  | createPost => exact h.createPost hmeets
  | createDm apId actor recipient published =>
    exact h.insertObject fun _ =>
      ⟨hmeets,fun hg => (by cases hg),fun _ => rfl,fun c hc => (by cases hc)⟩
  | createChat apId actor community published =>
    exact h.insertObject fun _ =>
      ⟨hmeets,fun hg => (by cases hg),fun _ => rfl,fun c hc => (by cases hc)⟩
  | createStory => exact h.insertObject fun hnote => by cases hnote
  | handleCreate => exact h.handleCreate hmeets
  | handleGroupCreate => exact h.handleGroupCreate hmeets
  | handleCreateStory => exact h.handleCreateStory
  | handleUpdate => exact h.handleUpdate hmeets
  | fetchAndPersistAnnouncedNote => exact h.fetchAndPersistAnnouncedNote hmeets
  | deleteObjects apIds => exact h.objects rfl fun _ ho => .inl (List.mem_filter.1 ho).1
  | createCommunity => exact h.createCommunity hmeets
  | setCommunityVisibility => exact h.updateCommunity fun _ => rfl
  | retireCommunity => exact h.updateCommunity fun _ => rfl
  | join => exact h.join
  | leave | setFollows | setSuppressions | setBlocklist => exact h.same rfl rfl

theorem sane_empty (P : Platform) : Sane P empty :=
  ⟨fun _ ho => absurd ho List.not_mem_nil,List.nodup_nil⟩

end writes

/-- After every run whose writes meet their condition, every row of every feed is one that the gate
of one object lets the viewer read. -/
theorem timelines_shown (P : Platform) (isLocal : Text → Bool) {d : Db}
    (hrun : (machine P isLocal).ReachesBy (fun d op _ => Meets P d op) empty d) {feed : Feed}
    (hread : MeetsRead d feed) (q : Query) (now : Nat) :
    ∀ o ∈ feed.rows d q, Shown P d feed.viewer now o := by
  have hsane : Sane P d := hrun.invariant (P := Sane P) (sane_empty P) fun a op b ha hb hmeets => by
    obtain rfl := Option.some.inj hb
    exact ha.apply op hmeets
  exact fun o ho => shown_of_sane hsane hread ho

/-- The spelling of an actor's id, for a run with posts of its own. -/
def resident (name : Char) (h : Whatwg.CleanSegment [name]) : Spelling ActorIdentity.plainHosts where
  scheme := "https".toList
  host := "b.io".toList
  port := none
  path := [[name]]
  query := none
  fragment := none
  schemeWeb := .inr (by decide)
  hostParsed := rfl
  hostChars := ⟨by decide,fun c hc => by
    have hall : "b.io".toList.all ActorIdentity.isHostnameChar = true := rfl
    exact List.all_eq_true.1 hall c hc⟩
  portRange _ h := by cases h
  pathClean _ hs := List.mem_singleton.1 hs ▸ h
  queryClean _ h := by cases h

def alice : Spelling ActorIdentity.plainHosts :=
  resident 'a' ⟨fun c hc => by obtain rfl := List.mem_singleton.1 hc; exact ⟨rfl,rfl⟩,rfl,rfl⟩

def carol : Spelling ActorIdentity.plainHosts :=
  resident 'c' ⟨fun c hc => by obtain rfl := List.mem_singleton.1 hc; exact ⟨rfl,rfl⟩,rfl,rfl⟩

def housed : Db where
  objects := []
  follows := []
  communities := [⟨"https://b.io/r".toList,"r".toList,true,none⟩]
  members := [⟨"https://b.io/r".toList,alice.text⟩,⟨"https://b.io/r".toList,"https://b.io/b".toList⟩,
    ⟨"https://b.io/r".toList,carol.text⟩]
  blocks := []
  mutes := [⟨"https://b.io/b".toList,carol.text⟩]
  blockedDomains := []
  blockedActors := []

def greeting : Object :=
  newPost "https://b.io/o/1".toList alice.text .pub (some "https://b.io/r".toList) none [] []
    "2026".toList

def heckling : Object :=
  newPost "https://b.io/o/2".toList carol.text .pub (some "https://b.io/r".toList) none [] []
    "2027".toList

theorem timelines_shown_greeting :
    (Feed.timeline (some "https://b.io/b".toList)).rows
        { housed with objects := [greeting,heckling] } ⟨20,0,none⟩ = [greeting] ∧
      ∀ o ∈ (Feed.timeline (some "https://b.io/b".toList)).rows
        { housed with objects := [greeting,heckling] } ⟨20,0,none⟩,
        Shown ActorIdentity.plainHosts { housed with objects := [greeting,heckling] }
          (some "https://b.io/b".toList) 0 o := by
  have hopened := (Machine.ReachesBy.refl (m := machine ActorIdentity.plainHosts fun _ => false)
      (C := fun d op _ => Meets ActorIdentity.plainHosts d op) empty).snoc
    (l := Op.createCommunity "https://b.io/r".toList "r".toList alice.text) rfl
    (fun _ ho => absurd ho List.not_mem_nil)
  have hjoined := ((hopened.snoc (l := Op.setCommunityVisibility "https://b.io/r".toList true) rfl
    trivial).snoc (l := Op.join "https://b.io/r".toList "https://b.io/b".toList) rfl trivial).snoc
    (l := Op.join "https://b.io/r".toList carol.text) rfl trivial
  have hhoused := hjoined.snoc (u := housed)
    (l := Op.setSuppressions [] [⟨"https://b.io/b".toList,carol.text⟩]) rfl trivial
  have hposted := (hhoused.snoc (l := Op.createPost "https://b.io/o/1".toList alice.text .pub
      (some "r".toList) none [] [] "2026".toList) rfl ⟨alice,rfl,by decide⟩).snoc
    (l := Op.createPost "https://b.io/o/2".toList carol.text .pub
      (some "r".toList) none [] [] "2027".toList) rfl ⟨carol,rfl,by decide⟩
  have hshown := timelines_shown ActorIdentity.plainHosts (fun _ => false) hposted
    (show MeetsRead _ (.timeline (some "https://b.io/b".toList)) by unfold MeetsRead; decide)
    ⟨20,0,none⟩ 0
  exact ⟨by decide,hshown⟩

end Yurucommu.Timelines
