import Yurucommu.Timelines

/-!
Three gates of a Story that has not ended: the one of the story routes, the one of every route
that takes an object id, and the row filter of the story feeds.
-/

set_option autoImplicit false

namespace Yurucommu.StoryGates

open Whatwg (Text)
open ActorIdentity (Platform plainHosts)
open Blocklist (isActorBlockedStrict operatorActorNotBlockedSql)
open Timelines

section gates

variable (P : Platform) (d : Db)

def canViewerReadStory (story : Object) (viewer : Option Text) : Bool :=
  match viewer with
  | none => false
  | some viewer =>
    if isActorBlockedStrict P d.blockedDomains d.blockedActors story.attributedTo then false
    else if story.attributedTo = viewer then true
    else
      match communityOf story with
      | some community => isMember d community viewer
      | none => hasAcceptedFollow d viewer story.attributedTo

inductive Scope where
  | personal
  | community (communityApId : Text)
  | denied
deriving DecidableEq, Repr

/-- An empty parameter is none. -/
def resolveStoryScope (viewer : Text) (communityParam : Option Text) : Scope :=
  match communityParam.filter (· ≠ []) with
  | none => .personal
  | some community => if isMember d community viewer then .community community else .denied

def scopeWhere (viewer : Text) (o : Object) : Scope → Bool
  | .denied => false
  | .community community => o.communityApId = some community
  | .personal => o.communityApId.isNone &&
      (o.attributedTo = viewer || hasAcceptedFollow d viewer o.attributedTo)

def storiesWhere (communityParam : Option Text) (viewer : Option Text) (now : Nat) (o : Object) :
    Bool :=
  match viewer with
  | none => false
  | some viewer =>
    o.type = .story && o.endTime.any (now < ·) &&
      scopeWhere d viewer o (resolveStoryScope d viewer communityParam) &&
        excludeModeratedActors d (some viewer) o

end gates

section promise

variable (P : Platform) (d : Db)

structure Agree (story : Object) (viewer : Option Text) (now : Nat) : Prop where
  full : canViewerReadStory P d story viewer = canViewerReadObjectFull P d story viewer now
  feed : canViewerReadStory P d story viewer = storiesWhere d story.communityApId viewer now story
  members : ∀ community, story.communityApId = some community →
    canViewerReadObjectFull P d story viewer now = true →
      viewer = some story.attributedTo ∨ ∃ v, viewer = some v ∧ isMember d community v = true

def Named (story : Object) (c : Community) : Prop :=
  c ∈ d.communities ∧ c.apId ∈ communityApIdsFor story

/-- Every community here that the Story names is live, and if one of them is private then the viewer
is a member of a private one. -/
structure Open (story : Object) (viewer : Option Text) : Prop where
  live : ∀ c, Named d story c → c.deletedAt = none
  member : ∀ c, Named d story c → c.isPrivate = true →
    ∃ v, viewer = some v ∧ ∃ k, Named d story k ∧ k.isPrivate = true ∧ isMember d k.apId v = true

/-- Whom a Story is for, its author apart. -/
def Audience (story : Object) (viewer : Option Text) : Prop :=
  ∃ v, viewer = some v ∧
    match communityOf story with
    | some community => isMember d community v = true
    | none => hasAcceptedFollow d v story.attributedTo = true

/-- Whom the feed of the Story's scope lists it for. -/
def Listed (story : Object) (viewer : Option Text) : Prop :=
  ∃ v, viewer = some v ∧
    match communityOf story with
    | some community => isMember d community v = true
    | none => story.communityApId = none ∧
        (story.attributedTo = v ∨ hasAcceptedFollow d v story.attributedTo = true)

structure Meets (story : Object) (viewer : Option Text) : Prop where
  operators : Listed d story viewer →
    (isActorBlockedStrict P d.blockedDomains d.blockedActors story.attributedTo = true ↔
      operatorActorNotBlockedSql d.blockedDomains d.blockedActors story.attributedTo = false)
  author : isActorBlockedStrict P d.blockedDomains d.blockedActors story.attributedTo = false →
    viewer = some story.attributedTo → Listed d story viewer
  column : isActorBlockedStrict P d.blockedDomains d.blockedActors story.attributedTo = false →
    Audience d story viewer → story.communityApId ≠ some []
  audience : isActorBlockedStrict P d.blockedDomains d.blockedActors story.attributedTo = false →
    viewer ≠ some story.attributedTo → Audience d story viewer → Open d story viewer
  strangers : isActorBlockedStrict P d.blockedDomains d.blockedActors story.attributedTo = false →
    viewer ≠ some story.attributedTo → (communityOf story).isSome = true →
      Open d story viewer → Audience d story viewer

end promise

section gates

variable {P : Platform} {d : Db} {story : Object} {viewer : Option Text} {now e : Nat}

theorem mem_named {c : Community} :
    c ∈ d.communities.filter (fun c => c.apId ∈ communityApIdsFor story) ↔ Named d story c := by
  simp [Named]

theorem canViewerReadObject_iff :
    canViewerReadObject d story viewer = true ↔ Open d story viewer := by
  have hrows : ∀ c, c ∈ d.communities.filter (fun c => c.apId ∈ communityApIdsFor story) ↔
      Named d story c := fun _ => mem_named
  unfold canViewerReadObject
  dsimp only
  generalize d.communities.filter (fun c => c.apId ∈ communityApIdsFor story) = rows at hrows
  by_cases hids : communityApIdsFor story = []
  · have hnone : ∀ c, ¬Named d story c := fun c hc => by simp [Named,hids] at hc
    simp only [hids,if_true,true_iff]
    exact ⟨fun c hc => absurd hc (hnone c),fun c hc => absurd hc (hnone c)⟩
  rw [if_neg hids]
  by_cases hdeleted : rows.any (fun c => c.deletedAt.isSome) = true
  · rw [if_pos hdeleted]
    obtain ⟨c,hc,hsome⟩ := List.any_eq_true.mp hdeleted
    refine ⟨fun h => absurd h (by simp),fun h => ?_⟩
    rw [h.live c ((hrows c).mp hc)] at hsome
    cases hsome
  have hlive : ∀ c, Named d story c → c.deletedAt = none := by
    intro c hc
    have hno := fun hsome => hdeleted (List.any_eq_true.mpr ⟨c,(hrows c).mpr hc,hsome⟩)
    simpa using hno
  rw [if_neg hdeleted]
  by_cases hprivate : rows.filter communityRequiresMembership = []
  · rw [if_pos hprivate]
    refine iff_of_true rfl ⟨hlive,fun c hc hp => ?_⟩
    have hmem : c ∈ rows.filter communityRequiresMembership :=
      List.mem_filter.mpr ⟨(hrows c).mpr hc,hp⟩
    rw [hprivate] at hmem
    cases hmem
  rw [if_neg hprivate]
  obtain ⟨c,hc⟩ := List.exists_mem_of_ne_nil _ hprivate
  obtain ⟨hcrow,hcp⟩ := List.mem_filter.mp hc
  cases viewer with
  | none =>
    refine ⟨fun h => absurd h (by simp),fun h => ?_⟩
    obtain ⟨v,hv,_⟩ := h.member c ((hrows c).mp hcrow) hcp
    cases hv
  | some v =>
    have hmember : (d.members.any fun m =>
        m.communityApId ∈ (rows.filter communityRequiresMembership).map (·.apId) &&
          m.actorApId = v) = true ↔
        ∃ k, Named d story k ∧ k.isPrivate = true ∧ isMember d k.apId v = true := by
      simp only [List.any_eq_true,Bool.and_eq_true,decide_eq_true_eq,List.mem_map,List.mem_filter,
        isMember,communityRequiresMembership,hrows]
      constructor
      · rintro ⟨m,hm,⟨k,⟨hk,hp⟩,heq⟩,ha⟩
        exact ⟨k,hk,hp,m,hm,heq.symm,ha⟩
      · rintro ⟨k,hk,hp,m,hm,heq,ha⟩
        exact ⟨m,hm,⟨k,⟨hk,hp⟩,heq.symm⟩,ha⟩
    refine hmember.trans ⟨fun h => ⟨hlive,fun _ _ _ => ⟨v,rfl,h⟩⟩,fun h => ?_⟩
    obtain ⟨_,hv,hk⟩ := h.member c ((hrows c).mp hcrow) hcp
    exact Option.some.inj hv ▸ hk

theorem canViewerReadStory_iff : canViewerReadStory P d story viewer = true ↔
    isActorBlockedStrict P d.blockedDomains d.blockedActors story.attributedTo = false ∧
      (viewer = some story.attributedTo ∨ Audience d story viewer) := by
  cases viewer with
  | none => simp [canViewerReadStory,Audience]
  | some v =>
    simp only [canViewerReadStory,Audience,Option.some.injEq,exists_eq_left']
    cases isActorBlockedStrict P d.blockedDomains d.blockedActors story.attributedTo with
    | true => simp
    | false =>
      by_cases hown : story.attributedTo = v
      · simp [hown]
      · have hown' : v ≠ story.attributedTo := Ne.symm hown
        cases communityOf story <;> simp [hown,hown']

theorem canViewerReadObjectFull_iff (hs : story.type = .story) (he : story.endTime = some e)
    (hnow : now < e) : canViewerReadObjectFull P d story viewer now = true ↔
    isActorBlockedStrict P d.blockedDomains d.blockedActors story.attributedTo = false ∧
      (viewer = some story.attributedTo ∨
        Open d story viewer ∧ ((communityOf story).isSome = true ∨ Audience d story viewer)) := by
  have hended : story.endTime.any (· ≤ now) = false := by simp [he,hnow]
  unfold canViewerReadObjectFull
  rw [← canViewerReadObject_iff]
  cases isActorBlockedStrict P d.blockedDomains d.blockedActors story.attributedTo with
  | true => simp
  | false =>
    by_cases hown : viewer = some story.attributedTo
    · simp [hs,hown]
    cases canViewerReadObject d story viewer with
    | false => simp [hs,hown,hended]
    | true =>
      cases viewer with
      | none =>
        cases hc : communityOf story <;> simp [hs,hended,passesPostVisibilitySync,Audience,hc]
      | some v =>
        have hne : story.attributedTo ≠ v := fun h => hown (h ▸ rfl)
        cases hc : communityOf story <;>
          simp [hs,hown,hended,passesPostVisibilitySync,Audience,hc,hne]

theorem storiesWhere_iff (hs : story.type = .story) (he : story.endTime = some e) (hnow : now < e)
    (hu : ∀ v, viewer = some v → excludeBlockedMutedAuthors d v story = true) :
    storiesWhere d story.communityApId viewer now story = true ↔
      operatorActorNotBlockedSql d.blockedDomains d.blockedActors story.attributedTo = true ∧
        Listed d story viewer := by
  cases viewer with
  | none => simp [storiesWhere,Listed]
  | some v =>
    have hcolumn : story.communityApId.filter (· ≠ []) = communityOf story := rfl
    have hv := hu v rfl
    simp only [storiesWhere,Listed,Option.some.injEq,exists_eq_left',hs,he,excludeModeratedActors,
      resolveStoryScope,hcolumn]
    cases hc : communityOf story with
    | none => simp [scopeWhere,hnow,hv,and_comm]
    | some community =>
      have hsome : story.communityApId = some community := (Option.filter_eq_some_iff.mp hc).1
      cases hm : isMember d community v <;> simp [scopeWhere,hsome,hnow,hv,hm]

theorem Listed.reached (h : Listed d story viewer) :
    viewer = some story.attributedTo ∨ Audience d story viewer := by
  obtain ⟨v,rfl,h⟩ := h
  cases hc : communityOf story with
  | none =>
    rw [hc] at h
    rcases h.2 with rfl | hf
    · exact .inl rfl
    · exact .inr ⟨v,rfl,by simpa only [hc] using hf⟩
  | some community =>
    rw [hc] at h
    exact .inr ⟨v,rfl,by simpa only [hc] using h⟩

theorem Audience.listed (h : Audience d story viewer) (hne : story.communityApId ≠ some []) :
    Listed d story viewer := by
  obtain ⟨v,rfl,h⟩ := h
  refine ⟨v,rfl,?_⟩
  cases hc : communityOf story with
  | none =>
    rw [hc] at h
    refine ⟨?_,.inr h⟩
    cases hcolumn : story.communityApId with
    | none => rfl
    | some community =>
      have hnil := Option.filter_eq_none_iff.mp hc community hcolumn
      exact absurd (by simpa [hcolumn] using hnil) hne
  | some community =>
    rw [hc] at h
    exact h

theorem story_gates_agree_iff (P : Platform) (d : Db) (story : Object) (viewer : Option Text)
    (now e : Nat) (hs : story.type = .story) (he : story.endTime = some e) (hnow : now < e)
    (hu : ∀ v, viewer = some v → excludeBlockedMutedAuthors d v story = true) :
    Agree P d story viewer now ↔ Meets P d story viewer := by
  have hstory : canViewerReadStory P d story viewer = true ↔ _ := canViewerReadStory_iff
  have hfull : canViewerReadObjectFull P d story viewer now = true ↔ _ :=
    canViewerReadObjectFull_iff hs he hnow
  have hfeed := storiesWhere_iff hs he hnow hu
  constructor
  · intro h
    rw [← h.full,hstory] at hfull
    rw [← h.feed,hstory] at hfeed
    refine ⟨fun hl => ?_,fun hb hv => ?_,fun hb ha => ?_,fun hb hv ha => ?_,fun hb hv hc ho => ?_⟩
    · have hboth : isActorBlockedStrict P d.blockedDomains d.blockedActors story.attributedTo =
          false ↔ operatorActorNotBlockedSql d.blockedDomains d.blockedActors story.attributedTo =
            true := by
        simpa only [hl.reached,and_true,hl] using hfeed
      rw [← Bool.not_eq_false,hboth,Bool.not_eq_true]
    · exact (hfeed.mp ⟨hb,.inl hv⟩).2
    · intro hnil
      have hl := (hfeed.mp ⟨hb,.inr ha⟩).2
      obtain ⟨v,_,hl⟩ := hl
      have hnone : communityOf story = none := by rw [communityOf,hnil]; rfl
      rw [hnone,hnil] at hl
      cases hl.1
    · rcases (hfull.mp ⟨hb,.inr ha⟩).2 with hown | hopen
      · exact absurd hown hv
      · exact hopen.1
    · rcases (hfull.mpr ⟨hb,.inr ⟨ho,.inl hc⟩⟩).2 with hown | ha
      · exact absurd hown hv
      · exact ha
  · intro h
    have hsame : canViewerReadStory P d story viewer =
        canViewerReadObjectFull P d story viewer now := by
      rw [Bool.eq_iff_iff,hstory,hfull]
      refine and_congr_right fun hb => ?_
      by_cases hv : viewer = some story.attributedTo
      · simp [hv]
      refine or_congr_right ⟨fun ha => ⟨h.audience hb hv ha,.inr ha⟩,fun ⟨ho,hc⟩ => ?_⟩
      exact hc.elim (h.strangers hb hv · ho) id
    refine ⟨hsame,?_,fun community hc hread => ?_⟩
    · rw [Bool.eq_iff_iff,hstory,hfeed]
      constructor
      · rintro ⟨hb,hr⟩
        have hl : Listed d story viewer :=
          hr.elim (h.author hb) fun ha => ha.listed (h.column hb ha)
        refine ⟨?_,hl⟩
        rw [← Bool.not_eq_false,← h.operators hl,hb]
        decide
      · rintro ⟨hsql,hl⟩
        refine ⟨?_,hl.reached⟩
        rw [← Bool.not_eq_true,h.operators hl,hsql]
        decide
    · rw [← hsame,hstory] at hread
      refine hread.2.imp_right fun ha => ?_
      have hne := h.column hread.1 ha
      obtain ⟨v,hv,ha⟩ := ha
      have hcommunity : communityOf story = some community := by
        refine Option.filter_eq_some_iff.mpr ⟨hc,?_⟩
        simpa [hc] using hne
      rw [hcommunity] at ha
      exact ⟨v,hv,ha⟩

end gates

section examples

/-- The town is open to read; alice, who tells a Story in it, and carol are its members. -/
def town : Db :=
  { empty with
    communities := [⟨"https://a.example/groups/town".toList,"town".toList,false,none⟩]
    members := [⟨"https://a.example/groups/town".toList,"https://a.example/users/alice".toList⟩,
      ⟨"https://a.example/groups/town".toList,"https://a.example/users/carol".toList⟩] }

def aliceStory : Object :=
  newLocalStory "https://a.example/objects/1".toList "https://a.example/users/alice".toList
    (some "https://a.example/groups/town".toList) 9 "2026".toList

theorem meets_carol : Meets plainHosts town aliceStory
    (some "https://a.example/users/carol".toList) := by
  have hlive : ∀ c ∈ town.communities, c.deletedAt = none ∧ c.isPrivate = false := by decide
  refine ⟨fun _ => ?_,fun _ h => ?_,fun _ _ => ?_,fun _ _ _ => ⟨fun c hc => ?_,fun c hc hp => ?_⟩,
    fun _ _ _ _ => ⟨_,rfl,?_⟩⟩
  · decide +kernel
  · exact absurd h (by decide)
  · decide
  · exact (hlive c hc.1).1
  · exact absurd hp (by simp [(hlive c hc.1).2])
  · have hcarol : isMember town "https://a.example/groups/town".toList
        "https://a.example/users/carol".toList = true := by decide
    exact hcarol

theorem story_gates_agree_member : Agree plainHosts town aliceStory
    (some "https://a.example/users/carol".toList) 3 :=
  (story_gates_agree_iff plainHosts town aliceStory _ 3 9 rfl rfl (by decide)
    (by intro v _; rfl)).mpr meets_carol

/-- Anybody reads the Story of an open community by its id; the gate of its routes lets members. -/
theorem story_read_by_stranger :
    aliceStory.type = .story ∧ aliceStory.endTime = some 9 ∧ 3 < 9 ∧
      excludeBlockedMutedAuthors town "https://b.example/users/bob".toList aliceStory = true ∧
      ¬Agree plainHosts town aliceStory (some "https://b.example/users/bob".toList) 3 ∧
      canViewerReadObjectFull plainHosts town aliceStory none 3 = true := by
  refine ⟨rfl,rfl,by decide,rfl,fun h => ?_,by decide +kernel⟩
  have hfull := h.full
  revert hfull
  decide +kernel

end examples

end Yurucommu.StoryGates
