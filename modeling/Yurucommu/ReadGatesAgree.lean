import Yurucommu.BlocklistCovers
import Yurucommu.ReadGates

/-!
The gate of a page and the gate of one object let the same objects through, except for a Story whose
author asks for it.
-/

set_option autoImplicit false

namespace Yurucommu.ReadGates

open Whatwg (Text)
open ActorIdentity (Platform plainHosts)
open Blocklist (isActorBlockedStrict mem_chunks_iff)

section promise

variable (parse : Text → Option Json) (d : Db)

def Named (o : Object) (c : Community) : Prop :=
  c ∈ d.communities ∧ c.apId ∈ communityApIdsFor parse o

def Community.Private (c : Community) : Prop := communityRequiresMembership c.visibility = true

/-- The communities of an object are live, and if one is private then the viewer is a member of a
private one. -/
structure Open (o : Object) (viewer : Option Text) : Prop where
  live : ∀ c, Named parse d o c → c.deletedAt = none
  member : ∀ c, Named parse d o c → c.Private → ∃ v, truthy viewer = some v ∧
    ∃ k, Named parse d o k ∧ k.Private ∧
      ∃ m ∈ d.members, m.communityApId = k.apId ∧ m.actorApId = v

end promise

section single

variable {parse : Text → Option Json} {d : Db} {o : Object} {viewer : Option Text}

theorem canViewerReadObject_iff :
    canViewerReadObject parse d o viewer = true ↔ Open parse d o viewer := by
  have hrows : ∀ c, c ∈ d.communities.filter (fun c => c.apId ∈ communityApIdsFor parse o) ↔
      Named parse d o c := by
    intro c
    simp [Named]
  unfold canViewerReadObject
  dsimp only
  generalize d.communities.filter (fun c => c.apId ∈ communityApIdsFor parse o) = rows at hrows
  by_cases hids : communityApIdsFor parse o = []
  · have hnone : ∀ c, ¬Named parse d o c := fun c hc => by simp [Named,hids] at hc
    rw [if_pos hids]
    exact iff_of_true rfl ⟨fun c hc => absurd hc (hnone c),fun c hc => absurd hc (hnone c)⟩
  rw [if_neg hids]
  by_cases hdeleted : rows.any (fun c => c.deletedAt.isSome) = true
  · rw [if_pos hdeleted]
    obtain ⟨c,hc,hsome⟩ := List.any_eq_true.mp hdeleted
    refine iff_of_false (by simp) fun h => ?_
    rw [h.live c ((hrows c).mp hc)] at hsome
    cases hsome
  have hlive : ∀ c, Named parse d o c → c.deletedAt = none := by
    intro c hc
    have hno := fun hsome => hdeleted (List.any_eq_true.mpr ⟨c,(hrows c).mpr hc,hsome⟩)
    simpa using hno
  rw [if_neg hdeleted]
  have hprivate : ∀ c, c ∈ rows.filter (fun c => communityRequiresMembership c.visibility) ↔
      Named parse d o c ∧ c.Private := by
    intro c
    rw [List.mem_filter,hrows]
    rfl
  generalize rows.filter (fun c => communityRequiresMembership c.visibility) = privateRows
    at hprivate
  by_cases hnil : privateRows = []
  · rw [if_pos hnil]
    refine iff_of_true rfl ⟨hlive,fun c hc hp => ?_⟩
    have hmem := (hprivate c).mpr ⟨hc,hp⟩
    rw [hnil] at hmem
    cases hmem
  rw [if_neg hnil]
  obtain ⟨c,hc⟩ := List.exists_mem_of_ne_nil _ hnil
  obtain ⟨hcnamed,hcprivate⟩ := (hprivate c).mp hc
  cases hviewer : truthy viewer with
  | none =>
    refine iff_of_false (by simp) fun h => ?_
    obtain ⟨v,hv,_⟩ := h.member c hcnamed hcprivate
    rw [hviewer] at hv
    cases hv
  | some v =>
    have hmember : (d.members.any fun m =>
        m.communityApId ∈ privateRows.map (·.apId) && m.actorApId = v) = true ↔
        ∃ k, Named parse d o k ∧ k.Private ∧
          ∃ m ∈ d.members, m.communityApId = k.apId ∧ m.actorApId = v := by
      simp only [List.any_eq_true,Bool.and_eq_true,decide_eq_true_eq,List.mem_map,hprivate]
      constructor
      · rintro ⟨m,hm,⟨k,⟨hk,hp⟩,heq⟩,ha⟩
        exact ⟨k,hk,hp,m,hm,heq.symm,ha⟩
      · rintro ⟨k,hk,hp,m,hm,heq,ha⟩
        exact ⟨m,hm,⟨k,⟨hk,hp⟩,heq.symm⟩,ha⟩
    refine hmember.trans ⟨fun h => ⟨hlive,fun _ _ _ => ⟨v,hviewer,h⟩⟩,fun h => ?_⟩
    obtain ⟨_,hv,hk⟩ := h.member c hcnamed hcprivate
    rw [hviewer] at hv
    exact Option.some.inj hv ▸ hk

end single

section page

variable {parse : Text → Option Json} {d : Db} {page : List Object} {o : Object}
  {viewer : Option Text}

theorem get_perObjectCommunityIds (hpage : ∀ o ∈ page, ∀ o' ∈ page, o.apId = o'.apId → o = o')
    (ho : o ∈ page) :
    (perObjectCommunityIds parse page).get o.apId = some (communityApIdsFor parse o) :=
  JsMap.get_foldl_set _ (fun o' ho' hkey => by rw [hpage o' ho' o ho hkey]) (.inr ⟨o,ho,rfl⟩)

theorem mem_unionIds {id : Text} (ho : o ∈ page) (hid : id ∈ communityApIdsFor parse o) :
    id ∈ unionIds parse page :=
  List.mem_dedup.mpr (List.mem_flatMap.mpr ⟨o,ho,hid⟩)

theorem mem_communityRows {c : Community} :
    c ∈ communityRows parse d page ↔ c ∈ d.communities ∧ c.apId ∈ unionIds parse page := by
  rw [← mem_chunks_iff (l := unionIds parse page)]
  simp only [communityRows,chunkForInClause,List.mem_flatMap,List.mem_filter,decide_eq_true_eq]
  constructor
  · rintro ⟨chunk,hchunk,hc,hid⟩
    exact ⟨hc,chunk,hchunk,hid⟩
  · rintro ⟨hc,chunk,hchunk,hid⟩
    exact ⟨chunk,hchunk,hc,hid⟩

theorem mem_deletedSet {id : Text} : id ∈ deletedSet parse d page ↔
    ∃ c ∈ d.communities, c.apId = id ∧ id ∈ unionIds parse page ∧ c.deletedAt.isSome = true := by
  simp only [deletedSet,List.mem_map,List.mem_filter,mem_communityRows]
  constructor
  · rintro ⟨c,⟨⟨hc,hid⟩,hsome⟩,rfl⟩
    exact ⟨c,hc,rfl,hid,hsome⟩
  · rintro ⟨c,hc,rfl,hid,hsome⟩
    exact ⟨c,⟨⟨hc,hid⟩,hsome⟩,rfl⟩

theorem mem_privateSet {id : Text} : id ∈ privateSet parse d page ↔
    ∃ c ∈ d.communities, c.apId = id ∧ id ∈ unionIds parse page ∧ c.deletedAt.isNone = true ∧
      c.Private := by
  simp only [privateSet,List.mem_map,List.mem_filter,mem_communityRows,Bool.and_eq_true]
  constructor
  · rintro ⟨c,⟨⟨hc,hid⟩,hlive,hp⟩,rfl⟩
    exact ⟨c,hc,rfl,hid,hlive,hp⟩
  · rintro ⟨c,hc,rfl,hid,hlive,hp⟩
    exact ⟨c,⟨⟨hc,hid⟩,hlive,hp⟩,rfl⟩

theorem mem_viewerMemberSet {id : Text} : id ∈ viewerMemberSet parse d page viewer ↔
    ∃ v, truthy viewer = some v ∧ id ∈ privateSet parse d page ∧
      ∃ m ∈ d.members, m.communityApId = id ∧ m.actorApId = v := by
  unfold viewerMemberSet
  cases truthy viewer with
  | none => simp
  | some v =>
    have hchunks : id ∈ privateSet parse d page ↔
        ∃ chunk ∈ chunkForInClause (privateSet parse d page).dedup, id ∈ chunk := by
      rw [chunkForInClause,mem_chunks_iff,List.mem_dedup]
    simp only [List.mem_flatMap,List.mem_map,List.mem_filter,Bool.and_eq_true,decide_eq_true_eq,
      Option.some.injEq,exists_eq_left',hchunks]
    constructor
    · rintro ⟨chunk,hchunk,m,⟨hm,hid,ha⟩,rfl⟩
      exact ⟨⟨chunk,hchunk,hid⟩,m,hm,rfl,ha⟩
    · rintro ⟨⟨chunk,hchunk,hid⟩,m,hm,rfl,ha⟩
      exact ⟨chunk,hchunk,m,⟨hm,hid,ha⟩,rfl⟩

theorem readable_iff (hpage : ∀ o ∈ page, ∀ o' ∈ page, o.apId = o'.apId → o = o')
    (ho : o ∈ page) : readable parse d page viewer o = true ↔ Open parse d o viewer := by
  unfold readable
  rw [get_perObjectCommunityIds hpage ho,Option.getD_some]
  dsimp only
  by_cases hdeleted : ((communityApIdsFor parse o).any fun id =>
      (deletedSet parse d page).contains id) = true
  · rw [if_pos hdeleted]
    simp only [List.any_eq_true,List.contains_iff_mem,mem_deletedSet] at hdeleted
    obtain ⟨id,hid,c,hc,rfl,_,hsome⟩ := hdeleted
    refine iff_of_false (by simp) fun h => ?_
    rw [h.live c ⟨hc,hid⟩] at hsome
    cases hsome
  rw [if_neg hdeleted]
  have hlive : ∀ c, Named parse d o c → c.deletedAt = none := by
    intro c hc
    by_contra hsome
    refine hdeleted (List.any_eq_true.mpr ⟨c.apId,hc.2,?_⟩)
    rw [List.contains_iff_mem,mem_deletedSet]
    exact ⟨c,hc.1,rfl,mem_unionIds ho hc.2,Option.isSome_iff_ne_none.mpr hsome⟩
  have hprivate : ∀ id, (id ∈ communityApIdsFor parse o ∧ id ∈ privateSet parse d page) ↔
      ∃ c, Named parse d o c ∧ c.Private ∧ c.apId = id := by
    intro id
    rw [mem_privateSet]
    constructor
    · rintro ⟨hid,c,hc,rfl,_,_,hp⟩
      exact ⟨c,⟨hc,hid⟩,hp,rfl⟩
    · rintro ⟨c,hc,hp,rfl⟩
      exact ⟨hc.2,c,hc.1,rfl,mem_unionIds ho hc.2,by rw [hlive c hc]; rfl,hp⟩
  simp only [Bool.or_eq_true,decide_eq_true_eq,List.filter_eq_nil_iff,List.any_eq_true,
    List.mem_filter,List.contains_iff_mem,mem_viewerMemberSet]
  constructor
  · intro h
    refine ⟨hlive,fun c hc hp => ?_⟩
    have hid := (hprivate c.apId).mpr ⟨c,hc,hp,rfl⟩
    rcases h with hnone | ⟨id,hin,v,hv,_,m,hm,hcommunity,ha⟩
    · exact absurd hid.2 (hnone c.apId hid.1)
    · obtain ⟨k,hk,hkp,rfl⟩ := (hprivate id).mp hin
      exact ⟨v,hv,k,hk,hkp,m,hm,hcommunity,ha⟩
  · intro h
    by_cases hnone : ∀ id ∈ communityApIdsFor parse o, ¬id ∈ privateSet parse d page
    · exact .inl hnone
    · simp only [not_forall,not_not] at hnone
      obtain ⟨id,hid,hin⟩ := hnone
      obtain ⟨c,hc,hp,_⟩ := (hprivate id).mp ⟨hid,hin⟩
      obtain ⟨v,hv,k,hk,hkp,m,hm,hcommunity,ha⟩ := h.member c hc hp
      have hkin := (hprivate k.apId).mpr ⟨k,hk,hkp,rfl⟩
      exact .inr ⟨k.apId,hkin,v,hv,hkin.2,m,hm,hcommunity,ha⟩

theorem mem_communityReadableApIds
    (hpage : ∀ o ∈ page, ∀ o' ∈ page, o.apId = o'.apId → o = o') (ho : o ∈ page) :
    o.apId ∈ communityReadableApIds parse d page viewer ↔
      canViewerReadObject parse d o viewer = true := by
  rw [canViewerReadObject_iff]
  unfold communityReadableApIds
  split
  · rename_i hnil
    refine iff_of_true (List.mem_map_of_mem ho) ?_
    have hnone : ∀ c, ¬Named parse d o c := by
      intro c hc
      have hid := mem_unionIds ho hc.2
      rw [hnil] at hid
      cases hid
    exact ⟨fun c hc => absurd hc (hnone c),fun c hc => absurd hc (hnone c)⟩
  · rw [← readable_iff hpage ho]
    simp only [List.mem_map,List.mem_filter]
    constructor
    · rintro ⟨o',⟨ho',hr⟩,hkey⟩
      rw [hpage o' ho' o ho hkey] at hr
      exact hr
    · intro hr
      exact ⟨o,⟨ho,hr⟩,rfl⟩

end page

section full

variable {P : Platform} {parse : Text → Option Json} {d : Db} {o : Object} {viewer : Option Text}
  {now : Text}

theorem isOwn_iff : o.isOwn viewer = true ↔ truthy viewer = some o.attributedTo := by
  rw [Object.isOwn,Option.any_eq_true]
  constructor
  · rintro ⟨v,hv,heq⟩
    rw [hv,of_decide_eq_true heq]
  · intro h
    exact ⟨_,h,decide_eq_true rfl⟩

section passes

variable (isAcceptedFollower isProjectedRecipient : Text → Bool)

theorem passes_story (hs : o.isStory = true) (hown : o.isOwn viewer = false)
    (hended : o.ended now = false) :
    passesPostVisibilitySync parse o viewer isAcceptedFollower isProjectedRecipient now =
      if (truthy o.communityApId).isSome then some true
      else some ((truthy viewer).isSome && isAcceptedFollower o.attributedTo) := by
  unfold passesPostVisibilitySync
  rw [if_pos hs,if_neg (by rw [hown]; exact Bool.false_ne_true),
    if_neg (by rw [hended]; exact Bool.false_ne_true)]

theorem passes_own (hown : o.isOwn viewer = true) (hs : o.isStory = true) :
    passesPostVisibilitySync parse o viewer isAcceptedFollower isProjectedRecipient now =
      some true := by
  unfold passesPostVisibilitySync
  rw [if_pos hs,if_pos hown]

theorem passes_ended (hs : o.isStory = true) (hown : o.isOwn viewer = false)
    (hended : o.ended now = true) :
    passesPostVisibilitySync parse o viewer isAcceptedFollower isProjectedRecipient now =
      some false := by
  unfold passesPostVisibilitySync
  rw [if_pos hs,if_neg (by rw [hown]; exact Bool.false_ne_true),if_pos hended]

def Object.narrow (o : Object) : Bool :=
  o.visibility = "direct".toList || o.visibility = "followers".toList

def Object.forFollowers (o : Object) : Bool := o.visibility = "followers".toList

theorem passes_wide (hs : o.isStory = false) (hwide : o.narrow = false) :
    passesPostVisibilitySync parse o viewer isAcceptedFollower isProjectedRecipient now =
      some (o.visibility = "public".toList || o.visibility = "unlisted".toList) := by
  simp only [Object.narrow,Bool.or_eq_false_iff,decide_eq_false_iff_not] at hwide
  unfold passesPostVisibilitySync
  rw [if_neg (by rw [hs]; exact Bool.false_ne_true),if_neg hwide.1,if_neg hwide.2]

theorem passes_narrow (hs : o.isStory = false) (hnarrow : o.narrow = true) :
    passesPostVisibilitySync parse o viewer isAcceptedFollower isProjectedRecipient now =
      match truthy viewer with
      | none => some false
      | some viewer =>
        if o.attributedTo = viewer then some true
        else either (isExplicitRecipient parse o viewer)
          (some ((o.apId ≠ [] && isProjectedRecipient o.apId) ||
            (o.forFollowers && isAcceptedFollower o.attributedTo))) := by
  unfold passesPostVisibilitySync
  rw [if_neg (by rw [hs]; exact Bool.false_ne_true)]
  by_cases hdirect : o.visibility = "direct".toList
  · have hfollowers : o.forFollowers = false := by
      rw [Object.forFollowers,hdirect]
      decide
    rw [if_pos hdirect,hfollowers]
    cases truthy viewer with
    | none => rfl
    | some v => simp only [Bool.false_and,Bool.or_false]
  · rw [Object.narrow,Bool.or_eq_true,decide_eq_true_eq,decide_eq_true_eq] at hnarrow
    have hvisibility := hnarrow.resolve_left hdirect
    have hfollowers : o.forFollowers = true := decide_eq_true hvisibility
    rw [if_neg hdirect,if_pos hvisibility,hfollowers]
    cases truthy viewer with
    | none => rfl
    | some v => simp only [Bool.true_and]

end passes

theorem needsProjection_eq : needsProjection parse o viewer =
    match truthy viewer with
    | none => some false
    | some viewer =>
      if o.apId ≠ [] && o.attributedTo ≠ viewer && !o.isStory && o.narrow then
        (isExplicitRecipient parse o viewer).map (!·)
      else some false := rfl

theorem needsFollow_eq {projectedRecipient : Bool} :
    needsFollow parse o viewer projectedRecipient =
    match truthy viewer with
    | none => some false
    | some viewer =>
      if o.attributedTo = viewer then some false
      else if o.isStory then some (truthy o.communityApId).isNone
      else if o.forFollowers then
        (isExplicitRecipient parse o viewer).map fun explicit => !explicit && !projectedRecipient
      else some false := by
  unfold needsFollow Object.forFollowers
  cases truthy viewer with
  | none => rfl
  | some v => simp only [decide_eq_true_eq]

def ask (parse : Text → Option Json) (d : Db) (o : Object) (viewer : Option Text) (now : Text) :
    Option Bool :=
  (needsProjection parse o viewer).bind fun needed =>
    let projectedRecipient := lookup viewer needed (hasProjectedRecipient d o.apId)
    (needsFollow parse o viewer projectedRecipient).bind fun needed =>
      let following := lookup viewer needed fun viewer => hasAcceptedFollow d viewer o.attributedTo
      passesPostVisibilitySync parse o viewer (fun _ => following) (fun _ => projectedRecipient) now

theorem ask_story (hs : o.isStory = true) (hown : o.isOwn viewer = false)
    (hended : o.ended now = false) : ask parse d o viewer now =
      passesPostVisibilitySync parse o viewer (acceptedFollower d viewer)
        (projectedRecipient d viewer) now := by
  have hprojection : needsProjection parse o viewer = some false := by
    rw [needsProjection_eq]
    cases truthy viewer <;> simp [hs]
  rw [ask,hprojection,Option.bind_some]
  simp only [needsFollow_eq,passes_story _ _ hs hown hended]
  cases hv : truthy viewer with
  | none => simp
  | some v =>
    have hne : o.attributedTo ≠ v := by
      intro heq
      rw [← Bool.not_eq_true,isOwn_iff,hv,heq] at hown
      exact hown rfl
    cases truthy o.communityApId <;> simp [hne,hs,hv,lookup,acceptedFollower]

theorem ask_note (hs : o.isStory = false) : ask parse d o viewer now =
    passesPostVisibilitySync parse o viewer (acceptedFollower d viewer)
      (projectedRecipient d viewer) now := by
  cases hnarrow : o.narrow with
  | false =>
    have hfollowers : o.forFollowers = false := by
      rw [Object.narrow,Bool.or_eq_false_iff] at hnarrow
      exact hnarrow.2
    rw [ask,needsProjection_eq]
    simp only [needsFollow_eq,passes_wide _ _ hs hnarrow,hnarrow,hfollowers,hs]
    generalize some (o.visibility = "public".toList || o.visibility = "unlisted".toList) = wide
    cases truthy viewer <;> simp
  | true =>
    rw [ask,needsProjection_eq]
    simp only [needsFollow_eq,passes_narrow _ _ hs hnarrow,hnarrow,hs]
    cases hv : truthy viewer with
    | none => simp
    | some v =>
      by_cases hown : o.attributedTo = v
      · simp [hown]
      cases hexplicit : isExplicitRecipient parse o v with
      | none =>
        by_cases hid : o.apId = [] <;> cases o.forFollowers <;>
          simp [hown,hid,hexplicit,either]
      | some explicit =>
        cases explicit with
        | true =>
          by_cases hid : o.apId = [] <;> cases o.forFollowers <;>
            simp [hown,hid,hexplicit,either]
        | false =>
          by_cases hid : o.apId = [] <;> cases o.forFollowers <;>
            cases hp : hasProjectedRecipient d o.apId v <;>
              simp [hown,hid,hv,hexplicit,either,lookup,acceptedFollower,projectedRecipient,hp]

theorem full_eq
    (hb : isActorBlockedStrict P d.blockedDomains d.blockedActors o.attributedTo = false)
    (hown : (o.isStory && o.isOwn viewer) = false) (hended : (o.isStory && o.ended now) = false)
    (hread : canViewerReadObject parse d o viewer = true) :
    canViewerReadObjectFull P parse d o viewer now = ask parse d o viewer now := by
  unfold canViewerReadObjectFull ask
  rw [hb,hown,hended,hread]
  rfl

/-- The gate of one object lets through what is not blocked, passes the sync gate, and is readable
in its communities or a Story of its own viewer. -/
theorem canViewerReadObjectFull_iff : canViewerReadObjectFull P parse d o viewer now = some true ↔
    isActorBlockedStrict P d.blockedDomains d.blockedActors o.attributedTo = false ∧
      ((o.isStory && o.isOwn viewer) = true ∨ canViewerReadObject parse d o viewer = true) ∧
        passesPostVisibilitySync parse o viewer (acceptedFollower d viewer)
          (projectedRecipient d viewer) now = some true := by
  cases hb : isActorBlockedStrict P d.blockedDomains d.blockedActors o.attributedTo with
  | true => simp [canViewerReadObjectFull,hb]
  | false =>
    cases hown : o.isStory && o.isOwn viewer with
    | true =>
      have hboth := Bool.and_eq_true_iff.mp hown
      rw [passes_own _ _ hboth.2 hboth.1]
      simp [canViewerReadObjectFull,hb,hown]
    | false =>
      cases hread : canViewerReadObject parse d o viewer with
      | false => simp [canViewerReadObjectFull,hb,hown,hread]
      | true =>
        cases hended : o.isStory && o.ended now with
        | true =>
          have hboth := Bool.and_eq_true_iff.mp hended
          have hnot : o.isOwn viewer = false := by simpa [hboth.1] using hown
          rw [passes_ended _ _ hboth.1 hnot hboth.2]
          simp [canViewerReadObjectFull,hb,hown,hended]
        | false =>
          have hask : ask parse d o viewer now = passesPostVisibilitySync parse o viewer
              (acceptedFollower d viewer) (projectedRecipient d viewer) now := by
            cases hs : o.isStory with
            | false => exact ask_note hs
            | true =>
              rw [hs,Bool.true_and] at hown hended
              exact ask_story hs hown hended
          rw [full_eq hb hown hended hread,hask]
          simp

/-- On every page, the set of the page gate is what the gate of one object allows for its
communities; and the full gate allows what is not blocked, passes the sync gate, and is in that set
or a Story of its own viewer. -/
theorem read_gates_agree (P : Platform) (parse : Text → Option Json) (d : Db) (page : List Object)
    (viewer : Option Text) (now : Text)
    (hpage : ∀ o ∈ page, ∀ o' ∈ page, o.apId = o'.apId → o = o') :
    ∀ o ∈ page,
      (o.apId ∈ communityReadableApIds parse d page viewer ↔
        canViewerReadObject parse d o viewer = true) ∧
      (canViewerReadObjectFull P parse d o viewer now = some true ↔
        isActorBlockedStrict P d.blockedDomains d.blockedActors o.attributedTo = false ∧
          (o.apId ∈ communityReadableApIds parse d page viewer ∨
            (o.isStory && o.isOwn viewer) = true) ∧
          passesPostVisibilitySync parse o viewer (acceptedFollower d viewer)
            (projectedRecipient d viewer) now = some true) := by
  intro o ho
  have hset : o.apId ∈ communityReadableApIds parse d page viewer ↔
      canViewerReadObject parse d o viewer = true := mem_communityReadableApIds hpage ho
  refine ⟨hset,?_⟩
  rw [canViewerReadObjectFull_iff,hset,or_comm]

end full

section examples

def closed : Db :=
  ⟨[⟨"c".toList,some "public".toList,some "2026".toList⟩],[],[],[],[],[]⟩

def ownStory : Object :=
  ⟨"o".toList,some "Story".toList,"a".toList,"public".toList,"[]".toList,"[]".toList,
    some "[]".toList,some "c".toList,some "2027".toList⟩

def noEntries (_ : Text) : Option Json := some (.array [])

def member : Db :=
  ⟨closed.communities ++ [⟨"p".toList,some "private".toList,none⟩],[⟨"p".toList,"a".toList⟩],
    [⟨"a".toList,"b".toList,"accepted".toList⟩],[],[],[]⟩

def letter : Object :=
  ⟨"l".toList,some "Note".toList,"b".toList,"followers".toList,"[]".toList,"[]".toList,
    some "[]".toList,some "p".toList,none⟩

/-- The page has the Note for the member; the Story of its own it reads by the id alone. -/
theorem read_gates_agree_closed :
    communityReadableApIds noEntries member [ownStory,letter] (some "a".toList) = ["l".toList] ∧
      ∀ o ∈ [ownStory,letter],
        (o.apId ∈ communityReadableApIds noEntries member [ownStory,letter] (some "a".toList) ↔
            canViewerReadObject noEntries member o (some "a".toList) = true) ∧
          (canViewerReadObjectFull plainHosts noEntries member o (some "a".toList)
              "2026".toList = some true ↔
            isActorBlockedStrict plainHosts member.blockedDomains member.blockedActors
                o.attributedTo = false ∧
              (o.apId ∈ communityReadableApIds noEntries member [ownStory,letter]
                  (some "a".toList) ∨ (o.isStory && o.isOwn (some "a".toList)) = true) ∧
              passesPostVisibilitySync noEntries o (some "a".toList)
                (acceptedFollower member (some "a".toList))
                (projectedRecipient member (some "a".toList)) "2026".toList = some true) :=
  ⟨by decide +kernel,
    read_gates_agree plainHosts noEntries member [ownStory,letter] (some "a".toList)
      "2026".toList (by decide)⟩

/-- The author reads the Story by its id, and no page that has it shows it. -/
theorem own_story_on_no_page :
    ¬ ∀ (P : Platform) (parse : Text → Option Json) (d : Db) (page : List Object)
      (viewer : Option Text) (now : Text),
      (∀ o ∈ page, ∀ o' ∈ page, o.apId = o'.apId → o = o') → ∀ o ∈ page,
        (canViewerReadObjectFull P parse d o viewer now = some true ↔
          isActorBlockedStrict P d.blockedDomains d.blockedActors o.attributedTo = false ∧
            o.apId ∈ communityReadableApIds parse d page viewer ∧
            passesPostVisibilitySync parse o viewer (acceptedFollower d viewer)
              (projectedRecipient d viewer) now = some true) := by
  intro hall
  have hiff := hall plainHosts noEntries closed [ownStory] (some "a".toList) "2026".toList (by simp)
    ownStory (by simp)
  have hread : canViewerReadObjectFull plainHosts noEntries closed ownStory (some "a".toList)
      "2026".toList = some true := by decide +kernel
  have hset : ¬ownStory.apId ∈ communityReadableApIds noEntries closed [ownStory]
      (some "a".toList) := by decide +kernel
  exact hset (hiff.mp hread).2.1

end examples

end Yurucommu.ReadGates
