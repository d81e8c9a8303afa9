import Yurucommu.DeliveryPlanner

/-!
A plan is a partition of the recipients: the blocked, the grouped and the unknown, whatever way the
lookups are cut.
-/

set_option autoImplicit false

namespace Yurucommu.DeliveryPlanner

open ActorIdentity (Platform isSafeRemoteUrl normalizeActivityPubActorId
  activityPubActorIdentitySetSql)
open Blocklist (normalizeDomain domainSuffixCandidates)
open StoryUpdates (Dates)
open Whatwg (Text)

section meaning

variable (dates : Dates) (P : Platform)

def Blocked (blockedDomains blockedActors : List Text) (apId : Text) : Prop :=
  apId ≠ [] ∧ (apId ∈ blockedActors ∨
    (∃ identity ∈ activityPubActorIdentitySetSql blockedActors,
      normalizeActivityPubActorId P apId = some identity) ∨
    ∃ domain, normalizeDomain P apId = some domain ∧
      ∃ candidate ∈ domainSuffixCandidates domain, candidate ∈ blockedDomains)

/-- The shared inbox of the row where it is safe, otherwise its inbox where that is. -/
inductive EndpointOf (row : ActorCacheRow) : Text → Bool → Prop where
  | shared {endpoint : Text} (there : row.sharedInbox = some endpoint)
      (safe : isSafeRemoteUrl P endpoint = true) : EndpointOf row endpoint true
  | inbox (sharedRisky : ∀ shared, row.sharedInbox = some shared →
      isSafeRemoteUrl P shared = false) (safe : isSafeRemoteUrl P row.inbox = true) :
      EndpointOf row row.inbox false

def Reached (cache : ActorCache) (nowMs : ℤ) (apId endpoint : Text) (usedSharedInbox : Bool) :
    Prop :=
  ∃ row ∈ cache.rows, row.apId = apId ∧ isActorCacheFresh dates row nowMs = true ∧
    EndpointOf P row endpoint usedSharedInbox

/-- Each occurrence of a recipient is in one part of the plan, and the part is the right one. -/
structure Partitions (blocked : Text → Prop) (reached : Text → Text → Prop)
    (recipientActorApIds : List Text) (plan : PlanEndpointsResult) : Prop where
  occurrences : (plan.groups.flatMap PlannedEndpointGroup.recipientActorApIds ++
    plan.unknownRecipients ++ plan.blockedRecipients).Perm recipientActorApIds
  apart : (plan.groups.map PlannedEndpointGroup.recipientActorApIds ++
    [plan.unknownRecipients,plan.blockedRecipients]).Pairwise List.Disjoint
  endpoints : (plan.groups.map PlannedEndpointGroup.endpoint).Nodup
  counts : ∀ g ∈ plan.groups, g.recipientCount = g.recipientActorApIds.length
  grouped : ∀ apId endpoint,
    (∃ g ∈ plan.groups, g.endpoint = endpoint ∧ apId ∈ g.recipientActorApIds) ↔
      apId ∈ recipientActorApIds ∧ ¬blocked apId ∧ reached apId endpoint
  unknown : ∀ apId, apId ∈ plan.unknownRecipients ↔
    apId ∈ recipientActorApIds ∧ ¬blocked apId ∧ ∀ endpoint, ¬reached apId endpoint
  dropped : ∀ apId, apId ∈ plan.blockedRecipients ↔ apId ∈ recipientActorApIds ∧ blocked apId
  total : plan.totalRecipients = recipientActorApIds.length

end meaning

section filter

variable {S T : Slicing} {P : Platform} {blockedDomains blockedActors ids : List Text} {x : Text}

theorem mem_flatMap_slices {rows : List Text} :
    x ∈ (S.slices ids).flatMap (fun chunk => rows.filter fun row => row ∈ chunk) ↔
      x ∈ rows ∧ x ∈ ids := by
  have hids : x ∈ ids ↔ ∃ chunk ∈ S.slices ids, x ∈ chunk := by
    rw [← List.mem_flatten,S.flatten_slices]
  simp only [hids,List.mem_flatMap,List.mem_filter,decide_eq_true_eq]
  constructor
  · rintro ⟨chunk,hc,hr,hx⟩
    exact ⟨hr,chunk,hc,hx⟩
  · rintro ⟨hr,chunk,hc,hx⟩
    exact ⟨chunk,hc,hr,hx⟩

theorem mem_filterBlocked_iff :
    x ∈ filterBlockedActorApIdsStrict S P blockedDomains blockedActors ids ↔
      x ∈ ids ∧ Blocked P blockedDomains blockedActors x := by
  unfold filterBlockedActorApIdsStrict Blocked
  simp only [List.mem_filter,List.mem_dedup,mem_flatMap_slices,decide_eq_true_eq,
    List.length_pos_iff,Bool.or_eq_true,Option.any_eq_true,List.any_eq_true,and_assoc,or_assoc]
  refine and_congr_right fun hx => and_congr_right fun hne => or_congr ?_ (or_congr ?_ ?_)
  · simp [hx,hne]
  · constructor
    · rintro ⟨identity,hn,hs,-⟩
      exact ⟨identity,hs,hn⟩
    · rintro ⟨identity,hs,hn⟩
      refine ⟨identity,hn,hs,List.mem_filterMap.mpr ⟨x,?_,hn⟩⟩
      simp [hx,hne]
  · cases hd : normalizeDomain P x with
    | none => simp
    | some domain =>
      simp only [Option.some.injEq,exists_eq_left']
      refine exists_congr fun c => and_congr_right fun hc => ?_
      rw [and_iff_left_iff_imp]
      intro _
      refine List.mem_flatMap.mpr ⟨x,by simp [hx,hne],?_⟩
      rw [hd]
      exact hc

end filter

section lookup

variable {S : Slicing} {dates : Dates} {P : Platform} {cache : ActorCache} {nowMs : ℤ}
  {ids : List Text} {x endpoint : Text} {used : Bool} {row : ActorCacheRow}

theorem row_unique (hr : row ∈ cache.rows) {other : ActorCacheRow} (ho : other ∈ cache.rows)
    (h : other.apId = row.apId) : other = row :=
  List.inj_on_of_nodup_map cache.nodup ho hr h

theorem mem_asked_rows : row ∈ ((S.slices ids).flatMap fun chunk =>
    cache.rows.filter fun row => row.apId ∈ chunk) ↔ row ∈ cache.rows ∧ row.apId ∈ ids := by
  have hids : row.apId ∈ ids ↔ ∃ chunk ∈ S.slices ids, row.apId ∈ chunk := by
    rw [← List.mem_flatten,S.flatten_slices]
  simp only [hids,List.mem_flatMap,List.mem_filter,decide_eq_true_eq]
  constructor
  · rintro ⟨chunk,hc,hr,hx⟩
    exact ⟨hr,chunk,hc,hx⟩
  · rintro ⟨hr,chunk,hc,hx⟩
    exact ⟨chunk,hc,hr,hx⟩

theorem get_byApId_of_row (hr : row ∈ cache.rows) (hx : row.apId ∈ ids) :
    (byApId S cache ids).get row.apId = some row :=
  JsMap.get_foldl_set JsMap.empty (fun _ ho hk => row_unique hr (mem_asked_rows.mp ho).1 hk)
    (.inr ⟨row,mem_asked_rows.mpr ⟨hr,hx⟩,rfl⟩)

theorem get_byApId_iff (hx : x ∈ ids) :
    (byApId S cache ids).get x = some row ↔ row ∈ cache.rows ∧ row.apId = x := by
  constructor
  · intro h
    by_cases hrow : ∃ r ∈ cache.rows, r.apId = x
    · obtain ⟨r,hr,rfl⟩ := hrow
      rw [get_byApId_of_row hr hx] at h
      exact Option.some.inj h ▸ ⟨hr,rfl⟩
    · rw [byApId,JsMap.get_foldl_of_forall_ne] at h
      · cases h
      · exact fun r hr hk => hrow ⟨r,(mem_asked_rows.mp hr).1,hk⟩
  · rintro ⟨hr,rfl⟩
    exact get_byApId_of_row hr hx

theorem not_safe_nil : isSafeRemoteUrl P [] = false := rfl

theorem chooseEndpoint_iff :
    chooseEndpoint P row = some (endpoint,used) ↔ EndpointOf P row endpoint used := by
  have present : ∀ t : Text, isSafeRemoteUrl P t = true → t ≠ [] := by
    rintro t ht rfl
    rw [not_safe_nil] at ht
    cases ht
  have keeps : ∀ t : Text, (t ≠ [] && isSafeRemoteUrl P t : Bool) = isSafeRemoteUrl P t := by
    intro t
    cases ht : isSafeRemoteUrl P t with
    | false => exact Bool.and_false _
    | true => simp [present t ht]
  unfold chooseEndpoint
  simp only [keeps]
  split
  · rename_i shared hs
    obtain ⟨hthere,hsafe⟩ := Option.filter_eq_some_iff.mp hs
    simp only [Option.some.injEq,Prod.mk.injEq]
    constructor
    · rintro ⟨rfl,rfl⟩
      exact .shared hthere hsafe
    · intro h
      cases h with
      | shared there _ => exact ⟨Option.some.inj (hthere.symm.trans there),rfl⟩
      | inbox sharedRisky _ =>
        rw [sharedRisky shared hthere] at hsafe
        cases hsafe
  · rename_i hs
    have hrisky : ∀ shared, row.sharedInbox = some shared → isSafeRemoteUrl P shared = false := by
      intro shared hthere
      rw [hthere,Option.filter_some] at hs
      split at hs
      · cases hs
      · rename_i h
        exact Bool.eq_false_iff.mpr h
    rw [Option.ite_none_right_eq_some,Option.some.injEq,Prod.mk.injEq]
    constructor
    · rintro ⟨hsafe,rfl,rfl⟩
      exact .inbox hrisky hsafe
    · intro h
      cases h with
      | shared there safe =>
        rw [hrisky endpoint there] at safe
        cases safe
      | inbox _ safe => exact ⟨safe,rfl,rfl⟩

theorem chosen_iff (hx : x ∈ ids) :
    chosen dates P (byApId S cache ids) nowMs x = some (endpoint,used) ↔
      Reached dates P cache nowMs x endpoint used := by
  unfold chosen Reached
  constructor
  · intro h
    split at h
    · rename_i row hrow
      rw [get_byApId_iff hx] at hrow
      rw [Option.ite_none_right_eq_some,chooseEndpoint_iff] at h
      exact ⟨row,hrow.1,hrow.2,h.1,h.2⟩
    · cases h
  · rintro ⟨row,hrow,hid,hfresh,he⟩
    rw [(get_byApId_iff hx).mpr ⟨hrow,hid⟩]
    simp only [hfresh,if_true]
    exact chooseEndpoint_iff.mpr he

end lookup

section grouping

variable {choose other : Text → Option (Text × Bool)} {ids : List Text} {x endpoint : Text}

structure Grouped (choose : Text → Option (Text × Bool)) (ids : List Text) (g : Grouping) :
    Prop where
  unknown : ∀ x, x ∈ g.unknownRecipients ↔ x ∈ ids ∧ choose x = none
  listed : ∀ endpoint x, (∃ xs, g.endpointRecipients.get endpoint = some xs ∧ x ∈ xs) ↔
    x ∈ ids ∧ (choose x).map Prod.fst = some endpoint
  shared : g.sharedInboxRecipients = ids.countP fun x => (choose x).any Prod.snd
  occurrences : (g.endpointRecipients.values.flatten ++ g.unknownRecipients).Perm ids

theorem grouped_start : Grouped choose [] .start := by
  constructor <;> simp [Grouping.start,JsMap.empty,JsMap.get,JsMap.values]

theorem Grouped.add {g : Grouping} (h : Grouped choose ids g) (apId : Text) :
    Grouped choose (ids ++ [apId]) (g.add apId (choose apId)) := by
  cases hc : choose apId with
  | none =>
    constructor
    · intro x
      simp only [Grouping.add,List.mem_append,List.mem_singleton,h.unknown,or_and_right]
      refine or_congr_right ?_
      constructor
      · rintro rfl
        exact ⟨rfl,hc⟩
      · exact And.left
    · intro endpoint x
      simp only [Grouping.add,List.mem_append,List.mem_singleton,h.listed,or_and_right]
      rw [or_iff_left]
      rintro ⟨rfl,hx⟩
      rw [hc] at hx
      cases hx
    · simp [Grouping.add,h.shared,List.countP_append,hc]
    · simp only [Grouping.add,← List.append_assoc]
      exact h.occurrences.append_right [apId]
  | some chosen =>
    obtain ⟨e,used⟩ := chosen
    constructor
    · intro x
      simp only [Grouping.add,List.mem_append,List.mem_singleton,h.unknown,or_and_right]
      rw [or_iff_left]
      rintro ⟨rfl,hx⟩
      rw [hc] at hx
      cases hx
    · intro endpoint x
      have hold := h.listed endpoint x
      simp only [Grouping.add,JsMap.get_push,List.mem_append,List.mem_singleton,or_and_right,
        ← hold]
      by_cases he : endpoint = e
      · subst he
        simp only [if_true,Option.some.injEq,exists_eq_left',List.mem_append,List.mem_singleton]
        refine or_congr ?_ ?_
        · cases hget : g.endpointRecipients.get endpoint <;> simp
        · constructor
          · rintro rfl
            exact ⟨rfl,by rw [hc]; rfl⟩
          · exact And.left
      · rw [if_neg he,iff_comm]
        refine or_iff_left ?_
        rintro ⟨rfl,hx⟩
        rw [hc] at hx
        exact he (Option.some.inj hx).symm
    · simp [Grouping.add,h.shared,List.countP_append,hc]
    · simp only [Grouping.add]
      have hpush := (JsMap.perm_push g.endpointRecipients e apId).append_right g.unknownRecipients
      have hswap : (g.endpointRecipients.values.flatten ++ [apId] ++ g.unknownRecipients).Perm
          (g.endpointRecipients.values.flatten ++ g.unknownRecipients ++ [apId]) := by
        rw [List.append_assoc,List.append_assoc]
        exact List.perm_append_comm.append_left _
      exact hpush.trans (hswap.trans (h.occurrences.append_right [apId]))

theorem grouped (choose : Text → Option (Text × Bool)) (ids : List Text) :
    Grouped choose ids (groupRecipients choose ids) := by
  induction ids using List.reverseRecOn with
  | nil => exact grouped_start
  | append_singleton ids apId ih =>
    rw [groupRecipients,List.foldl_append]
    exact ih.add apId

theorem groupRecipients_congr (h : ∀ x ∈ ids, choose x = other x) :
    groupRecipients choose ids = groupRecipients other ids :=
  List.foldl_ext _ _ _ fun g x hx => by rw [h x hx]

end grouping

section partition

variable {S T : Slicing} {dates : Dates} {P : Platform} {cache : ActorCache} {nowMs : ℤ}
  {blockedDomains blockedActors recipientActorApIds ids : List Text} {x : Text}

theorem chosen_congr (hx : x ∈ ids) : chosen dates P (byApId S cache ids) nowMs x =
    chosen dates P (byApId T cache ids) nowMs x := by
  refine Option.ext fun c => ?_
  rw [chosen_iff hx,chosen_iff hx]

theorem filterBlocked_congr :
    x ∈ filterBlockedActorApIdsStrict S P blockedDomains blockedActors ids ↔
      x ∈ filterBlockedActorApIdsStrict T P blockedDomains blockedActors ids := by
  rw [mem_filterBlocked_iff,mem_filterBlocked_iff]

/-- How the lookups are cut makes no difference. -/
theorem planInSlices_congr (S T : Slicing) :
    planInSlices S dates P cache blockedDomains blockedActors nowMs recipientActorApIds =
      planInSlices T dates P cache blockedDomains blockedActors nowMs recipientActorApIds := by
  unfold planInSlices
  simp only [filterBlocked_congr (S := S) (T := T)]
  rw [groupRecipients_congr fun x hx => chosen_congr (T := T) hx]

theorem mem_plannedGroups {er : JsMap Text (List Text)} {g : PlannedEndpointGroup} :
    g ∈ plannedGroups er ↔ er.get g.endpoint = some g.recipientActorApIds ∧
      g.recipientCount = g.recipientActorApIds.length := by
  rw [JsMap.get_eq_some_iff,plannedGroups,List.mem_map]
  constructor
  · rintro ⟨e,he,rfl⟩
    exact ⟨he,rfl⟩
  · rintro ⟨he,hcount⟩
    refine ⟨_,he,?_⟩
    rw [← hcount]

def assembled (choose : Text → Option (Text × Bool)) (blocked allowed : List Text) (total : Nat) :
    PlanEndpointsResult :=
  let g := groupRecipients choose allowed
  ⟨plannedGroups g.endpointRecipients,g.unknownRecipients,total,g.sharedInboxRecipients,blocked⟩

theorem planInSlices_eq :
    planInSlices S dates P cache blockedDomains blockedActors nowMs recipientActorApIds =
      let blockedSet :=
        filterBlockedActorApIdsStrict S P blockedDomains blockedActors recipientActorApIds
      let allowed := recipientActorApIds.filter fun apId => apId ∉ blockedSet
      assembled (chosen dates P (byApId S cache allowed) nowMs)
        (recipientActorApIds.filter fun apId => apId ∈ blockedSet) allowed
        recipientActorApIds.length := by
  unfold planInSlices
  dsimp only
  split
  · rename_i h
    rw [List.length_eq_zero_iff.mp h]
    rfl
  · split
    · rename_i h
      rw [List.length_eq_zero_iff.mp h]
      rfl
    · rfl

theorem apart_assembled {choose : Text → Option (Text × Bool)} {blocked allowed : List Text}
    {total : Nat} (h : ∀ x ∈ blocked, x ∉ allowed) :
    ((assembled choose blocked allowed total).groups.map
        PlannedEndpointGroup.recipientActorApIds ++
      [(assembled choose blocked allowed total).unknownRecipients,
        (assembled choose blocked allowed total).blockedRecipients]).Pairwise List.Disjoint := by
  have hg := grouped choose allowed
  have reached : ∀ g ∈ plannedGroups (groupRecipients choose allowed).endpointRecipients,
      ∀ x ∈ g.recipientActorApIds, x ∈ allowed ∧ (choose x).map Prod.fst = some g.endpoint :=
    fun g hm x hx => (hg.listed g.endpoint x).mp ⟨_,(mem_plannedGroups.mp hm).1,hx⟩
  refine List.pairwise_append.mpr ⟨?_,?_,?_⟩
  · have hkeys := (groupRecipients choose allowed).endpointRecipients.nodup
    simp only [assembled,plannedGroups,List.map_map,List.pairwise_map]
    refine (List.pairwise_map.mp hkeys).imp_of_mem fun {a b} ha hb hne x hxa hxb => hne ?_
    have hra := (hg.listed a.1 x).mp ⟨_,JsMap.get_eq_some_iff.mpr ha,hxa⟩
    have hrb := (hg.listed b.1 x).mp ⟨_,JsMap.get_eq_some_iff.mpr hb,hxb⟩
    exact Option.some.inj (hra.2.symm.trans hrb.2)
  · rw [List.pairwise_pair]
    intro x hu hb
    exact h x hb ((hg.unknown x).mp hu).1
  · intro l hl m hm x hxl hxm
    obtain ⟨g,hmem,rfl⟩ := List.mem_map.mp hl
    have hr := reached g hmem x hxl
    rw [List.mem_pair] at hm
    rcases hm with rfl | rfl
    · have hnone := ((hg.unknown x).mp hxm).2
      rw [hnone] at hr
      cases hr.2
    · exact h x hxm hr.1

theorem planInSlices_partitions :
    Partitions (Blocked P blockedDomains blockedActors)
      (fun apId endpoint => ∃ used, Reached dates P cache nowMs apId endpoint used)
      recipientActorApIds
      (planInSlices S dates P cache blockedDomains blockedActors nowMs recipientActorApIds) := by
  rw [planInSlices_eq]
  set blockedSet := filterBlockedActorApIdsStrict S P blockedDomains blockedActors
    recipientActorApIds with hset
  set allowed := recipientActorApIds.filter fun apId => apId ∉ blockedSet with hallowed
  have hg := grouped (chosen dates P (byApId S cache allowed) nowMs) allowed
  have hmem : ∀ x, x ∈ allowed ↔ x ∈ recipientActorApIds ∧
      ¬Blocked P blockedDomains blockedActors x := by
    intro x
    rw [hallowed,List.mem_filter,decide_eq_true_eq,hset,mem_filterBlocked_iff]
    exact and_congr_right fun hx => not_congr (and_iff_right hx)
  have hreached : ∀ x ∈ allowed, ∀ endpoint,
      (chosen dates P (byApId S cache allowed) nowMs x).map Prod.fst = some endpoint ↔
        ∃ used, Reached dates P cache nowMs x endpoint used := by
    intro x hx endpoint
    simp only [Option.map_eq_some_iff,Prod.exists,exists_and_right,exists_eq_right,
      chosen_iff hx]
  constructor
  · have hparts := hg.occurrences.append_right (recipientActorApIds.filter fun apId =>
      apId ∈ blockedSet)
    have hall : (allowed ++ recipientActorApIds.filter fun apId => apId ∈ blockedSet).Perm
        recipientActorApIds := by
      refine List.perm_append_comm.trans ?_
      simpa only [hallowed,decide_not] using
        List.filter_append_perm (fun apId => decide (apId ∈ blockedSet)) recipientActorApIds
    refine List.Perm.trans (List.Perm.of_eq ?_) (hparts.trans hall)
    simp only [assembled,plannedGroups,List.flatMap_map,JsMap.values]
    rfl
  · refine apart_assembled fun x hb ha => ?_
    have hblocked := (List.mem_filter.mp hb).2
    have hfree := (List.mem_filter.mp ha).2
    exact of_decide_eq_true hfree (of_decide_eq_true hblocked)
  · simp only [assembled,plannedGroups,List.map_map]
    exact (groupRecipients _ allowed).endpointRecipients.nodup
  · exact fun g hm => (mem_plannedGroups.mp hm).2
  · intro x endpoint
    rw [← and_assoc,← hmem x]
    constructor
    · rintro ⟨g,hm,rfl,hx⟩
      obtain ⟨ha,he⟩ := (hg.listed g.endpoint x).mp ⟨_,(mem_plannedGroups.mp hm).1,hx⟩
      exact ⟨ha,(hreached x ha g.endpoint).mp he⟩
    · rintro ⟨ha,he⟩
      obtain ⟨xs,hget,hx⟩ := (hg.listed endpoint x).mpr ⟨ha,(hreached x ha endpoint).mpr he⟩
      exact ⟨⟨endpoint,xs.length,xs⟩,mem_plannedGroups.mpr ⟨hget,rfl⟩,rfl,hx⟩
  · intro x
    rw [← and_assoc,← hmem x]
    refine (hg.unknown x).trans (and_congr_right fun ha => ?_)
    simp only [← hreached x ha]
    cases chosen dates P (byApId S cache allowed) nowMs x with
    | none => simp
    | some c => simp
  · intro x
    simp only [assembled,List.mem_filter,decide_eq_true_eq]
    rw [hset,mem_filterBlocked_iff]
    exact and_congr_right fun hx => and_iff_right hx
  · rfl

/-- The plan is a partition of the recipients, and does not depend on how the lookups are cut. -/
theorem planEndpointsFromActorCache_partitions (dates : Dates) (P : Platform) (cache : ActorCache)
    (blockedDomains blockedActors : List Text) (nowMs : ℤ) (recipientActorApIds : List Text) :
    Partitions (Blocked P blockedDomains blockedActors)
        (fun apId endpoint => ∃ used, Reached dates P cache nowMs apId endpoint used)
        recipientActorApIds
        (planEndpointsFromActorCache dates P cache blockedDomains blockedActors nowMs
          recipientActorApIds) ∧
      ∀ S, planInSlices S dates P cache blockedDomains blockedActors nowMs recipientActorApIds =
        planEndpointsFromActorCache dates P cache blockedDomains blockedActors nowMs
          recipientActorApIds :=
  ⟨planInSlices_partitions,fun S => planInSlices_congr S plannerSlicing⟩

end partition

end Yurucommu.DeliveryPlanner
