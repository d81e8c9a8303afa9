import Yurucommu.Blocklist
import Yurucommu.JsMapGroup
import Yurucommu.StoryUpdates

/-!
Planning the endpoints of a delivery: blocked recipients are dropped, the others looked up in the
actor cache slice by slice, and grouped by the endpoint of their fresh row.
-/

set_option autoImplicit false

namespace Yurucommu.DeliveryPlanner

open ActorIdentity (Platform isSafeRemoteUrl normalizeActivityPubActorId
  activityPubActorIdentitySetSql)
open Blocklist (normalizeDomain domainSuffixCandidates)
open StoryUpdates (Dates)
open Whatwg (Text)

structure PlannedEndpointGroup where
  endpoint : Text
  recipientCount : Nat
  recipientActorApIds : List Text
deriving DecidableEq

structure PlanEndpointsResult where
  groups : List PlannedEndpointGroup
  unknownRecipients : List Text
  totalRecipients : Nat
  sharedInboxRecipients : Nat
  blockedRecipients : List Text
deriving DecidableEq

structure ActorCacheRow where
  apId : Text
  inbox : Text
  sharedInbox : Option Text
  lastFetchedAt : Text
deriving DecidableEq

structure ActorCache where
  rows : List ActorCacheRow
  nodup : (rows.map ActorCacheRow.apId).Nodup

/-- A way to cut the ids of an `IN` lookup into the slices that are asked for. -/
structure Slicing where
  slices : List Text → List (List Text)
  flatten_slices : ∀ ids, (slices ids).flatten = ids

def slicesOf (n : Nat) (ids : List Text) : List (List Text) :=
  (List.range ((ids.length + (n - 1)) / n)).map fun i => (ids.drop (n * i)).take n

theorem flatten_slicesOf {n : Nat} (hn : 0 < n) (ids : List Text) :
    (slicesOf n ids).flatten = ids := by
  have prefixes : ∀ k, ((List.range k).map fun i => (ids.drop (n * i)).take n).flatten =
      ids.take (n * k) := by
    intro k
    induction k with
    | zero => simp
    | succ k ih =>
      rw [List.range_succ,List.map_append,List.flatten_append,ih,Nat.mul_succ,List.take_add]
      simp
  rw [slicesOf,prefixes,List.take_of_length_le]
  have hlt := Nat.lt_mul_div_succ (ids.length + (n - 1)) hn
  rw [Nat.mul_succ] at hlt
  omega

def plannerInChunk : Nat := 90

theorem flatten_plannerSlices (ids : List Text) : (slicesOf plannerInChunk ids).flatten = ids :=
  flatten_slicesOf (by decide) ids

def plannerSlicing : Slicing := ⟨slicesOf plannerInChunk,flatten_plannerSlices⟩

section filter

variable (S : Slicing) (P : Platform) (blockedDomains blockedActors : List Text)

/-- The blocklist filter, with its lookups cut another way. -/
def filterBlockedActorApIdsStrict (actorApIds : List Text) : List Text :=
  let uniqueIds := (actorApIds.filter fun id => 0 < id.length).dedup
  let blockedActorSet := (S.slices uniqueIds).flatMap fun chunk =>
    blockedActors.filter fun actor => actor ∈ chunk
  let requestedIdentities := (uniqueIds.filterMap (normalizeActivityPubActorId P)).dedup
  let retainedActorIdentities := (S.slices requestedIdentities).flatMap fun chunk =>
    (activityPubActorIdentitySetSql blockedActors).filter fun identity => identity ∈ chunk
  let idToCandidates := fun id =>
    match normalizeDomain P id with
    | none => []
    | some domain => domainSuffixCandidates domain
  let domainList := (uniqueIds.flatMap idToCandidates).dedup
  let blockedDomainSet := (S.slices domainList).flatMap fun chunk =>
    blockedDomains.filter fun domain => domain ∈ chunk
  uniqueIds.filter fun id =>
    id ∈ blockedActorSet ||
      (normalizeActivityPubActorId P id).any (· ∈ retainedActorIdentities) ||
      (idToCandidates id).any (· ∈ blockedDomainSet)

end filter

section rows

variable (dates : Dates) (P : Platform)

def deliveryEndpointCacheTtlMs : ℤ := 24 * 60 * 60 * 1000

/-- `Date.parse`, none where there is no text or no date. -/
def safeParseIsoTimeMs (value : Option Text) : Option ℤ :=
  match value with
  | none => none
  | some text => if text = [] then none else dates.parse text

def isActorCacheFresh (row : ActorCacheRow) (nowMs : ℤ) : Bool :=
  match safeParseIsoTimeMs dates (some row.lastFetchedAt) with
  | none => false
  | some lastFetched => nowMs - lastFetched < deliveryEndpointCacheTtlMs

def chooseEndpoint (row : ActorCacheRow) : Option (Text × Bool) :=
  match row.sharedInbox.filter fun shared => shared ≠ [] && isSafeRemoteUrl P shared with
  | some shared => some (shared,true)
  | none => if row.inbox ≠ [] && isSafeRemoteUrl P row.inbox then some (row.inbox,false) else none

end rows

structure Grouping where
  unknownRecipients : List Text
  endpointRecipients : JsMap Text (List Text)
  sharedInboxRecipients : Nat

def Grouping.start : Grouping := ⟨[],.empty,0⟩

def Grouping.add (g : Grouping) (apId : Text) : Option (Text × Bool) → Grouping
  | none => { g with unknownRecipients := g.unknownRecipients ++ [apId] }
  | some (endpoint,usedSharedInbox) =>
    { g with
      endpointRecipients := g.endpointRecipients.push endpoint apId
      sharedInboxRecipients := g.sharedInboxRecipients + if usedSharedInbox then 1 else 0 }

section plan

variable (S : Slicing) (dates : Dates) (P : Platform) (cache : ActorCache)

def byApId (allowedRecipients : List Text) : JsMap Text ActorCacheRow :=
  ((S.slices allowedRecipients).flatMap fun chunk =>
    cache.rows.filter fun row => row.apId ∈ chunk).foldl (fun m row => m.set row.apId row) .empty

def chosen (rows : JsMap Text ActorCacheRow) (nowMs : ℤ) (apId : Text) : Option (Text × Bool) :=
  match rows.get apId with
  | some row => if isActorCacheFresh dates row nowMs then chooseEndpoint P row else none
  | none => none

def groupRecipients (chosen : Text → Option (Text × Bool)) (allowedRecipients : List Text) :
    Grouping :=
  allowedRecipients.foldl (fun g apId => g.add apId (chosen apId)) .start

def plannedGroups (endpointRecipients : JsMap Text (List Text)) : List PlannedEndpointGroup :=
  endpointRecipients.entries.map fun e => ⟨e.1,e.2.length,e.2⟩

/-- `planEndpointsFromActorCache`, whatever way its lookups are cut. -/
def planInSlices (blockedDomains blockedActors : List Text) (nowMs : ℤ)
    (recipientActorApIds : List Text) : PlanEndpointsResult :=
  let totalRecipients := recipientActorApIds.length
  if totalRecipients = 0 then ⟨[],[],0,0,[]⟩
  else
    let blockedSet :=
      filterBlockedActorApIdsStrict S P blockedDomains blockedActors recipientActorApIds
    let blockedRecipients := recipientActorApIds.filter fun apId => apId ∈ blockedSet
    let allowedRecipients := recipientActorApIds.filter fun apId => apId ∉ blockedSet
    if allowedRecipients.length = 0 then ⟨[],[],totalRecipients,0,blockedRecipients⟩
    else
      let rows := byApId S cache allowedRecipients
      let g := groupRecipients (chosen dates P rows nowMs) allowedRecipients
      ⟨plannedGroups g.endpointRecipients,g.unknownRecipients,totalRecipients,
        g.sharedInboxRecipients,blockedRecipients⟩

def planEndpointsFromActorCache (blockedDomains blockedActors : List Text) (nowMs : ℤ)
    (recipientActorApIds : List Text) : PlanEndpointsResult :=
  planInSlices plannerSlicing dates P cache blockedDomains blockedActors nowMs recipientActorApIds

end plan

end Yurucommu.DeliveryPlanner
