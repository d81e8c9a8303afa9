import Yurucommu.DeliveryWorker
import Yurucommu.JsMap
import Mathlib.Data.Finset.Image
import Mathlib.Data.Finset.Union

/-!
The tables a fan-out reads and writes, the messages that drive it, and the plan of one page
of recipients. An id that is a hash is the record of what it is the hash of.
-/

set_option autoImplicit false

namespace Yurucommu.Fanout

open Delivery

def fanoutFollowerPageSize : Nat := 200
def fanoutSendBatchSize : Nat := 100
def fanoutMaxFollowers : Nat := 20000
def plannerInChunk : Nat := 90
def outboxScanLimit : Nat := 50
def deliveryEndpointCacheTtlMs : Int := 24 * 60 * 60 * 1000

inductive CommunityStage where
  | localMembers | remoteMembers | remoteFollowers
deriving DecidableEq, Repr

inductive FanoutMessage where
  | followers (activityId followeeApId : String) (cursor : Option String)
  | community (activityId communityApId : String) (announceActivityId : Option String)
      (stage : Option CommunityStage) (cursor : Option String)
deriving DecidableEq, Repr

inductive DeliveryFanoutIntent where
  | followers (activityId targetApId : String)
  | community (activityId targetApId : String) (announceActivityId : Option String)
deriving DecidableEq, Repr

def truthy (x : Option String) : Option String := x.filter (· ≠ "")

def deliveryFanoutIntentFromMessage : FanoutMessage → DeliveryFanoutIntent
  | .followers activityId followeeApId _ => .followers activityId followeeApId
  | .community activityId communityApId announceActivityId _ _ =>
    .community activityId communityApId (truthy announceActivityId)

def buildFanoutMessage : DeliveryFanoutIntent → FanoutMessage
  | .followers activityId targetApId => .followers activityId targetApId none
  | .community activityId targetApId announceActivityId =>
    .community activityId targetApId (truthy announceActivityId) none none

def DeliveryFanoutIntent.activityId : DeliveryFanoutIntent → String
  | .followers activityId _ | .community activityId _ _ => activityId

def DeliveryFanoutIntent.targetApId : DeliveryFanoutIntent → String
  | .followers _ targetApId | .community _ targetApId _ => targetApId

def DeliveryFanoutIntent.remoteActivityId : DeliveryFanoutIntent → String
  | .followers activityId _ => activityId
  | .community activityId _ announceActivityId => announceActivityId.getD activityId

inductive FanoutStatus where
  | pending | published | completed | failed | discarded
deriving DecidableEq, Repr

def FanoutStatus.terminal : FanoutStatus → Bool
  | .completed | .failed | .discarded => true
  | _ => false

/-- The key of `delivery_queue`. -/
structure JobId where
  activityId : String
  endpoint : String
deriving DecidableEq, Repr

/-- The key of `delivery_resolutions`. -/
structure ResolutionId where
  activityId : String
  recipientActorApId : String
deriving DecidableEq, Repr

inductive ResolutionStatus where
  | pending | queued | processing | retryWait | resolved | failed | discarded
deriving DecidableEq, Repr

structure Resolution where
  status : ResolutionStatus
  attempts : Nat
  nextAttemptAt : Nat
deriving DecidableEq, Repr

/-- A row of `delivery_queue` and its rows of `delivery_endpoint_recipients`. -/
structure EndpointJob where
  row : Option DeliveryRow
  recipients : List String

structure ActorCacheRow where
  apId : String
  inbox : String
  sharedInbox : Option String
  lastFetchedAt : String
deriving DecidableEq, Repr

inductive FollowStatus where
  | pending | accepted | rejected
deriving DecidableEq, Repr

structure Follow where
  followerApId : String
  followingApId : String
  status : FollowStatus
deriving DecidableEq, Repr

structure CommunityMember where
  communityApId : String
  actorApId : String
deriving DecidableEq, Repr

structure InboxRow where
  actorApId : String
  activityApId : String
deriving DecidableEq, Repr

inductive DeliveryQueueMessage where
  | fanout (message : FanoutMessage)
  | deliverEndpoint (jobId : JobId)
  | resolveActor (activityId recipientActorApId : String) (attempts : Nat)
deriving DecidableEq, Repr

/-- `activities` maps an activity to its actor, `blocked` is what the blocklist decides, and
`sent` are the messages that have ever been sent: any of them can be delivered again. -/
structure Store where
  fanouts : DeliveryFanoutIntent → Option FanoutStatus
  activities : String → Option String
  follows : List Follow
  communityMembers : List CommunityMember
  inbox : Finset InboxRow
  jobs : JobId → EndpointJob
  resolutions : ResolutionId → Option Resolution
  actorCache : List ActorCacheRow
  blocked : String → Bool
  tombstones : List String
  sent : List DeliveryQueueMessage

/-- `isLocal` and `isSafeRemoteUrl` parse URLs; `safeParseIsoTimeMs` parses dates. -/
structure Site where
  isLocal : String → Bool
  isSafeRemoteUrl : String → Bool
  safeParseIsoTimeMs : String → Option Int

def Store.acceptedFollowers (s : Store) (target : String) : List String :=
  (s.follows.filter fun f => f.followingApId = target ∧ f.status = .accepted).map
    (·.followerApId)

def Store.members (s : Store) (community : String) : List String :=
  (s.communityMembers.filter fun m => m.communityApId = community).map (·.actorApId)

inductive DeliveryFanoutState where
  | missing | active | terminal
deriving DecidableEq, Repr

def getDeliveryFanoutState (intent : DeliveryFanoutIntent) (s : Store) : DeliveryFanoutState :=
  match s.fanouts intent with
  | none => .missing
  | some status => if status.terminal then .terminal else .active

/-- `UPDATE` where the status is pending or published. -/
def setDeliveryFanoutStatus (intent : DeliveryFanoutIntent) (status : FanoutStatus) (s : Store) :
    Store :=
  { s with
    fanouts := Function.update s.fanouts intent
      (Statement.update (fun old => !old.terminal) (fun _ => status) (s.fanouts intent)) }

def insertInbox (activityApId : String) (actors : List String) (s : Store) : Store :=
  { s with
    inbox := s.inbox ∪ actors.toFinset.image fun actorApId => ⟨actorApId,activityApId⟩ }

def upsertDeliveryJob (job : JobId) (recipients : List String) (now : Nat) (s : Store) : Store :=
  if recipients = [] then s
  else
    let kept := insertRecipients s.tombstones (s.jobs job).recipients recipients
    let left := upsertRow (!kept.isEmpty) job.activityId job.endpoint now (s.jobs job).row
    { s with jobs := Function.update s.jobs job ⟨left,if left.isSome then kept else []⟩ }

def persistDeliveryResolutionJobs (activityId : String) (recipients : List String) (now : Nat)
    (s : Store) : Store :=
  { s with
    resolutions := fun id =>
      (s.resolutions id).or
        (if id.activityId = activityId ∧ id.recipientActorApId ∈ recipients ∧
            id.recipientActorApId ∉ s.tombstones then some ⟨.pending,0,now⟩
        else none) }

def dueResolutions (activityId : String) (chunk : List String) (now : Nat) (s : Store) :
    List (ResolutionId × Nat) :=
  chunk.filterMap fun recipient =>
    match s.resolutions ⟨activityId,recipient⟩ with
    | some row =>
      if (row.status = .pending ∨ row.status = .retryWait) ∧ row.nextAttemptAt ≤ now then
        some (⟨activityId,recipient⟩,row.attempts)
      else none
    | none => none

def markQueued (rows : List (ResolutionId × Nat)) (s : Store) : Store :=
  { s with
    resolutions := fun id =>
      if id ∈ rows.map Prod.fst then
        Statement.update (fun row => row.status = .pending ∨ row.status = .retryWait)
          (fun row => { row with status := .queued }) (s.resolutions id)
      else s.resolutions id }

def Store.send (messages : List DeliveryQueueMessage) (s : Store) : Store :=
  { s with sent := s.sent ++ messages }

def isActorCacheFresh (c : Site) (nowMs : Int) (row : ActorCacheRow) : Bool :=
  match c.safeParseIsoTimeMs row.lastFetchedAt with
  | none => false
  | some lastFetched => nowMs - lastFetched < deliveryEndpointCacheTtlMs

def chooseEndpoint (c : Site) (row : ActorCacheRow) : Option String :=
  let usable := fun endpoint => endpoint ≠ "" && c.isSafeRemoteUrl endpoint
  (row.sharedInbox.filter usable).or ((some row.inbox).filter usable)

structure Plan where
  groups : JsMap String (List String)
  unknownRecipients : List String

def Plan.add (plan : Plan) (endpoint : Option String) (apId : String) : Plan :=
  match endpoint with
  | none => { plan with unknownRecipients := plan.unknownRecipients ++ [apId] }
  | some endpoint =>
    { plan with groups := plan.groups.set endpoint ((plan.groups.get endpoint).getD [] ++ [apId]) }

def planEndpoints (c : Site) (nowMs : Int) (rows : List ActorCacheRow)
    (allowedRecipients : List String) : Plan :=
  let byApId := rows.foldl (fun m row => m.set row.apId row) JsMap.empty
  allowedRecipients.foldl
    (fun plan apId =>
      plan.add (((byApId.get apId).filter (isActorCacheFresh c nowMs)).bind (chooseEndpoint c))
        apId)
    ⟨.empty,[]⟩

def planned (groups : List (String × List String)) (unknownRecipients : List String)
    (apId : String) : Prop :=
  (∃ g ∈ groups, apId ∈ g.2) ∨ apId ∈ unknownRecipients

theorem mem_entries_set_iff {m : JsMap String (List String)} {endpoint : String}
    {apId r : String} :
    (∃ g ∈ (m.set endpoint ((m.get endpoint).getD [] ++ [apId])).entries, r ∈ g.2) ↔
      (∃ g ∈ m.entries, r ∈ g.2) ∨ r = apId := by
  constructor
  · rintro ⟨⟨k,v⟩,hg,hr⟩
    have hk := JsMap.get_eq_some_iff.mpr hg
    rw [JsMap.get_set] at hk
    split at hk
    · cases hk
      rcases List.mem_append.mp hr with hr | hr
      · cases hm : m.get endpoint with
        | none => simp [hm] at hr
        | some old =>
          rw [hm] at hr
          exact .inl ⟨(endpoint,old),JsMap.get_eq_some_iff.mp hm,hr⟩
      · exact .inr (List.mem_singleton.mp hr)
    · exact .inl ⟨(k,v),JsMap.get_eq_some_iff.mp hk,hr⟩
  · rintro (⟨⟨k,v⟩,hg,hr⟩ | rfl)
    · have hk := JsMap.get_eq_some_iff.mpr hg
      by_cases h : k = endpoint
      · subst h
        refine ⟨(k,v ++ [apId]),JsMap.get_eq_some_iff.mp ?_,List.mem_append_left _ hr⟩
        rw [hk]
        exact JsMap.get_set_self ..
      · refine ⟨(k,v),JsMap.get_eq_some_iff.mp ?_,hr⟩
        rw [JsMap.get_set_of_ne h]
        exact hk
    · exact ⟨(endpoint,_),JsMap.get_eq_some_iff.mp (JsMap.get_set_self ..),by simp⟩

theorem planned_add {plan : Plan} {endpoint : Option String} {apId r : String} :
    planned (plan.add endpoint apId).groups.entries (plan.add endpoint apId).unknownRecipients r ↔
      planned plan.groups.entries plan.unknownRecipients r ∨ r = apId := by
  cases endpoint with
  | none => simp [planned,Plan.add,or_assoc]
  | some endpoint =>
    simp only [planned,Plan.add,mem_entries_set_iff]
    exact or_right_comm

theorem planned_iff {c : Site} {nowMs : Int} {rows : List ActorCacheRow} {allowed : List String}
    {r : String} :
    planned (planEndpoints c nowMs rows allowed).groups.entries
        (planEndpoints c nowMs rows allowed).unknownRecipients r ↔ r ∈ allowed := by
  have fold : ∀ (f : String → Option String) (allowed : List String) (plan : Plan),
      planned (allowed.foldl (fun plan apId => plan.add (f apId) apId) plan).groups.entries
          (allowed.foldl (fun plan apId => plan.add (f apId) apId) plan).unknownRecipients r ↔
        planned plan.groups.entries plan.unknownRecipients r ∨ r ∈ allowed := by
    intro f allowed
    induction allowed with
    | nil => simp
    | cons a rest ih =>
      intro plan
      rw [List.foldl_cons,ih,planned_add,List.mem_cons,or_assoc]
  rw [planEndpoints,fold]
  simp [planned,JsMap.empty]

end Yurucommu.Fanout
