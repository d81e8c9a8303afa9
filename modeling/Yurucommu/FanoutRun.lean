import Yurucommu.Fanout
import Yurucommu.Keyset
import Mathlib.Data.String.Basic

/-!
The runs of `processFanoutFollowers` and `processFanoutCommunity`, one database statement or
queue send at a time. A run can fail after each of them, and any fan-out message that was
ever sent can start a run, as often as the queue delivers it.
-/

set_option autoImplicit false

namespace Yurucommu.Fanout

open Delivery

/-- The table a page is read from. Followers are swept as the last stage of a community. -/
def FanoutMessage.stage : FanoutMessage → CommunityStage
  | .followers _ _ _ => .remoteFollowers
  | .community _ _ _ stage _ => stage.getD .localMembers

def FanoutMessage.cursor : FanoutMessage → Option String
  | .followers _ _ cursor | .community _ _ _ _ cursor => cursor

def FanoutMessage.activityId : FanoutMessage → String
  | .followers activityId _ _ | .community activityId _ _ _ _ => activityId

def FanoutMessage.targetApId : FanoutMessage → String
  | .followers _ followeeApId _ => followeeApId
  | .community _ communityApId _ _ _ => communityApId

def FanoutMessage.remoteActivityId : FanoutMessage → String
  | .followers activityId _ _ => activityId
  | .community activityId _ announceActivityId _ _ => announceActivityId.getD activityId

def FanoutMessage.continuation (stage : CommunityStage) (cursor : Option String) :
    FanoutMessage → FanoutMessage
  | .followers activityId followeeApId _ => .followers activityId followeeApId cursor
  | .community activityId communityApId announceActivityId _ _ =>
    .community activityId communityApId (truthy announceActivityId) (some stage) (truthy cursor)

def Store.stageRows (s : Store) (target : String) : CommunityStage → List String
  | .localMembers | .remoteMembers => s.members target
  | .remoteFollowers => s.acceptedFollowers target

structure PageRun where
  message : FanoutMessage
  author : String
  processed : Nat
  ids : List String

def PageRun.localRecipients (c : Site) (r : PageRun) : List String :=
  r.ids.filter fun apId => c.isLocal apId && apId ≠ r.author

def PageRun.remoteRecipients (c : Site) (r : PageRun) : List String :=
  match r.message with
  | .followers _ _ _ => r.ids.eraseDups.filter fun apId => !c.isLocal apId
  | .community _ _ _ _ _ =>
    r.ids.eraseDups.filter fun apId => !c.isLocal apId && apId ≠ r.author

inductive Worker where
  | idle
  | fanoutState (message : FanoutMessage)
  | activityExists (message : FanoutMessage)
  | discard (message : FanoutMessage)
  | requireQueue (message : FanoutMessage) (author : String)
  | reset (message : FanoutMessage)
  | readPage (message : FanoutMessage) (author : String) (cursor : Option String)
      (processed : Nat)
  | insertInbox (run : PageRun)
  | filterBlocked (run : PageRun)
  | loadActorCache (run : PageRun) (nowMs : Int) (allowedRecipients todo : List String)
      (rows : List ActorCacheRow)
  | upsertJob (run : PageRun) (groups : List (String × List String))
      (unknownRecipients : List String) (requests : List JobId)
  | selectJob (run : PageRun) (job : JobId) (groups : List (String × List String))
      (unknownRecipients : List String) (requests : List JobId)
  | persistFirst (run : PageRun) (unknownRecipients : List String) (requests : List JobId)
  | sendRequests (run : PageRun) (unknownRecipients : List String) (requests : List JobId)
  | persist (run : PageRun) (unknownRecipients : List String)
  | selectDue (run : PageRun) (todo : List String)
  | sendDue (run : PageRun) (due : List (ResolutionId × Nat)) (todo : List String)
  | markQueued (run : PageRun) (due : List (ResolutionId × Nat)) (todo : List String)
  | sendContinuation (message : FanoutMessage)
  | complete (message : FanoutMessage)

/-- The message a run is started with, the bindings and the clock it sees, and whether it
fails after the step. -/
structure Answer where
  message : FanoutMessage
  queueAvailable : Bool
  now : Nat
  fails : Bool

def afterPage (r : PageRun) : Worker :=
  match r.message with
  | .followers _ _ _ =>
    if r.ids.length < fanoutFollowerPageSize then .complete r.message
    else if fanoutMaxFollowers ≤ r.processed + r.ids.length then
      .sendContinuation (r.message.continuation r.message.stage r.ids.getLast?)
    else .readPage r.message r.author r.ids.getLast? (r.processed + r.ids.length)
  | .community _ _ _ _ _ =>
    if r.ids.length = fanoutFollowerPageSize then
      .sendContinuation (r.message.continuation r.message.stage r.ids.getLast?)
    else
      match r.message.stage with
      | .localMembers => .sendContinuation (r.message.continuation .remoteMembers none)
      | .remoteMembers => .sendContinuation (r.message.continuation .remoteFollowers none)
      | .remoteFollowers => .complete r.message

def withPage (c : Site) (r : PageRun) : Worker :=
  if r.message.stage = .localMembers then
    if r.localRecipients c = [] then afterPage r else .insertInbox r
  else if r.remoteRecipients c = [] then afterPage r
  else .filterBlocked r

/-- Followers are all made durable before the first send. -/
def afterJobs (r : PageRun) (unknownRecipients : List String) (requests : List JobId) : Worker :=
  match r.message with
  | .followers _ _ _ => .persistFirst r unknownRecipients requests
  | .community _ _ _ _ _ => .sendRequests r unknownRecipients requests

def work (c : Site) (i : Answer) (s : Store) : Worker → Store × Worker
  | .idle => (s, .fanoutState i.message)
  | .fanoutState m =>
    match getDeliveryFanoutState (deliveryFanoutIntentFromMessage m) s with
    | .terminal => (s, .idle)
    | .missing | .active => (s, .activityExists m)
  | .activityExists m =>
    match s.activities m.activityId with
    | none => (s, .discard m)
    | some author => (s, .requireQueue m author)
  | .discard m => (setDeliveryFanoutStatus (deliveryFanoutIntentFromMessage m) .discarded s, .idle)
  | .requireQueue m author =>
    if i.queueAvailable then (s, .readPage m author m.cursor 0) else (s, .reset m)
  | .reset m => (setDeliveryFanoutStatus (deliveryFanoutIntentFromMessage m) .pending s, .idle)
  | .readPage m author cursor processed =>
    (s, withPage c ⟨m,author,processed,
      Keyset.page fanoutFollowerPageSize cursor (s.stageRows m.targetApId m.stage)⟩)
  | .insertInbox r => (insertInbox r.message.activityId (r.localRecipients c) s, afterPage r)
  | .filterBlocked r =>
    let allowedRecipients := (r.remoteRecipients c).filter fun apId => !s.blocked apId
    (s, .loadActorCache r i.now allowedRecipients allowedRecipients [])
  | .loadActorCache r nowMs allowedRecipients [] rows =>
    let plan := planEndpoints c nowMs rows allowedRecipients
    (s, .upsertJob r plan.groups.entries plan.unknownRecipients [])
  | .loadActorCache r nowMs allowedRecipients (apId :: todo) rows =>
    let chunk := (apId :: todo).take plannerInChunk
    (s, .loadActorCache r nowMs allowedRecipients (todo.drop (plannerInChunk - 1))
      (rows ++ s.actorCache.filter fun row => row.apId ∈ chunk))
  | .upsertJob r [] unknownRecipients requests => (s, afterJobs r unknownRecipients requests)
  | .upsertJob r (group :: groups) unknownRecipients requests =>
    let job := ⟨r.message.remoteActivityId,group.1⟩
    (upsertDeliveryJob job group.2 i.now s, .selectJob r job groups unknownRecipients requests)
  | .selectJob r job groups unknownRecipients requests =>
    (s, .upsertJob r groups unknownRecipients
      (if (s.jobs job).row.isSome then requests ++ [job] else requests))
  | .persistFirst r unknownRecipients requests =>
    (persistDeliveryResolutionJobs r.message.remoteActivityId unknownRecipients i.now s,
      .sendRequests r unknownRecipients requests)
  | .sendRequests r unknownRecipients [] => (s, .persist r unknownRecipients)
  | .sendRequests r unknownRecipients (job :: requests) =>
    (s.send (((job :: requests).take fanoutSendBatchSize).map .deliverEndpoint),
      .sendRequests r unknownRecipients (requests.drop (fanoutSendBatchSize - 1)))
  | .persist r unknownRecipients =>
    (persistDeliveryResolutionJobs r.message.remoteActivityId unknownRecipients i.now s,
      .selectDue r unknownRecipients.eraseDups)
  | .selectDue r [] => (s, afterPage r)
  | .selectDue r (recipient :: todo) =>
    let chunk := (recipient :: todo).take outboxScanLimit
    (s, .sendDue r (dueResolutions r.message.remoteActivityId chunk i.now s)
      (todo.drop (outboxScanLimit - 1)))
  | .sendDue r due todo =>
    (s.send (due.map fun row => .resolveActor row.1.activityId row.1.recipientActorApId row.2),
      .markQueued r due todo)
  | .markQueued r due todo => (markQueued due s, .selectDue r todo)
  | .sendContinuation m => (s.send [.fanout m], .idle)
  | .complete m => (setDeliveryFanoutStatus (deliveryFanoutIntentFromMessage m) .completed s, .idle)

def allowed (i : Answer) (s : Store) : Worker → Bool
  | .idle => .fanout i.message ∈ s.sent
  | _ => true

def workOrFail (c : Site) (i : Answer) (_ : Nat) (s : Store) (x : Worker) : Store × Worker :=
  ((work c i s x).1,if i.fails then .idle else (work c i s x).2)

/-- What others do meanwhile: the producers and the dead letter queue of this fan-out, the
deletion of its activity, remote actors that are deleted, moderators, actor fetches, whoever
follows, joins or leaves, and the workers of the jobs and resolutions. -/
inductive Event where
  | publish
  | markPublished
  | fail
  | deleteActivity
  | deleteRemoteActor (actor : String)
  | moderate (blocked : String → Bool)
  | cacheActors (rows : List ActorCacheRow)
  | changeAudience (follows : List Follow) (communityMembers : List CommunityMember)
  | workOnJob (job : JobId) (row : DeliveryRow)
  | workOnResolution (id : ResolutionId) (row : Resolution)

/-- Deletes an activity with all that belongs to it. -/
def deleteActivity (f : DeliveryFanoutIntent) (s : Store) : Store :=
  { s with
    fanouts := Function.update s.fanouts f none
    activities := Function.update s.activities f.activityId none
    inbox := s.inbox.filter fun row => row.activityApId ≠ f.activityId
    jobs := fun job => if job.activityId = f.activityId then ⟨none,[]⟩ else s.jobs job
    resolutions := fun id => if id.activityId = f.activityId then none else s.resolutions id }

def deleteRemoteActor (actor : String) (s : Store) : Store :=
  { s with
    tombstones := actor :: s.tombstones
    jobs := fun job =>
      let kept := (s.jobs job).recipients.filter (· ≠ actor)
      ⟨Statement.deleteWhere (abandoned (!kept.isEmpty)) (s.jobs job).row,kept⟩
    resolutions := fun id => if id.recipientActorApId = actor then none else s.resolutions id }

def happen (f : DeliveryFanoutIntent) (e : Event) (s : Store) : Store :=
  match e with
  | .publish => s.send [.fanout (buildFanoutMessage f)]
  | .markPublished => setDeliveryFanoutStatus f .published s
  | .fail => setDeliveryFanoutStatus f .failed s
  | .deleteActivity => deleteActivity f s
  | .deleteRemoteActor actor => deleteRemoteActor actor s
  | .moderate blocked => { s with blocked := blocked }
  | .cacheActors rows => { s with actorCache := rows }
  | .changeAudience follows communityMembers =>
    { s with follows := follows, communityMembers := communityMembers }
  | .workOnJob job row =>
    { s with
      jobs := Function.update s.jobs job
        ⟨Statement.update (fun _ => true) (fun _ => row) (s.jobs job).row,
          (s.jobs job).recipients⟩ }
  | .workOnResolution id row =>
    { s with
      resolutions := Function.update s.resolutions id
        (Statement.update (fun _ => true) (fun _ => row) (s.resolutions id)) }

def threads (c : Site) (f : DeliveryFanoutIntent) : Threads Store Worker Answer Event :=
  .guarded allowed (workOrFail c) (fun _ _ => true) (happen f)

abbrev Pool := Threads.Pool Store Worker

abbrev machine (c : Site) (f : DeliveryFanoutIntent) :
    Machine Pool (Threads.Label Answer Event) := (threads c f).machine

/-- The fan-out is recorded and nothing of it is done. Recorded intents are those of
messages, which have no empty announce id. -/
structure Start (f : DeliveryFanoutIntent) (author : String) (s : Pool) : Prop where
  intent : deliveryFanoutIntentFromMessage (buildFanoutMessage f) = f
  status : s.store.fanouts f = some .pending
  author : s.store.activities f.activityId = some author
  inbox : ∀ row ∈ s.store.inbox, row.activityApId ≠ f.activityId
  jobs : ∀ endpoint, (s.store.jobs ⟨f.remoteActivityId,endpoint⟩).recipients = []
  resolutions : ∀ actor, s.store.resolutions ⟨f.remoteActivityId,actor⟩ = none
  sent : ∀ m, .fanout m ∉ s.store.sent
  idle : ∀ p, s.thread p = .idle

end Yurucommu.Fanout
