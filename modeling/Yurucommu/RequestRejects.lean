import Yurucommu.JsMap
import Yurucommu.Keyset
import Yurucommu.ObjectCounts

/-!
Rejecting a message request: the messages of a sender are deleted in pages, each in one batch that
asserts that nobody has answered and that the page is unchanged, and the sender may be blocked.
-/

set_option autoImplicit false

namespace Yurucommu.RequestRejects

open ObjectCounts (ObjectType Visibility RecipientType)

structure Object where
  apId : String
  type : ObjectType := .note
  attributedTo : String
  visibility : Visibility := .direct
  conversation : Option String
  attachmentsJson : String := "[]"
  published : String
deriving DecidableEq, Repr

structure Recipient where
  objectApId : String
  recipientApId : String
  type : RecipientType := .addressee
deriving DecidableEq, Repr

structure Activity where
  apId : String
  objectApId : Option String
deriving DecidableEq, Repr

inductive ProjectionTable where
  | notificationPushJobs | notificationArchived | inboundActivityClaims | deliveryQueue
  | deliveryResolutions | deliveryFanouts | inbox
deriving DecidableEq, Repr

/-- A row that is keyed by an activity; only a fan-out may name a second one. -/
structure Projection where
  table : ProjectionTable
  activityApId : String
  announceActivityApId : Option String := none
deriving DecidableEq, Repr

inductive ChildTable where
  | likes | announces | bookmarks | storyViews | storyVotes | storyShares
deriving DecidableEq, Repr

structure Child where
  table : ChildTable
  actorApId : String
  objectApId : String
deriving DecidableEq, Repr

structure Media where
  r2Key : String
  uploaderApId : String
deriving DecidableEq, Repr

structure Block where
  blockerApId : String
  blockedApId : String
deriving DecidableEq, Repr

structure Store where
  objects : List Object
  recipients : List Recipient
  activities : List Activity
  projections : List Projection
  children : List Child
  mediaUploads : List Media
  mediaBlobDeletionJobs : List Media
  blocks : List Block
deriving DecidableEq, Repr

/-- `conversation` is what `getConversationId` gives the two actors. -/
structure Request where
  viewer : String
  sender : String
  block : Bool
  conversation : String
deriving DecidableEq, Repr

def rejectPageSize : Nat := 40

def Store.addressed (s : Store) (apId recipientApId : String) : Bool :=
  s.recipients.any fun r =>
    r.objectApId = apId && r.recipientApId = recipientApId && r.type = .addressee

def Object.directNote (o : Object) : Bool := o.visibility = .direct && o.type = .note

/-- A direct message from one to the other, in any conversation. -/
def betweenPair (r : Request) (s : Store) (o : Object) : Bool :=
  o.directNote && o.conversation.isSome &&
    (o.attributedTo = r.viewer && s.addressed o.apId r.sender ||
      o.attributedTo = r.sender && s.addressed o.apId r.viewer)

/-- A row that `ORDER BY published DESC LIMIT 1` may give. -/
def latest (r : Request) (s : Store) : Option Object → Bool
  | none => s.objects.all fun o => !betweenPair r s o
  | some found => s.objects.contains found && betweenPair r s found &&
      s.objects.all fun o => !betweenPair r s o || o.published ≤ found.published

def resolveConversationId (r : Request) (existing : Option Object) : String :=
  ((existing.bind (·.conversation)).filter (· ≠ "")).getD r.conversation

/-- `senderMessageWhere`, without its cursor. -/
def senderMessage (r : Request) (conversationId : String) (s : Store) (o : Object) : Bool :=
  o.conversation = some conversationId && o.directNote && o.attributedTo = r.sender &&
    s.addressed o.apId r.viewer

def messages (r : Request) (conversationId : String) (s : Store) : List Object :=
  s.objects.filter (senderMessage r conversationId s)

def messageIds (r : Request) (conversationId : String) (s : Store) : List String :=
  (messages r conversationId s).map (·.apId)

def pending (r : Request) (conversationId : String) (s : Store) : Bool :=
  !s.objects.any fun reply =>
    reply.conversation = some conversationId && reply.attributedTo = r.viewer &&
      reply.directNote && s.addressed reply.apId r.sender

def unchanged (r : Request) (conversationId : String) (plan : List Object) (s : Store) : Nat :=
  (messages r conversationId s).countP fun o =>
    plan.any fun p => p.apId = o.apId && p.attachmentsJson = o.attachmentsJson

def Store.targets (s : Store) (apIds : List String) : List String :=
  (s.activities.filter fun a => a.objectApId.any (apIds.contains ·)).map (·.apId)

def deletePage (apIds : List String) (jobs : List Media) (s : Store) : Store :=
  let targets := s.targets apIds
  { s with
    objects := Table.delete (fun o => apIds.contains o.apId) s.objects
    recipients := Table.delete (fun r => apIds.contains r.objectApId) s.recipients
    activities := Table.delete (fun a => a.objectApId.any (apIds.contains ·)) s.activities
    projections :=
      Table.delete (fun p => targets.contains p.activityApId ||
        p.announceActivityApId.any (targets.contains ·)) s.projections
    children := Table.delete (fun c => apIds.contains c.objectApId) s.children
    mediaBlobDeletionJobs :=
      Table.insertAllIgnore (fun new job => job.r2Key = new.r2Key) jobs s.mediaBlobDeletionJobs }

def insertBlock (r : Request) (s : Store) : Store :=
  let block : Block := ⟨r.viewer,r.sender⟩
  { s with blocks := Table.insertIgnore (fun other => other = block) block s.blocks }

/-- Where the request is: before it has a conversation, before each read and each write of a page,
before the block, and answered. -/
inductive Stage where
  | resolve
  | available (conversationId : String)
  | page (conversationId : String) (cursor : Option String)
  | objects (conversationId : String) (apIds : List String)
  | authors (conversationId : String) (apIds : List String) (plan : List Object)
  | media (conversationId : String) (apIds : List String) (plan todo : List Object)
      (jobs : JsMap String Media)
  | commit (conversationId : String) (apIds : List String) (plan : List Object)
      (jobs : JsMap String Media)
  | block (conversationId : String)
  | done (success : Bool)
deriving DecidableEq

section request

variable (attachedKeys : String → List String) (r : Request)

def finish (conversationId : String) : Stage :=
  if r.block then .block conversationId else .done true

def planned (conversationId : String) (apIds : List String) (plan todo : List Object)
    (jobs : JsMap String Media) : Stage :=
  if todo = [] then .commit conversationId apIds plan jobs
  else .media conversationId apIds plan todo jobs

def Object.hasAttachments (o : Object) : Bool := o.attachmentsJson ≠ "" && o.attachmentsJson ≠ "[]"

def attached (s : Store) (o : Object) : List Media :=
  s.mediaUploads.filter fun upload =>
    upload.uploaderApId = o.attributedTo && (attachedKeys o.attachmentsJson).contains upload.r2Key

def work (existing : Option Object) (s : Store) : Stage → Store × Stage
  | .resolve => (s,.available (resolveConversationId r existing))
  | .available conversationId =>
    (s,if pending r conversationId s then .page conversationId none else .done false)
  | .page conversationId cursor =>
    let apIds := Keyset.page rejectPageSize cursor (messageIds r conversationId s)
    (s,if apIds = [] then finish r conversationId else .objects conversationId apIds)
  | .objects conversationId apIds =>
    let plan := s.objects.filter fun o => apIds.contains o.apId
    (s,if plan.any Object.hasAttachments then .authors conversationId apIds plan
      else .commit conversationId apIds plan .empty)
  | .authors conversationId apIds plan =>
    (s,planned conversationId apIds plan
      (plan.filter fun o => o.hasAttachments &&
        s.mediaUploads.any fun upload => upload.uploaderApId = o.attributedTo) .empty)
  | .media conversationId apIds plan todo jobs =>
    match todo with
    | [] => (s,.commit conversationId apIds plan jobs)
    | o :: todo =>
      (s,planned conversationId apIds plan todo
        ((attached attachedKeys s o).foldl (fun jobs upload => jobs.set upload.r2Key upload) jobs))
  | .commit conversationId apIds plan jobs =>
    if plan.length = apIds.length && pending r conversationId s &&
        unchanged r conversationId plan s = apIds.length then
      (deletePage apIds jobs.values s,
        if apIds.length < rejectPageSize then finish r conversationId
        else .page conversationId apIds.getLast?)
    else (s,.done false)
  | .block conversationId =>
    if pending r conversationId s then (insertBlock r s,.done true) else (s,.done false)
  | .done success => (s,.done success)

end request

def Stage.conversationId : Stage → Option String
  | .resolve | .done _ => none
  | .available c | .page c _ | .objects c _ | .authors c _ _ | .media c _ _ _ _
  | .commit c _ _ _ | .block c => some c

/-- The fields after the stage are history: the resolved conversation, the messages that the request
found when it resolved it, and of these the ones that have been its messages ever since, how many
messages others have added since then, and how many statements it has taken. -/
structure State where
  store : Store
  stage : Stage
  conversation : Option String
  first : List String
  present : List String
  arrived : Nat
  steps : Nat
deriving DecidableEq

/-- The request takes its next statement, or somebody else writes. -/
inductive Label where
  | request (existing : Option Object)
  | other (store : Store)

section run

variable (attachedKeys : String → List String) (r : Request)

def heldIds (conversation : Option String) (s : Store) : List String :=
  match conversation with
  | none => []
  | some conversationId => messageIds r conversationId s

def record (existing : Option Object) (s : State) (after : Store × Stage) : State :=
  let conversation :=
    if s.stage = .resolve then some (resolveConversationId r existing) else s.conversation
  let held := heldIds r conversation after.1
  { s with
    store := after.1
    stage := after.2
    conversation := conversation
    first := if s.stage = .resolve then held else s.first
    present := if s.stage = .resolve then held else s.present.filter (held.contains ·)
    steps := s.steps + 1 }

def allowed (existing : Option Object) (s : State) : Bool :=
  match s.stage with
  | .resolve => latest r s.store existing
  | .done _ => false
  | _ => true

def interfere (store : Store) (s : State) : State :=
  let held := heldIds r s.conversation store
  { s with
    store := store
    present := s.present.filter (held.contains ·)
    arrived := s.arrived +
      (held.filter fun apId => !(heldIds r s.conversation s.store).contains apId).length }

def Store.valid (s : Store) : Bool := (s.objects.map (·.apId)).Nodup

def machine : Machine State Label where
  step
    | .request existing, s =>
      if allowed r existing s then
        some (record r existing s (work attachedKeys r existing s.store s.stage))
      else none
    | .other store, s => if store.valid then some (interfere r store s) else none

def start (s : Store) : State := ⟨s,.resolve,none,[],[],0,0⟩

end run

end Yurucommu.RequestRejects
