import Yurucommu.Blocklist
import Yurucommu.InboxDispatch
import Yurucommu.ResolutionWorker
import Yurucommu.Table

/-!
Dispatch of one inbound Follow, Like or Announce, one statement at a time: the dedup insert and
the claim, the handler with what it enqueues, and the commit. Reads in a row are one step. A
dispatch that stops takes no further step.
-/

set_option autoImplicit false

namespace Yurucommu.Interactions

open Whatwg (Text)
open ActorIdentity (Platform normalizeActivityPubActorId activityPubActorIdentitySetSql
  activityPubActorIdentityMatchesSql)
open Inbox (ClaimRow Processed Outcome)
open Resolution (ResolutionRow)

inductive FollowStatus where
  | pending | accepted | rejected
deriving DecidableEq, Repr

inductive ActivityType where
  | follow | like | announce | accept | reject | other (type : Text)
deriving DecidableEq, Repr

inductive Direction where
  | inbound | outbound | onInstance
deriving DecidableEq, Repr

structure ActorRow where
  apId : Text
  isPrivate : Bool
  deleted : Bool
  followerCount : Nat
deriving DecidableEq, Repr

structure FollowRow where
  followerApId : Text
  followingApId : Text
  status : FollowStatus
  activityApId : Option Text
  acceptedAt : Option Nat
deriving DecidableEq, Repr

structure InteractionRow where
  actorApId : Text
  objectApId : Text
  activityApId : Option Text
deriving DecidableEq, Repr

structure ObjectRow where
  apId : Text
  type : Text
  attributedTo : Text
  deleted : Bool
  visibility : Text
  toJson : Text
  ccJson : Text
  audienceJson : Text
  communityApId : Option Text
  endTime : Option Text
  inReplyTo : Option Text
  likeCount : Nat
  announceCount : Nat
  replyCount : Nat
deriving DecidableEq, Repr

structure ActivityRow where
  apId : Text
  type : ActivityType
  actorApId : Text
  objectApId : Option Text
  direction : Option Direction
  processed : Processed
deriving DecidableEq, Repr

structure InboxRow where
  actorApId : Text
  activityApId : Text
  read : Bool
  createdAt : Nat
deriving DecidableEq, Repr

/-- A row of `delivery_resolutions` with its unique key. -/
structure RequestRow where
  activityApId : Text
  recipientActorApId : Text
  row : ResolutionRow
deriving DecidableEq, Repr

/-- The tables that a dispatch writes and a retry is compared on. -/
structure Db where
  actors : List ActorRow
  follows : List FollowRow
  likes : List InteractionRow
  announces : List InteractionRow
  objects : List ObjectRow
  activities : List ActivityRow
  inbox : List InboxRow
  requests : List RequestRow
deriving DecidableEq, Repr

structure Store where
  db : Db
  claim : Option ClaimRow
  now : Nat
deriving DecidableEq, Repr

/-- The deployment, and what the handlers read and no dispatch writes. -/
structure Site where
  platform : Platform
  isLocal : Text → Bool
  queueAvailable : Bool
  blocks : List (Text × Text)
  mutes : List (Text × Text)
  communityBans : List (Text × Text)
  blockedDomains : List Text
  blockedActors : List Text
  canViewerReadObjectFull : List FollowRow → ObjectRow → Text → Nat → Bool

inductive JoinPolicy where
  | approval | invite | other
deriving DecidableEq, Repr

def JoinPolicy.status : JoinPolicy → FollowStatus
  | .approval => .pending
  | .invite => .rejected
  | .other => .accepted

inductive InteractionKind where
  | like | announce
deriving DecidableEq, Repr

inductive Kind where
  | follow (recipient : Text)
  | groupFollow (group : Text) (joinPolicy : JoinPolicy)
  | like
  | announce
deriving DecidableEq, Repr

/-- What `verifyAndParseInbox` makes of the request, and the recipient that the route or the
activity names. -/
structure Activity where
  activityId : Text
  sourceActivityId : Text
  actor : Text
  objectId : Option Text
  kind : Kind
deriving DecidableEq, Repr

def Kind.activityType : Kind → ActivityType
  | .follow _ | .groupFollow _ _ => .follow
  | .like => .like
  | .announce => .announce

/-- What a statement learns from outside: the clock, a fresh id, the note that a fetch ends with,
and whether it throws. -/
structure Answer where
  now : Nat := 0
  id : Text := []
  fetched : Option ObjectRow := none
  fails : Bool := false
deriving DecidableEq, Repr

/-- The next step of a dispatch. -/
inductive Stage where
  | gate
  | insertActivity
  | insertClaim
  | readProcessed
  | claim
  | follow (recipient : Text)
  | followEdge (recipient : Text) (status : FollowStatus)
  | groupFollow (group : Text) (joinPolicy : JoinPolicy)
  | groupEdge (group : Text) (status : FollowStatus)
  | groupResponse (group : Text) (status : FollowStatus)
  | announce
  | fetch (objectId : Text)
  | persist (note : ObjectRow)
  | interaction (kind : InteractionKind)
  | interactionEdge (kind : InteractionKind) (objectId : Text) (existing : Bool)
  | owner (kind : InteractionKind) (objectId : Text)
  | upsertActivity (type : ActivityType) (objectId recipient : Text) (respond : Bool)
  | insertInbox (recipient : Text) (respond : Bool)
  | insertResponse (type : ActivityType) (actor objectId : Text)
  | isBlocked (id : Text)
  | retain (id : Text)
  | insertRequest (id : Text)
  | readDue (id : Text)
  | markQueued (id : Text)
  | commit (state : Outcome)
  | clear
  | done
  | thrown (at_ : Stage)
deriving DecidableEq, Repr

def Stage.halted : Stage → Bool
  | .done | .thrown _ => true
  | _ => false

def processedDone : Stage := .commit ⟨.done,Processed.done_ne⟩

section reads

variable (w : Site)

def findFollowByFollowerIdentity (follows : List FollowRow) (follower following : Text) :
    Option FollowRow :=
  (follows.find? fun f => f.followerApId = follower && f.followingApId = following) <|>
    follows.find? fun f => f.followingApId = following &&
      f.followerApId ∈ activityPubActorIdentityMatchesSql
        ((follows.filter fun f => f.followingApId = following).map (·.followerApId)) follower

def actorSuppressesInteractionFrom (owner actor : Text) : Bool :=
  (owner,actor) ∈ w.blocks || (owner,actor) ∈ w.mutes ||
    (normalizeActivityPubActorId w.platform actor).getD actor ∈
      activityPubActorIdentitySetSql
        (((w.blocks ++ w.mutes).filter fun p => p.1 = owner).map (·.2))

def isMemberBanned (community actor : Text) : Bool :=
  (community,actor) ∈ w.communityBans ||
    activityPubActorIdentityMatchesSql
      ((w.communityBans.filter fun p => p.1 = community).map (·.2)) actor ≠ []

def isActorBlockedStrict (actor : Text) : Bool :=
  Blocklist.isActorBlockedStrict w.platform w.blockedDomains w.blockedActors actor

def actorHasLocalFollowers (d : Db) (actor : Text) : Bool :=
  d.follows.any fun f => f.followingApId = actor && f.status = .accepted &&
    d.actors.any fun r => r.apId = f.followerApId && !r.deleted

end reads

section writes

def sameActivity (id : Text) (r : ActivityRow) : Bool := r.apId = id

def upsertActivity (row : ActivityRow) (d : Db) : Db :=
  { d with activities := Table.insertIgnore (sameActivity row.apId) row d.activities }

/-- The dedup insert. -/
def begin_ (a : Activity) (d : Db) : Db :=
  upsertActivity ⟨a.activityId,a.kind.activityType,a.actor,a.objectId,some .inbound,.unprocessed⟩ d

def sameInbox (recipient id : Text) (r : InboxRow) : Bool :=
  r.actorApId = recipient && r.activityApId = id

def notify (recipient id : Text) (now : Nat) (d : Db) : Db :=
  { d with inbox := Table.insertIgnore (sameInbox recipient id) ⟨recipient,id,false,now⟩ d.inbox }

def sameFollow (follower following : Text) (r : FollowRow) : Bool :=
  r.followerApId = follower && r.followingApId = following

def insertFollow (row : FollowRow) (d : Db) : Db :=
  { d with
    follows := Table.insertIgnore (sameFollow row.followerApId row.followingApId) row
      d.follows }

/-- The increment reads the edges as they are before the insert. -/
def incrementFollowerCount (follower following : Text) (d : Db) : Db :=
  { d with
    actors := Table.update
      (fun r => r.apId = following && !d.follows.any (sameFollow follower following))
      (fun r => { r with followerCount := r.followerCount + 1 }) d.actors }

def followEdge (a : Activity) (recipient : Text) (status : FollowStatus) (now : Nat) (d : Db) :
    Db :=
  match status with
  | .accepted =>
    insertFollow ⟨a.actor,recipient,status,some a.activityId,some now⟩
      (incrementFollowerCount a.actor recipient d)
  | _ => insertFollow ⟨a.actor,recipient,status,some a.activityId,none⟩ d

def edges : InteractionKind → Db → List InteractionRow
  | .like,d => d.likes
  | .announce,d => d.announces

def setEdges : InteractionKind → List InteractionRow → Db → Db
  | .like,rows,d => { d with likes := rows }
  | .announce,rows,d => { d with announces := rows }

def setCount (kind : InteractionKind) (n : Nat) (o : ObjectRow) : ObjectRow :=
  match kind with
  | .like => { o with likeCount := n }
  | .announce => { o with announceCount := n }

def sameInteraction (actor objectId : Text) (r : InteractionRow) : Bool :=
  r.actorApId = actor && r.objectApId = objectId

def insertEdge (kind : InteractionKind) (row : InteractionRow) (d : Db) : Db :=
  setEdges kind (Table.insertIgnore (sameInteraction row.actorApId row.objectApId) row
    (edges kind d)) d

def recomputeCount (kind : InteractionKind) (objectId : Text) (d : Db) : Db :=
  let n := (edges kind d).countP fun r => r.objectApId = objectId
  { d with objects := Table.update (fun o => o.apId = objectId) (setCount kind n) d.objects }

def interactionEdge (kind : InteractionKind) (actor objectId id : Text) (d : Db) : Db :=
  recomputeCount kind objectId (insertEdge kind ⟨actor,objectId,some id⟩ d)

def recomputeReplyCount (parent : Text) (d : Db) : Db :=
  let n := d.objects.countP fun o => o.inReplyTo = some parent
  { d with
    objects := Table.update (fun o => o.apId = parent)
      (fun o => { o with replyCount := n }) d.objects }

/-- What `commitNoteProjection` does to the tables compared, for a note not yet retained. -/
def persist (note : ObjectRow) (d : Db) : Db :=
  let row := { note with likeCount := 0, announceCount := 0, replyCount := 0 }
  let d := { d with objects := d.objects ++ [row] }
  recomputeReplyCount note.apId
    (match note.inReplyTo with
      | some parent => recomputeReplyCount parent d
      | none => d)

def sameRequest (id recipient : Text) (r : RequestRow) : Bool :=
  r.activityApId = id && r.recipientActorApId = recipient

def insertRequest (id recipient : Text) (now : Nat) (d : Db) : Db :=
  { d with
    requests := Table.insertIgnore (sameRequest id recipient)
      ⟨id,recipient,Resolution.newRow now⟩ d.requests }

def requestDue (id recipient : Text) (now : Nat) (d : Db) : Bool :=
  d.requests.any fun r => sameRequest id recipient r && Resolution.due now r.row

def markQueued (id recipient : Text) (now : Nat) (d : Db) : Db :=
  { d with
    requests := Table.update
      (fun r => sameRequest id recipient r && Resolution.waiting r.row)
      (fun r => { r with row := Resolution.markQueued now r.row }) d.requests }

def setProcessed (id : Text) (state : Processed) (d : Db) : Db :=
  { d with
    activities := Table.update (sameActivity id)
      (fun r => { r with processed := state }) d.activities }

def processed (id : Text) (d : Db) : Option Processed :=
  (d.activities.find? (sameActivity id)).map (·.processed)

/-- No row has an id that `generateId` makes. -/
def fresh (id : Text) (d : Db) : Bool :=
  !d.activities.any (sameActivity id) && !d.requests.any fun r => r.activityApId = id

def Activity.acceptObject (a : Activity) : Text :=
  if a.sourceActivityId = [] then a.activityId else a.sourceActivityId

def findResponse (type : ActivityType) (group objectId : Text) (d : Db) : Option ActivityRow :=
  d.activities.find? fun r => r.type = type && r.actorApId = group && r.objectApId = some objectId

end writes

section dispatch

variable (w : Site) (p : Nat) (a : Activity)

def Activity.entry (a : Activity) : Stage :=
  match a.kind with
  | .follow recipient => .follow recipient
  | .groupFollow group joinPolicy => .groupFollow group joinPolicy
  | .like => .interaction .like
  | .announce => .announce

def readFollow (recipient : Text) (d : Db) : Stage :=
  match d.actors.find? fun r => r.apId = recipient with
  | none => .commit ⟨.undeliverable,Processed.undeliverable_ne⟩
  | some row =>
    if actorSuppressesInteractionFrom w recipient a.actor then processedDone
    else if (findFollowByFollowerIdentity d.follows a.actor recipient).isSome then processedDone
    else .followEdge recipient (if row.isPrivate then .pending else .accepted)

def responds (status : FollowStatus) : Bool := status = .accepted && !w.isLocal a.actor

def readGroupFollow (group : Text) (joinPolicy : JoinPolicy) (d : Db) : Stage :=
  match findFollowByFollowerIdentity d.follows a.actor group with
  | some existing => .groupResponse group existing.status
  | none =>
    if joinPolicy.status = .accepted && isMemberBanned w group a.actor then
      .groupResponse group .rejected
    else .groupEdge group joinPolicy.status

def groupResponseType (status : FollowStatus) : ActivityType :=
  if status = .accepted then .accept else .reject

def readGroupResponse (group : Text) (status : FollowStatus) (d : Db) : Stage :=
  if w.isLocal a.actor then processedDone
  else if status = .pending then processedDone
  else
    match findResponse (groupResponseType status) group a.sourceActivityId d with
    | some row => .isBlocked row.apId
    | none => .insertResponse (groupResponseType status) group a.sourceActivityId

def readAnnounce (d : Db) : Stage :=
  match a.objectId with
  | none => .interaction .announce
  | some objectId =>
    if w.isLocal objectId then .interaction .announce
    else if d.objects.any fun o => o.apId = objectId then .interaction .announce
    else if actorHasLocalFollowers d a.actor then .fetch objectId
    else .interaction .announce

def readInteraction (kind : InteractionKind) (now : Nat) (d : Db) : Stage :=
  match a.objectId with
  | none => processedDone
  | some objectId =>
    match d.objects.find? fun o => o.apId = objectId && !o.deleted with
    | none => processedDone
    | some target =>
      if w.isLocal target.attributedTo &&
          actorSuppressesInteractionFrom w target.attributedTo a.actor then processedDone
      else if w.canViewerReadObjectFull d.follows target a.actor now then
        .interactionEdge kind objectId ((edges kind d).any (sameInteraction a.actor objectId))
      else processedDone

def InteractionKind.activityType : InteractionKind → ActivityType
  | .like => .like
  | .announce => .announce

/-- `notifyLocalObjectOwner`. -/
def readOwner (kind : InteractionKind) (objectId : Text) (d : Db) : Stage :=
  match d.objects.find? fun o => o.apId = objectId with
  | none => processedDone
  | some o =>
    if w.isLocal o.attributedTo then
      .upsertActivity kind.activityType objectId o.attributedTo false
    else processedDone

def handle (i : Answer) (now : Nat) (d : Db) : Stage → Db × Stage
  | .gate => (d, if isActorBlockedStrict w a.actor then .done else .insertActivity)
  | .insertActivity => (begin_ a d, .insertClaim)
  | .insertClaim => (d, .readProcessed)
  | .readProcessed => (d, if processed a.activityId d = some .unprocessed then .claim else .done)
  | .claim => (d, a.entry)
  | .follow recipient => (d, readFollow w a recipient d)
  | .followEdge recipient status =>
    (followEdge a recipient status now d,
      .upsertActivity .follow recipient recipient (responds w a status))
  | .groupFollow group joinPolicy => (d, readGroupFollow w a group joinPolicy d)
  | .groupEdge group status =>
    (insertFollow ⟨a.actor,group,status,some a.activityId,
        if status = .accepted then some now else none⟩ d, .groupResponse group status)
  | .groupResponse group status => (d, readGroupResponse w a group status d)
  | .announce => (d, readAnnounce w a d)
  | .fetch objectId =>
    (d, match i.fetched with
      | some note => .persist { note with apId := objectId }
      | none => .interaction .announce)
  | .persist note => (persist note d, .interaction .announce)
  | .interaction kind => (d, readInteraction w a kind now d)
  | .interactionEdge kind objectId existing =>
    (interactionEdge kind a.actor objectId a.activityId d,
      if existing then processedDone else .owner kind objectId)
  | .owner kind objectId => (d, readOwner w kind objectId d)
  | .upsertActivity type objectId recipient respond =>
    (upsertActivity ⟨a.activityId,type,a.actor,some objectId,none,.unprocessed⟩ d,
      .insertInbox recipient respond)
  | .insertInbox recipient respond =>
    (notify recipient a.activityId now d,
      if respond then .insertResponse .accept recipient a.acceptObject else processedDone)
  | .insertResponse type actor objectId =>
    (upsertActivity ⟨i.id,type,actor,some objectId,some .outbound,.unprocessed⟩ d, .isBlocked i.id)
  | .isBlocked id =>
    (d, if isActorBlockedStrict w a.actor then processedDone else .insertRequest id)
  | .retain id => (insertRequest id a.actor now d, .thrown (.retain id))
  | .insertRequest id =>
    (insertRequest id a.actor now d, if w.queueAvailable then .readDue id else processedDone)
  | .readDue id => (d, if requestDue id a.actor now d then .markQueued id else processedDone)
  | .markQueued id => (markQueued id a.actor now d, processedDone)
  | .commit state => (setProcessed a.activityId state.1 d, .clear)
  | .clear => (d, .done)
  | .done => (d, .done)
  | .thrown at_ => (d, .thrown at_)

/-- A step throws: it is told to, its response has an id that is not fresh, or its notification is
for nobody here. -/
def throws (i : Answer) (d : Db) : Stage → Bool
  | .insertResponse _ _ _ => i.fails || !fresh i.id d
  | .insertInbox recipient _ =>
    i.fails || !(d.inbox.any (sameInbox recipient a.activityId) ||
      d.actors.any fun r => r.apId = recipient)
  | .commit _ => i.fails || !d.activities.any (sameActivity a.activityId)
  | _ => i.fails

/-- The claim row under a step. `p` is the token of the claim. -/
def claimed (s : Store) : Stage → Option ClaimRow
  | .insertClaim => Statement.insertIgnore ⟨none,none⟩ s.claim
  | .claim => Statement.update (Inbox.free s.now) (Inbox.take p s.now) s.claim
  | .clear => Statement.update (Inbox.holds p) Inbox.clearClaim s.claim
  | _ => s.claim

/-- A claim that is not free ends the dispatch, and a commit without the claim throws. -/
def refused (s : Store) : Stage → Option Stage
  | .claim => if Statement.hits (Inbox.free s.now) s.claim then none else some .done
  | .commit state =>
    if Statement.hits (Inbox.holds p) s.claim then none else some (.thrown (.commit state))
  | _ => none

/-- A blocklist that cannot be read leaves the request behind before it throws. -/
def Stage.catch_ : Stage → Stage
  | .isBlocked id => .retain id
  | stage => .thrown stage

def next (i : Answer) (c : Store × Stage) : Store × Stage :=
  if c.2.halted then c
  else
    let s := { c.1 with now := max c.1.now i.now }
    if throws a i s.db c.2 then (s,c.2.catch_)
    else
      match refused p s c.2 with
      | some stage => (s,stage)
      | none =>
        ({ s with db := (handle w a i s.now s.db c.2).1, claim := claimed p s c.2 },
          (handle w a i s.now s.db c.2).2)

def run (is : List Answer) (c : Store × Stage) : Store × Stage :=
  is.foldl (fun c i => next w p a i c) c

def freed (s : Store) : Store := { s with claim := s.claim.map Inbox.clearClaim }

def Completes (c : Store × Stage) (t : Store) : Prop := ∃ is, run w p a is c = (t,.done)

/-- Stopped wherever its statements `stopped` lead, and dispatched again to the end, the activity
leaves what one dispatch can leave that nothing stops. -/
def Converges (stopped : List Answer) (s₀ : Store) : Prop :=
  ∀ q t, Completes w q a (freed (run w p a stopped (freed s₀,.gate)).1,.gate) t →
    ∃ r t', Completes w r a (freed s₀,.gate) t' ∧ t'.db = t.db

end dispatch

section stranded

variable (w : Site) (a : Activity)

def requested (id : Text) (d : Db) : Bool :=
  d.requests.any fun r =>
    sameRequest id a.actor r && !(w.queueAvailable && Resolution.waiting r.row)

def owes (d : Db) : Stage → Bool
  | .owner _ objectId =>
    match d.objects.find? fun o => o.apId = objectId with
    | some o =>
      w.isLocal o.attributedTo && !d.inbox.any (sameInbox o.attributedTo a.activityId)
    | none => false
  | .upsertActivity _ _ recipient respond | .insertInbox recipient respond =>
    respond || !d.inbox.any (sameInbox recipient a.activityId)
  | .insertResponse _ _ _ => true
  | .isBlocked id | .retain id | .insertRequest id | .readDue id | .markQueued id =>
    !requested w a id d
  | .thrown at_ => owes d at_
  | _ => false

/-- A handler that asks for the edge before it does anything was stopped while it owed a row. -/
def Stranded (c : Store × Stage) : Prop :=
  (∀ group joinPolicy, a.kind ≠ .groupFollow group joinPolicy) ∧ owes w a c.1.db c.2 = true

end stranded

end Yurucommu.Interactions
