import Yurucommu.Counter
import Yurucommu.Interactions

/-!
The follow edges and the two columns of a local actor that count them: the routes, the inbound
activities, personal blocks and the operator's purge, one read or one batch at a time. A request
that stops takes no further step. Gates that read other tables are answers from outside.
-/

set_option autoImplicit false

namespace Yurucommu.FollowCounts

open Whatwg (Text)
open ActorIdentity (Platform isSameActivityPubActor activityPubActorIdentityMatchesSql)
open Interactions (FollowStatus FollowRow sameFollow findFollowByFollowerIdentity)

structure ActorRow where
  apId : Text
  isPrivate : Bool
  followerCount : Nat
  followingCount : Nat
deriving DecidableEq, Repr

structure Db where
  actors : List ActorRow
  follows : List FollowRow
deriving DecidableEq, Repr

/-- The deployment, and which ids the operator's block of a subject covers. -/
structure Site where
  platform : Platform
  isLocal : Text → Bool
  covers : Text → Text → Bool

section columns

inductive Column where
  | followers | following
deriving DecidableEq, Repr

def ActorRow.count : Column → ActorRow → Nat
  | .followers,a => a.followerCount
  | .following,a => a.followingCount

def ActorRow.setCount : Column → Nat → ActorRow → ActorRow
  | .followers,n,a => { a with followerCount := n }
  | .following,n,a => { a with followingCount := n }

def Column.key : Column → FollowRow → Text
  | .followers,f => f.followingApId
  | .following,f => f.followerApId

theorem count_setCount (column : Column) (n : Nat) (a : ActorRow) :
    (a.setCount column n).count column = n := by
  cases column <;> rfl

theorem apId_setCount (column : Column) (n : Nat) (a : ActorRow) :
    (a.setCount column n).apId = a.apId := by
  cases column <;> rfl

def counter (column : Column) : Counter ActorRow Text FollowRow where
  id a := a.apId
  count := ActorRow.count column
  set := ActorRow.setCount column
  key := column.key
  counted f := f.status = .accepted
  count_set := count_setCount column
  id_set := apId_setCount column

end columns

section batches

def setCounts (column : Column) (cond : ActorRow → Bool) (n : ActorRow → Nat) (d : Db) : Db :=
  { d with actors := (counter column).adjust cond n d.actors }

def increment (column : Column) (apId : Text) (guard : Bool) (d : Db) : Db :=
  setCounts column (fun a => a.apId = apId && guard) (fun a => a.count column + 1) d

def decrement (column : Column) (apId : Text) (guard : Bool) (d : Db) : Db :=
  setCounts column (fun a => a.apId = apId && decide (0 < a.count column) && guard)
    (fun a => a.count column - 1) d

def has (status : FollowStatus) (follower following : Text) (d : Db) : Bool :=
  d.follows.any fun f => sameFollow follower following f && f.status = status

def edgeAbsent (follower following : Text) (d : Db) : Bool :=
  !d.follows.any (sameFollow follower following)

def addFollow (f : FollowRow) (d : Db) : Db := { d with follows := d.follows ++ [f] }

def deleteFollows (cond : FollowRow → Bool) (d : Db) : Db :=
  { d with follows := Table.delete cond d.follows }

/-- `SET status = 'accepted'` on the pending row of a key. -/
def flip (follower following : Text) (now : Nat) (d : Db) : Db :=
  { d with
    follows := Table.update (fun f => sameFollow follower following f && f.status = .pending)
      (fun f => { f with status := .accepted, acceptedAt := some now }) d.follows }

def insertLocal (actor target : Text) (status : FollowStatus) (id : Text) (now : Nat) (d : Db) :
    Db :=
  if d.follows.any (sameFollow actor target) then d
  else
    match status with
    | .accepted =>
      addFollow ⟨actor,target,.accepted,some id,some now⟩
        (increment .followers target (edgeAbsent actor target d)
          (increment .following actor (edgeAbsent actor target d) d))
    | status => addFollow ⟨actor,target,status,some id,none⟩ d

def insertRemote (actor target id : Text) (d : Db) : Db :=
  if d.follows.any (sameFollow actor target) then d
  else addFollow ⟨actor,target,.pending,some id,none⟩ d

def insertIgnore (f : FollowRow) (d : Db) : Db :=
  { d with follows := Table.insertIgnore (sameFollow f.followerApId f.followingApId) f d.follows }

def insertInbound (actor recipient : Text) (status : FollowStatus) (id : Text) (now : Nat) (d : Db) :
    Db :=
  match status with
  | .accepted =>
    insertIgnore ⟨actor,recipient,.accepted,some id,some now⟩
      (increment .followers recipient (edgeAbsent actor recipient d) d)
  | status => insertIgnore ⟨actor,recipient,status,some id,none⟩ d

def accept (w : Site) (actor requester : Text) (now : Nat) (d : Db) : Db :=
  let pendingExists := has .pending requester actor d
  let counted := increment .followers actor pendingExists d
  flip requester actor now
    (if w.isLocal requester then increment .following requester pendingExists counted else counted)

def unfollow (w : Site) (actor target : Text) (wasAccepted : Bool) (d : Db) : Db :=
  let acceptedEdgeExists := has .accepted actor target d
  let counted := decrement .following actor acceptedEdgeExists d
  deleteFollows (sameFollow actor target)
    (if wasAccepted then
      if w.isLocal target then decrement .followers target acceptedEdgeExists counted else counted
    else d)

/-- `followDirectionIdentityWhere`. -/
def direction (follower following : Text) (rows : List FollowRow) (f : FollowRow) : Bool :=
  (f.followerApId = follower &&
    f.followingApId ∈ activityPubActorIdentityMatchesSql
      ((rows.filter fun f => f.followerApId = follower).map (·.followingApId)) following) ||
  (f.followingApId = following &&
    f.followerApId ∈ activityPubActorIdentityMatchesSql
      ((rows.filter fun f => f.followingApId = following).map (·.followerApId)) follower)

def actorIdentity (apId : Text) (actors : List ActorRow) (a : ActorRow) : Bool :=
  a.apId ∈ activityPubActorIdentityMatchesSql (actors.map (·.apId)) apId

def acceptedEdgeCount (follower following : Text) (d : Db) : Nat :=
  d.follows.countP fun f => direction follower following d.follows f && f.status = .accepted

/-- `MAX(0, count - k)`, where it is positive. -/
def subtract (column : Column) (apId : Text) (k : Nat) (d : Db) : Db :=
  setCounts column (fun a => actorIdentity apId d.actors a && decide (0 < a.count column))
    (fun a => a.count column - k) d

def severFollowDirection (follower following : Text) (d : Db) : Db :=
  let k := acceptedEdgeCount follower following d
  deleteFollows (direction follower following d.follows)
    (subtract .followers following k (subtract .following follower k d))

def severFollowPair (left right : Text) (d : Db) : Db :=
  severFollowDirection right left (severFollowDirection left right d)

def eligibleContribution (follower following : Text) (d : Db) : Nat :=
  if d.follows.any fun f => direction follower following d.follows f &&
      (f.status = .pending || f.status = .accepted) then 1
  else 0

def reconcile (column : Column) (apId : Text) (eligible k : Nat) (d : Db) : Db :=
  setCounts column (actorIdentity apId d.actors) (fun a => a.count column + eligible - k) d

def acceptRetainedFollowDirection (follower following : Text) (now : Nat) (d : Db) : Db :=
  let eligible := eligibleContribution follower following d
  let k := acceptedEdgeCount follower following d
  flip follower following now
    (deleteFollows
      (fun f => direction follower following d.follows f && !sameFollow follower following f)
      (reconcile .followers following eligible k (reconcile .following follower eligible k d)))

def purgePage (column : Column) (page : List (Text × Text)) (d : Db) : Db :=
  let d := deleteFollows (fun f => (f.followerApId,f.followingApId) ∈ page) d
  setCounts column
    (fun a => page.any fun e => (match column with | .followers => e.2 | .following => e.1) = a.apId)
    (fun a => d.follows.countP fun f => column.key f = a.apId && f.status = .accepted) d

end batches

inductive Request where
  | follow (target : Text)
  | unfollow (target : Text)
  | accept (requester : Text)
  | acceptBatch (requesters : List Text)
  | reject (requester : Text)
  | handleFollow (recipient : Text)
  | handleGroupFollow (group : Text)
  | handleAccept (followId : Text)
  | handleReject (followId : Text)
  | handleUndo (recipient : Text) (followId : Option Text)
  | handleUndoById (recipient followId : Text)
  | handleGroupUndo (group followId : Text) (typed : Bool)
  | handleAdd (recipient following : Text)
  | handleRemove (recipient following : Text)
  | handleBlock (recipient : Text)
  | block (target : Text)
  | purge (subject : Text)
deriving DecidableEq, Repr

def Request.inbound : Request → Bool
  | .handleFollow _ | .handleGroupFollow _ | .handleAccept _ | .handleReject _ | .handleUndo _ _
  | .handleUndoById _ _ | .handleGroupUndo _ _ _ | .handleAdd _ _ | .handleRemove _ _
  | .handleBlock _ => true
  | _ => false

inductive Stage where
  | start
  | clear (target : Text)
  | create (target : Text)
  | insertLocal (target : Text) (status : FollowStatus)
  | insertRemote (target : Text)
  | unfollow (target : Text) (wasAccepted : Bool)
  | accept (requesters : List Text)
  | reject (requester : Text)
  | insertInbound (recipient : Text) (status : FollowStatus)
  | insertGroup (group : Text) (status : FollowStatus)
  | acceptRetained (follower following : Text)
  | sever (follower following : Text)
  | severPair (left right : Text)
  | selectPage (column : Column)
  | purgePage (column : Column) (page : List (Text × Text))
  | done
deriving DecidableEq, Repr

structure Call where
  actor : Text
  request : Request
  stage : Stage
deriving DecidableEq, Repr

/-- A fresh id, the clock, whether the gates let the request through, the status that a group's
policy gives, the internal id that a peer's id resolves to, and whether the step throws. -/
structure Answer where
  id : Text := []
  now : Nat := 0
  admitted : Bool := true
  status : FollowStatus := .pending
  reference : Option Text := none
  fails : Bool := false
deriving DecidableEq, Repr

section requests

variable (w : Site)

def findFollow (follower following : Text) (d : Db) : Option FollowRow :=
  d.follows.find? (sameFollow follower following)

def findPendingFollow (requester target : Text) (d : Db) : Option FollowRow :=
  d.follows.find? fun f => sameFollow requester target f && f.status = .pending

def findFollowByFollowingIdentity (d : Db) (follower following : Text) : Option FollowRow :=
  findFollow follower following d <|>
    d.follows.find? fun f => f.followerApId = follower &&
      f.followingApId ∈ activityPubActorIdentityMatchesSql
        ((d.follows.filter fun f => f.followerApId = follower).map (·.followingApId)) following

def findFollowByActivityId (activityApId : Text) (d : Db) : Option FollowRow :=
  d.follows.find? fun f => f.activityApId = some activityApId

def findActorOwnedFollowByActivityId (activityApId actor : Text) (d : Db) : Option FollowRow :=
  (d.follows.find? fun f => f.activityApId = some activityApId && f.followerApId = actor) <|>
    d.follows.find? fun f => f.activityApId = some activityApId &&
      f.followerApId ∈ activityPubActorIdentityMatchesSql
        ((d.follows.filter fun f => f.activityApId = some activityApId).map (·.followerApId)) actor

/-- The edge that an Undo names, by the id of its Follow or by the peer's id for it. -/
def findUndone (i : Answer) (followId actor : Text) (d : Db) : Option FollowRow :=
  findActorOwnedFollowByActivityId followId actor d <|>
    i.reference.bind fun id => findActorOwnedFollowByActivityId id actor d

def retained (f : FollowRow) : Bool := f.status = .pending || f.status = .accepted

def readFollow (actor target : Text) (d : Db) : Stage :=
  match findFollow actor target d with
  | none => .create target
  | some f => if f.status = .rejected then .clear target else .done

def readTarget (i : Answer) (target : Text) (d : Db) : Stage :=
  if w.isLocal target then
    match d.actors.find? fun a => a.apId = target with
    | none => .done
    | some a =>
      if i.admitted then .insertLocal target (if a.isPrivate then .pending else .accepted) else .done
  else if i.admitted then .insertRemote target
  else .done

def readInbound (i : Answer) (actor recipient : Text) (d : Db) : Stage :=
  match d.actors.find? fun a => a.apId = recipient with
  | none => .done
  | some a =>
    if !i.admitted then .done
    else if (findFollowByFollowerIdentity d.follows actor recipient).isSome then .done
    else .insertInbound recipient (if a.isPrivate then .pending else .accepted)

def severOwn (actor recipient : Text) (f : FollowRow) : Stage :=
  if isSameActivityPubActor w.platform f.followerApId actor && f.followingApId = recipient then
    .sever f.followerApId f.followingApId
  else .done

def readUndo (i : Answer) (actor recipient : Text) (followId : Option Text) (d : Db) : Stage :=
  match followId.bind fun followId => findUndone i followId actor d with
  | none => .sever actor recipient
  | some f => severOwn w actor recipient f

def readUndoById (actor recipient followId : Text) (d : Db) : Stage :=
  match findFollowByActivityId followId d with
  | none => .done
  | some f => severOwn w actor recipient f

def readGroupUndo (i : Answer) (actor group followId : Text) (typed : Bool) (d : Db) : Stage :=
  match findUndone i followId actor d with
  | some f => severOwn w actor group f
  | none =>
    if typed then
      match findFollowByFollowerIdentity d.follows actor group with
      | none => .done
      | some f => .sever f.followerApId f.followingApId
    else .done

def read (i : Answer) (actor : Text) (d : Db) : Request → Stage
  | .follow target => if i.admitted && target ≠ actor then readFollow actor target d else .done
  | .unfollow target =>
    match findFollow actor target d with
    | none => .done
    | some f => .unfollow target (f.status = .accepted)
  | .accept requester =>
    if i.admitted && (findPendingFollow requester actor d).isSome then .accept [requester] else .done
  | .acceptBatch requesters =>
    .accept (requesters.filter fun requester =>
      i.admitted && (findPendingFollow requester actor d).isSome)
  | .reject requester =>
    if (findPendingFollow requester actor d).isSome then .reject requester else .done
  | .handleFollow recipient => readInbound i actor recipient d
  | .handleGroupFollow group =>
    if i.admitted && (findFollowByFollowerIdentity d.follows actor group).isNone then
      .insertGroup group i.status
    else .done
  | .handleAccept followId =>
    match findFollowByActivityId followId d with
    | none => .done
    | some f =>
      if retained f && isSameActivityPubActor w.platform f.followingApId actor then
        .acceptRetained f.followerApId f.followingApId
      else .done
  | .handleReject followId =>
    match findFollowByActivityId followId d with
    | none => .done
    | some f =>
      if isSameActivityPubActor w.platform f.followingApId actor then
        .sever f.followerApId f.followingApId
      else .done
  | .handleUndo recipient followId => readUndo w i actor recipient followId d
  | .handleUndoById recipient followId => readUndoById w actor recipient followId d
  | .handleGroupUndo group followId typed => readGroupUndo w i actor group followId typed d
  | .handleAdd recipient following =>
    match findFollowByFollowingIdentity d recipient following with
    | none => .done
    | some f => if retained f then .acceptRetained recipient f.followingApId else .done
  | .handleRemove recipient following =>
    match findFollowByFollowingIdentity d recipient following with
    | none => .done
    | some f => .sever recipient f.followingApId
  | .handleBlock recipient => .severPair recipient actor
  | .block target => .severPair target actor
  | .purge _ => .selectPage .followers

def interactionEdgePage : Nat := 40

def selectPage (subject : Text) (column : Column) (d : Db) : List (Text × Text) :=
  ((d.follows.filter fun f =>
    w.covers subject (match column with
      | .followers => f.followerApId
      | .following => f.followingApId)).take interactionEdgePage).map
        fun f => (f.followerApId,f.followingApId)

def readPage (subject : Text) (column : Column) (d : Db) : Stage :=
  if selectPage w subject column d = [] then
    match column with
    | .followers => .selectPage .following
    | .following => .done
  else .purgePage column (selectPage w subject column d)

def Request.subject : Request → Text
  | .purge subject => subject
  | _ => []

def advance (i : Answer) (c : Call) (d : Db) : Db × Stage :=
  match c.stage with
  | .start => (d,read w i c.actor d c.request)
  | .clear target => (deleteFollows (sameFollow c.actor target) d,.create target)
  | .create target => (d,readTarget w i target d)
  | .insertLocal target status => (insertLocal c.actor target status i.id i.now d,.done)
  | .insertRemote target => (insertRemote c.actor target i.id d,.done)
  | .unfollow target wasAccepted => (unfollow w c.actor target wasAccepted d,.done)
  | .accept [] => (d,.done)
  | .accept (requester :: rest) => (accept w c.actor requester i.now d,.accept rest)
  | .reject requester => (deleteFollows (sameFollow requester c.actor) d,.done)
  | .insertInbound recipient status => (insertInbound c.actor recipient status i.id i.now d,.done)
  | .insertGroup group status =>
    (insertIgnore ⟨c.actor,group,status,some i.id,
      if status = .accepted then some i.now else none⟩ d,.done)
  | .acceptRetained follower following =>
    (acceptRetainedFollowDirection follower following i.now d,.done)
  | .sever follower following => (severFollowDirection follower following d,.done)
  | .severPair left right => (severFollowPair left right d,.done)
  | .selectPage column => (d,readPage w c.request.subject column d)
  | .purgePage column page => (purgePage column page d,.selectPage column)
  | .done => (d,.done)

/-- A throw ends a request, but not the requests after one of a batch. -/
def Stage.thrown : Stage → Stage
  | .accept (_ :: rest) => .accept rest
  | _ => .done

def work (i : Answer) (_ : Nat) (d : Db) (c : Call) : Db × Call :=
  if i.fails then (d,{ c with stage := c.stage.thrown })
  else ((advance w i c d).1,{ c with stage := (advance w i c d).2 })

def allowed (_ : Answer) (_ : Db) (c : Call) : Bool := c.stage ≠ .done

def threads : Threads Db Call Answer Empty :=
  .guarded allowed (work w) (fun e => nomatch e) (fun e => nomatch e)

abbrev Pool := Threads.Pool Db Call

abbrev Label := Threads.Label Answer Empty

abbrev machine : Machine Pool Label := (threads w).machine

end requests

def keys (rows : List FollowRow) : List (Text × Text) :=
  rows.map fun f => (f.followerApId,f.followingApId)

def Exact (d : Db) : Prop := ∀ column, (counter column).Exact d.actors d.follows

def Here (d : Db) (apId : Text) : Prop := ∃ a ∈ d.actors, a.apId = apId

/-- Requests begin in a database whose keys are unique and whose counts are exact. Who signs an
inbound activity, a group and whoever the operator blocks are not among the local actors. -/
structure Start (w : Site) (s : Pool) : Prop where
  keys : (keys s.store.follows).Nodup
  exact : Exact s.store
  isLocal : ∀ apId, Here s.store apId → w.isLocal apId = true
  start : ∀ p, (s.thread p).stage = .start
  signer : ∀ p, (s.thread p).request.inbound = true → ¬Here s.store (s.thread p).actor
  group : ∀ p group, (s.thread p).request = .handleGroupFollow group → ¬Here s.store group
  subject : ∀ p subject, (s.thread p).request = .purge subject →
    ∀ apId, Here s.store apId → w.covers subject apId = false

/-- An id in the tables, or read from them by an accept that has still to write. -/
def Retained (s : Pool) (apId : Text) : Prop :=
  Here s.store apId ∨ (∃ f ∈ s.store.follows, f.followerApId = apId ∨ f.followingApId = apId) ∨
    ∃ p follower following, (s.thread p).stage = .acceptRetained follower following ∧
      (follower = apId ∨ following = apId)

/-- No two retained ids are spellings of one actor. -/
def OneSpelling (s : Pool) : Prop :=
  ∀ apId left right, Retained s left → Retained s right →
    left ∈ activityPubActorIdentityMatchesSql [left] apId →
    right ∈ activityPubActorIdentityMatchesSql [right] apId → left = right

/-- An edge that a route deletes without a decrement is not accepted. -/
def Uncounted (s : Pool) (l : Label) : Prop :=
  ∀ p i, l = .act p i → i.fails = false →
    match (s.thread p).stage with
    | .clear target => has .accepted (s.thread p).actor target s.store = false
    | .unfollow target wasAccepted =>
      wasAccepted = true ∨ has .accepted (s.thread p).actor target s.store = false
    | .reject requester => has .accepted requester (s.thread p).actor s.store = false
    | _ => True

def Meets (s : Pool) (l : Label) : Prop := OneSpelling s ∧ Uncounted s l

end Yurucommu.FollowCounts
