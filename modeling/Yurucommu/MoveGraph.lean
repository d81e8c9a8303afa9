import Yurucommu.FollowCounts
import Yurucommu.InsertSelect
import Yurucommu.KeysetPages

/-!
The follow graph when a remote actor has moved: the batch of eight statements that rewrites every
edge of the old id, each reading what the statements before it left, and the pages by which the
recorded re-Follows are handed to delivery.
-/

set_option autoImplicit false

namespace Yurucommu.MoveGraph

open Whatwg (Text)
open Interactions (FollowStatus)
open FollowCounts (ActorRow Column)

structure FollowRow where
  followerApId : Text
  followingApId : Text
  status : FollowStatus
  activityApId : Option Text
  createdAt : Text
  acceptedAt : Option Text
deriving DecidableEq, Repr

structure ActivityRow where
  apId : Text
  type : Text
  actorApId : Text
  objectApId : Option Text
  objectJson : Option Text
  targetApId : Option Text
  rawJson : List (Text × Text)
  direction : Option Text
  processed : Nat
  createdAt : Text
deriving DecidableEq, Repr

structure Db where
  actors : List ActorRow
  follows : List FollowRow
  activities : List ActivityRow
deriving DecidableEq, Repr

structure Move where
  oldActorApId : Text
  newActorApId : Text
  refollowPrefix : Text

/-- `lower(hex(randomblob(32)))`, as the row of a follower gets it, and `datetime('now')`. -/
structure Engine where
  random : Text → Text
  now : Text

section tables

def FollowRow.edge (f : FollowRow) : Text × Text := (f.followerApId,f.followingApId)

def sameEdge (new f : FollowRow) : Bool := f.edge = new.edge

def sameApId (new a : ActivityRow) : Bool := a.apId = new.apId

def hasEdge (follower following : Text) (follows : List FollowRow) : Bool :=
  follows.any fun f => f.edge = (follower,following)

def hasAccepted (follower following : Text) (follows : List FollowRow) : Bool :=
  follows.any fun f => f.edge = (follower,following) && f.status = .accepted

def isLocal (actors : List ActorRow) (apId : Text) : Bool := actors.any fun a => a.apId = apId

def key : Column → FollowRow → Text
  | .followers,f => f.followingApId
  | .following,f => f.followerApId

def counter (column : Column) : Counter ActorRow Text FollowRow where
  id a := a.apId
  count := ActorRow.count column
  set := ActorRow.setCount column
  key := key column
  counted f := f.status = .accepted
  count_set := FollowCounts.count_setCount column
  id_set := FollowCounts.apId_setCount column

def decrement (column : Column) (cond : ActorRow → Bool) (d : Db) : Db :=
  { d with
    actors := (counter column).adjust (fun a => decide (0 < a.count column) && cond a)
      (fun a => a.count column - 1) d.actors }

def insertFollows (new : List FollowRow) (d : Db) : Db :=
  { d with follows := Table.insertAllIgnore sameEdge new d.follows }

def deleteFollows (cond : FollowRow → Bool) (d : Db) : Db :=
  { d with follows := Table.delete cond d.follows }

end tables

section statements

variable (m : Move) (e : Engine)

def decrementLocalFollowers (d : Db) : Db :=
  decrement .following (fun a => hasAccepted a.apId m.oldActorApId d.follows) d

def decrementDroppedLocalFollowees (d : Db) : Db :=
  decrement .followers (fun a => hasAccepted m.oldActorApId a.apId d.follows &&
    (a.apId = m.newActorApId || hasEdge m.newActorApId a.apId d.follows)) d

def oldAsFollower (follows : List FollowRow) : List FollowRow :=
  (follows.filter fun f => f.followerApId = m.oldActorApId &&
      decide (f.followingApId ≠ m.newActorApId) &&
      !hasEdge m.newActorApId f.followingApId follows).map
    fun f => { f with followerApId := m.newActorApId }

def rewriteOldAsFollower (d : Db) : Db := insertFollows (oldAsFollower m d.follows) d

/-- What both statements about the followers of the old id ask; the last of it is
`targetEdgeDoesNotExist`. -/
def oldAsFollowee (follows : List FollowRow) (f : FollowRow) : Bool :=
  f.followingApId = m.oldActorApId && decide (f.followerApId ≠ m.newActorApId) &&
    !hasEdge f.followerApId m.newActorApId follows

def refollow (f : FollowRow) : FollowRow :=
  { f with
    followingApId := m.newActorApId
    status := .pending
    activityApId := some (m.refollowPrefix ++ e.random f.followerApId)
    acceptedAt := none }

def localFollowers (actors : List ActorRow) (follows : List FollowRow) : List FollowRow :=
  (follows.filter fun f => oldAsFollowee m follows f && isLocal actors f.followerApId).map
    (refollow m e)

def rewriteLocalFollowers (d : Db) : Db :=
  insertFollows (localFollowers m e d.actors d.follows) d

def remoteFollowers (actors : List ActorRow) (follows : List FollowRow) : List FollowRow :=
  (follows.filter fun f => oldAsFollowee m follows f && !isLocal actors f.followerApId).map
    fun f => { f with followingApId := m.newActorApId }

def rewriteRemoteFollowers (d : Db) : Db :=
  insertFollows (remoteFollowers m d.actors d.follows) d

/-- `instr(id, refollowPrefix) = 1`; the `instr` of `NULL` is `NULL`. -/
def refollowId (f : FollowRow) : Option Text :=
  if f.followingApId = m.newActorApId then f.activityApId.filter m.refollowPrefix.isPrefixOf
  else none

def refollowActivity (actorApId apId : Text) : ActivityRow where
  apId := apId
  type := "Follow".toList
  actorApId := actorApId
  objectApId := some m.newActorApId
  objectJson := none
  targetApId := none
  rawJson :=
    [("@context".toList,"https://www.w3.org/ns/activitystreams".toList),("id".toList,apId),
      ("type".toList,"Follow".toList),("actor".toList,actorApId),
      ("object".toList,m.newActorApId)]
  direction := some "outbound".toList
  processed := 0
  createdAt := e.now

def localRefollows (follows : List FollowRow) : List ActivityRow :=
  follows.filterMap fun f => (refollowId m f).map (refollowActivity m e f.followerApId)

def recordLocalRefollows (d : Db) : Db :=
  { d with
    activities := Table.insertAllIgnore sameApId (localRefollows m e d.follows) d.activities }

def deleteOldAsFollower (d : Db) : Db :=
  deleteFollows (fun f => f.followerApId = m.oldActorApId) d

def deleteOldAsFollowee (d : Db) : Db :=
  deleteFollows (fun f => f.followingApId = m.oldActorApId) d

def rewriteMovedFollowGraph (d : Db) : Db :=
  [decrementLocalFollowers m,decrementDroppedLocalFollowees m,rewriteOldAsFollower m,
    rewriteLocalFollowers m e,rewriteRemoteFollowers m,recordLocalRefollows m e,
    deleteOldAsFollower m,deleteOldAsFollowee m].foldl (fun d statement => statement d) d

end statements

section enqueue

def moveRefollowPageSize : Nat := 100

def refollowIds (m : Move) (activities : List ActivityRow) : List Text :=
  (activities.filter fun a => a.type = "Follow".toList && a.objectApId = some m.newActorApId &&
    a.direction = some "outbound".toList && m.refollowPrefix.isPrefixOf a.apId).map
      ActivityRow.apId

/-- The loop, from a cursor on; an empty cursor is falsy. `none` if it has not ended in `fuel`
pages. -/
def enqueueFrom {σ ε : Type} (m : Move)
    (enqueueDeliveriesToActor : σ → List Text → Text → Except ε σ) (activities : List ActivityRow) :
    Nat → Option Text → Nat → σ → Option (Except ε (σ × Nat))
  | 0,_,_,_ => none
  | fuel + 1,cursor,found,s =>
    let page := Keyset.page moveRefollowPageSize (cursor.filter (· ≠ [])) (refollowIds m activities)
    if page.length = 0 then some (.ok (s,found))
    else
      match enqueueDeliveriesToActor s page m.newActorApId with
      | .error thrown => some (.error thrown)
      | .ok s =>
        if page.length < moveRefollowPageSize then some (.ok (s,found + page.length))
        else
          enqueueFrom m enqueueDeliveriesToActor activities fuel page.getLast?
            (found + page.length) s

def enqueuePersistedMoveRefollows {σ ε : Type} (m : Move)
    (enqueueDeliveriesToActor : σ → List Text → Text → Except ε σ) (activities : List ActivityRow)
    (fuel : Nat) (s : σ) : Option (Except ε (σ × Nat)) :=
  enqueueFrom m enqueueDeliveriesToActor activities fuel none 0 s

end enqueue

section purpose

def Fresh (m : Move) (e : Engine) (d : Db) : Prop :=
  ∀ f ∈ d.follows,
    (∀ g ∈ d.follows, e.random g.followerApId = e.random f.followerApId →
      g.followerApId = f.followerApId) ∧
    (∀ g ∈ d.follows, g.activityApId ≠ some (m.refollowPrefix ++ e.random f.followerApId)) ∧
    ∀ a ∈ d.activities, a.apId ≠ m.refollowPrefix ++ e.random f.followerApId

/-- Primary keys, and the counts of the local actors. -/
structure Consistent (d : Db) : Prop where
  edges : (d.follows.map FollowRow.edge).Nodup
  activityIds : (d.activities.map ActivityRow.apId).Nodup
  counts : ∀ column, (counter column).Exact d.actors d.follows

/-- What a move from `oldActorApId` to `newActorApId` means for the follow graph: an edge of the
old id is an edge of the new one, unless the new one had it, and nothing else changes. -/
structure Moved (m : Move) (e : Engine) (before after : Db) : Prop where
  consistent : Consistent after
  sameActors : after.actors.map ActorRow.apId = before.actors.map ActorRow.apId
  forgotten : ∀ f ∈ after.follows,
    f.followerApId ≠ m.oldActorApId ∧ f.followingApId ≠ m.oldActorApId
  others : ∀ f ∈ before.follows, f.followerApId ≠ m.oldActorApId →
    f.followingApId ≠ m.oldActorApId → f ∈ after.follows
  asFollower : ∀ f ∈ before.follows, f.followerApId = m.oldActorApId →
    f.followingApId ≠ m.oldActorApId → f.followingApId ≠ m.newActorApId →
    if hasEdge m.newActorApId f.followingApId before.follows then
      ∃ g ∈ before.follows, g.edge = (m.newActorApId,f.followingApId) ∧ g ∈ after.follows
    else { f with followerApId := m.newActorApId } ∈ after.follows
  asFollowee : ∀ f ∈ before.follows, f.followingApId = m.oldActorApId →
    f.followerApId ≠ m.oldActorApId → f.followerApId ≠ m.newActorApId →
    if hasEdge f.followerApId m.newActorApId before.follows then
      ∃ g ∈ before.follows, g.edge = (f.followerApId,m.newActorApId) ∧ g ∈ after.follows
    else if isLocal before.actors f.followerApId then
      refollow m e f ∈ after.follows ∧
        (Fresh m e before → refollowActivity m e f.followerApId
            (m.refollowPrefix ++ e.random f.followerApId) ∈ after.activities ∧
          m.refollowPrefix ++ e.random f.followerApId ∈ refollowIds m after.activities)
    else { f with followingApId := m.newActorApId } ∈ after.follows
  nothingElse : ∀ g ∈ after.follows, g ∉ before.follows → g.edge ≠ (m.newActorApId,m.newActorApId) ∧
    ∃ f ∈ before.follows,
      (f.followerApId = m.oldActorApId ∧ g = { f with followerApId := m.newActorApId }) ∨
      (f.followingApId = m.oldActorApId ∧ if isLocal before.actors f.followerApId then
        g = refollow m e f else g = { f with followingApId := m.newActorApId })
  earlier : before.activities <+: after.activities
  recorded : ∀ a ∈ after.activities, a ∉ before.activities →
    m.refollowPrefix <+: a.apId ∧ ∃ actorApId, a = refollowActivity m e actorApId a.apId

end purpose

end Yurucommu.MoveGraph
