import Yurucommu.ActorIdentity
import Yurucommu.Counter
import Yurucommu.Machine

/-!
Likes, announces and shares, and the columns of an object that count them: the routes for posts
and stories, the tool of an agent, the inbound activities and the deletion of a remote actor, one
read or one batch at a time. A request that stops takes no further step. Gates that read other
tables are answers from outside.
-/

set_option autoImplicit false

namespace Yurucommu.Reactions

open Whatwg (Text)
open ActorIdentity (Platform isSameActivityPubActor activityPubActorIdentityMatchesSql)

inductive Kind where
  | like | announce | share
deriving DecidableEq, Repr

/-- A row of `likes`, of `announces` or of `story_shares`, the last of which have no activity. -/
structure Edge where
  actorApId : Text
  objectApId : Text
  activityApId : Option Text
deriving DecidableEq, Repr

structure ObjectRow where
  apId : Text
  type : Text
  attributedTo : Text
  deleted : Bool
  likeCount : Nat
  announceCount : Nat
  shareCount : Nat
deriving DecidableEq, Repr

structure Db where
  objects : List ObjectRow
  likes : List Edge
  announces : List Edge
  storyShares : List Edge
deriving DecidableEq, Repr

/-- The deployment. -/
structure Site where
  platform : Platform
  isLocal : Text → Bool
  objectApId : Text → Text
  resolveStoryApId : Text → Text

section columns

def edges : Kind → Db → List Edge
  | .like,d => d.likes
  | .announce,d => d.announces
  | .share,d => d.storyShares

def setEdges : Kind → List Edge → Db → Db
  | .like,rows,d => { d with likes := rows }
  | .announce,rows,d => { d with announces := rows }
  | .share,rows,d => { d with storyShares := rows }

def ObjectRow.count : Kind → ObjectRow → Nat
  | .like,o => o.likeCount
  | .announce,o => o.announceCount
  | .share,o => o.shareCount

def ObjectRow.setCount : Kind → Nat → ObjectRow → ObjectRow
  | .like,n,o => { o with likeCount := n }
  | .announce,n,o => { o with announceCount := n }
  | .share,n,o => { o with shareCount := n }

theorem count_setCount (kind : Kind) (n : Nat) (o : ObjectRow) :
    (o.setCount kind n).count kind = n := by
  cases kind <;> rfl

theorem apId_setCount (kind : Kind) (n : Nat) (o : ObjectRow) :
    (o.setCount kind n).apId = o.apId := by
  cases kind <;> rfl

def counter (kind : Kind) : Counter ObjectRow Text Edge where
  id o := o.apId
  count := ObjectRow.count kind
  set := ObjectRow.setCount kind
  key e := e.objectApId
  counted _ := true
  count_set := count_setCount kind
  id_set := apId_setCount kind

end columns

section batches

def sameEdge (actor objectId : Text) (e : Edge) : Bool :=
  e.actorApId = actor && e.objectApId = objectId

def setCounts (kind : Kind) (cond : ObjectRow → Bool) (n : ObjectRow → Nat) (d : Db) : Db :=
  { d with objects := (counter kind).adjust cond n d.objects }

def recomputeCount (kind : Kind) (objectId : Text) (d : Db) : Db :=
  setCounts kind (fun o => o.apId = objectId)
    (fun _ => (edges kind d).countP fun e => e.objectApId = objectId) d

def incrementCount (kind : Kind) (objectId : Text) (d : Db) : Db :=
  setCounts kind (fun o => o.apId = objectId) (fun o => o.count kind + 1) d

def decrementCount (kind : Kind) (objectId : Text) (d : Db) : Db :=
  setCounts kind (fun o => o.apId = objectId && decide (0 < o.count kind))
    (fun o => o.count kind - 1) d

/-- An insert that throws on its key takes the batch with it. -/
def insertEdge (kind : Kind) (e : Edge) (rest : Db → Db) (d : Db) : Db :=
  if (edges kind d).any (sameEdge e.actorApId e.objectApId) then d
  else rest (setEdges kind (edges kind d ++ [e]) d)

def insertEdgeIgnore (kind : Kind) (e : Edge) (d : Db) : Db :=
  setEdges kind (Table.insertIgnore (sameEdge e.actorApId e.objectApId) e (edges kind d)) d

def deleteEdges (kind : Kind) (cond : Edge → Bool) (d : Db) : Db :=
  setEdges kind (Table.delete cond (edges kind d)) d

def guardObjectWrites (post : ObjectRow) (batch : Db → Db) (d : Db) : Db :=
  if d.objects.any fun o => o.apId = post.apId && o.attributedTo = post.attributedTo && !o.deleted
  then batch d
  else d

def likePost (actor id : Text) (post : ObjectRow) (d : Db) : Db :=
  guardObjectWrites post
    (insertEdge .like ⟨actor,post.apId,some id⟩ (recomputeCount .like post.apId)) d

def unlikePost (actor : Text) (post : ObjectRow) (d : Db) : Db :=
  recomputeCount .like post.apId (deleteEdges .like (sameEdge actor post.apId) d)

def repost (actor id : Text) (post : ObjectRow) (d : Db) : Db :=
  guardObjectWrites post
    (insertEdge .announce ⟨actor,post.apId,some id⟩ (incrementCount .announce post.apId)) d

def unrepost (actor : Text) (post : ObjectRow) (d : Db) : Db :=
  decrementCount .announce post.apId (deleteEdges .announce (sameEdge actor post.apId) d)

def likeStory (actor id : Text) (story : ObjectRow) (d : Db) : Db :=
  insertEdge .like ⟨actor,story.apId,some id⟩ (incrementCount .like story.apId) d

def unlikeStory (actor : Text) (story : ObjectRow) (d : Db) : Db :=
  deleteEdges .like (sameEdge actor story.apId) (decrementCount .like story.apId d)

def shareStory (actor : Text) (story : ObjectRow) (d : Db) : Db :=
  insertEdge .share ⟨actor,story.apId,none⟩ (incrementCount .share story.apId) d

def interact (kind : Kind) (actor objectId id : Text) (d : Db) : Db :=
  recomputeCount kind objectId (insertEdgeIgnore kind ⟨actor,objectId,some id⟩ d)

def retained (actor : Text) (candidates : List Text) (x : Text) : Bool :=
  x ∈ activityPubActorIdentityMatchesSql candidates actor

def retainedOn (actor objectId : Text) (rows : List Edge) (e : Edge) : Bool :=
  e.objectApId = objectId &&
    retained actor ((rows.filter fun e => e.objectApId = objectId).map (·.actorApId)) e.actorApId

def undo (kind : Kind) (actor objectId : Text) (d : Db) : Db :=
  recomputeCount kind objectId
    (deleteEdges kind (retainedOn actor objectId (edges kind d)) d)

def persist (note : ObjectRow) (d : Db) : Db :=
  if d.objects.any fun o => o.apId = note.apId then d
  else
    { d with
      objects := d.objects ++ [{ note with
        type := "Note".toList
        deleted := false
        likeCount := 0
        announceCount := 0
        shareCount := 0 }] }

def retainedEdge (actor : Text) (rows : List Edge) (e : Edge) : Bool :=
  retained actor (rows.map (·.actorApId)) e.actorApId

def retainedObject (actor : Text) (objects : List ObjectRow) (o : ObjectRow) : Bool :=
  retained actor (objects.map (·.attributedTo)) o.attributedTo

/-- `MAX(0, count - (SELECT COUNT(*) …))`, where the actor has a row and the count is positive. -/
def subtractCounts (kind : Kind) (actor : Text) (d : Db) : Db :=
  let mine := retainedEdge actor (edges kind d)
  setCounts kind
    (fun o => (edges kind d).any (fun e => e.objectApId = o.apId && mine e) &&
      decide (0 < o.count kind))
    (fun o => o.count kind - (edges kind d).countP fun e => e.objectApId = o.apId && mine e) d

def deleteOwnEdges (kind : Kind) (actor : Text) (d : Db) : Db :=
  deleteEdges kind (retainedEdge actor (edges kind d)) d

def deleteObjectEdges (kind : Kind) (actor : Text) (d : Db) : Db :=
  deleteEdges kind
    (fun e => d.objects.any fun o => retainedObject actor d.objects o && o.apId = e.objectApId) d

def deleteRemoteActor (actor : Text) (d : Db) : Db :=
  let d := subtractCounts .share actor (subtractCounts .announce actor (subtractCounts .like actor d))
  let d := deleteOwnEdges .share actor (deleteOwnEdges .announce actor (deleteOwnEdges .like actor d))
  let d := deleteObjectEdges .share actor
    (deleteObjectEdges .announce actor (deleteObjectEdges .like actor d))
  { d with objects := Table.delete (retainedObject actor d.objects) d.objects }

end batches

inductive Request where
  | like (postId : Text)
  | unlike (postId : Text)
  | repost (postId : Text)
  | unrepost (postId : Text)
  | likeStory (storyId : Text)
  | unlikeStory (storyId : Text)
  | shareStory (storyId : Text)
  | handleLike (objectId : Option Text)
  | handleAnnounce (objectId : Option Text)
  | undoLike (directObjectId activityId : Option Text)
  | undoAnnounce (directObjectId activityId : Option Text)
  | deleteActor
deriving DecidableEq, Repr

inductive Stage where
  | start
  | existing (target : ObjectRow)
  | commit (target : ObjectRow)
  | fetch (objectId : Text)
  | persist (note : ObjectRow)
  | target (kind : Kind) (objectId : Text)
  | interact (kind : Kind) (objectId : Text)
  | undo (kind : Kind) (objectId : Text)
  | deleteRemoteActor
  | done
deriving DecidableEq, Repr

structure Call where
  actor : Text
  request : Request
  stage : Stage
deriving DecidableEq, Repr

/-- A fresh id, whether the gates let the request through, what a fetch ends with, and whether
the step throws. -/
structure Answer where
  id : Text := []
  admitted : Bool := true
  fetched : Option ObjectRow := none
  fails : Bool := false
deriving DecidableEq, Repr

section requests

variable (w : Site)

def findPost (postId : Text) (d : Db) : Option ObjectRow :=
  d.objects.find? fun o => o.apId = w.objectApId postId || o.apId = postId

def findStory (apId : Text) (d : Db) : Option ObjectRow :=
  d.objects.find? fun o => o.apId = apId && o.type = "Story".toList

def findEdge (kind : Kind) (activityId actor : Text) (d : Db) : Option Edge :=
  ((edges kind d).find? fun e => e.activityApId = some activityId && e.actorApId = actor) <|>
    (edges kind d).find? fun e => e.activityApId = some activityId &&
      retained actor (((edges kind d).filter fun e => e.activityApId = some activityId).map
        (·.actorApId)) e.actorApId

def found (i : Answer) : Option ObjectRow → Stage
  | some o => if i.admitted then .existing o else .done
  | none => .done

def readUndo (kind : Kind) (actor : Text) (directObjectId activityId : Option Text) (d : Db) :
    Stage :=
  match directObjectId,activityId with
  | some objectId,_ => .undo kind objectId
  | none,none => .done
  | none,some id =>
    match findEdge kind id actor d with
    | some e =>
      if isSameActivityPubActor w.platform e.actorApId actor then .undo kind e.objectApId else .done
    | none => .done

def read (i : Answer) (actor : Text) (d : Db) : Request → Stage
  | .like postId | .repost postId => found i (findPost w postId d)
  | .unlike postId | .unrepost postId => found { i with admitted := true } (findPost w postId d)
  | .likeStory storyId | .shareStory storyId => found i (findStory (w.resolveStoryApId storyId) d)
  | .unlikeStory storyId =>
    found { i with admitted := true } (findStory (w.resolveStoryApId storyId) d)
  | .handleLike objectId =>
    match objectId with
    | none => .done
    | some objectId => .target .like objectId
  | .handleAnnounce objectId =>
    match objectId with
    | none => .done
    | some objectId =>
      if !w.isLocal objectId && !(d.objects.any fun o => o.apId = objectId) && i.admitted then
        .fetch objectId
      else .target .announce objectId
  | .undoLike directObjectId activityId => readUndo w .like actor directObjectId activityId d
  | .undoAnnounce directObjectId activityId =>
    readUndo w .announce actor directObjectId activityId d
  | .deleteActor => .deleteRemoteActor

def goesOn (actor : Text) (target : ObjectRow) (d : Db) : Request → Bool
  | .like _ | .likeStory _ => !d.likes.any (sameEdge actor target.apId)
  | .unlike _ | .unlikeStory _ => d.likes.any (sameEdge actor target.apId)
  | .repost _ => !d.announces.any (sameEdge actor target.apId)
  | .unrepost _ => d.announces.any (sameEdge actor target.apId)
  | .shareStory _ => !d.storyShares.any (sameEdge actor target.apId)
  | _ => false

def commit (id actor : Text) (target : ObjectRow) (d : Db) : Request → Db
  | .like _ => likePost actor id target d
  | .unlike _ => unlikePost actor target d
  | .repost _ => repost actor id target d
  | .unrepost _ => unrepost actor target d
  | .likeStory _ => likeStory actor id target d
  | .unlikeStory _ => unlikeStory actor target d
  | .shareStory _ => shareStory actor target d
  | _ => d

def readTarget (i : Answer) (kind : Kind) (objectId : Text) (d : Db) : Stage :=
  if (d.objects.any fun o => o.apId = objectId && !o.deleted) && i.admitted then
    .interact kind objectId
  else .done

def advance (i : Answer) (c : Call) (d : Db) : Db × Stage :=
  match c.stage with
  | .start => (d,read w i c.actor d c.request)
  | .existing target => (d,if goesOn c.actor target d c.request then .commit target else .done)
  | .commit target => (commit i.id c.actor target d c.request,.done)
  | .fetch objectId =>
    (d,match i.fetched with
      | some note => .persist { note with apId := objectId }
      | none => .target .announce objectId)
  | .persist note =>
    (persist note d,
      if d.objects.any fun o => o.apId = note.apId then .done else .target .announce note.apId)
  | .target kind objectId => (d,readTarget i kind objectId d)
  | .interact kind objectId => (interact kind c.actor objectId i.id d,.done)
  | .undo kind objectId => (undo kind c.actor objectId d,.done)
  | .deleteRemoteActor => (deleteRemoteActor c.actor d,.done)
  | .done => (d,.done)

def work (i : Answer) (_ : Nat) (d : Db) (c : Call) : Db × Call :=
  if i.fails then (d,{ c with stage := .done })
  else ((advance w i c d).1,{ c with stage := (advance w i c d).2 })

def allowed (_ : Answer) (_ : Db) (c : Call) : Bool := c.stage ≠ .done

def threads : Threads Db Call Answer Empty :=
  .guarded allowed (work w) (fun e => nomatch e) (fun e => nomatch e)

abbrev Pool := Threads.Pool Db Call

abbrev Label := Threads.Label Answer Empty

abbrev machine : Machine Pool Label := (threads w).machine

end requests

def Exact (d : Db) : Prop := ∀ kind, (counter kind).Exact d.objects (edges kind d)

/-- Requests begin in a database whose keys are unique and whose counts are exact. -/
structure Start (s : Pool) : Prop where
  keys : ∀ kind, ((edges kind s.store).map fun e => (e.actorApId,e.objectApId)).Nodup
  ids : (s.store.objects.map (·.apId)).Nodup
  exact : Exact s.store
  start : ∀ p, (s.thread p).stage = .start

/-- The edge that a decrement is for is there, where there is a count to decrement; and no fetched
note has the id of an edge that was left behind. -/
def Matched (s : Pool) (l : Label) : Prop :=
  ∀ p i, l = .act p i → i.fails = false →
    match (s.thread p).stage with
    | .commit target =>
      (∀ postId, (s.thread p).request = .unrepost postId →
        ∀ o ∈ s.store.objects, o.apId = target.apId → 0 < o.announceCount →
          s.store.announces.any (sameEdge (s.thread p).actor target.apId) = true) ∧
      (∀ storyId, (s.thread p).request = .unlikeStory storyId →
        ∀ o ∈ s.store.objects, o.apId = target.apId → 0 < o.likeCount →
          s.store.likes.any (sameEdge (s.thread p).actor target.apId) = true)
    | .persist note =>
      (s.store.objects.any fun o => o.apId = note.apId) = false →
        ∀ kind, ∀ e ∈ edges kind s.store, e.objectApId ≠ note.apId
    | _ => True

end Yurucommu.Reactions
