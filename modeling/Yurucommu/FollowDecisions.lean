import Yurucommu.Interactions

/-!
The decisions on pending follows and join requests: accept, batch accept and reject by the followed
actor, accept and reject by the managers of a community, and withdrawals, one read or one batch at a
time. Counters and inbox rows are left out, and the gates before a read are answers from outside.
-/

set_option autoImplicit false

namespace Yurucommu.FollowDecisions

open Whatwg (Text)
open ActorIdentity (activityPubActorIdentityMatchesSql)
open Interactions (FollowStatus FollowRow sameFollow)

inductive RequestStatus where
  | pending | accepted | rejected
deriving DecidableEq, Repr

structure JoinRequest where
  communityApId : Text
  actorApId : Text
  status : RequestStatus
deriving DecidableEq, Repr

structure MemberRow where
  communityApId : Text
  actorApId : Text
deriving DecidableEq, Repr

structure BanRow where
  communityApId : Text
  bannedApId : Text
deriving DecidableEq, Repr

inductive ResponseType where
  | accept | reject
deriving DecidableEq, Repr

/-- An outbound Accept or Reject; its object is what the requester calls the Follow whose stored
id is `follow`. -/
structure Response where
  type : ResponseType
  actorApId : Text
  requesterApId : Text
  follow : Option Text
deriving DecidableEq, Repr

structure Db where
  follows : List FollowRow
  joinRequests : List JoinRequest
  members : List MemberRow
  bans : List BanRow
  responses : List Response
deriving DecidableEq, Repr

structure Site where
  isLocal : Text → Bool
  isSafeRemoteUrl : Text → Bool
  isCommunity : Text → Bool

section statements

variable (w : Site)

def pendingFollow (requester target : Text) (f : FollowRow) : Bool :=
  sameFollow requester target f && f.status = .pending

def findPendingFollow (requester target : Text) (d : Db) : Option FollowRow :=
  d.follows.find? (pendingFollow requester target)

def pendingJoin (community actor : Text) (j : JoinRequest) : Bool :=
  j.communityApId = community && j.actorApId = actor && j.status = .pending

def hasPendingJoin (community actor : Text) (d : Db) : Bool :=
  d.joinRequests.any (pendingJoin community actor)

def deleteFollows (cond : FollowRow → Bool) (d : Db) : Db :=
  { d with follows := Table.delete cond d.follows }

/-- `SET status = 'accepted'` on the pending row of a key. -/
def flip (requester target : Text) (now : Nat) (d : Db) : Db :=
  { d with
    follows := Table.update (pendingFollow requester target)
      (fun f => { f with status := .accepted, acceptedAt := some now }) d.follows }

def respond (type : ResponseType) (actor requester : Text) (follow : Option Text)
    (prepared : Bool) (d : Db) : Db :=
  if prepared then { d with responses := d.responses ++ [⟨type,actor,requester,follow⟩] } else d

def process (community actor : Text) (status : RequestStatus) (localRequest : Bool) (d : Db) : Db :=
  if localRequest then
    { d with
      joinRequests := Table.update (pendingJoin community actor)
        (fun j => { j with status := status }) d.joinRequests }
  else d

def addMember (community actor : Text) (d : Db) : Db :=
  { d with
    members := Table.insertIgnore
      (fun m => m.communityApId = community && m.actorApId = actor) ⟨community,actor⟩ d.members }

def lifts (community actor : Text) (d : Db) (b : BanRow) : Bool :=
  b.communityApId = community &&
    b.bannedApId ∈ activityPubActorIdentityMatchesSql
      ((d.bans.filter fun b => b.communityApId = community).map (·.bannedApId)) actor

def unban (community actor : Text) (d : Db) : Db :=
  { d with bans := Table.delete (lifts community actor d) d.bans }

def accept (actor requester : Text) (follow : Option Text) (prepared : Bool) (now : Nat) (d : Db) :
    Db :=
  respond .accept actor requester follow prepared (flip requester actor now d)

def reject (actor requester : Text) (follow : Option Text) (d : Db) : Db :=
  respond .reject actor requester follow (!w.isLocal requester)
    (deleteFollows (sameFollow requester actor) d)

def acceptRequest (community requester : Text) (localRequest : Bool)
    (pendingEdge : Option (Option Text)) (now : Nat) (d : Db) : Db :=
  if w.isLocal requester then
    process community requester .accepted localRequest
      (unban community requester (addMember community requester d))
  else
    process community requester .accepted localRequest
      (unban community requester
        (respond .accept community requester pendingEdge.join pendingEdge.join.isSome
          (flip requester community now d)))

def rejectRequest (community requester : Text) (localRequest : Bool)
    (pendingEdge : Option (Option Text)) (d : Db) : Db :=
  process community requester .rejected localRequest
    (match pendingEdge with
    | none => d
    | some follow =>
      respond .reject community requester follow (!w.isLocal requester)
        (deleteFollows (pendingFollow requester community) d))

end statements

inductive Request where
  | accept (requester : Text)
  | acceptBatch (requesters : List Text)
  | reject (requester : Text)
  | acceptRequest (requester : Text)
  | rejectRequest (requester : Text)
  | unfollow (target : Text)
deriving DecidableEq, Repr

inductive Stage where
  | start
  | edge (requester : Text) (localRequest : Bool)
  | accept (requester : Text) (follow : Option Text)
  | batch (rest : List (Text × Option (Option Text))) (results : List (Text × Bool))
  | reject (requester : Text) (follow : Option Text)
  | acceptRequest (requester : Text) (localRequest : Bool) (pendingEdge : Option (Option Text))
  | rejectRequest (requester : Text) (localRequest : Bool) (pendingEdge : Option (Option Text))
  | unfollow (target : Text)
  | done (results : List (Text × Bool))
deriving DecidableEq, Repr

/-- One request of a followed actor, or of a manager of the community `actor`, and where it is. -/
structure Call where
  actor : Text
  request : Request
  stage : Stage
deriving DecidableEq, Repr

/-- The clock, whether the gates let the request through, the requesters that the operator blocks,
and whether the step throws. -/
structure Answer where
  now : Nat := 0
  admitted : Bool := true
  blocked : List Text := []
  fails : Bool := false
deriving DecidableEq, Repr

section requests

variable (w : Site)

def read (i : Answer) (actor : Text) (d : Db) : Request → Stage
  | .accept requester =>
    match findPendingFollow requester actor d with
    | none => .done [(requester,false)]
    | some f => if i.admitted then .accept requester f.activityApId else .done [(requester,false)]
  | .acceptBatch requesters =>
    .batch (requesters.map fun requester =>
      (requester,if requester ∈ i.blocked then none
        else (findPendingFollow requester actor d).map (·.activityApId))) []
  | .reject requester =>
    match findPendingFollow requester actor d with
    | none => .done [(requester,false)]
    | some f => .reject requester f.activityApId
  | .acceptRequest requester | .rejectRequest requester =>
    if i.admitted then .edge requester (hasPendingJoin actor requester d)
    else .done [(requester,false)]
  | .unfollow target =>
    if d.follows.any (sameFollow actor target) then .unfollow target else .done [(target,false)]

def readEdge (actor requester : Text) (localRequest : Bool) (request : Request) (d : Db) : Stage :=
  let pendingEdge := (findPendingFollow requester actor d).map (·.activityApId)
  if !localRequest && pendingEdge.isNone then .done [(requester,false)]
  else
    match request with
    | .acceptRequest _ => .acceptRequest requester localRequest pendingEdge
    | _ => .rejectRequest requester localRequest pendingEdge

def advance (i : Answer) (c : Call) (d : Db) : Db × Stage :=
  match c.stage with
  | .start => (d,read i c.actor d c.request)
  | .edge requester localRequest => (d,readEdge c.actor requester localRequest c.request d)
  | .accept requester follow =>
    (accept c.actor requester follow (!w.isLocal requester) i.now d,.done [(requester,true)])
  | .batch [] results => (d,.done results)
  | .batch ((requester,none) :: rest) results => (d,.batch rest (results ++ [(requester,false)]))
  | .batch ((requester,some follow) :: rest) results =>
    (accept c.actor requester follow (!w.isLocal requester && w.isSafeRemoteUrl requester) i.now d,
      .batch rest (results ++ [(requester,true)]))
  | .reject requester follow => (reject w c.actor requester follow d,.done [(requester,true)])
  | .acceptRequest requester localRequest pendingEdge =>
    (acceptRequest w c.actor requester localRequest pendingEdge i.now d,.done [(requester,true)])
  | .rejectRequest requester localRequest pendingEdge =>
    (rejectRequest w c.actor requester localRequest pendingEdge d,.done [(requester,true)])
  | .unfollow target => (deleteFollows (sameFollow c.actor target) d,.done [(target,true)])
  | .done results => (d,.done results)

/-- Only the batch of a bulk accept catches what it throws. -/
def thrown : Stage → Stage
  | .batch ((requester,some _) :: rest) results => .batch rest (results ++ [(requester,false)])
  | .batch _ results => .done results
  | _ => .done []

def work (i : Answer) (d : Db) (c : Call) : Db × Call :=
  if i.fails then (d,{ c with stage := thrown c.stage })
  else ((advance w i c d).1,{ c with stage := (advance w i c d).2 })

def running (c : Call) : Bool :=
  match c.stage with
  | .done _ => false
  | _ => true

/-- A new request, an Undo that takes rows of a follow away, and what else the tables take. -/
inductive Event where
  | follow (f : FollowRow)
  | join (community actor : Text)
  | undo (follower following : Text)
  | ban (community actor : Text)
deriving DecidableEq, Repr

/-- A Follow has an id of its own, its row a key of its own, and nobody here follows a community. -/
def possible : Event → Db → Bool
  | .follow f,d =>
    f.status = .pending && !d.follows.any (sameFollow f.followerApId f.followingApId) &&
      (f.activityApId.all fun id => !d.follows.any (fun g => g.activityApId = some id) &&
        !d.responses.any fun r => r.follow = some id) &&
      !(w.isLocal f.followerApId && w.isCommunity f.followingApId)
  | .join _ actor,_ => w.isLocal actor
  | _,_ => true

def happen : Event → Db → Db
  | .follow f,d => { d with follows := d.follows ++ [f] }
  | .join community actor,d =>
    if d.joinRequests.any fun j => j.communityApId = community && j.actorApId = actor then
      { d with
        joinRequests := Table.update
          (fun j => j.communityApId = community && j.actorApId = actor)
          (fun j => { j with status := .pending }) d.joinRequests }
    else { d with joinRequests := d.joinRequests ++ [⟨community,actor,.pending⟩] }
  | .undo follower following,d => deleteFollows (sameFollow follower following) d
  | .ban community actor,d => { d with bans := d.bans ++ [⟨community,actor⟩] }

def decisions : Threads Db Call Answer Event :=
  Threads.guarded (fun _ _ c => running c) (fun i _ d c => work w i d c) (possible w) happen

def machine : Machine (Threads.Pool Db Call) (Threads.Label Answer Event) := (decisions w).machine

end requests

end Yurucommu.FollowDecisions
