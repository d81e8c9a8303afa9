import Yurucommu.Counter
import Yurucommu.Interactions

/-!
The members of the communities: joins, leaves, removals, role changes and the succession of a
deleted account, one read or one batch at a time. Reservations and the finalization of account
deletions are steps of somebody else. Gates that read other tables are answers from outside.
-/

set_option autoImplicit false

namespace Yurucommu.Memberships

open Whatwg (Text)

inductive Role where
  | owner | moderator | member
deriving DecidableEq, Repr

structure Community where
  apId : Text
  memberCount : Nat
  deletedAt : Option Nat
deriving DecidableEq, Repr

structure Member where
  communityApId : Text
  actorApId : Text
  role : Role
  joinedAt : Nat
deriving DecidableEq, Repr

structure Target where
  actorApId : Text
  operationId : Text
  cascadeComplete : Bool
deriving DecidableEq, Repr

/-- `issued` holds every operation id that was generated. -/
structure Db where
  communities : List Community
  members : List Member
  targets : List Target
  issued : List Text
deriving DecidableEq, Repr

def Community.live (c : Community) : Bool := c.deletedAt.isNone

section reads

variable (community actor : Text) (d : Db)

def memberWhere (m : Member) : Bool := m.communityApId = community && m.actorApId = actor

def findMember : Option Member := d.members.find? (memberWhere community actor)

/-- `fetchCommunityId` and `fetchCommunityDetails`. -/
def fetchCommunity : Bool := d.communities.any fun c => c.apId = community && c.live

def memberExists : Bool := d.members.any (memberWhere community actor)

def isOwner : Bool := d.members.any fun m => memberWhere community actor m && m.role = .owner

def anotherOwnerExists : Bool :=
  d.members.any fun m => m.communityApId = community && m.role = .owner && m.actorApId ≠ actor

def deleting : Bool := d.targets.any fun t => t.actorApId = actor

def targeted (operation : Text) : Bool :=
  d.targets.any fun t => t.actorApId = actor && t.operationId = operation

/-- The triggers abort a write to a row of this actor, under the marker of an operation or none. -/
def reserved (marker : Option Text) : Bool :=
  d.targets.any fun t => t.actorApId = actor && some t.operationId ≠ marker

def remains (m : Member) : Bool :=
  m.communityApId = community && m.actorApId ≠ actor && !deleting m.actorApId d

def otherOwner : Bool := d.members.any fun m => remains community actor d m && m.role = .owner

def oldest : List Member → Option Member
  | [] => none
  | m :: ms =>
    match oldest ms with
    | none => some m
    | some n => if n.joinedAt < m.joinedAt then some n else some m

def heir : Option Member := oldest (d.members.filter (remains community actor d))

end reads

def counter : Counter Community Text Member where
  id c := c.apId
  count c := c.memberCount
  set n c := { c with memberCount := n }
  key m := m.communityApId
  counted _ := true
  count_set _ _ := rfl
  id_set _ _ := rfl

section statements

variable (community actor : Text) (guard : Bool) (d : Db)

def bump : Db :=
  { d with
    communities := counter.adjust (fun c => c.apId = community && guard)
      (fun c => c.memberCount + 1) d.communities }

def drop : Db :=
  { d with
    communities := counter.adjust (fun c => c.apId = community && decide (0 < c.memberCount) && guard)
      (fun c => c.memberCount - 1) d.communities }

def insertMember (m : Member) : Db := { d with members := d.members ++ [m] }

def deleteMember : Db :=
  { d with members := Table.delete (fun m => memberWhere community actor m && guard) d.members }

def updateRole (role : Role) : Db :=
  { d with
    members := Table.update (fun m => memberWhere community actor m && guard)
      (fun m => { m with role := role }) d.members }

end statements

inductive Batch where
  | insert (community actor : Text) (joinedAt : Nat)
  | addMember (community actor : Text) (joinedAt : Nat)
  | removeMember (community actor : Text)
  | removeOwnerIfAnotherExists (community actor : Text)
  | setRole (community actor : Text) (role : Role)
  | demoteOwnerIfAnotherExists (community actor : Text) (role : Role)
  | retire (community actor : Text) (now : Nat)
  | complete (actor operation : Text)
deriving DecidableEq, Repr

/-- The member whose row a batch writes, if it matches one. -/
def Batch.writes (d : Db) : Batch → Option Text
  | .insert _ actor _ | .addMember _ actor _ => some actor
  | .removeMember community actor | .setRole community actor _ =>
    if memberExists community actor d then some actor else none
  | .removeOwnerIfAnotherExists community actor | .demoteOwnerIfAnotherExists community actor _ =>
    if memberExists community actor d && anotherOwnerExists community actor d then some actor
    else none
  | .retire _ _ _ | .complete _ _ => none

/-- What a batch that commits does. A bare insert of a member that exists throws. -/
def Batch.payload (d : Db) : Batch → Option Db
  | .insert community actor joinedAt =>
    if memberExists community actor d then none
    else some (bump community true (insertMember d ⟨community,actor,.member,joinedAt⟩))
  | .addMember community actor joinedAt =>
    if memberExists community actor d then some d
    else some (insertMember (bump community true d) ⟨community,actor,.member,joinedAt⟩)
  | .removeMember community actor =>
    some (deleteMember community actor true (drop community (memberExists community actor d) d))
  | .removeOwnerIfAnotherExists community actor =>
    let another := anotherOwnerExists community actor d
    some (deleteMember community actor another
      (drop community (memberExists community actor d && another) d))
  | .setRole community actor role => some (updateRole community actor true d role)
  | .demoteOwnerIfAnotherExists community actor role =>
    some (updateRole community actor (anotherOwnerExists community actor d) d role)
  | .retire community actor now =>
    let guard := !d.members.any (remains community actor d) && isOwner community actor d
    some { d with
      communities := Table.update (fun c => c.apId = community && c.live && guard)
        (fun c => { c with deletedAt := some now }) d.communities }
  | .complete actor operation =>
    some { d with
      targets := Table.update (fun t => t.actorApId = actor && t.operationId = operation)
        (fun t => { t with cascadeComplete := true }) d.targets }

/-- `none` is an abort: of a trigger, or of a statement. -/
def Batch.run (marker : Option Text) (d : Db) (b : Batch) : Option Db :=
  match b.writes d with
  | some actor => if reserved actor d marker then none else b.payload d
  | none => b.payload d

structure Membership where
  communityApId : Text
  role : Role
deriving DecidableEq, Repr

inductive Request where
  | join (community : Text)
  | accept (community requester : Text)
  | leave (community : Text)
  | remove (community target : Text)
  | removeBatch (community : Text) (targets : List Text)
  | changeRole (community target : Text) (role : Role)
  | changeRoles (community : Text) (targets : List Text) (role : Role)
  | teardown (operation : Text)
deriving DecidableEq, Repr

inductive Stage where
  | start
  | existing
  | admission
  | membership
  | manager
  | pending
  | target (manager : Role)
  | preload (manager : Role) (left : List Text) (known : List (Text × Role))
  | remove (manager : Role) (targets : List Text) (known : List (Text × Role))
  | change (targets : List Text)
  | write (batch : Batch) (next : Stage)
  | memberships
  | handOff (memberships left : List Membership) (retirements : List Text)
  | heir (community : Text) (memberships left : List Membership) (retirements : List Text)
  | promote (community heir : Text) (memberships left : List Membership) (retirements : List Text)
  | retire (memberships : List Membership) (retirements : List Text)
  | depart (memberships : List Membership)
  | complete
  | done
deriving DecidableEq, Repr

/-- One request of `actor`, or one attempt of the deletion of `actor`, and where it is. -/
structure Call where
  actor : Text
  request : Request
  stage : Stage
deriving DecidableEq, Repr

/-- The clock, whether the gates let the request through, and whether the step throws. -/
structure Answer where
  now : Nat := 0
  admitted : Bool := true
  fails : Bool := false
deriving DecidableEq, Repr

def d1InChunk : Nat := 90

def Request.community : Request → Text
  | .join community | .accept community _ | .leave community | .remove community _
  | .removeBatch community _ | .changeRole community _ _ | .changeRoles community _ _ => community
  | .teardown _ => []

def Request.operation : Request → Option Text
  | .teardown operation => some operation
  | _ => none

def removal (manager : Role) (community target : Text) (role : Role) : Option Batch :=
  if manager ≠ .owner && role ≠ .member then none
  else if role = .owner then some (.removeOwnerIfAnotherExists community target)
  else some (.removeMember community target)

def roleChange (community target : Text) (role new : Role) : Batch :=
  if role = .owner && new ≠ .owner then .demoteOwnerIfAnotherExists community target new
  else .setRole community target new

section requests

def readManager (actor : Text) (m : Member) : Request → Stage
  | .accept _ _ => if m.role = .member then .done else .pending
  | .remove _ target => if m.role = .member || target = actor then .done else .target m.role
  | .removeBatch _ targets => if m.role = .member then .done else .preload m.role targets []
  | .changeRole _ target _ => if m.role = .owner then .change [target] else .done
  | .changeRoles _ targets _ => if m.role = .owner then .change targets else .done
  | _ => .done

def readTarget (manager : Role) (d : Db) : Request → Stage
  | .remove community target =>
    match findMember community target d with
    | none => .done
    | some m =>
      match removal manager community target m.role with
      | none => .done
      | some batch => .write batch .done
  | _ => .done

def preload (community : Text) (chunk : List Text) (known : List (Text × Role)) (d : Db) :
    List (Text × Role) :=
  ((d.members.filter fun m => m.communityApId = community && m.actorApId ∈ chunk).map
    fun m => (m.actorApId,m.role)) ++ known

def removeNext (actor community : Text) (manager : Role) (target : Text) (rest : List Text)
    (known : List (Text × Role)) : Stage :=
  let next := Stage.remove manager rest known
  if target = actor then next
  else
    match known.find? fun k => k.1 = target with
    | none => next
    | some k =>
      match removal manager community target k.2 with
      | none => next
      | some batch => .write batch next

def changeNext (target : Text) (rest : List Text) (d : Db) : Request → Stage
  | .changeRole community _ role | .changeRoles community _ role =>
    match findMember community target d with
    | none => .change rest
    | some m => .write (roleChange community target m.role role) (.change rest)
  | _ => .done

def advance (i : Answer) (c : Call) (d : Db) : Stage :=
  let community := c.request.community
  match c.stage with
  | .start =>
    match c.request with
    | .teardown operation => if targeted c.actor d operation then .memberships else .done
    | .join _ => if fetchCommunity community d then .existing else .done
    | .leave _ => if fetchCommunity community d then .membership else .done
    | _ => if fetchCommunity community d then .manager else .done
  | .existing => if (findMember community c.actor d).isSome then .done else .admission
  | .admission => if i.admitted then .write (.insert community c.actor i.now) .done else .done
  | .membership =>
    match findMember community c.actor d with
    | none => .done
    | some m =>
      if m.role = .owner then .write (.removeOwnerIfAnotherExists community c.actor) .done
      else .write (.removeMember community c.actor) .done
  | .manager =>
    match findMember community c.actor d with
    | none => .done
    | some m => readManager c.actor m c.request
  | .pending =>
    match c.request with
    | .accept _ requester =>
      if i.admitted then .write (.addMember community requester i.now) .done else .done
    | _ => .done
  | .target manager => readTarget manager d c.request
  | .preload manager [] known =>
    match c.request with
    | .removeBatch _ targets => .remove manager targets known
    | _ => .done
  | .preload manager (target :: left) known =>
    .preload manager ((target :: left).drop d1InChunk)
      (preload community ((target :: left).take d1InChunk) known d)
  | .remove _ [] _ => .done
  | .remove manager (target :: rest) known =>
    removeNext c.actor community manager target rest known
  | .change [] => .done
  | .change (target :: rest) => changeNext target rest d c.request
  | .memberships =>
    let memberships := (d.members.filter fun m => m.actorApId = c.actor).map
      fun m => ⟨m.communityApId,m.role⟩
    .handOff memberships memberships []
  | .handOff memberships [] retirements => .retire memberships retirements
  | .handOff memberships (m :: left) retirements =>
    if m.role ≠ .owner then .handOff memberships left retirements
    else if otherOwner m.communityApId c.actor d then .handOff memberships left retirements
    else .heir m.communityApId memberships left retirements
  | .heir community memberships left retirements =>
    match heir community c.actor d with
    | none => .handOff memberships left (retirements ++ [community])
    | some m => .promote community m.actorApId memberships left retirements
  | .retire memberships [] => .depart memberships
  | .depart [] => .complete
  | stage => stage

def batch (i : Answer) (c : Call) : Option (Batch × Stage) :=
  match c.stage with
  | .write batch next => some (batch,next)
  | .promote community heir memberships left retirements =>
    some (.setRole community heir .owner,.handOff memberships left retirements)
  | .retire memberships (community :: retirements) =>
    some (.retire community c.actor i.now,.retire memberships retirements)
  | .depart (m :: memberships) => some (.removeMember m.communityApId c.actor,.depart memberships)
  | .complete => c.request.operation.map fun operation => (.complete c.actor operation,.done)
  | _ => none

def admits (c : Call) (d : Db) : Bool :=
  match c.request with
  | .teardown operation => targeted c.actor d operation
  | _ => !deleting c.actor d

def Stage.thrown : Stage → Stage
  | .write _ next => next
  | .change (_ :: rest) => .change rest
  | _ => .done

def commit (c : Call) (d : Db) (b : Batch) : Option Db :=
  if admits c d then b.run c.request.operation d else none

def work (i : Answer) (_ : Nat) (d : Db) (c : Call) : Db × Call :=
  if i.fails then (d,{ c with stage := c.stage.thrown })
  else
    match batch i c with
    | none => (d,{ c with stage := advance i c d })
    | some b =>
      match commit c d b.1 with
      | none => (d,{ c with stage := c.stage.thrown })
      | some e => (e,{ c with stage := b.2 })

def allowed (_ : Answer) (_ : Db) (c : Call) : Bool := c.stage ≠ .done

inductive Event where
  | reserve (operation : Text) (actors : List Text)
  | finalize (operation : Text)
deriving DecidableEq, Repr

/-- A reservation whose insert meets a target throws, and ids do not repeat. -/
def possible : Event → Db → Bool
  | .reserve operation actors,d =>
    !d.issued.contains operation && actors.all fun actor => !deleting actor d
  | .finalize operation,d =>
    d.targets.all fun t => t.operationId ≠ operation || t.cascadeComplete

def happen : Event → Db → Db
  | .reserve operation actors,d =>
    { d with
      targets := d.targets ++ actors.map fun actor => ⟨actor,operation,false⟩
      issued := operation :: d.issued }
  | .finalize operation,d =>
    { d with targets := Table.delete (fun t => t.operationId = operation) d.targets }

def threads : Threads Db Call Answer Event := .guarded allowed work possible happen

abbrev Pool := Threads.Pool Db Call

abbrev Label := Threads.Label Answer Event

abbrev machine : Machine Pool Label := threads.machine

end requests

def keys (rows : List Member) : List (Text × Text) :=
  rows.map fun m => (m.communityApId,m.actorApId)

/-- Every community counts its rows. -/
def Exact (d : Db) : Prop := counter.Exact d.communities d.members

def Live (d : Db) (community : Text) : Prop :=
  ∃ c ∈ d.communities, c.apId = community ∧ c.live = true

/-- Every live community has an owner. -/
def Owned (d : Db) : Prop :=
  ∀ community, Live d community → ∃ actor, isOwner community actor d = true

/-- An owner who is not being deleted, in every live community that still has a member who is not. -/
def Tended (d : Db) : Prop :=
  ∀ community, Live d community →
    (∃ actor, memberExists community actor d = true ∧ deleting actor d = false) →
    ∃ actor, isOwner community actor d = true ∧ deleting actor d = false

/-- An owner's row that may go or be demoted. -/
def Spared (community actor : Text) (d : Db) : Prop :=
  Live d community → isOwner community actor d = true → anotherOwnerExists community actor d = true

/-- A write that the role in an earlier read has chosen does not meet the only owner of a live
community. -/
def Spares (s : Pool) (l : Label) : Prop :=
  ∀ p i, l = .act p i → i.fails = false →
    match (s.thread p).stage with
    | .write (.removeMember community actor) _ => Spared community actor s.store
    | .write (.setRole community actor role) _ => role = .owner ∨ Spared community actor s.store
    | .depart (m :: _) => m.role = .owner → Spared m.communityApId (s.thread p).actor s.store
    | _ => True

/-- Requests begin in a database whose keys are unique, whose counts are exact and whose live
communities have owners. -/
structure Start (s : Pool) : Prop where
  keys : (keys s.store.members).Nodup
  exact : Exact s.store
  owned : Owned s.store
  issued : ∀ t ∈ s.store.targets, t.operationId ∈ s.store.issued
  start : ∀ p, (s.thread p).stage = .start

end Yurucommu.Memberships
