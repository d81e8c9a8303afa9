import Yurucommu.ActorIdentity
import Yurucommu.Machine
import Yurucommu.Table

/-!
Joins by invite: the reads, the claim of the invite, the batch that creates the member, and the lift
of the ban, each a commit of its own; invites that are made and dropped, and every other write to
the communities, beside them.
-/

set_option autoImplicit false

namespace Yurucommu.Invites

open Whatwg (Text)

inductive JoinPolicy where
  | anyone | approval | invite
deriving DecidableEq, Repr

structure Community where
  apId : Text
  preferredUsername : Text
  isPrivate : Bool
  joinPolicy : JoinPolicy
  memberCount : Nat
  deletedAt : Option Nat
deriving DecidableEq, Repr

structure Member where
  communityApId : Text
  actorApId : Text
  role : String
  joinedAt : Nat
deriving DecidableEq, Repr

structure Ban where
  communityApId : Text
  bannedApId : Text
deriving DecidableEq, Repr

structure Invite where
  id : Text
  communityApId : Text
  invitedApId : Option Text
  expiresAt : Option Nat
  usedAt : Option Nat := none
  usedByApId : Option Text := none
deriving DecidableEq, Repr

/-- `issued` holds every invite as it was made. -/
structure Db where
  now : Nat
  communities : List Community
  members : List Member
  bans : List Ban
  invites : List Invite
  issued : List Invite
deriving DecidableEq, Repr

/-- `apId` is what `resolveCommunityApId` makes of the identifier. -/
structure Request where
  actor : Text
  identifier : Text
  apId : Text
  inviteId : Option Text
deriving DecidableEq, Repr

section statements

variable (apId id actor : Text) (now : Nat) (d : Db)

def communityWhere (identifier : Text) (c : Community) : Bool :=
  (c.apId = apId || c.preferredUsername = identifier) && c.deletedAt.isNone

def effectiveJoinPolicy (c : Community) : JoinPolicy :=
  if c.isPrivate && c.joinPolicy = .anyone then .approval else c.joinPolicy

def memberExists : Bool := d.members.any fun m => m.communityApId = apId && m.actorApId = actor

def Invite.claimable (v : Invite) : Bool :=
  v.id = id && v.communityApId = apId && v.usedAt.isNone &&
    v.expiresAt.all fun expiresAt => now < expiresAt

def findInvite : Option Invite := d.invites.find? fun v => v.claimable apId id now

def Invite.notFor (v : Invite) : Bool := v.invitedApId.any fun a => a ≠ [] && a ≠ actor

def claimWhere (v : Invite) : Bool :=
  v.claimable apId id now && v.invitedApId.all fun a => a = actor

def claim : Db :=
  let invites := Table.update (claimWhere apId id actor now)
    (fun v => { v with usedByApId := some actor, usedAt := some now }) d.invites
  { d with invites }

/-- `affectedRowCount` of the claim. -/
def claimed : Nat := d.invites.countP (claimWhere apId id actor now)

def admitMember : Db :=
  let communities := Table.update (fun c => c.apId = apId)
    (fun c => { c with memberCount := c.memberCount + 1 }) d.communities
  { d with members := d.members ++ [⟨apId,actor,"member",now⟩], communities }

def unbanMember : Db :=
  let retained := ActorIdentity.activityPubActorIdentityMatchesSql
    ((d.bans.filter fun b => b.communityApId = apId).map (·.bannedApId)) actor
  { d with
    bans := d.bans.filter fun b => !(b.communityApId = apId && retained.contains b.bannedApId) }

end statements

inductive Outcome where
  | untouched
  | claimed (apId id : Text)
  | joined (apId id : Text)
  | readmitted (apId id : Text)
deriving DecidableEq, Repr

/-- `elsewhere` are the branches of the other policies. -/
inductive Stage where
  | fetch
  | existing (community : Community)
  | elsewhere
  | invite (apId id : Text) (now : Nat)
  | claim (apId id : Text) (now : Nat)
  | insert (apId id : Text) (now : Nat)
  | unban (apId id : Text)
  | ended (outcome : Outcome) (status : Nat)
deriving DecidableEq, Repr

structure Call where
  request : Request
  stage : Stage
deriving DecidableEq, Repr

/-- A statement commits, is refused, or commits and is lost on the way back. -/
inductive Answer where
  | ok | refused | lost
deriving DecidableEq, Repr

section steps

variable (i : Answer) (r : Request) (d : Db)

def readCommunity : Stage :=
  match d.communities.find? (communityWhere r.apId r.identifier) with
  | none => .ended .untouched 404
  | some c => .existing c

def readMember (c : Community) : Stage :=
  if memberExists c.apId r.actor d then .ended .untouched 409
  else if effectiveJoinPolicy c ≠ .invite then .elsewhere
  else
    match r.inviteId with
    | none => .ended .untouched 403
    | some id => .invite c.apId id d.now

def readInvite (apId id : Text) (now : Nat) : Stage :=
  match findInvite apId id now d with
  | none => .ended .untouched 403
  | some v => if v.notFor r.actor then .ended .untouched 403 else .claim apId id now

def tryClaim (apId id : Text) (now : Nat) : Db × Stage :=
  let rows := claimed apId id r.actor now d
  match i with
  | .refused => (d,.ended .untouched 500)
  | .lost =>
    (claim apId id r.actor now d,.ended (if rows = 0 then .untouched else .claimed apId id) 500)
  | .ok =>
    (claim apId id r.actor now d,if rows = 1 then .insert apId id now else .ended .untouched 403)

/-- A second row of a member violates the primary key. -/
def tryInsert (apId id : Text) (now : Nat) : Db × Stage :=
  match i with
  | .refused => (d,.ended (.claimed apId id) 500)
  | .lost | .ok =>
    if memberExists apId r.actor d then (d,.ended (.claimed apId id) 409)
    else (admitMember apId r.actor now d,
      if i = .ok then .unban apId id else .ended (.joined apId id) 500)

def tryUnban (apId id : Text) : Db × Stage :=
  match i with
  | .refused => (d,.ended (.joined apId id) 500)
  | .lost => (unbanMember apId r.actor d,.ended (.readmitted apId id) 500)
  | .ok => (unbanMember apId r.actor d,.ended (.readmitted apId id) 200)

def reading (stage : Stage) : Db × Stage := (d,if i = .ok then stage else .ended .untouched 500)

def work (stage : Stage) : Db × Stage :=
  match stage with
  | .fetch => reading i d (readCommunity r d)
  | .existing c => reading i d (readMember r d c)
  | .invite apId id now => reading i d (readInvite r d apId id now)
  | .claim apId id now => tryClaim i r d apId id now
  | .insert apId id now => tryInsert i r d apId id now
  | .unban apId id => tryUnban i r d apId id
  | .elsewhere | .ended _ _ => (d,stage)

def Stage.runs : Stage → Bool
  | .elsewhere | .ended _ _ => false
  | _ => true

inductive Event where
  | tick (ms : Nat)
  | createInvite (id communityApId : Text) (invitedApId : Option Text) (expiresAt : Option Nat)
  | deleteInvites (ids : List Text)
  | others (communities : List Community) (members : List Member) (bans : List Ban)
deriving DecidableEq, Repr

def possible (e : Event) (d : Db) : Bool :=
  match e with
  | .createInvite id _ _ _ => !d.issued.any fun v => v.id = id
  | _ => true

def happen (e : Event) (d : Db) : Db :=
  match e with
  | .tick ms => { d with now := d.now + ms }
  | .createInvite id communityApId invitedApId expiresAt =>
    let invite : Invite := { id, communityApId, invitedApId, expiresAt }
    { d with invites := d.invites ++ [invite], issued := d.issued ++ [invite] }
  | .deleteInvites ids => { d with invites := d.invites.filter fun v => !ids.contains v.id }
  | .others communities members bans => { d with communities, members, bans }

def joins : Threads Db Call Answer Event :=
  Threads.guarded (fun _ _ c => c.stage.runs)
    (fun i _ d c => ((work i c.request d c.stage).1,⟨c.request,(work i c.request d c.stage).2⟩))
    possible happen

def machine : Machine (Threads.Pool Db Call) (Threads.Label Answer Event) := joins.machine

def start (now : Nat) (requests : Nat → Request) : Threads.Pool Db Call where
  store := ⟨now,[],[],[],[],[]⟩
  thread p := ⟨requests p,.fetch⟩

end steps

end Yurucommu.Invites
