import Yurucommu.ActorIdentity
import Yurucommu.Machine
import Yurucommu.Table

/-!
Logins with `singleOwner`: password and OAuth logins and new sub-accounts up to the actor they
answer with, one statement or one batch at a time, among account deletions and their reaper.
-/

set_option autoImplicit false

namespace Yurucommu.Logins

open Whatwg (Text)
open ActorIdentity (trim)

inductive Role where
  | owner | member
deriving DecidableEq, Repr

inductive Key where
  | before (n : Nat)
  | generated (call : Nat)
deriving DecidableEq, Repr

structure Actor where
  apId : Text
  preferredUsername : Text
  name : Option Text
  iconUrl : Option Text
  publicKeyPem : Key
  takosUserId : Option Text
  role : Role
  ownerActorApId : Option Text
  deleted : Bool
deriving DecidableEq, Repr

structure Session where
  memberId : Text
deriving DecidableEq, Repr

structure Activity where
  apId : Text
  actorApId : Text
  type : Text
deriving DecidableEq, Repr

structure Db where
  actors : List Actor
  sessions : List Session
  activities : List Activity
  deletionTargets : List Text
deriving DecidableEq, Repr

structure Env where
  /-- `actorApId` at `APP_URL`. -/
  actorApId : Text → Text
  /-- `String.prototype.toLowerCase`. -/
  toLowerCase : Text → Text
  oidcOwnerSub : Option Text
  takosumiAccountsOwnerSub : Option Text
  oidcAllowedSubs : Option Text
  allowUnpinnedOwnerClaim : Option Text

structure Grant where
  appRole : Option Text
  workspaceRole : Option Text
deriving DecidableEq, Repr

def takosumiGrantIsAppOwner (grant : Option Grant) : Bool :=
  match grant with
  | none => false
  | some g =>
    match g.appRole with
    | some role => role = "owner".toList
    | none => g.workspaceRole = some "owner".toList

/-- What a provider says of a subject; `profileName` and `profileIcon` are what
`sanitizeOAuthProfile` leaves of the profile. -/
structure OAuthLogin where
  providerId : Text
  id : Text
  name : Text
  username : Option Text
  profileName : Text
  profileIcon : Option Text
  grant : Option Grant
deriving DecidableEq, Repr

inductive Request where
  | password
  | oauth (u : OAuthLogin)
  | account (username name rootOwnerApId : Text)
deriving DecidableEq, Repr

structure Opts where
  username : Text
  name : Text
  iconUrl : Option Text
  takosUserId : Text
  role : Role
  ownerActorApId : Option Text
deriving DecidableEq, Repr

/-- What `createActor` has seen of a tombstone. -/
structure Tombstone where
  publicKeyPem : Key
  takosUserId : Option Text
deriving DecidableEq, Repr

inductive Stage where
  | start
  | probe (base : Text) (counter : Nat)
  | count (username : Text)
  | create (opts : Opts)
  | reserve (opts : Opts) (tombstone : Option Tombstone)
  | reserveOwner (opts : Opts) (tombstone : Option Tombstone)
  | write (opts : Opts) (tombstone : Option Tombstone)
  | revived (opts : Opts)
  | lost
  | check (existing : Actor)
  | rename (existing : Actor)
  | done (answer : Option Actor)
  | failed
deriving DecidableEq, Repr

structure Call where
  request : Request
  stage : Stage
deriving DecidableEq, Repr

section env

variable (env : Env)

def parseNonEmptyString (value : Option Text) : Option Text :=
  value.bind fun v => if 0 < (trim v).length then some (trim v) else none

def configuredSubjectMatches (configuredSubject providerUserId : Text) : Bool :=
  configuredSubject = providerUserId ||
    (providerUserId.any (· = ':') &&
      configuredSubject = (providerUserId.dropWhile (· ≠ ':')).drop 1)

def isExplicitlyEnabled (value : Option Text) : Bool :=
  ["1","true","yes","on"].any fun word => env.toLowerCase (trim (value.getD [])) = word.toList

def OAuthLogin.providerUserId (u : OAuthLogin) : Text := u.providerId ++ ':' :: u.id

def ownerSub : Option Text :=
  parseNonEmptyString env.oidcOwnerSub <|> parseNonEmptyString env.takosumiAccountsOwnerSub

def verifiedTakosumiOwner (u : OAuthLogin) : Bool :=
  "takos:".toList.isPrefixOf u.providerUserId && takosumiGrantIsAppOwner u.grant

def mayOwn (u : OAuthLogin) : Bool :=
  match ownerSub env with
  | some pin => configuredSubjectMatches pin u.providerUserId
  | none => verifiedTakosumiOwner u || isExplicitlyEnabled env env.allowUnpinnedOwnerClaim

def allowedSubs : List Text :=
  ((((parseNonEmptyString env.oidcAllowedSubs).getD []).splitOn ',').map trim).filter (· ≠ [])

def mayJoin (u : OAuthLogin) : Bool :=
  (ownerSub env).any (configuredSubjectMatches · u.providerUserId) ||
    (allowedSubs env).any (· = u.providerUserId)

def baseUsername (u : OAuthLogin) : Text :=
  let username := u.username.getD []
  let slug := (env.toLowerCase u.name).filter fun c =>
    ('a' ≤ c && c ≤ 'z') || ('0' ≤ c && c ≤ '9')
  if username ≠ [] then username else if slug ≠ [] then slug else "user".toList

def candidate (base : Text) (counter : Nat) : Text :=
  if counter = 0 then base else base ++ (toString counter).toList

def passwordOpts (username : Text) : Opts where
  username := username
  name := "tako".toList
  iconUrl := none
  takosUserId := "password:owner".toList
  role := .owner
  ownerActorApId := none

def oauthOpts (u : OAuthLogin) (username : Text) (role : Role) : Opts where
  username := username
  name := u.profileName
  iconUrl := u.profileIcon
  takosUserId := u.providerUserId
  role := role
  ownerActorApId := none

def accountOpts (username name rootOwnerApId : Text) : Opts where
  username := username
  name := name
  iconUrl := none
  takosUserId := "local:".toList ++ username
  role := .member
  ownerActorApId := some rootOwnerApId

end env

section statements

variable (env : Env)

def liveOwner (r : Actor) : Bool := r.role = .owner && !r.deleted

def noLiveOwner (d : Db) : Bool := !d.actors.any liveOwner

def findActor (apId : Text) (d : Db) : Option Actor := d.actors.find? fun r => r.apId = apId

def liveAt (apId : Text) (d : Db) : Bool := d.actors.any fun r => r.apId = apId && !r.deleted

def actorNotReserved (apId : Text) (d : Db) : Bool :=
  !d.deletionTargets.any fun target =>
    target = apId || (findActor apId d).any fun r => r.ownerActorApId = some target

def assertActorNotReserved (apId : Text) (d : Db) : Bool :=
  (findActor apId d).isNone || actorNotReserved apId d

/-- The primary key and the unique columns. -/
def clashes (new r : Actor) : Bool :=
  r.apId = new.apId || r.preferredUsername = new.preferredUsername ||
    (r.takosUserId.isSome && r.takosUserId = new.takosUserId)

def newActor (opts : Opts) (key : Key) : Actor where
  apId := env.actorApId opts.username
  preferredUsername := opts.username
  name := some opts.name
  iconUrl := opts.iconUrl
  publicKeyPem := key
  takosUserId := some opts.takosUserId
  role := opts.role
  ownerActorApId := opts.ownerActorApId
  deleted := false

def isTombstone (apId : Text) (t : Tombstone) (r : Actor) : Bool :=
  r.apId = apId && r.publicKeyPem = t.publicKeyPem && r.takosUserId = t.takosUserId && r.deleted

def revivable (opts : Opts) (t : Tombstone) (d : Db) : Bool :=
  (opts.role ≠ .owner || noLiveOwner d) && actorNotReserved (env.actorApId opts.username) d &&
    d.actors.any (isTombstone (env.actorApId opts.username) t)

/-- The batch of a revival. -/
def revive (new : Actor) (d : Db) : Db :=
  { d with
    actors := Table.update (fun r => r.apId = new.apId) (fun _ => new) d.actors
    sessions := Table.delete (fun x => x.memberId = new.apId) d.sessions
    activities := Table.delete (fun a => a.actorApId = new.apId && a.type = "Delete".toList)
      d.activities }

def insertActor (new : Actor) (d : Db) : Db := { d with actors := d.actors ++ [new] }

def writeActor (opts : Opts) (tombstone : Option Tombstone) (key : Key) (d : Db) :
    Option (Db × Stage) :=
  let new := newActor env opts key
  match tombstone with
  | some t =>
    if revivable env opts t d &&
        !d.actors.any (fun r => r.apId ≠ new.apId && clashes new r) then
      some (revive new d,.revived opts)
    else none
  | none =>
    if (opts.role ≠ .owner || noLiveOwner d) && !d.actors.any (clashes new) then
      some (insertActor new d,.done (some new))
    else none

def actorIdentityMatches (expected : Actor) (d : Db) (r : Actor) : Bool :=
  r.apId = expected.apId && r.publicKeyPem = expected.publicKeyPem &&
    r.takosUserId = expected.takosUserId && !r.deleted && actorNotReserved expected.apId d

def setProfile (u : OAuthLogin) (r : Actor) : Actor :=
  { r with name := some u.profileName, iconUrl := u.profileIcon.or r.iconUrl }

def tombstoneOf (username : Text) (r : Actor) : Actor :=
  { r with
    preferredUsername := username, name := none, iconUrl := none, takosUserId := none
    ownerActorApId := none, role := .member, deleted := true }

end statements

section requests

variable (env : Env)

/-- The owners that `readOwner` finds, at most two of them. -/
def readOwner (d : Db) (empty : Stage) (one : Actor → Stage) : Stage :=
  match d.actors.filter liveOwner with
  | [] => empty
  | [r] => one r
  | _ => .failed

def start (d : Db) : Request → Stage
  | .password => readOwner d (.probe "tako".toList 0) .check
  | .oauth u =>
    match d.actors.find? fun r => r.takosUserId = some u.providerUserId with
    | none => .probe (baseUsername env u) 0
    | some r => .check r
  | .account username name rootOwnerApId =>
    if liveAt (env.actorApId username) d then .done none
    else .create (accountOpts username name rootOwnerApId)

def probe (base : Text) (counter : Nat) (d : Db) (request : Request) : Stage :=
  let username := candidate base counter
  if liveAt (env.actorApId username) d then .probe base (counter + 1)
  else
    match request with
    | .oauth _ => .count username
    | _ => .create (passwordOpts username)

def countOwners (u : OAuthLogin) (username : Text) (d : Db) : Stage :=
  if noLiveOwner d then
    if mayOwn env u then .create (oauthOpts u username .owner) else .done none
  else if mayJoin env u then .create (oauthOpts u username .member) else .done none

def findTombstone (apId : Text) (d : Db) : Option Tombstone :=
  (d.actors.find? fun r => r.apId = apId && r.deleted).map fun r => ⟨r.publicKeyPem,r.takosUserId⟩

def readRevived (opts : Opts) (key : Key) (d : Db) : Stage :=
  match d.actors.find? fun r => r.apId = env.actorApId opts.username && r.publicKeyPem = key &&
      r.takosUserId = some opts.takosUserId && !r.deleted with
  | some r => .done (some r)
  | none => .lost

/-- What the catch of a login makes of a lost claim. -/
def resolveWinner (d : Db) : Request → Stage
  | .password => readOwner d .failed fun r => .done (some r)
  | .oauth u => .done (d.actors.find? fun r => r.takosUserId = some u.providerUserId && !r.deleted)
  | .account _ _ _ => .failed

def rename (existing : Actor) (u : OAuthLogin) (d : Db) : Db × Stage :=
  ({ d with actors := Table.update (actorIdentityMatches existing d) (setProfile u) d.actors },
    .done ((d.actors.find? (actorIdentityMatches existing d)).map (setProfile u)))

def advance (p : Nat) (c : Call) (d : Db) : Db × Stage :=
  match c.stage with
  | .start => (d,start env d c.request)
  | .probe base counter => (d,probe env base counter d c.request)
  | .count username =>
    match c.request with
    | .oauth u => (d,countOwners env u username d)
    | _ => (d,.failed)
  | .create opts => (d,.reserve opts (findTombstone (env.actorApId opts.username) d))
  | .reserve opts tombstone =>
    if assertActorNotReserved (env.actorApId opts.username) d then
      (d,if opts.ownerActorApId.isSome then .reserveOwner opts tombstone else .write opts tombstone)
    else (d,.failed)
  | .reserveOwner opts tombstone =>
    if opts.ownerActorApId.all (assertActorNotReserved · d) then (d,.write opts tombstone)
    else (d,.failed)
  | .write opts tombstone => (writeActor env opts tombstone (.generated p) d).getD (d,.lost)
  | .revived opts => (d,readRevived env opts (.generated p) d)
  | .lost => (d,resolveWinner d c.request)
  | .check existing =>
    if assertActorNotReserved existing.apId d then
      match c.request with
      | .oauth _ => (d,.rename existing)
      | _ => (d,.done (some existing))
    else (d,.failed)
  | .rename existing =>
    match c.request with
    | .oauth u => rename existing u d
    | _ => (d,.failed)
  | .done answer => (d,.done answer)
  | .failed => (d,.failed)

def work (fails : Bool) (p : Nat) (d : Db) (c : Call) : Db × Call :=
  if fails then (d,{ c with stage := .failed })
  else ((advance env p c d).1,{ c with stage := (advance env p c d).2 })

def running (c : Call) : Bool :=
  match c.stage with
  | .done _ | .failed => false
  | _ => true

/-- The deletion of an account and of what it leaves behind, and what else the tables take. -/
inductive Event where
  | reserve (apId : Text)
  | release (apId : Text)
  | delete (apId username : Text) (sessionActorIds : List Text)
  | reap (apId : Text)
  | session (memberId : Text)
  | activity (a : Activity)
deriving DecidableEq, Repr

def possible : Event → Db → Bool
  | .session memberId,d => liveAt memberId d
  | .reap apId,d => !liveAt apId d
  | _,_ => true

def happen : Event → Db → Db
  | .reserve apId,d => { d with deletionTargets := d.deletionTargets ++ [apId] }
  | .release apId,d => { d with deletionTargets := Table.delete (· = apId) d.deletionTargets }
  | .delete apId username sessionActorIds,d =>
    { d with
      actors := Table.update (fun r => r.apId = apId) (tombstoneOf username) d.actors
      sessions := Table.delete (fun x => sessionActorIds.any (· = x.memberId)) d.sessions }
  | .reap apId,d => { d with actors := Table.delete (fun r => r.apId = apId) d.actors }
  | .session memberId,d => { d with sessions := d.sessions ++ [⟨memberId⟩] }
  | .activity a,d => { d with activities := d.activities ++ [a] }

def logins : Threads Db Call Bool Event :=
  Threads.guarded (fun _ _ c => running c) (work env) possible happen

def machine : Machine (Threads.Pool Db Call) (Threads.Label Bool Event) := (logins env).machine

end requests

end Yurucommu.Logins
