import Mathlib
import Yurucommu.ActorIdentity
import Yurucommu.Machine

/-!
The ledger of failed fetches of one remote actor: the calls that claim a fetch, record its failure,
cache the actor, clear the row and reap it, one statement at a time, and the Deletes of actors.
-/

set_option autoImplicit false

namespace Yurucommu.FetchLedger

inductive RemoteActorFetchFailureKind where
  | gone | unavailable | invalid
deriving DecidableEq, Repr

/-- Why a fetch gave no cached row. -/
inductive ActorCacheFailure where
  | fetchFailed
  | fetchNotOk (status : Nat) (retryAfterSeconds : Option Nat)
  | invalidDocument | idMismatch | missingInbox | missingPublicKey | actorTombstoned
deriving DecidableEq, Repr

open ActorIdentity (Platform normalizeActivityPubActorId activityPubActorIdentityMatchesSql)
open RemoteActorFetchFailureKind ActorCacheFailure
open Whatwg (Text)

section backoff

def transientBackoffBaseSeconds : Nat := 30
def invalidBackoffBaseSeconds : Nat := 5 * 60
def maxFetchBackoffSeconds : Nat := 60 * 60
def maxRemoteRetryAfterSeconds : Nat := 24 * 60 * 60
def fetchFailureRetentionMs : Nat := 30 * 24 * 60 * 60 * 1000
def remoteActorFetchLeaseMs : Nat := 30 * 1000
def maxFailureCount : Nat := 1000000

def classifyFetchFailure : ActorCacheFailure → RemoteActorFetchFailureKind
  | fetchNotOk status _ => if status = 410 then gone else unavailable
  | actorTombstoned => gone
  | invalidDocument | idMismatch | missingInbox | missingPublicKey => invalid
  | fetchFailed => unavailable

def ActorCacheFailure.remoteRetryAfterSeconds : ActorCacheFailure → Option Nat
  | fetchNotOk _ retryAfterSeconds => retryAfterSeconds
  | _ => none

def ActorCacheFailure.httpStatus : ActorCacheFailure → Option Nat
  | fetchNotOk status _ => some status
  | _ => none

def exponentialSeconds (kind : RemoteActorFetchFailureKind) (failureCount : Nat) : Nat :=
  let base := if kind = invalid then invalidBackoffBaseSeconds else transientBackoffBaseSeconds
  min maxFetchBackoffSeconds (base * 2 ^ min (failureCount - 1) 8)

def failureBackoffSeconds (kind : RemoteActorFetchFailureKind) (failureCount : Nat)
    (remoteRetryAfterSeconds : Option Nat) : Option Nat :=
  if kind = gone then none
  else some (max (exponentialSeconds kind failureCount) (remoteRetryAfterSeconds.getD 0))

end backoff

/-- A row of `remote_actor_fetch_failures`, its times in milliseconds. The last field is history:
the claims whose failures it counts. -/
structure Row where
  kind : RemoteActorFetchFailureKind
  reason : ActorCacheFailure
  failureCount : Nat
  retryAt : Option Nat
  processingToken : Option Nat
  leaseExpiresAt : Option Nat
  updatedAt : Nat
  writers : List Nat
deriving DecidableEq, Repr

/-- A claim that was given: its token is the number of its call. `cacheWrites` is how often the
actor had been cached by then. -/
structure Grant where
  token : Nat
  time : Nat
  cacheWrites : Nat
deriving DecidableEq, Repr

def Grant.leaseExpiresAt (g : Grant) : Nat := g.time + remoteActorFetchLeaseMs

/-- What is stored of the actor, and the clock; `tombstoned` is whether its canonical id has a
tombstone. The last four fields are history: the claims given, the tokens that the row has lost
other than to a claim, how often the actor was cached, and the ids of the Deletes handled. -/
structure Db where
  row : Option Row
  cached : Bool
  tombstoned : Bool
  now : Nat
  granted : List Grant
  released : List Nat
  cacheWrites : Nat
  deletes : List Text
deriving DecidableEq, Repr

/-- What a caller is told. -/
structure FailureState where
  kind : RemoteActorFetchFailureKind
  reason : ActorCacheFailure
  failureCount : Nat
  retryAt : Option Nat
  retryAfterSeconds : Option Nat
deriving DecidableEq, Repr

section answers

def clampSeconds (ms max : Nat) : Nat := Max.max 1 (min max ((ms + 999) / 1000))

def stateFromRow (r : Row) (time : Nat) : FailureState :=
  { kind := r.kind
    reason := r.reason
    failureCount := r.failureCount
    retryAt := r.retryAt
    retryAfterSeconds :=
      if r.kind = gone then none
      else r.retryAt.map fun retryAt => clampSeconds (retryAt - time) maxRemoteRetryAfterSeconds }

def activeLeaseFailure (r : Row) (time : Nat) : FailureState :=
  { kind := unavailable
    reason := fetchFailed
    failureCount := r.failureCount
    retryAt := r.leaseExpiresAt
    retryAfterSeconds := some <|
      match r.leaseExpiresAt with
      | some leaseExpiresAt => clampSeconds (leaseExpiresAt - time) maxRemoteRetryAfterSeconds
      | none => transientBackoffBaseSeconds }

def currentFailureOrLease (r : Row) (time : Nat) : FailureState :=
  if r.kind = gone then stateFromRow r time
  else if r.retryAt.any (time < ·) then stateFromRow r time
  else activeLeaseFailure r time

def noFailure : FailureState :=
  ⟨unavailable,fetchFailed,0,none,some transientBackoffBaseSeconds⟩

def currentOr (row : Option Row) (time : Nat) : FailureState :=
  match row with
  | none => noFailure
  | some r => currentFailureOrLease r time

end answers

/-- `valid` is whether the document passes the checks that come before the write. A failure is
recorded, and a row cleared, with a token that a claim has returned. -/
inductive Request where
  | claimRemoteActorFetch
  | recordRemoteActorFetchFailure (failure : ActorCacheFailure) (claimToken : Nat)
  | cacheRemoteActorDocument (invalid : Option ActorCacheFailure)
  | clearRemoteActorFetchFailure (claimToken : Option Nat)
  | reapRemoteActorFetchFailures
deriving DecidableEq, Repr

inductive Answer where
  | owned (token : Nat)
  | failure (state : FailureState)
  | cached (failed : Option ActorCacheFailure)
  | void
deriving DecidableEq, Repr

/-- The statement that comes next; `time` is the clock at the start of the call. -/
inductive Stage where
  | start (request : Request)
  | claimInsert (time : Nat)
  | claimUpdate (time : Nat)
  | claimCurrent (time : Nat)
  | recordPrior (time : Nat) (failure : ActorCacheFailure) (token : Nat)
  | recordUpdate (time : Nat) (failure : ActorCacheFailure) (token failureCount : Nat)
  | recordCached (time token : Nat)
  | recordRemove (time token : Nat)
  | recordCurrent (time : Nat)
  | cacheWrite
  | cacheTombstone
  | cacheRow
  | cacheRecheck
  | clear (token : Option Nat)
  | reapCandidates (time : Nat)
  | reap (time : Nat)
  | done (answer : Answer)
deriving DecidableEq, Repr

section statements

variable (d : Db)

def token (row : Option Row) : Option Nat := row.bind (·.processingToken)

/-- A statement that writes the row; a token that it leaves without a successor is released. -/
def Db.write (row : Option Row) : Db :=
  { d with
    row := row
    released := if token row = none then (token d.row).toList ++ d.released else d.released }

def Db.grant (row : Row) (p time : Nat) : Db :=
  { d.write (some row) with granted := ⟨p,time,d.cacheWrites⟩ :: d.granted }

def claimable (time : Nat) (r : Row) : Bool :=
  r.kind ≠ gone && r.retryAt.all (· ≤ time) &&
    (r.processingToken.isNone || r.leaseExpiresAt.all (· ≤ time))

def claimed (p time : Nat) (r : Row) : Row :=
  { r with
    processingToken := some p
    leaseExpiresAt := some (time + remoteActorFetchLeaseMs)
    updatedAt := time }

def claimRow (p time : Nat) : Row :=
  ⟨unavailable,fetchFailed,0,none,some p,some (time + remoteActorFetchLeaseMs),time,[]⟩

def nextFailureCount (row : Option Row) : Nat :=
  min ((row.map (·.failureCount)).getD 0 + 1) maxFailureCount

def failed (time : Nat) (failure : ActorCacheFailure) (claimToken failureCount : Nat) (r : Row) :
    Row :=
  let kind := classifyFetchFailure failure
  { kind := kind
    reason := failure
    failureCount := failureCount
    retryAt := (failureBackoffSeconds kind failureCount failure.remoteRetryAfterSeconds).map
      fun seconds => time + seconds * 1000
    processingToken := none
    leaseExpiresAt := none
    updatedAt := time
    writers := claimToken :: r.writers }

def reapable (time : Nat) (r : Row) : Bool :=
  r.updatedAt + fetchFailureRetentionMs < time && r.leaseExpiresAt.all (· ≤ time)

def cacheActor : Db :=
  if d.tombstoned then d
  else { d.write none with cached := true, cacheWrites := d.cacheWrites + 1 }

end statements

section calls

def begin (now : Nat) : Request → Stage
  | .claimRemoteActorFetch => .claimInsert now
  | .recordRemoteActorFetchFailure failure token => .recordPrior now failure token
  | .cacheRemoteActorDocument none => .cacheWrite
  | .cacheRemoteActorDocument (some failure) => .done (.cached (some failure))
  | .clearRemoteActorFetchFailure token => .clear token
  | .reapRemoteActorFetchFailures => .reapCandidates now

/-- The statement of call `p`; `candidate` is whether the row is one of the oldest that a reap
selects. -/
def work (candidate : Bool) (p : Nat) (d : Db) : Stage → Db × Stage
  | .start request => (d,begin d.now request)
  | .claimInsert time =>
    match d.row with
    | none => (d.grant (claimRow p time) p time,.done (.owned p))
    | some _ => (d,.claimUpdate time)
  | .claimUpdate time =>
    match d.row with
    | none => (d,.claimCurrent time)
    | some r =>
      if claimable time r then (d.grant (claimed p time r) p time,.done (.owned p))
      else (d,.claimCurrent time)
  | .claimCurrent time => (d,.done (.failure (currentOr d.row time)))
  | .recordPrior time failure claimToken =>
    (d,.recordUpdate time failure claimToken (nextFailureCount d.row))
  | .recordUpdate time failure claimToken failureCount =>
    match d.row with
    | none => (d,.recordCached time claimToken)
    | some r =>
      if r.processingToken = some claimToken ∧ d.cached = false then
        let r := failed time failure claimToken failureCount r
        (d.write (some r),.done (.failure ⟨r.kind,r.reason,r.failureCount,r.retryAt,
          failureBackoffSeconds r.kind failureCount failure.remoteRetryAfterSeconds⟩))
      else (d,.recordCached time claimToken)
  | .recordCached time claimToken =>
    (d,if d.cached then .recordRemove time claimToken else .recordCurrent time)
  | .recordRemove time claimToken =>
    (if token d.row = some claimToken then d.write none else d,.recordCurrent time)
  | .recordCurrent time => (d,.done (.failure (currentOr d.row time)))
  | .cacheWrite => (cacheActor d,.cacheTombstone)
  | .cacheTombstone =>
    (d,if d.tombstoned then .done (.cached (some actorTombstoned)) else .cacheRow)
  | .cacheRow => (d,if d.cached then .done (.cached none) else .cacheRecheck)
  | .cacheRecheck =>
    (d,.done (.cached (some (if d.tombstoned then actorTombstoned else fetchFailed))))
  | .clear none => (d.write none,.done .void)
  | .clear (some claimToken) =>
    (if token d.row = some claimToken then d.write none else d,.done .void)
  | .reapCandidates time =>
    (d,if candidate && d.row.any (reapable time) then .reap time else .done .void)
  | .reap time => (if d.row.any (reapable time) then d.write none else d,.done .void)
  | .done answer => (d,.done answer)

def Request.admissible (d : Db) : Request → Bool
  | .recordRemoteActorFetchFailure _ claimToken =>
    d.granted.any fun g => g.token = claimToken
  | .clearRemoteActorFetchFailure (some claimToken) =>
    d.granted.any fun g => g.token = claimToken
  | _ => true

def allowed (d : Db) : Stage → Bool
  | .start request => request.admissible d
  | .done _ => false
  | _ => true

section events

variable (P : Platform) (apId : Text)

def canonicalRemoteActorTombstoneId (actorApId : Text) : Text :=
  (normalizeActivityPubActorId P actorApId).getD actorApId

/-- `retainedRemoteActorWhere` of the rows of the actor. -/
def retained (actorId : Text) : Bool := activityPubActorIdentityMatchesSql [apId] actorId ≠ []

/-- Time passes, or a verified Delete of an actor is handled. -/
inductive Event where
  | tick (ms : Nat)
  | handleRemoteActorDelete (actorId : Text)
deriving DecidableEq, Repr

/-- The tombstone is stored by the canonical id of JavaScript, and the rows are deleted by the
identity of SQL. -/
def handleRemoteActorDelete (actorId : Text) (d : Db) : Db :=
  let torn := if retained apId actorId then { d.write none with cached := false } else d
  { torn with
    tombstoned := d.tombstoned ||
      canonicalRemoteActorTombstoneId P actorId = canonicalRemoteActorTombstoneId P apId
    deletes := actorId :: d.deletes }

def happen (d : Db) : Event → Db
  | .tick ms => { d with now := d.now + ms }
  | .handleRemoteActorDelete actorId => handleRemoteActorDelete P apId actorId d

def threads : Threads Db Stage Bool Event :=
  .guarded (fun _ d x => allowed d x) (fun i p d x => work i p d x) (fun _ _ => true)
    fun e d => happen P apId d e

end events

abbrev Pool := Threads.Pool Db Stage

def fresh (now : Nat) (requests : Nat → Request) : Pool :=
  ⟨⟨none,false,false,now,[],[],0,[]⟩,fun p => .start (requests p)⟩

end calls

end Yurucommu.FetchLedger
