import Mathlib
import Yurucommu.Batch
import Yurucommu.Machine
import Yurucommu.Table

/-!
The reaper of tombstones: its candidates, the guard that every statement of a batch repeats, the
batches, and the work of deliveries that goes on beside it.
-/

set_option autoImplicit false

namespace Yurucommu.TombstoneReaper

structure Actor where
  apId : String
  publicKeyPem : String
  deletedAt : Option Nat
deriving DecidableEq, Repr

structure Community where
  apId : String
  deletedAt : Option Nat
  privateKeyPem : String
deriving DecidableEq, Repr

inductive ActivityType where
  | delete | other
deriving DecidableEq, Repr

structure Activity where
  apId : String
  type : ActivityType
  actorApId : String
deriving DecidableEq, Repr

inductive DeliveryStatus where
  | pending | processing | retryWait | delivered | failed | deadLetter
deriving DecidableEq, Repr

structure Delivery where
  id : String
  activityApId : String
  status : DeliveryStatus := .pending
  reconcileAttempt : Nat := 0
  dlqPending : Bool := false
  nextAttemptAt : Nat
deriving DecidableEq, Repr

inductive ResolutionStatus where
  | pending | queued | processing | retryWait | resolved | failed | discarded
deriving DecidableEq, Repr

structure Resolution where
  id : String
  activityApId : String
  status : ResolutionStatus := .pending
deriving DecidableEq, Repr

inductive FanoutStatus where
  | pending | published | completed | failed | discarded
deriving DecidableEq, Repr

structure Fanout where
  id : String
  activityApId : String
  announceActivityApId : Option String := none
  status : FanoutStatus := .pending
deriving DecidableEq, Repr

/-- The last four tables by the activities that their rows name. -/
structure Db where
  now : Nat
  actors : List Actor
  communities : List Community
  accountDeletionTargets : List String
  activities : List Activity
  deliveryQueue : List Delivery
  deliveryResolutions : List Resolution
  deliveryFanouts : List Fanout
  notificationPushJobs : List String
  notificationArchived : List String
  inboundActivityClaims : List String
  inbox : List String
deriving DecidableEq, Repr

def tombstoneReapAfterMs : Nat := 24 * 60 * 60 * 1000

section guard

variable (activityWhere : Activity → Bool)

def targetActivityIds (d : Db) : List String := (d.activities.filter activityWhere).map (·.apId)

def Delivery.active (r : Delivery) : Bool :=
  r.status = .pending || r.status = .processing || r.status = .retryWait

def Resolution.active (r : Resolution) : Bool :=
  r.status = .pending || r.status = .queued || r.status = .processing || r.status = .retryWait

def Fanout.active (r : Fanout) : Bool := r.status = .pending || r.status = .published

def Fanout.ofActivities (r : Fanout) (ids : List String) : Bool :=
  ids.contains r.activityApId || r.announceActivityApId.any ids.contains

def activityDeliveryDrainedGuard (d : Db) : Bool :=
  let ids := targetActivityIds activityWhere d
  !(d.deliveryQueue.any fun r => ids.contains r.activityApId && r.active) &&
    !(d.deliveryResolutions.any fun r => ids.contains r.activityApId && r.active) &&
      !(d.deliveryFanouts.any fun r => r.ofActivities ids && r.active)

end guard

section statements

variable (activityWhere : Activity → Bool)

def projectionDeletes : List (Db → Db) :=
  let drop (ids rows : List String) := rows.filter fun id => !ids.contains id
  let ids := targetActivityIds activityWhere
  [fun d => { d with notificationPushJobs := drop (ids d) d.notificationPushJobs },
    fun d => { d with notificationArchived := drop (ids d) d.notificationArchived },
    fun d => { d with inboundActivityClaims := drop (ids d) d.inboundActivityClaims },
    fun d => { d with deliveryQueue :=
      d.deliveryQueue.filter fun r => !(ids d).contains r.activityApId },
    fun d => { d with deliveryResolutions :=
      d.deliveryResolutions.filter fun r => !(ids d).contains r.activityApId },
    fun d => { d with deliveryFanouts :=
      d.deliveryFanouts.filter fun r => !(ids d).contains r.activityApId },
    fun d => { d with deliveryFanouts :=
      d.deliveryFanouts.filter fun r => !r.announceActivityApId.any (ids d).contains },
    fun d => { d with inbox := drop (ids d) d.inbox }]

def activitiesDelete (d : Db) : Db :=
  { d with activities := d.activities.filter fun a => !activityWhere a }

def activityDeleteCascadeStatements : List (Db → Db) :=
  projectionDeletes activityWhere ++ [activitiesDelete activityWhere]

end statements

structure Candidate where
  apId : String
  publicKeyPem : String
  deletedAt : Nat
deriving DecidableEq, Repr

section passes

def deleteActivityWhere (apId : String) (a : Activity) : Bool :=
  a.actorApId = apId && a.type = .delete

def groupActivityWhere (apId : String) (a : Activity) : Bool := a.actorApId = apId

def reserved (d : Db) (apId : String) : Bool := d.accountDeletionTargets.contains apId

/-- `deleted_at < cutoff` of the two texts: `nowIso` has a space where the cutoff has a `T`, so on the
day of the cutoff every time is before it. -/
def deletedBefore (deletedAt : Nat) (cutoff : Int) : Bool :=
  (deletedAt / (24 * 60 * 60 * 1000) * (24 * 60 * 60 * 1000) : Nat) ≤ cutoff

def Candidate.matches_ (c : Candidate) (cutoff : Int) (a : Actor) : Bool :=
  a.apId = c.apId && a.publicKeyPem = c.publicKeyPem && a.deletedAt = some c.deletedAt &&
    deletedBefore c.deletedAt cutoff

def incarnationStillReapable (cutoff : Int) (c : Candidate) (d : Db) : Bool :=
  d.actors.any fun a => c.matches_ cutoff a && !reserved d a.apId

def actorGuard (cutoff : Int) (c : Candidate) (d : Db) : Bool :=
  activityDeliveryDrainedGuard (deleteActivityWhere c.apId) d && incarnationStillReapable cutoff c d

def actorDelete (cutoff : Int) (c : Candidate) (d : Db) : Db :=
  { d with actors := d.actors.filter fun a => !c.matches_ cutoff a }

def reapActor (cutoff : Int) (c : Candidate) : Db → Db :=
  Batch.run ((activityDeleteCascadeStatements (deleteActivityWhere c.apId) ++
    [actorDelete cutoff c]).map (Batch.guarded (actorGuard cutoff c)))

def retired (cutoff : Int) (c : Community) : Bool :=
  c.deletedAt.any fun deletedAt => deletedBefore deletedAt cutoff

def communityGuard (apId : String) : Db → Bool :=
  activityDeliveryDrainedGuard (groupActivityWhere apId)

def keyScrub (cutoff : Int) (apId : String) (d : Db) : Db :=
  let communities :=
    Table.update (fun c => c.apId = apId && retired cutoff c && c.privateKeyPem ≠ "")
      (fun c => { c with privateKeyPem := "" }) d.communities
  { d with communities }

def scrubCommunity (cutoff : Int) (apId : String) : Db → Db :=
  Batch.run ((activityDeleteCascadeStatements (groupActivityWhere apId) ++
    [keyScrub cutoff apId]).map (Batch.guarded (communityGuard apId)))

def candidates (cutoff : Int) (d : Db) : List Candidate :=
  ((d.actors.filter fun a => !reserved d a.apId).filterMap fun a =>
    (a.deletedAt.filter (deletedBefore · cutoff)).map fun deletedAt =>
      ⟨a.apId,a.publicKeyPem,deletedAt⟩).take 100

def communityCandidates (cutoff : Int) (d : Db) : List String :=
  ((d.communities.filter fun c => retired cutoff c && c.privateKeyPem ≠ "").map (·.apId)).take 100

/-- Where a pass stands; each step is one read or one batch. -/
inductive Stage where
  | enter
  | actors (cutoff : Int) (todo : List Candidate)
  | communities (cutoff : Int) (todo : List String)
  | done
deriving DecidableEq, Repr

def work (d : Db) (stage : Stage) : Db × Stage :=
  match stage with
  | .enter =>
    let cutoff : Int := d.now - tombstoneReapAfterMs
    (d,.actors cutoff (candidates cutoff d))
  | .actors cutoff [] => (d,.communities cutoff (communityCandidates cutoff d))
  | .actors cutoff (c :: todo) => (reapActor cutoff c d,.actors cutoff todo)
  | .communities _ [] => (d,.done)
  | .communities cutoff (apId :: todo) => (scrubCommunity cutoff apId d,.communities cutoff todo)
  | .done => (d,.done)

end passes

section workers

def maxReconcileAttempts : Nat := 5
def reconcileDelayMs : Nat := 6 * 60 * 60 * 1000

/-- What everybody else does, one write at a time; a delivery, a resolution or a fan-out may also
take any other course that its workers give it. -/
inductive Event where
  | tick (ms : Nat)
  | createActor (apId publicKeyPem : String)
  | createCommunity (apId privateKeyPem : String)
  | reserve (apId : String)
  | unreserve (apId : String)
  | deleteAccount (apId activityApId fanoutId : String)
  | reviveActor (apId publicKeyPem : String)
  | retireCommunity (apId activityApId fanoutId : String)
  | dispatch (activity : Activity) (fanoutId : String)
  | setFanout (id : String) (status : FanoutStatus)
  | resolve (resolution : Resolution)
  | setResolution (id : String) (status : ResolutionStatus)
  | enqueue (delivery : Delivery)
  | attempt (id : String)
  | finish (id : String) (status : DeliveryStatus) (nextAttemptAt : Nat)
  | deadLetter (id : String)
  | reconcile (id : String)
deriving DecidableEq, Repr

def updateDelivery (id : String) (cond : Delivery → Bool) (set : Delivery → Delivery) (d : Db) :
    Db :=
  let deliveryQueue := Table.update (fun r => r.id = id && cond r) set d.deliveryQueue
  { d with deliveryQueue }

def publish (activity : Activity) (fanoutId : String) (d : Db) : Db :=
  { d with
    activities := d.activities ++ [activity]
    deliveryFanouts := d.deliveryFanouts ++ [{ id := fanoutId, activityApId := activity.apId }] }

/-- `processReconcileJob`, when it is due. -/
def processReconcileJob (id : String) (d : Db) : Db :=
  updateDelivery id
    (fun r => r.status = .deadLetter && r.dlqPending && decide (r.nextAttemptAt ≤ d.now))
    (fun r => { r with
      status := .pending
      reconcileAttempt := r.reconcileAttempt + 1
      dlqPending := false
      nextAttemptAt := d.now }) d

def happen (e : Event) (d : Db) : Db :=
  match e with
  | .tick ms => { d with now := d.now + ms }
  | .createActor apId publicKeyPem => { d with actors := d.actors ++ [⟨apId,publicKeyPem,none⟩] }
  | .createCommunity apId privateKeyPem =>
    { d with communities := d.communities ++ [⟨apId,none,privateKeyPem⟩] }
  | .reserve apId => { d with accountDeletionTargets := apId :: d.accountDeletionTargets }
  | .unreserve apId =>
    { d with accountDeletionTargets := d.accountDeletionTargets.filter (· ≠ apId) }
  | .deleteAccount apId activityApId fanoutId =>
    let actors := Table.update (fun a => a.apId = apId && a.deletedAt.isNone)
      (fun a => { a with deletedAt := some d.now }) d.actors
    publish ⟨activityApId,.delete,apId⟩ fanoutId { d with actors }
  | .reviveActor apId publicKeyPem =>
    let actors := Table.update (fun a => a.apId = apId)
      (fun a => { a with deletedAt := none, publicKeyPem }) d.actors
    { d with actors }
  | .retireCommunity apId activityApId fanoutId =>
    let communities := Table.update (fun c => c.apId = apId && c.deletedAt.isNone)
      (fun c => { c with deletedAt := some d.now }) d.communities
    publish ⟨activityApId,.delete,apId⟩ fanoutId { d with communities }
  | .dispatch activity fanoutId => publish activity fanoutId d
  | .setFanout id status =>
    let deliveryFanouts := Table.update (fun r => r.id = id) (fun r => { r with status })
      d.deliveryFanouts
    { d with deliveryFanouts }
  | .resolve resolution =>
    { d with deliveryResolutions := d.deliveryResolutions ++ [resolution] }
  | .setResolution id status =>
    let deliveryResolutions := Table.update (fun r => r.id = id) (fun r => { r with status })
      d.deliveryResolutions
    { d with deliveryResolutions }
  | .enqueue delivery => { d with deliveryQueue := d.deliveryQueue ++ [delivery] }
  | .attempt id =>
    updateDelivery id (fun r => r.status = .pending || r.status = .retryWait)
      (fun r => { r with status := .processing }) d
  | .finish id status nextAttemptAt =>
    updateDelivery id (·.status = .processing) (fun r => { r with status, nextAttemptAt }) d
  | .deadLetter id =>
    updateDelivery id (·.status = .processing) (fun r => { r with
      status := .deadLetter
      dlqPending := r.reconcileAttempt < maxReconcileAttempts
      nextAttemptAt := d.now + reconcileDelayMs }) d
  | .reconcile id => processReconcileJob id d

def reaper : Threads Db Stage Unit Event :=
  Threads.guarded (fun _ _ stage => stage ≠ .done) (fun _ _ d stage => work d stage)
    (fun _ _ => true) happen

def machine : Machine (Threads.Pool Db Stage) (Threads.Label Unit Event) := reaper.machine

def start (now : Nat) : Threads.Pool Db Stage where
  store := ⟨now,[],[],[],[],[],[],[],[],[],[],[]⟩
  thread _ := .enter

end workers

end Yurucommu.TombstoneReaper
