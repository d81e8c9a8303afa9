import Yurucommu.Machine
import Yurucommu.Table
import Yurucommu.Whatwg

/-!
The deletion of local accounts: reservations, leases and the workers that tear the targets down,
one read or one atomic batch at a time. What a teardown writes to the other tables is an answer
from outside, and so is every write of somebody else.
-/

set_option autoImplicit false

namespace Yurucommu.Deletions

open Whatwg (Text)

structure Actor where
  apId : Text
  publicKeyPem : Text
  takosUserId : Option Text
  ownerActorApId : Option Text
  deletedAt : Option Nat
deriving DecidableEq, Repr

/-- A row of `account_deletions`. -/
structure Operation where
  id : Text
  rootActorApId : Text
  rootPublicKeyPem : Text
  workerToken : Text
  leaseExpiresAt : Nat
deriving DecidableEq, Repr

/-- A row of `account_deletion_targets`. -/
structure Target where
  actorApId : Text
  operationId : Text
  publicKeyPem : Text
  cascadeComplete : Bool
deriving DecidableEq, Repr

/-- The uploaders of the media rows, and the tables that only a teardown looks at. -/
structure Tables (ρ : Type) where
  mediaUploads : List Text
  mediaBlobDeletionJobs : List Text
  mediaUploadAttempts : List Text
  rest : ρ

/-- `issued` holds every operation id that was generated. -/
structure Db (ρ : Type) where
  actors : List Actor
  operations : List Operation
  targets : List Target
  objectTargets : List (Text × Text)
  sessions : List Text
  tables : Tables ρ
  issued : List Text

variable {ρ : Type}

def leaseMs : Nat := 2 * 60 * 1000

def retentionLimit : Nat := 2

section predicates

variable (d : Db ρ)

def Actor.live (a : Actor) : Bool := a.deletedAt.isNone

def findActor (apId : Text) : Option Actor := d.actors.find? fun a => a.apId = apId

def planned (operationId : Text) : List Target :=
  d.targets.filter fun t => t.operationId = operationId

/-- The actor of a target is live under the key it had when it was reserved. -/
def incarnationValid (t : Target) : Bool :=
  d.actors.any fun a => a.apId = t.actorApId && a.publicKeyPem = t.publicKeyPem && a.live

def allTargetIncarnationsValid (operationId : Text) : Bool :=
  (planned d operationId).all (incarnationValid d)

def rootValid (operation : Operation) : Bool :=
  d.actors.any fun a =>
    a.apId = operation.rootActorApId && a.publicKeyPem = operation.rootPublicKeyPem && a.live

def witness (operation : Operation) (target : Target) (now : Nat) : Bool :=
  d.operations.any fun o => o.id = operation.id && o.workerToken = operation.workerToken &&
    decide (now < o.leaseExpiresAt) && o.rootPublicKeyPem = operation.rootPublicKeyPem &&
    (d.actors.any fun root => root.apId = o.rootActorApId &&
      root.publicKeyPem = o.rootPublicKeyPem) &&
    d.targets.any fun t => t.operationId = o.id && t.actorApId = target.actorApId &&
      t.publicKeyPem = target.publicKeyPem &&
      d.actors.any fun a => a.apId = t.actorApId && a.publicKeyPem = t.publicKeyPem

def allComplete (operationId : Text) : Bool :=
  allTargetIncarnationsValid d operationId &&
    (planned d operationId).all fun t => t.cascadeComplete &&
      !d.tables.mediaUploads.contains t.actorApId &&
      !d.tables.mediaBlobDeletionJobs.contains t.actorApId &&
      !d.tables.mediaUploadAttempts.contains t.actorApId

end predicates

/-- `expectedTakosUserId`, `expectedOwnerActorApId` and the rest of the options. -/
structure Options where
  cascadeOwnedAccounts : Bool
  expectedPublicKeyPem : Text
  expectedTakosUserId : Option Text
  expectedOwnerActorApId : Option Text
deriving DecidableEq, Repr

section statements

variable (now : Nat) (d : Db ρ)

def taken (root : Text) (cascadeOwnedAccounts : Bool) : List Actor :=
  d.actors.filter fun a =>
    (a.apId = root || (cascadeOwnedAccounts && a.ownerActorApId = some root)) && a.live

def reservable (id root : Text) (options : Options) : Bool :=
  d.targets.any fun t => t.operationId = id && t.actorApId = root &&
    t.publicKeyPem = options.expectedPublicKeyPem &&
    d.actors.any fun a => a.apId = root && a.publicKeyPem = options.expectedPublicKeyPem &&
      a.takosUserId = options.expectedTakosUserId &&
      a.ownerActorApId = options.expectedOwnerActorApId

/-- The batch of `reserveOperation`: a conflict of a unique key or the witness aborts it. -/
def reserveOperation (id token root : Text) (options : Options) (authored : List Text) :
    Option (Db ρ) :=
  let operation : Operation := ⟨id,root,options.expectedPublicKeyPem,token,now + leaseMs⟩
  let targets := (taken d root options.cascadeOwnedAccounts).map fun a =>
    (⟨a.apId,id,a.publicKeyPem,false⟩ : Target)
  let e : Db ρ :=
    { d with
      operations := d.operations ++ [operation]
      targets := d.targets ++ targets
      objectTargets := d.objectTargets ++ authored.map fun object => (object,id)
      issued := id :: d.issued }
  if d.operations.any fun o => o.id = id || o.rootActorApId = root then none
  else if targets.any fun t => d.targets.any fun u => u.actorApId = t.actorApId then none
  else if authored.any fun object => d.objectTargets.any fun r => r.1 = object then none
  else if reservable e id root options then some e
  else none

/-- The compare-and-set of `claimExpiredOperation`. -/
def claims (operation : Operation) (o : Operation) : Bool :=
  o.id = operation.id && decide (o.leaseExpiresAt ≤ now) && rootValid d operation &&
    allTargetIncarnationsValid d operation.id

def claimExpiredOperation (operation : Operation) (token : Text) : Option (Db ρ) :=
  if d.operations.any (claims now d operation) then
    some { d with
      operations := Table.update (claims now d operation)
        (fun o => { o with workerToken := token, leaseExpiresAt := now + leaseMs }) d.operations }
  else none

def renews (operation : Operation) (o : Operation) : Bool :=
  o.id = operation.id && o.workerToken = operation.workerToken &&
    decide (now < o.leaseExpiresAt) && rootValid d operation &&
    allTargetIncarnationsValid d operation.id

def renewLease (operation : Operation) : Option (Db ρ) :=
  if d.operations.any (renews now d operation) then
    some { d with
      operations := Table.update (renews now d operation)
        (fun o => { o with leaseExpiresAt := now + leaseMs }) d.operations }
  else none

def releaseLease (operation : Operation) : Db ρ :=
  { d with
    operations := Table.update
      (fun o => o.id = operation.id && o.workerToken = operation.workerToken)
      (fun o => { o with leaseExpiresAt := 0 }) d.operations }

/-- `guardedBatch` of `guardedOperationDb`. -/
def guardedBatch (operation : Operation) (target : Target) (payload : Db ρ → Option (Db ρ)) :
    Option (Db ρ) :=
  if witness d operation target now then payload d else none

def completeCascade (operation : Operation) (target : Target) : Db ρ :=
  { d with
    targets := Table.update
      (fun t => t.actorApId = target.actorApId && t.operationId = operation.id)
      (fun t => { t with cascadeComplete := true }) d.targets }

end statements

section final

variable (now : Nat) (operationId : Text) (d : Db ρ)

def tombstone : Db ρ :=
  { d with
    actors := Table.update (fun a => (planned d operationId).any fun t => t.actorApId = a.apId)
      (fun a => { a with takosUserId := none, ownerActorApId := none, deletedAt := some now })
      d.actors }

def deleteSessions : Db ρ :=
  { d with
    sessions := Table.delete
      (fun member => (planned d operationId).any fun t => t.actorApId = member) d.sessions }

/-- The triggers hold the plan back while a target is not deleted, or is uploading. -/
def unreleased : Bool :=
  (planned d operationId).any fun t => d.tables.mediaUploadAttempts.contains t.actorApId ||
    !t.cascadeComplete || !(d.actors.any fun a => a.apId = t.actorApId && !a.live) ||
    d.sessions.contains t.actorApId

def releaseObjectTargets : Option (Db ρ) :=
  if (d.objectTargets.any fun r => r.2 = operationId) && unreleased operationId d then none
  else some { d with objectTargets := Table.delete (fun r => r.2 = operationId) d.objectTargets }

def releaseTargets : Option (Db ρ) :=
  if (d.targets.any fun t => t.operationId = operationId) &&
      (unreleased operationId d || d.objectTargets.any fun r => r.2 = operationId) then none
  else some { d with targets := Table.delete (fun t => t.operationId = operationId) d.targets }

def releaseOperation : Option (Db ρ) :=
  if d.operations.any fun o => o.id = operationId &&
      (d.tables.mediaUploadAttempts.contains o.rootActorApId ||
        (d.objectTargets.any fun r => r.2 = operationId) ||
        d.targets.any fun t => t.operationId = operationId) then none
  else some { d with operations := Table.delete (fun o => o.id = operationId) d.operations }

def finalize : Option (Db ρ) :=
  ((releaseObjectTargets operationId (deleteSessions operationId (tombstone now operationId d))).bind
    (releaseTargets operationId)).bind (releaseOperation operationId)

def finalBatch (operation : Operation) (root : Target) : Option (Db ρ) :=
  guardedBatch now d operation root fun d =>
    if allComplete d operation.id then finalize now operation.id d else none

end final

inductive Request where
  | deleteLocalAccount (root : Text) (options : Options)
  | resumeAbandonedAccountDeletions (limit : Nat)
deriving DecidableEq, Repr

/-- An operation under the token of its worker, the targets it has read, and the operations that
the same call has still to resume. -/
structure Worker where
  operation : Operation
  targets : List Target
  queue : List Operation
deriving DecidableEq, Repr

inductive Stage where
  | start
  | readRoot
  | reserve
  | reread
  | readCurrent (operation : Operation)
  | resume (queue : List Operation)
  | claim (operation : Operation) (queue : List Operation)
  | targets (operation : Operation) (queue : List Operation)
  | enter (worker : Worker) (left : List Target)
  | cascade (worker : Worker) (target : Target) (left : List Target)
  | sweep (worker : Worker) (left : List Target)
  | purge (worker : Worker) (target : Target) (left : List Target)
  | renewLast (worker : Worker)
  | final (worker : Worker)
  | release (operation : Operation)
  | done
deriving DecidableEq, Repr

structure Call where
  request : Request
  stage : Stage
deriving DecidableEq, Repr

/-- What a teardown does next: a guarded batch, a renewal before an external wait, or its end. -/
inductive Next where
  | batch | renew | finish
deriving DecidableEq, Repr

/-- The clock, generated ids, the objects that the targets have authored, what a guarded batch
writes to the other tables, and whether the step throws. -/
structure Answer (ρ : Type) where
  now : Nat := 0
  id : Text := []
  token : Text := []
  authored : List Text := []
  next : Next := .finish
  payload : Tables ρ → Tables ρ := fun tables => tables
  fails : Bool := false

def Worker.root (w : Worker) : Option Target :=
  w.targets.find? fun t => t.actorApId = w.operation.rootActorApId

def Stage.operation : Stage → Option Operation
  | .targets operation _ | .release operation => some operation
  | .enter w _ | .cascade w _ _ | .sweep w _ | .purge w _ _ | .renewLast w | .final w =>
    some w.operation
  | _ => none

/-- An error inside `runOperation` releases the lease; elsewhere it ends the call. -/
def Stage.thrown : Stage → Stage
  | .release _ => .done
  | stage =>
    match stage.operation with
    | some operation => .release operation
    | none => .done

section calls

variable (i : Answer ρ) (c : Call) (d : Db ρ)

def byLease (left right : Operation) : Bool := decide (left.leaseExpiresAt ≤ right.leaseExpiresAt)

def insertByLease (o : Operation) : List Operation → List Operation
  | [] => [o]
  | p :: ps => if byLease o p then o :: p :: ps else p :: insertByLease o ps

/-- The expired operations, by the end of their leases. -/
def candidates (limit : Nat) : List Operation :=
  ((d.operations.filter fun o => decide (o.leaseExpiresAt ≤ i.now)).foldr insertByLease []).take
    (min limit retentionLimit)

def read : Stage :=
  match c.stage,c.request with
  | .start,.deleteLocalAccount root _ =>
    match d.operations.find? fun o => o.rootActorApId = root with
    | some operation => .readCurrent operation
    | none => .readRoot
  | .start,.resumeAbandonedAccountDeletions limit => .resume (candidates i d limit)
  | .readRoot,.deleteLocalAccount root options =>
    match findActor d root with
    | none => .done
    | some a =>
      if a.live && a.publicKeyPem = options.expectedPublicKeyPem then .reserve else .done
  | .reread,.deleteLocalAccount root _ =>
    match d.operations.find? fun o => o.rootActorApId = root with
    | some operation => .readCurrent operation
    | none => .done
  | .readCurrent operation,.deleteLocalAccount root options =>
    match findActor d root with
    | none => .done
    | some a =>
      if operation.rootPublicKeyPem = options.expectedPublicKeyPem &&
          a.takosUserId = options.expectedTakosUserId &&
          a.ownerActorApId = options.expectedOwnerActorApId then .claim operation []
      else .done
  | .resume [],_ => .done
  | .resume (operation :: queue),_ => .claim operation queue
  | .targets operation queue,_ =>
    let targets := planned d operation.id
    if targets.any fun t => t.actorApId = operation.rootActorApId then
      .enter ⟨operation,targets,queue⟩ targets
    else .release operation
  | .enter worker [],_ => .sweep worker worker.targets
  | .enter worker (target :: left),_ =>
    if target.cascadeComplete then .enter worker left else .enter worker (target :: left)
  | .sweep worker [],_ => .renewLast worker
  | _,_ => .done

def write : Option (Option (Db ρ) × Stage × Stage) :=
  let renewed (operation : Operation) (next : Stage) :=
    some (renewLease i.now d operation,next,c.stage.thrown)
  let guarded (w : Worker) (target : Target) (payload : Db ρ → Db ρ) (next : Stage) :=
    some (guardedBatch i.now d w.operation target (fun d => some (payload d)),next,c.stage.thrown)
  let other (d : Db ρ) : Db ρ := { d with tables := i.payload d.tables }
  match c.stage with
  | .reserve =>
    match c.request with
    | .deleteLocalAccount root options =>
      some (reserveOperation i.now d i.id i.token root options i.authored,
        .targets ⟨i.id,root,options.expectedPublicKeyPem,i.token,i.now + leaseMs⟩ [],.reread)
    | _ => none
  | .claim operation queue =>
    some (claimExpiredOperation i.now d operation i.token,
      .targets { operation with workerToken := i.token, leaseExpiresAt := i.now + leaseMs } queue,
      .resume queue)
  | .enter w (target :: left) =>
    if target.cascadeComplete then none else renewed w.operation (.cascade w target left)
  | .cascade w target left =>
    match i.next with
    | .batch => guarded w target other c.stage
    | .renew => renewed w.operation c.stage
    | .finish => guarded w target (fun d => completeCascade d w.operation target) (.enter w left)
  | .sweep w (target :: left) => renewed w.operation (.purge w target left)
  | .purge w target left =>
    match i.next with
    | .batch => guarded w target other c.stage
    | .renew => renewed w.operation c.stage
    | .finish => some (some d,.sweep w left,c.stage.thrown)
  | .renewLast w => renewed w.operation (.final w)
  | .final w =>
    match w.root with
    | none => none
    | some root => some (finalBatch i.now d w.operation root,.resume w.queue,c.stage.thrown)
  | .release operation => some (some (releaseLease d operation),.done,.done)
  | _ => none

def work (_ : Nat) (d : Db ρ) (c : Call) : Db ρ × Call :=
  if i.fails then (d,{ c with stage := c.stage.thrown })
  else
    match write i c d with
    | none => (d,{ c with stage := read i c d })
    | some (none,_,aborted) => (d,{ c with stage := aborted })
    | some (some e,next,_) => (e,{ c with stage := next })

end calls

/-- Ids do not repeat. -/
def allowed (i : Answer ρ) (d : Db ρ) (c : Call) : Bool :=
  c.stage ≠ .done && !d.issued.contains i.id

inductive Event (ρ : Type) where
  | write (tables : Tables ρ → Tables ρ)
  | setKey (actor key : Text)
  | register (actor : Actor)
  | logout (member : Text)

/-- Actors have one row each, and a new account needs a live parent that is not reserved. -/
def possible : Event ρ → Db ρ → Bool
  | .register a,d => !(d.actors.any fun b => b.apId = a.apId) && a.live &&
      match a.ownerActorApId with
      | none => true
      | some owner => (d.actors.any fun b => b.apId = owner && b.live) &&
          !(d.targets.any fun t => t.actorApId = owner)
  | _,_ => true

def happen : Event ρ → Db ρ → Db ρ
  | .write f,d => { d with tables := f d.tables }
  | .setKey actor key,d =>
    { d with
      actors := Table.update (fun a => a.apId = actor) (fun a => { a with publicKeyPem := key })
        d.actors }
  | .register a,d => { d with actors := d.actors ++ [a] }
  | .logout member,d => { d with sessions := d.sessions.erase member }

def threads : Threads (Db ρ) Call (Answer ρ) (Event ρ) := .guarded allowed work possible happen

abbrev Pool (ρ : Type) := Threads.Pool (Db ρ) Call

abbrev Label (ρ : Type) := Threads.Label (Answer ρ) (Event ρ)

abbrev machine : Machine (Pool ρ) (Label ρ) := threads.machine

def issues (i : Answer ρ) (c : Call) : Option (Operation × Target) :=
  match c.stage with
  | .cascade w target _ => if i.next = .renew then none else some (w.operation,target)
  | .purge w target _ => if i.next = .batch then some (w.operation,target) else none
  | .final w => w.root.map fun root => (w.operation,root)
  | _ => none

/-- The token of the worker is stored under an unexpired lease, and the root and the target have
the keys that it knows. -/
structure Fence (now : Nat) (operation : Operation) (target : Target) (d : Db ρ) : Prop where
  lease : ∃ o ∈ d.operations, o.id = operation.id ∧ o.workerToken = operation.workerToken ∧
    now < o.leaseExpiresAt ∧ o.rootPublicKeyPem = operation.rootPublicKeyPem ∧
    ∃ root ∈ d.actors, root.apId = o.rootActorApId ∧
      root.publicKeyPem = operation.rootPublicKeyPem
  target : ∃ t ∈ planned d operation.id, t.actorApId = target.actorApId ∧
    t.publicKeyPem = target.publicKeyPem ∧
    ∃ a ∈ d.actors, a.apId = target.actorApId ∧ a.publicKeyPem = target.publicKeyPem

def Complete (operationId : Text) (d : Db ρ) : Prop :=
  ∀ t ∈ planned d operationId, t.cascadeComplete = true ∧
    (∃ a ∈ d.actors, a.apId = t.actorApId ∧ a.publicKeyPem = t.publicKeyPem ∧ a.live = true) ∧
    t.actorApId ∉ d.tables.mediaUploads ∧ t.actorApId ∉ d.tables.mediaBlobDeletionJobs ∧
    t.actorApId ∉ d.tables.mediaUploadAttempts

def Tombstoned (accounts : List Text) (d : Db ρ) : Prop :=
  ∀ apId ∈ accounts, (∃ a ∈ d.actors, a.apId = apId) ∧
    (∀ a ∈ d.actors, a.apId = apId → a.live = false) ∧ apId ∉ d.sessions

structure Gone (operationId : Text) (d : Db ρ) : Prop where
  operations : ∀ o ∈ d.operations, o.id ≠ operationId
  targets : ∀ t ∈ d.targets, t.operationId ≠ operationId
  objectTargets : ∀ r ∈ d.objectTargets, r.2 ≠ operationId

def Finalizes (operationId : Text) (s : Pool ρ) (l : Label ρ) : Prop :=
  ∃ p i w root, l = .act p i ∧ i.fails = false ∧ (s.thread p).stage = .final w ∧
    w.operation.id = operationId ∧ w.root = some root ∧
    (finalBatch i.now s.store w.operation root).isSome = true

def Untouched (d : Db ρ) : Prop :=
  ∀ t ∈ d.targets, ∃ a ∈ d.actors, a.apId = t.actorApId ∧ a.live = true

/-- Calls begin in a database whose keys are unique and whose plans are untouched. -/
structure Start (s : Pool ρ) : Prop where
  actors : (s.store.actors.map (·.apId)).Nodup
  targets : (s.store.targets.map (·.actorApId)).Nodup
  untouched : Untouched s.store
  operationIds : ∀ o ∈ s.store.operations, o.id ∈ s.store.issued
  targetIds : ∀ t ∈ s.store.targets, t.operationId ∈ s.store.issued
  start : ∀ p, (s.thread p).stage = .start

end Yurucommu.Deletions
