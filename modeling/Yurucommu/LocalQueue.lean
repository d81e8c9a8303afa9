import Mathlib.Data.Rat.Defs
import Mathlib.Algebra.Order.Field.Rat
import Mathlib.Tactic.Linarith
import Yurucommu.Machine

/-!
The queue of the local server, and what the platform's queue promises: when a message is first
delivered, which are delivered again, and that none is lost.
-/

set_option autoImplicit false

namespace Yurucommu.LocalQueue

variable {α : Type}

/-- A body in the queue's hands: each sending, and each sending again, has its own number. -/
structure Copy (α : Type) where
  id : Nat
  body : α
deriving DecidableEq, Repr

inductive Settlement where
  | acked
  | retried
deriving DecidableEq, Repr

/-- `earliest` is the time before which the contract lets no delivery be, and `origin` the message
that this one repeats. -/
structure Made (α : Type) where
  copy : Copy α
  earliest : ℚ
  origin : Option (Copy α)
deriving DecidableEq, Repr

/-- `batch` is what the handler has, each message with what it was settled as. The lists from
`made` on keep the history: what was sent, delivered and settled, and what was in a batch that the
handler rejected. The clock counts seconds. -/
structure Queue (α : Type) where
  now : ℚ
  copies : Nat
  timers : List (Copy α × ℚ)
  pending : List (Copy α)
  draining : Bool
  drainScheduled : Bool
  batch : List (Copy α × Option Settlement)
  made : List (Made α)
  delivered : List (Copy α × ℚ)
  settled : List (Copy α × Settlement)
  rejected : List (Copy α)
deriving DecidableEq, Repr

def Queue.start (α : Type) : Queue α := ⟨0,0,[],[],false,false,[],[],[],[],[]⟩

section queue

/-- `setTimeout` takes a delay of more than 2147483647 ms for one of 1 ms. -/
def timeout (seconds : ℚ) : ℚ := if seconds * 1000 ≤ 2147483647 then seconds else 1 / 1000

def enqueue (copy : Copy α) (delaySeconds : Option ℚ) (s : Queue α) : Queue α :=
  if 0 < delaySeconds.getD 0 then
    { s with timers := s.timers ++ [(copy,s.now + timeout (delaySeconds.getD 0))] }
  else { s with pending := s.pending ++ [copy], drainScheduled := true }

/-- The seconds that the contract has a message wait. -/
def wait (delaySeconds : Option ℚ) : ℚ := max 0 (delaySeconds.getD 0)

def record (body : α) (earliest : ℚ) (origin : Option (Copy α)) (s : Queue α) : Queue α :=
  { s with copies := s.copies + 1, made := s.made ++ [⟨⟨s.copies,body⟩,earliest,origin⟩] }

/-- A message is queued with the delay that the code gives it; the contract's is in the history. -/
def make (body : α) (earliest : ℚ) (origin : Option (Copy α)) (delaySeconds : Option ℚ)
    (s : Queue α) : Queue α :=
  enqueue ⟨s.copies,body⟩ delaySeconds (record body earliest origin s)

def send (body : α) (delaySeconds : Option ℚ) (s : Queue α) : Queue α :=
  make body (s.now + wait delaySeconds) none delaySeconds s

/-- The options of the batch are not read. -/
def sendBatch (messages : List (α × Option ℚ)) (defaultSeconds : Option ℚ) (s : Queue α) :
    Queue α :=
  messages.foldl (fun s message =>
    make message.1 (s.now + wait (message.2.or defaultSeconds)) none message.2 s) s

/-- The loop of `drain`, as far as the next call of the handler. -/
def drainLoop (s : Queue α) : Queue α :=
  if s.pending = [] then { s with draining := false, batch := [] }
  else
    let batchBodies := s.pending.take 100
    { s with
      draining := true
      pending := s.pending.drop 100
      batch := batchBodies.map fun copy => (copy,none)
      delivered := s.delivered ++ batchBodies.map fun copy => (copy,s.now) }

def drain (s : Queue α) : Queue α := if s.draining then s else drainLoop s

def settle (settlement : Settlement) (i : Nat) (copy : Copy α) (s : Queue α) : Queue α :=
  { s with
    batch := s.batch.set i (copy,some settlement)
    settled := s.settled ++ [(copy,settlement)] }

def ack (i : Nat) (s : Queue α) : Queue α :=
  match s.batch[i]? with
  | some (copy,none) => settle .acked i copy s
  | _ => s

def retry (delaySeconds : Option ℚ) (i : Nat) (s : Queue α) : Queue α :=
  match s.batch[i]? with
  | some (copy,none) =>
    make copy.body (s.now + wait delaySeconds) (some copy) delaySeconds (settle .retried i copy s)
  | _ => s

def forAll (settle : Nat → Queue α → Queue α) (s : Queue α) : Queue α :=
  (List.range s.batch.length).foldl (fun s i => settle i s) s

def atHandler (s : Queue α) : List (Copy α) := s.batch.map Prod.fst

/-- `catch` and `finally`. -/
def reject (s : Queue α) : Queue α := { s with
  draining := false
  batch := []
  drainScheduled := s.drainScheduled || !s.pending.isEmpty
  rejected := s.rejected ++ atHandler s }

inductive Action (α : Type) where
  | tick (seconds : ℚ)
  | send (body : α) (delaySeconds : Option ℚ)
  | sendBatch (messages : List (α × Option ℚ)) (defaultSeconds : Option ℚ)
  | fire (i : Nat)
  | microtask
  | ack (i : Nat)
  | retry (i : Nat) (delaySeconds : Option ℚ)
  | ackAll
  | retryAll (delaySeconds : Option ℚ)
  | returned
  | rejected

def step : Action α → Queue α → Option (Queue α)
  | .tick seconds, s => if 0 ≤ seconds then some { s with now := s.now + seconds } else none
  | .send body delaySeconds, s => some (send body delaySeconds s)
  | .sendBatch messages defaultSeconds, s => some (sendBatch messages defaultSeconds s)
  | .fire i, s =>
    match s.timers[i]? with
    | some (copy,due) =>
      if due ≤ s.now then some (enqueue copy none { s with timers := s.timers.eraseIdx i }) else none
    | none => none
  | .microtask, s =>
    if s.drainScheduled then some (drain { s with drainScheduled := false }) else none
  | .ack i, s => if s.draining then some (ack i s) else none
  | .retry i delaySeconds, s => if s.draining then some (retry delaySeconds i s) else none
  | .ackAll, s => if s.draining then some (forAll ack s) else none
  | .retryAll delaySeconds, s => if s.draining then some (forAll (retry delaySeconds) s) else none
  | .returned, s => if s.draining then some (drainLoop s) else none
  | .rejected, s => if s.draining then some (reject s) else none

def machine (α : Type) : Machine (Queue α) (Action α) := ⟨step⟩

end queue

section contract

def repeated (s : Queue α) : List (Copy α) := s.made.filterMap Made.origin

/-- A message is to be delivered again when it is retried, or when the handler rejects and has not
acked it. -/
def Owed (s : Queue α) (copy : Copy α) : Prop :=
  (copy,.retried) ∈ s.settled ∨ copy ∈ s.rejected ∧ (copy,.acked) ∉ s.settled

def deliveries (s : Queue α) : List (Copy α) := s.delivered.map Prod.fst

def Idle (s : Queue α) : Prop :=
  s.timers = [] ∧ s.drainScheduled = false ∧ s.draining = false

structure Contract (s : Queue α) : Prop where
  onTime : ∀ m ∈ s.made, ∀ time, (m.copy,time) ∈ s.delivered → m.earliest ≤ time
  once : (deliveries s).Nodup
  known : ∀ copy ∈ deliveries s, copy ∈ s.made.map Made.copy
  again : (repeated s).Nodup ∧ ∀ copy, copy ∈ repeated s ↔ Owed s copy
  sameBody : ∀ m ∈ s.made, ∀ origin ∈ m.origin, m.copy.body = origin.body
  settledOnce : (s.settled.map Prod.fst).Nodup
  oneBatch : (atHandler s).Nodup ∧ ∀ copy ∈ atHandler s, copy ∉ s.pending ∧
    copy ∉ s.timers.map Prod.fst
  kept : ∀ m ∈ s.made, m.copy ∈ s.timers.map Prod.fst ∨ m.copy ∈ s.pending ∨
    m.copy ∈ deliveries s
  idle : Idle s → ∀ m ∈ s.made, m.copy ∈ deliveries s

/-- Delays that a timer takes, no default that a message of a batch would need, and no rejection
that leaves a message unsettled. -/
def InContract (s : Queue α) : Action α → Prop
  | .send _ delaySeconds => ∀ seconds ∈ delaySeconds, seconds * 1000 ≤ 2147483647
  | .sendBatch messages defaultSeconds => ∀ message ∈ messages,
      (∀ seconds ∈ message.2, seconds * 1000 ≤ 2147483647) ∧
        (message.2 = none → wait defaultSeconds = 0)
  | .retry _ delaySeconds => ∀ seconds ∈ delaySeconds, seconds * 1000 ≤ 2147483647
  | .retryAll delaySeconds => ∀ seconds ∈ delaySeconds, seconds * 1000 ≤ 2147483647
  | .rejected => ∀ message ∈ s.batch, message.2 ≠ none
  | _ => True

end contract

end Yurucommu.LocalQueue
