import Mathlib.Tactic
import Yurucommu.Machine

/-!
The writes of the call signaling object. Its events overlap: each runs up to its next `await` in
one step. A promise is the number of the write that it tracks, and `then` waits for the promise
before it.
-/

set_option autoImplicit false

namespace Yurucommu.CallWrites

inductive Status where
  | pending
  | running
  | settled (failed : Bool)
deriving DecidableEq, Repr

def Status.isSettled : Status → Bool
  | .settled _ => true
  | _ => false

/-- The work of a write, and the promise it was chained to: none was resolved at the start. -/
structure Write (τ : Type) where
  work : τ
  after : Option Nat
  status : Status
deriving DecidableEq, Repr

inductive Phase where
  | running
  | flushing (pending : List Nat)
  | finished (threw : Bool)
deriving DecidableEq, Repr

def Phase.isFinished : Phase → Bool
  | .finished _ => true
  | _ => false

structure Event where
  firstWrite : Nat
  hub : Option Nat
  phase : Phase
deriving DecidableEq, Repr

/-- Hubs are numbered as they are made. `loadingHub` are the events that await the shared load, and
`executed` is what the storage was asked to do, in its order. -/
structure State (τ : Type) where
  hub : Option Nat
  hubs : Nat
  loadingHub : Option (List Nat)
  writes : List (Write τ)
  writeTail : Option Nat
  pendingWrites : List (Nat × Nat)
  nextWrite : Nat
  events : List Event
  activeEvents : List Nat
  refreshHub : Bool
  executed : List τ
deriving DecidableEq, Repr

inductive Act (τ : Type) where
  | startEvent
  | ensureHub (event : Nat)
  | loadHub (made : Bool)
  | trackWrite (event : Nat) (work : τ)
  | begin (write : Nat)
  | settle (write : Nat) (failed : Bool)
  | flushWrites (event : Nat)
  | finishEvent (event : Nat)
deriving DecidableEq, Repr

variable {τ : Type}

def initial : State τ := ⟨none,0,none,[],none,[],0,[],[],false,[]⟩

namespace State

def isSettled (s : State τ) (promise : Nat) : Bool :=
  (s.writes[promise]?).any (·.status.isSettled)

def hasFailed (s : State τ) (promise : Nat) : Bool :=
  (s.writes[promise]?).any (·.status = .settled true)

def phase (s : State τ) (event : Nat) : Option Phase := (s.events[event]?).map (·.phase)

def runs (s : State τ) (event : Nat) : Bool :=
  s.phase event = some .running && !s.loadingHub.any (event ∈ ·)

def startEvent (s : State τ) : State τ :=
  { s with
    events := s.events ++ [⟨s.nextWrite,none,.running⟩]
    activeEvents := s.activeEvents ++ [s.events.length] }

def ensureHub (s : State τ) (event : Nat) : State τ :=
  match s.hub with
  | some hub => { s with events := s.events.modify event fun e => { e with hub := some hub } }
  | none => { s with loadingHub := some (s.loadingHub.getD [] ++ [event]) }

def loadHub (s : State τ) (made : Bool) (waiting : List Nat) : State τ :=
  let hub := if made then some s.hubs else none
  { s with
    hub := if made then hub else s.hub
    hubs := if made then s.hubs + 1 else s.hubs
    loadingHub := none
    events := s.events.mapIdx fun i e => if i ∈ waiting then { e with hub := hub } else e }

def trackWrite (s : State τ) (work : τ) : State τ :=
  { s with
    writes := s.writes ++ [⟨work,s.writeTail,.pending⟩]
    pendingWrites := s.pendingWrites ++ [(s.nextWrite,s.writes.length)]
    nextWrite := s.nextWrite + 1
    writeTail := some s.writes.length }

def begin (s : State τ) (write : Nat) (work : τ) : State τ :=
  { s with
    writes := s.writes.modify write fun w => { w with status := .running }
    executed := s.executed ++ [work] }

def settle (s : State τ) (write : Nat) (failed : Bool) : State τ :=
  { s with
    writes := s.writes.modify write fun w => { w with status := .settled failed }
    refreshHub := s.refreshHub || failed }

def flushed (s : State τ) (event : Event) : List Nat :=
  (s.pendingWrites.filter (event.firstWrite ≤ ·.1)).map (·.2)

def flushWrites (s : State τ) (event : Nat) : State τ :=
  { s with events := s.events.modify event fun e => { e with phase := .flushing (s.flushed e) } }

def firstWriteOf (s : State τ) (event : Nat) : Nat :=
  (s.events[event]?).elim s.nextWrite (·.firstWrite)

def firstNeeded (s : State τ) : Nat :=
  s.activeEvents.foldl (fun needed event => min needed (s.firstWriteOf event)) s.nextWrite

def leave (s : State τ) (event : Nat) (threw : Bool) : State τ :=
  { s with
    events := s.events.modify event fun e => { e with phase := .finished threw }
    activeEvents := s.activeEvents.filter (· ≠ event) }

/-- The writes that no active event owns are forgotten. -/
def prune (s : State τ) : State τ :=
  { s with pendingWrites := s.pendingWrites.filter (s.firstNeeded ≤ ·.1) }

def discardHub (s : State τ) : State τ :=
  if s.activeEvents = [] ∧ s.refreshHub then { s with hub := none, refreshHub := false } else s

def finishEvent (s : State τ) (event : Nat) (pending : List Nat) : State τ :=
  (s.leave event (pending.any s.hasFailed)).prune.discardHub

end State

def machine : Machine (State τ) (Act τ) where
  step
    | .startEvent, s => some s.startEvent
    | .ensureHub event, s => if s.runs event then some (s.ensureHub event) else none
    | .loadHub made, s => s.loadingHub.map (s.loadHub made)
    | .trackWrite event work, s =>
      if s.runs event ∧ (s.events[event]?).any (·.hub.isSome) then some (s.trackWrite work)
      else none
    | .begin write, s =>
      match s.writes[write]? with
      | some w =>
        if w.status = .pending ∧ w.after.all s.isSettled then some (s.begin write w.work) else none
      | none => none
    | .settle write failed, s =>
      if (s.writes[write]?).any (·.status = .running) then some (s.settle write failed) else none
    | .flushWrites event, s => if s.runs event then some (s.flushWrites event) else none
    | .finishEvent event, s =>
      match s.phase event with
      | some (.flushing pending) =>
        if pending.all s.isSettled then some (s.finishEvent event pending) else none
      | _ => none

end Yurucommu.CallWrites
