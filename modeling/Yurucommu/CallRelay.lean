import Mathlib
import Yurucommu.CallHub
import Yurucommu.Table

/-!
The deferring host of a signaling hub: a turn hydrates the hub from the stored calls, settles the
relays that are past their deadline, and does its work; a relay is prepared as a stored record, and
its result comes back as a later event.
-/

set_option autoImplicit false

namespace Yurucommu.CallRelay

open Call (CallState CallDirection RtcSignalType RtcSignalEnvelope ClientToHubFrame
  isTerminalCallState isEnvelopeFresh)

/-- A stored call; `generation` is its incarnation. -/
structure CallRecord where
  callId : String
  peerApId : String
  direction : CallDirection
  state : CallState
  updatedAt : Int
  connectedAt : Option Int := none
  generation : String
deriving DecidableEq, Repr

inductive Continuation where
  | none | rejected | ended | cancelled | glare
deriving DecidableEq, Repr

/-- A stored relay; `δ` is the type of digests. -/
structure Effect (δ : Type) where
  effectId : String
  callId : String
  generation : String
  deadline : Int
  signalType : RtcSignalType
  continuation : Continuation
  ingressDigest : Option δ
deriving DecidableEq, Repr

inductive Outcome where
  | peerAck | failed
deriving DecidableEq, Repr

structure Result where
  effectId : String
  callId : String
  generation : String
  deadline : Int
  outcome : Outcome
deriving DecidableEq, Repr

/-- What happened when the hub was told of a relay of a call that it has: with which generation of
the call, when, and in which continuation, if it was one. -/
structure Applied (δ : Type) where
  effect : Effect δ
  generation : String
  accepted : Bool
  now : Int
  continued : Option RtcSignalEnvelope
deriving DecidableEq, Repr

/-- The last three fields are history: the ids given out, which ingress each relay was prepared in,
and what the hub was told. -/
structure State (δ : Type) where
  actor : Option String
  calls : List CallRecord
  relays : List (Effect δ)
  now : Int
  used : List String
  origins : List (String × RtcSignalEnvelope)
  applied : List (Applied δ)
deriving DecidableEq, Repr

def callRelayMaxPending : Nat := 64
def callRelayTimeoutMs : Int := 10000

/-- What an event finds outside: the ids that it may use, whether the dispatcher accepts a job and
whether the job is small enough, whether media is provisioned, and the clock at its first look-up
and after it. -/
structure Answer where
  effectId : String
  generation : String
  dispatched : Bool := true
  fits : Bool := true
  media : Bool := true
  early : Int
  now : Int
deriving DecidableEq, Repr

/-- How a handler was reached: from an ingress or its continuation, whose job is answered, or from a
socket or the alarm, whose job is dispatched. -/
structure Lane (δ : Type) where
  ingress : Option RtcSignalEnvelope
  ingressDigest : Option δ
deriving DecidableEq, Repr

section hub

variable {δ : Type}

def getCall (s : State δ) (callId : String) : Option CallRecord :=
  s.calls.find? fun call => call.callId = callId

def CallRecord.moved (call : CallRecord) (state : CallState) (now : Int) : CallRecord :=
  { call with
    state := state
    updatedAt := now
    connectedAt := if state = .connected && !call.connectedAt.any (· ≠ 0) then some now
      else call.connectedAt }

/-- A call that is over is stored no more. -/
def transition (callId : String) (state : CallState) (s : State δ) : State δ :=
  { s with
    calls :=
      if isTerminalCallState state then Table.delete (fun call => call.callId = callId) s.calls
      else
        Table.update (fun call => call.callId = callId) (fun call => call.moved state s.now)
          s.calls }

def addCall (call : CallRecord) (s : State δ) : State δ := { s with calls := s.calls ++ [call] }

def removeRelay (effectId : String) (s : State δ) : State δ :=
  { s with relays := Table.delete (fun e => e.effectId = effectId) s.relays }

/-- `CallRelayJournal.prepare`; `none` is a throw. -/
def prepare (a : Answer) (lane : Lane δ) (call : CallRecord) (type : RtcSignalType)
    (continuation : Continuation) (s : State δ) : Option (State δ) :=
  let deadline := min (s.now + callRelayTimeoutMs) (s.now + Call.defaultTtlMs)
  let effect : Effect δ :=
    ⟨a.effectId,call.callId,call.generation,deadline,type,continuation,lane.ingressDigest⟩
  if deadline ≤ s.now || !a.fits || callRelayMaxPending ≤ s.relays.length then none
  else
    some { s with
      relays := s.relays ++ [effect]
      origins := s.origins ++ lane.ingress.toList.map fun envelope => (a.effectId,envelope) }

/-- `relay` of a deferring hub. -/
def relay (a : Answer) (lane : Lane δ) (call : CallRecord) (type : RtcSignalType)
    (continuation : Continuation) (s : State δ) : State δ :=
  match prepare a lane call type continuation s with
  | none => transition call.callId .failed s
  | some s' =>
    if lane.ingress.isSome || a.dispatched then s'
    else transition call.callId .failed (removeRelay a.effectId s')

def continuationState : Continuation → Option CallState
  | .none => none
  | .rejected => some .rejected
  | .ended => some .ended
  | .cancelled | .glare => some .cancelled

def completeDeferredRelay (e : Effect δ) (accepted : Bool) (continued : Option RtcSignalEnvelope)
    (s : State δ) : State δ :=
  match getCall s e.callId with
  | none => s
  | some call =>
    if call.generation ≠ e.generation then s
    else
      let told := { s with applied := s.applied ++ [⟨e,call.generation,accepted,s.now,continued⟩] }
      if !accepted then transition call.callId .failed told
      else
        match continuationState e.continuation with
        | none => told
        | some state => transition call.callId state told

/-- `if (call.state === "ringing") this.transition(call, "connecting")`. -/
def connect (call : CallRecord) (s : State δ) : State δ :=
  if call.state = .ringing then transition call.callId .connecting s else s

def newCall (a : Answer) (callId peerApId : String) (direction : CallDirection) (s : State δ) :
    CallRecord where
  callId := callId
  peerApId := peerApId
  direction := direction
  state := .ringing
  updatedAt := s.now
  generation := a.generation

def handleClientFrame (a : Answer) (frame : ClientToHubFrame) (s : State δ) : State δ :=
  let lane : Lane δ := ⟨none,none⟩
  match frame with
  | .hello | .ping | .resume _ => s
  | .invite callId to_ _ =>
    if (getCall s callId).isSome || !a.media then s
    else addCall (newCall a callId to_ .outgoing s) s
  | .offer callId _ =>
    match getCall s callId with
    | none => s
    | some call => relay a lane call .offer .none s
  | .answer callId _ =>
    match getCall s callId with
    | none => s
    | some call => relay a lane call .answer .none (connect call s)
  | .candidates callId candidates =>
    match getCall s callId with
    | none => s
    | some call => if candidates = [] then s else relay a lane call .candidate .none s
  | .accept callId =>
    match getCall s callId with
    | none => s
    | some call => relay a lane call .accept .none (connect call s)
  | .reject callId _ =>
    match getCall s callId with
    | none => s
    | some call => relay a lane call .reject .rejected s
  | .hangup callId _ =>
    match getCall s callId with
    | none => s
    | some call =>
      if call.state = .connected then relay a lane call .hangup .ended s
      else relay a lane call .cancel .cancelled s

def outgoingToPeer (peer : String) (s : State δ) : Option CallRecord :=
  s.calls.find? fun call =>
    call.direction = .outgoing && call.peerApId = peer && call.state = .ringing

def onPeerOffer (a : Answer) (lane : Lane δ) (localActorApId : String)
    (envelope : RtcSignalEnvelope) (s : State δ) : State δ :=
  match getCall s envelope.callId with
  | some _ => s
  | none =>
    match outgoingToPeer envelope.from_ s with
    | none => addCall (newCall a envelope.callId envelope.from_ .incoming s) s
    | some call =>
      if JsString.lt envelope.from_ localActorApId then relay a lane call .cancel .glare s else s

def handleInboundSignal (a : Answer) (lane : Lane δ) (localActorApId : String)
    (envelope : RtcSignalEnvelope) (s : State δ) : State δ :=
  if !isEnvelopeFresh envelope s.now then s
  else
    match envelope.type with
    | .offer => onPeerOffer a lane localActorApId envelope s
    | .answer =>
      match getCall s envelope.callId with
      | none => s
      | some call => if envelope.sdp.all (· = "") then s else connect call s
    | .candidate => s
    | .accept =>
      match getCall s envelope.callId with
      | none => s
      | some call => connect call s
    | .reject =>
      match getCall s envelope.callId with
      | none => s
      | some call => transition call.callId .rejected s
    | .hangup | .cancel =>
      match getCall s envelope.callId with
      | none => s
      | some call =>
        transition call.callId (if call.connectedAt.any (· ≠ 0) then .ended else .cancelled) s

def expire (s : State δ) (call : CallRecord) : State δ :=
  let age := s.now - call.updatedAt
  if call.state = .ringing && Call.ringingTimeoutMs < age then
    transition call.callId (if call.direction = .incoming then .missed else .cancelled) s
  else if call.state = .connecting && Call.connectingTimeoutMs < age then
    transition call.callId .failed s
  else s

def tick (s : State δ) : State δ := s.calls.foldl expire s

end hub

inductive Event where
  | bind (actor : String)
  | frame (frame : ClientToHubFrame)
  | ingest (envelope : RtcSignalEnvelope)
  | relayResult (result : Result)
  | continuation (result : Result) (envelope : RtcSignalEnvelope)
  | alarm
deriving DecidableEq, Repr

section runtime

variable {δ : Type} [DecidableEq δ] (digest : RtcSignalEnvelope → δ)

def lookup (s : State δ) (early : Int) (result : Result) : Option (Effect δ) :=
  (s.relays.find? fun e => e.effectId = result.effectId).filter fun e =>
    e.callId = result.callId && e.generation = result.generation &&
      e.deadline = result.deadline && early < e.deadline

def bindActor (actor : String) (s : State δ) : State δ :=
  if s.actor.isSome then s else { s with actor := some actor }

def settle (s : State δ) (e : Effect δ) : State δ :=
  removeRelay e.effectId (completeDeferredRelay e false none s)

def due (s : State δ) : List (Effect δ) :=
  (s.relays.filter fun e => e.deadline ≤ s.now).insertionSort fun e f => e.effectId ≤ f.effectId

def sweep (s : State δ) : State δ := (due s).foldl settle s

def hydrate (s : State δ) : State δ :=
  { s with calls := s.calls.insertionSort fun call other => call.callId ≤ other.callId }

/-- Without an actor there is no hub. -/
def withHub (work : String → State δ → State δ) (s : State δ) : State δ :=
  match s.actor with
  | none => s
  | some actor => work actor (sweep (hydrate s))

/-- The work of a result or a continuation, and the removal of its record. -/
def completeRelay (a : Answer) (e : Effect δ) (outcome : Outcome)
    (envelope : Option RtcSignalEnvelope) (s : State δ) : State δ :=
  removeRelay e.effectId
    (withHub (fun actor s =>
      match getCall s e.callId with
      | none => s
      | some call =>
        if call.generation ≠ e.generation then s
        else
          let completed := completeDeferredRelay e (outcome = .peerAck) envelope s
          match envelope with
          | none => completed
          | some envelope =>
            if outcome = .peerAck then
              handleInboundSignal a ⟨some envelope,e.ingressDigest⟩ actor envelope completed
            else completed) s)

def admitted (s : State δ) (early : Int) : Event → Option (Effect δ)
  | .relayResult result => (lookup s early result).filter (·.continuation ≠ .glare)
  | .continuation result envelope => (lookup s early result).filter fun e =>
      e.continuation = .glare && e.ingressDigest = some (digest envelope) &&
        s.actor = some envelope.to_
  | _ => none

def handle (a : Answer) (event : Event) (s : State δ) : State δ :=
  match event with
  | .bind actor => bindActor actor s
  | .frame frame => withHub (fun _ => handleClientFrame a frame) s
  | .ingest envelope =>
    let bound := bindActor envelope.to_ s
    if bound.actor ≠ some envelope.to_ then bound
    else
      withHub (fun actor =>
        handleInboundSignal a ⟨some envelope,some (digest envelope)⟩ actor envelope) bound
  | .relayResult result =>
    match admitted digest s a.early (.relayResult result) with
    | none => s
    | some e => completeRelay a e result.outcome none s
  | .continuation result envelope =>
    match admitted digest s a.early (.continuation result envelope) with
    | none => s
    | some e => completeRelay a e result.outcome (some envelope) s
  | .alarm => withHub (fun _ => tick) s

def possible (a : Answer) (s : State δ) : Bool :=
  !s.used.contains a.effectId && !s.used.contains a.generation && a.effectId ≠ a.generation &&
    s.now ≤ a.early && a.early ≤ a.now

def arrive (a : Answer) (s : State δ) : State δ :=
  { s with now := a.now, used := a.effectId :: a.generation :: s.used }

def machine : Machine (State δ) (Event × Answer) where
  step l s := if possible l.2 s then some (handle digest l.2 l.1 (arrive l.2 s)) else none

def empty (now : Int) : State δ := ⟨none,[],[],now,[],[],[]⟩

end runtime

end Yurucommu.CallRelay
