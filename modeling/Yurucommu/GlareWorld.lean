import Yurucommu.CallTerminal
import Yurucommu.GlareProtocol

/-!
Two hubs that may call each other and the envelopes on their way between them: every POST
goes through, and what it carries is handled fresh, once, at any time and in any order.
-/

set_option autoImplicit false

namespace Yurucommu.Glare

open Call

/-- The two actors, the lower one first, and the ids under which they would call. -/
structure Parties where
  actor : Side → String
  callId : Side → String
  ordered : JsString.lt (actor .low) (actor .high) = true
  distinct : callId .low ≠ callId .high

inductive Client where
  | quiet | invited | offered
deriving DecidableEq, Repr

structure Place where
  hub : Store
  handlers : List Handler
  client : Client

structure World where
  low : Place
  high : Place
  flight : List RtcSignalEnvelope
  delivered : List RtcSignalEnvelope

namespace World

def place (w : World) : Side → Place
  | .low => w.low
  | .high => w.high

def setPlace (w : World) (side : Side) (p : Place) : World :=
  match side with
  | .low => { w with low := p }
  | .high => { w with high := p }

@[simp] theorem place_setPlace (w : World) (side : Side) (p : Place) :
    (w.setPlace side p).place side = p := by
  cases side <;> rfl

@[simp] theorem place_setPlace_other (w : World) (side : Side) (p : Place) :
    (w.setPlace side p).place side.other = w.place side.other := by
  cases side <;> rfl

@[simp] theorem flight_setPlace (w : World) (side : Side) (p : Place) :
    (w.setPlace side p).flight = w.flight := by
  cases side <;> rfl

@[simp] theorem delivered_setPlace (w : World) (side : Side) (p : Place) :
    (w.setPlace side p).delivered = w.delivered := by
  cases side <;> rfl

end World

def toPeer : Output → Option RtcSignalEnvelope
  | .sendToPeer envelope => some envelope
  | _ => none

def sent (s t : Store) : List RtcSignalEnvelope := (t.log.drop s.log.length).filterMap toPeer

def Place.act (i : Answer) (h : Handler) (p : Place) : Place :=
  { p with
    hub := (work i 0 p.hub h).1
    handlers := p.handlers ++ [(work i 0 p.hub h).2].filter (· ≠ .done) }

def World.act (i : Answer) (side : Side) (h : Handler) (w : World) : World :=
  { w.setPlace side ((w.place side).act i h) with
    flight := w.flight ++ sent (w.place side).hub (work i 0 (w.place side).hub h).1 }

/-- The frames of a client that neither places nor ends a call. -/
def isPassive : ClientToHubFrame → Bool
  | .hello | .ping | .resume _ | .answer _ _ | .candidates _ _ | .accept _ => true
  | .invite _ _ _ | .offer _ _ | .reject _ _ | .hangup _ _ => false

inductive Event where
  | invite (side : Side) (media : CallMediaKind)
  | offer (side : Side) (sdp : String)
  | frame (side : Side) (frame : ClientToHubFrame)
  | deliver (envelope : RtcSignalEnvelope) (i : Answer)
  | resume (side : Side) (h : Handler) (i : Answer)
  | tick (side : Side)
  | elapse (side : Side) (ms : Nat)
deriving DecidableEq

def setClient (side : Side) (client : Client) (w : World) : World :=
  w.setPlace side { w.place side with client := client }

def setHandlers (side : Side) (handlers : List Handler) (w : World) : World :=
  w.setPlace side { w.place side with handlers := handlers }

def Parties.target (P : Parties) (envelope : RtcSignalEnvelope) : Side :=
  if envelope.to_ = P.actor .low then .low else .high

def take (envelope : RtcSignalEnvelope) (w : World) : World :=
  { w with flight := w.flight.erase envelope, delivered := w.delivered ++ [envelope] }

/-- An envelope is handled fresh, every POST goes through, and no sweep comes so late that
it finds a call timed out. -/
def possible (P : Parties) (w : World) : Event → Bool
  | .invite side _ => (w.place side).client = .quiet
  | .offer side _ => (w.place side).client = .invited
  | .frame _ frame => isPassive frame
  | .deliver envelope _ =>
    envelope ∈ w.flight ∧ isEnvelopeFresh envelope (w.place (P.target envelope)).hub.now = true
  | .resume side h i => h ∈ (w.place side).handlers ∧ i.relayed = true
  | .tick side => (activeCalls (w.place side).hub).all fun call =>
      (timedOut call (w.place side).hub.now).isNone
  | .elapse _ _ => true

def happen (P : Parties) (w : World) : Event → World
  | .invite side media =>
    (setClient side .invited w).act {} side
      (.frame (.invite (P.callId side) (P.actor side.other) media))
  | .offer side sdp => (setClient side .offered w).act {} side (.frame (.offer (P.callId side) sdp))
  | .frame side frame => w.act {} side (.frame frame)
  | .deliver envelope i => (take envelope w).act i (P.target envelope) (.inbound envelope)
  | .resume side h i => (setHandlers side ((w.place side).handlers.erase h) w).act i side h
  | .tick side => w.act {} side .tick
  | .elapse side ms =>
    w.setPlace side { w.place side with hub := elapse ms (w.place side).hub }

def world (P : Parties) : Machine World Event :=
  ⟨fun e w => if possible P w e then some (happen P w e) else none⟩

theorem world_step_iff {P : Parties} {e : Event} {w w' : World} :
    (world P).step e w = some w' ↔ possible P w e = true ∧ w' = happen P w e := by
  simp only [world,Option.ite_none_right_eq_some,Option.some.injEq]
  exact and_congr_right fun _ => eq_comm

def start (P : Parties) (now : Side → Int) : World where
  low := ⟨emptyStore (P.actor .low) (now .low),[],.quiet⟩
  high := ⟨emptyStore (P.actor .high) (now .high),[],.quiet⟩
  flight := []
  delivered := []

/-- Everything has been delivered and handled, and who invited has offered. -/
structure Quiet (w : World) : Prop where
  flight : w.flight = []
  handlers : ∀ side, (w.place side).handlers = []
  client : ∀ side, (w.place side).client ≠ .invited

def Only (callId peer : String) (s : Store) : Prop :=
  ∃ (ref : Nat) (call : CallRecord), s.calls.entries = [(callId,ref)] ∧
    s.records[ref]? = some call ∧ call.peerApId = peer ∧ isTerminalCallState call.state = false

def Converged (P : Parties) (callId : String) (w : World) : Prop :=
  ∀ side, Only callId (P.actor side.other) (w.place side).hub

def isRecorded (callId : String) (s : Store) : Bool := s.records.any fun call => call.callId = callId

/-- How far a hub is with the call that its own client placed. -/
def ownCall (callId : String) (s : Store) : Own :=
  match s.lookup callId with
  | some (_,call) => if call.state = .ringing then .ringing else .answered
  | none => if isRecorded callId s then .gone else .unplaced

def Parties.own (P : Parties) (side : Side) (w : World) : Own :=
  ownCall (P.callId side) (w.place side).hub

/-- The hub has recorded the invite before it handles the offer. The higher side does not
place its call while it holds the lower side's, and hears of that call before its own is
taken up. The lower side hears of the higher side's call before its own is taken up or
before the cancel of that call. -/
def Orderly (P : Parties) (w : World) : Event → Prop
  | .offer side _ => P.own side w ≠ .unplaced
  | .resume .high (.invited _ _ _) i =>
    i.media = none ∨ (w.place .high).hub.lookup (P.callId .low) = none
  | .deliver envelope _ => envelope.type = .offer →
    match P.target envelope with
    | .high => P.own .high w ≠ .answered
    | .low => P.own .low w = .answered → ∀ e ∈ w.delivered, e.type ≠ .cancel
  | _ => True

end Yurucommu.Glare
