import Yurucommu.Machine
import Yurucommu.JsMap
import Yurucommu.JsString

/-!
The signaling hub of one local actor. Call records are objects that the map and the
suspended handlers share, so the store has a heap of them; a handler takes one step from
each await to the next. The hub's host delivers peer envelopes itself (no deferred relay).
-/

set_option autoImplicit false

namespace Yurucommu.Call

structure CallMediaKind where
  audio : Bool
  video : Bool
deriving DecidableEq, Repr

structure SfuFocus where
  kind : String
  url : String
  token : Option String
  room : Option String
deriving DecidableEq, Repr

structure IceServerConfig where
  urls : List String
  username : Option String
  credential : Option String
deriving DecidableEq, Repr

structure CallIceCandidate where
  candidate : String
  sdpMid : Option String
  sdpMLineIndex : Option Nat
  usernameFragment : Option String
deriving DecidableEq, Repr

inductive CallState where
  | idle | ringing | connecting | connected | ended | rejected | missed | failed | cancelled
deriving DecidableEq, Repr

inductive CallDirection where
  | incoming | outgoing
deriving DecidableEq, Repr

def isTerminalCallState : CallState → Bool
  | .ended | .rejected | .missed | .failed | .cancelled => true
  | .idle | .ringing | .connecting | .connected => false

abbrev TerminalCallState := { state : CallState // isTerminalCallState state = true }

inductive RtcSignalType where
  | offer | answer | candidate | accept | reject | hangup | cancel
deriving DecidableEq, Repr

structure RtcSignalEnvelope where
  callId : String
  from_ : String
  to_ : String
  type : RtcSignalType
  media : Option CallMediaKind
  sdp : Option String
  candidates : Option (List CallIceCandidate)
  sfuFocus : Option SfuFocus
  reason : Option String
  ts : Int
  ttlMs : Int
deriving DecidableEq, Repr

inductive ClientToHubFrame where
  | hello
  | invite (callId to_ : String) (media : CallMediaKind)
  | offer (callId sdp : String)
  | answer (callId sdp : String)
  | candidates (callId : String) (candidates : List CallIceCandidate)
  | accept (callId : String)
  | reject (callId : String) (reason : Option String)
  | hangup (callId : String) (reason : Option String)
  | resume (callId : String)
  | ping
deriving DecidableEq, Repr

inductive HubToClientFrame where
  | ready
  | ringing (callId from_ : String) (media : CallMediaKind)
  | offer (callId sdp : String) (media : CallMediaKind)
  | answer (callId sdp : String)
  | candidates (callId : String) (candidates : List CallIceCandidate)
  | peerAccepted (callId : String)
  | peerRejected (callId : String) (reason : Option String)
  | peerHangup (callId : String) (reason : Option String)
  | iceServers (callId : String) (servers : List IceServerConfig) (sfuFocus : Option SfuFocus)
  | callState (callId : String) (state : CallState)
  | pong
  | error (code message : String)
deriving DecidableEq, Repr

structure CallRecord where
  callId : String
  peerApId : String
  direction : CallDirection
  state : CallState
  media : CallMediaKind
  sfuFocus : Option SfuFocus
  createdAt : Int
  updatedAt : Int
  connectedAt : Option Int
deriving DecidableEq, Repr

/-- `Boolean(call.connectedAt)`: a time of zero counts as none. -/
def CallRecord.wasConnected (call : CallRecord) : Bool := call.connectedAt.any (· ≠ 0)

/-- What the hub does through its port. `call` is the record it is done for. -/
inductive Output where
  | persist (call : Nat) (record : CallRecord)
  | broadcast (call : Option Nat) (frame : HubToClientFrame)
  | send (frame : HubToClientFrame)
  | sendToPeer (envelope : RtcSignalEnvelope)
  | ring (envelope : RtcSignalEnvelope)
deriving DecidableEq, Repr

/-- `calls` maps a call id to a place in the heap of `records`. -/
structure Store where
  localActorApId : String
  now : Int
  records : List CallRecord
  calls : JsMap String Nat
  log : List Output
deriving DecidableEq

def ringingTimeoutMs : Int := 45000
def connectingTimeoutMs : Int := 40000
def defaultTtlMs : Int := 30000

def isEnvelopeFresh (envelope : RtcSignalEnvelope) (now : Int) : Bool :=
  !(30000 < envelope.ts - now) && now - envelope.ts ≤ envelope.ttlMs

def Store.emit (s : Store) (output : Output) : Store := { s with log := s.log ++ [output] }

def Store.lookup (s : Store) (callId : String) : Option (Nat × CallRecord) :=
  (s.calls.get callId).bind fun ref => (s.records[ref]?).map fun call => (ref,call)

def CallRecord.moved (call : CallRecord) (state : CallState) (now : Int) : CallRecord :=
  { call with
    state := state
    updatedAt := now
    connectedAt := if state = .connected ∧ !call.wasConnected then some now
      else call.connectedAt }

def transition (ref : Nat) (state : CallState) (s : Store) : Store :=
  match s.records[ref]? with
  | none => s
  | some call =>
    { s with
      records := s.records.set ref (call.moved state s.now)
      calls := if isTerminalCallState state then s.calls.delete call.callId else s.calls
      log := s.log ++ [.persist ref (call.moved state s.now),
        .broadcast (some ref) (.callState call.callId state)] }

def makeEnvelope (s : Store) (call : CallRecord) (type : RtcSignalType) : RtcSignalEnvelope where
  callId := call.callId
  from_ := s.localActorApId
  to_ := call.peerApId
  type := type
  media := none
  sdp := none
  candidates := none
  sfuFocus := none
  reason := none
  ts := s.now
  ttlMs := defaultTtlMs

/-- The part of a handler that is left after its next await. -/
inductive Handler where
  | frame (frame : ClientToHubFrame)
  | inbound (envelope : RtcSignalEnvelope)
  | markConnected (callId : String)
  | tick
  | invited (callId to_ : String) (media : CallMediaKind)
  | relaying (call : Nat) (ends : Option TerminalCallState)
  | glare (call : Nat) (envelope : RtcSignalEnvelope)
  | ringing (call : Nat) (envelope : RtcSignalEnvelope)
  | done
deriving DecidableEq

/-- What the port answers: the media provisioned (or none, when that threw), whether a
POST went through, whether a browser tab is connected. -/
structure Answer where
  media : Option (List IceServerConfig × Option SfuFocus) := some ([],none)
  relayed : Bool := true
  hasClients : Bool := true
deriving DecidableEq, Repr

/-- Until the POST of `relay` settles. -/
def relay (ref : Nat) (envelope : RtcSignalEnvelope) (ends : Option TerminalCallState)
    (s : Store) : Store × Handler :=
  (s.emit (.sendToPeer envelope), .relaying ref ends)

def relayFailed (ref : Nat) (s : Store) : Store :=
  transition ref .failed (s.emit (.broadcast none
    (.error "peer_unreachable" "Could not reach the other party's server.")))

def activeCalls (s : Store) : List CallRecord :=
  (s.calls.values.filterMap fun ref => s.records[ref]?).filter
    fun call => !isTerminalCallState call.state

def addCall (call : CallRecord) (s : Store) : Store :=
  { s with
    records := s.records ++ [call]
    calls := s.calls.set call.callId s.records.length
    log := s.log ++ [.persist s.records.length call] }

def newCall (s : Store) (callId peerApId : String) (direction : CallDirection)
    (media : CallMediaKind) (sfuFocus : Option SfuFocus) : CallRecord where
  callId := callId
  peerApId := peerApId
  direction := direction
  state := .ringing
  media := media
  sfuFocus := sfuFocus
  createdAt := s.now
  updatedAt := s.now
  connectedAt := none

def onClientInvite (callId to_ : String) (media : CallMediaKind) (s : Store) : Store × Handler :=
  if s.calls.has callId then (s, .done) else (s, .invited callId to_ media)

/-- The rest of `onClientInvite`, after `provisionMedia`. -/
def inviteProvisioned (i : Answer) (callId to_ : String) (media : CallMediaKind) (s : Store) :
    Store × Handler :=
  match i.media with
  | none => (s, .done)
  | some (iceServers,sfuFocus) =>
    let ref := s.records.length
    let added := addCall (newCall s callId to_ .outgoing media sfuFocus) s
    ((added.emit (.send (.iceServers callId iceServers sfuFocus))).emit
      (.broadcast (some ref) (.callState callId .ringing)), .done)

/-- `if (call.state === "ringing") this.transition(call, "connecting")`. -/
def connect (ref : Nat) (call : CallRecord) (s : Store) : Store :=
  if call.state = .ringing then transition ref .connecting s else s

def onClientFrame (frame : ClientToHubFrame) (s : Store) : Store × Handler :=
  match frame with
  | .hello =>
    ((activeCalls s).foldl (fun s call => s.emit (.send (.callState call.callId call.state)))
      (s.emit (.send .ready)), .done)
  | .ping => (s.emit (.send .pong), .done)
  | .invite callId to_ media => onClientInvite callId to_ media s
  | .offer callId sdp =>
    match s.lookup callId with
    | none => (s, .done)
    | some (ref,call) =>
      relay ref { makeEnvelope s call .offer with sdp := some sdp, media := some call.media } none s
  | .answer callId sdp =>
    match s.lookup callId with
    | none => (s, .done)
    | some (ref,call) =>
      relay ref { makeEnvelope s call .answer with sdp := some sdp } none (connect ref call s)
  | .candidates callId candidates =>
    match s.lookup callId with
    | none => (s, .done)
    | some (ref,call) =>
      if candidates = [] then (s, .done)
      else relay ref { makeEnvelope s call .candidate with candidates := some candidates } none s
  | .accept callId =>
    match s.lookup callId with
    | none => (s, .done)
    | some (ref,call) => relay ref (makeEnvelope s call .accept) none (connect ref call s)
  | .reject callId reason =>
    match s.lookup callId with
    | none => (s, .done)
    | some (ref,call) =>
      relay ref { makeEnvelope s call .reject with reason := reason } (some ⟨.rejected,rfl⟩) s
  | .hangup callId reason =>
    match s.lookup callId with
    | none => (s, .done)
    | some (ref,call) =>
      if call.state = .connected then
        relay ref { makeEnvelope s call .hangup with reason := reason } (some ⟨.ended,rfl⟩) s
      else
        relay ref { makeEnvelope s call .cancel with reason := reason } (some ⟨.cancelled,rfl⟩) s
  | .resume callId =>
    let state := match s.lookup callId with
      | none => .ended
      | some (_,call) => call.state
    (s.emit (.send (.callState callId state)), .done)

/-- The outgoing call to `peer` that is still ringing, the oldest in the map. -/
def outgoingToPeer (peer : String) (s : Store) : Option (Nat × CallRecord) :=
  (s.calls.values.filterMap fun ref => (s.records[ref]?).map fun call => (ref,call)).find?
    fun call => call.2.direction = .outgoing ∧ call.2.peerApId = peer ∧ call.2.state = .ringing

def offerSdp (ref : Nat) (call : CallRecord) (envelope : RtcSignalEnvelope) (s : Store) : Store :=
  match envelope.sdp with
  | none => s
  | some sdp =>
    if sdp = "" then s else s.emit (.broadcast (some ref) (.offer call.callId sdp call.media))

/-- `onPeerOffer` from the ring on, up to `provisionMedia` if a tab is connected. -/
def ringCall (i : Answer) (ref : Nat) (call : CallRecord) (envelope : RtcSignalEnvelope)
    (s : Store) : Store × Handler :=
  if i.hasClients then (s.emit (.ring envelope), .ringing ref envelope)
  else (offerSdp ref call envelope (s.emit (.ring envelope)), .done)

/-- `onPeerOffer` for a call the hub has no record of. -/
def ringNewCall (i : Answer) (envelope : RtcSignalEnvelope) (s : Store) : Store × Handler :=
  let call := newCall s envelope.callId envelope.from_ .incoming
    (envelope.media.getD ⟨true,false⟩) envelope.sfuFocus
  ringCall i s.records.length call envelope (addCall call s)

def onPeerOffer (i : Answer) (envelope : RtcSignalEnvelope) (s : Store) : Store × Handler :=
  match s.lookup envelope.callId with
  | some (ref,call) => ringCall i ref call envelope s
  | none =>
    match outgoingToPeer envelope.from_ s with
    | none => ringNewCall i envelope s
    | some (ref,call) =>
      if JsString.lt envelope.from_ s.localActorApId then
        (s.emit (.sendToPeer { makeEnvelope s call .cancel with reason := some "glare" }),
          .glare ref envelope)
      else (s, .done)

def glareRelayed (i : Answer) (ref : Nat) (envelope : RtcSignalEnvelope) (s : Store) :
    Store × Handler :=
  if i.relayed then ringNewCall i envelope (transition ref .cancelled s)
  else (relayFailed ref s, .done)

/-- The rest of `onPeerOffer`, after `provisionMedia`. -/
def ringProvisioned (i : Answer) (ref : Nat) (envelope : RtcSignalEnvelope) (s : Store) :
    Store × Handler :=
  match i.media, s.records[ref]? with
  | some (iceServers,sfuFocus), some call =>
    (offerSdp ref call envelope
      ((s.emit (.broadcast (some ref) (.iceServers call.callId iceServers sfuFocus))).emit
        (.broadcast (some ref) (.ringing call.callId call.peerApId call.media))), .done)
  | _, _ => (s, .done)

def onPeerAnswer (envelope : RtcSignalEnvelope) (s : Store) : Store :=
  match s.lookup envelope.callId, envelope.sdp with
  | some (ref,call), some sdp =>
    if sdp = "" then s
    else (connect ref call s).emit (.broadcast (some ref) (.answer call.callId sdp))
  | _, _ => s

def onPeerCandidate (envelope : RtcSignalEnvelope) (s : Store) : Store :=
  match s.lookup envelope.callId, envelope.candidates with
  | some (ref,call), some candidates =>
    if candidates = [] then s
    else s.emit (.broadcast (some ref) (.candidates call.callId candidates))
  | _, _ => s

def onPeerAccept (envelope : RtcSignalEnvelope) (s : Store) : Store :=
  match s.lookup envelope.callId with
  | none => s
  | some (ref,call) =>
    (connect ref call s).emit (.broadcast (some ref) (.peerAccepted call.callId))

def onPeerReject (envelope : RtcSignalEnvelope) (s : Store) : Store :=
  match s.lookup envelope.callId with
  | none => s
  | some (ref,call) =>
    transition ref .rejected
      (s.emit (.broadcast (some ref) (.peerRejected call.callId envelope.reason)))

def onPeerHangup (envelope : RtcSignalEnvelope) (s : Store) : Store :=
  match s.lookup envelope.callId with
  | none => s
  | some (ref,call) =>
    transition ref (if call.wasConnected then .ended else .cancelled)
      (s.emit (.broadcast (some ref) (.peerHangup call.callId envelope.reason)))

def handleInboundSignal (i : Answer) (envelope : RtcSignalEnvelope) (s : Store) :
    Store × Handler :=
  if isEnvelopeFresh envelope s.now then
    match envelope.type with
    | .offer => onPeerOffer i envelope s
    | .answer => (onPeerAnswer envelope s, .done)
    | .candidate => (onPeerCandidate envelope s, .done)
    | .accept => (onPeerAccept envelope s, .done)
    | .reject => (onPeerReject envelope s, .done)
    | .hangup | .cancel => (onPeerHangup envelope s, .done)
  else (s, .done)

def markConnected (callId : String) (s : Store) : Store :=
  match s.lookup callId with
  | none => s
  | some (ref,call) => if call.state = .connected then s else transition ref .connected s

/-- The state `tick` moves a call of this age to, if it has timed out. -/
def timedOut (call : CallRecord) (now : Int) : Option TerminalCallState :=
  if call.state = .ringing ∧ ringingTimeoutMs < now - call.updatedAt then
    some (if call.direction = .incoming then ⟨.missed,rfl⟩ else ⟨.cancelled,rfl⟩)
  else if call.state = .connecting ∧ connectingTimeoutMs < now - call.updatedAt then
    some ⟨.failed,rfl⟩
  else none

def tickCall (now : Int) (s : Store) (ref : Nat) : Store :=
  match s.records[ref]? with
  | none => s
  | some call =>
    match timedOut call now with
    | none => s
    | some state => transition ref state s

def tick (s : Store) : Store := s.calls.values.foldl (tickCall s.now) s

def work (i : Answer) (_ : Nat) (s : Store) : Handler → Store × Handler
  | .frame frame => onClientFrame frame s
  | .inbound envelope => handleInboundSignal i envelope s
  | .markConnected callId => (markConnected callId s, .done)
  | .tick => (tick s, .done)
  | .invited callId to_ media => inviteProvisioned i callId to_ media s
  | .relaying ref ends =>
    if i.relayed then
      match ends with
      | some state => (transition ref state s, .done)
      | none => (s, .done)
    else (relayFailed ref s, .done)
  | .glare ref envelope => glareRelayed i ref envelope s
  | .ringing ref envelope => ringProvisioned i ref envelope s
  | .done => (s, .done)

def allowed (_ : Answer) (_ : Store) (h : Handler) : Bool := h != .done

def elapse (ms : Nat) (s : Store) : Store := { s with now := s.now + ms }

def threads : Threads Store Handler Answer Nat := .guarded allowed work (fun _ _ => true) elapse

abbrev Pool := Threads.Pool Store Handler

abbrev Label := Threads.Label Answer Nat

abbrev machine : Machine Pool Label := threads.machine

/-- What the hub is called with: a parsed browser frame, an envelope, the promotion of a call, an
alarm. -/
inductive Handler.Entry : Handler → Prop where
  | frame (frame : ClientToHubFrame) : Handler.Entry (.frame frame)
  | inbound (envelope : RtcSignalEnvelope) : Handler.Entry (.inbound envelope)
  | markConnected (callId : String) : Handler.Entry (.markConnected callId)
  | tick : Handler.Entry .tick

def emptyStore (localActorApId : String) (now : Int) : Store where
  localActorApId := localActorApId
  now := now
  records := []
  calls := .empty
  log := []

def hydrate (records : List CallRecord) (s : Store) : Store :=
  records.foldl (fun s call =>
    if isTerminalCallState call.state then s
    else { s with
      records := s.records ++ [call]
      calls := s.calls.set call.callId s.records.length }) s

/-- A hub that has just been loaded, and handlers still to come. -/
def Start (s : Pool) : Prop :=
  (∃ localActorApId now records, s.store = hydrate records (emptyStore localActorApId now)) ∧
    ∀ p, (s.thread p).Entry

theorem step_handler {p : Nat} {i : Answer} {s t : Pool} :
    machine.step (.act p i) s = some t ↔
      s.thread p ≠ .done ∧
      t = ⟨(work i p s.store (s.thread p)).1,
        Function.update s.thread p (work i p s.store (s.thread p)).2⟩ := by
  rw [machine,threads,Threads.guarded_step_act]
  simp only [allowed,bne_iff_ne]

theorem step_elapse {ms : Nat} {s t : Pool} :
    machine.step (.env ms) s = some t ↔ t = ⟨elapse ms s.store,s.thread⟩ := by
  rw [machine,threads,Threads.guarded_step_env]
  simp only [true_and]

end Yurucommu.Call
