import Yurucommu.CallHub

/-!
The browser's end of a call. Call objects and peer connections are numbered, so that what
comes back from an await can be for one that is no longer active. What only the peer
connection sees (remote candidates, tracks) is left out.
-/

set_option autoImplicit false

namespace Yurucommu.Call

inductive CallUiState where
  | idle | calling | incoming | connecting | connected | ended
deriving DecidableEq, Repr

inductive Role where
  | caller | callee
deriving DecidableEq, Repr

inductive PeerConnectionState where
  | new | connecting | connected | disconnected | failed | closed
deriving DecidableEq, Repr

structure ActiveCall where
  id : Nat
  callId : String
  peer : String
  media : CallMediaKind
  role : Role
  pc : Option Nat
  iceServers : List IceServerConfig
  remoteDescriptionSet : Bool
deriving DecidableEq, Repr

/-- `made` counts the call objects and peer connections made so far. -/
structure CallClient where
  state : CallUiState
  call : Option ActiveCall
  localStream : Bool
  made : Nat
deriving DecidableEq, Repr

/-- What the user does, what the browser reports, and what the hub sends. -/
inductive BrowserEvent where
  | started (callId peer : String) (media : CallMediaKind) (iceServers : List IceServerConfig)
  | userMedia (call : Nat) (granted : Bool)
  | localOffer (call pc : Nat) (sdp : String)
  | localAnswer (call pc : Nat) (sdp : String)
  | remoteDescription (call : Nat)
  | candidates (call : Nat) (candidates : List CallIceCandidate)
  | connectionState (call pc : Nat) (state : PeerConnectionState)
  | accept
  | reject (reason : String)
  | hangup (reason : String)
  | idle
  | frame (frame : HubToClientFrame)
deriving DecidableEq, Repr

namespace CallClient

def start : CallClient := ⟨.idle,none,false,0⟩

def newCall (c : CallClient) (callId peer : String) (media : CallMediaKind) (role : Role)
    (iceServers : List IceServerConfig) : ActiveCall where
  id := c.made
  callId := callId
  peer := peer
  media := media
  role := role
  pc := none
  iceServers := iceServers
  remoteDescriptionSet := false

def teardown (finalState : CallUiState) (c : CallClient) : CallClient :=
  { c with state := finalState, call := none, localStream := false }

/-- `call.pc`, built if there is none. -/
def buildPeerConnection (call : ActiveCall) (c : CallClient) : CallClient :=
  match call.pc with
  | some _ => { c with call := some call }
  | none => { c with call := some { call with pc := some c.made }, made := c.made + 1 }

def isActivePeer (c : CallClient) (id pc : Nat) : Bool :=
  c.call.any fun call => call.id = id && call.pc = some pc

def reject (reason : String) (c : CallClient) : CallClient × List ClientToHubFrame :=
  match c.call with
  | none => (c, [])
  | some call => (teardown .ended c, [.reject call.callId (some reason)])

def hangup (reason : String) (c : CallClient) : CallClient × List ClientToHubFrame :=
  match c.call with
  | none => (c, [])
  | some call => (teardown .ended c, [.hangup call.callId (some reason)])

def startCall (callId peer : String) (media : CallMediaKind)
    (iceServers : List IceServerConfig) (c : CallClient) :
    CallClient × List ClientToHubFrame :=
  ({ c with
    call := some (c.newCall callId peer media .caller iceServers)
    made := c.made + 1
    state := .calling }, [.invite callId peer media])

def accept (c : CallClient) : CallClient × List ClientToHubFrame :=
  match c.call with
  | none => (c, [])
  | some call =>
    if call.role = .callee then ({ c with state := .connecting }, [.accept call.callId])
    else (c, [])

def setupMedia (id : Nat) (granted : Bool) (c : CallClient) :
    CallClient × List ClientToHubFrame :=
  match c.call with
  | none => (c, [])
  | some call =>
    if call.id = id then
      if granted then ({ buildPeerConnection call c with localStream := true }, [])
      else hangup "media_denied" c
    else (c, [])

def makeOffer (id pc : Nat) (sdp : String) (c : CallClient) :
    CallClient × List ClientToHubFrame :=
  match c.call with
  | none => (c, [])
  | some call =>
    if call.role = .caller ∧ c.isActivePeer id pc = true then (c, [.offer call.callId sdp])
    else (c, [])

def makeAnswer (id pc : Nat) (sdp : String) (c : CallClient) :
    CallClient × List ClientToHubFrame :=
  match c.call with
  | none => (c, [])
  | some call =>
    if call.role = .callee ∧ call.remoteDescriptionSet = true ∧ c.isActivePeer id pc = true then
      (c, [.answer call.callId sdp])
    else (c, [])

def flushCandidates (id : Nat) (candidates : List CallIceCandidate) (c : CallClient) :
    CallClient × List ClientToHubFrame :=
  match c.call with
  | none => (c, [])
  | some call =>
    if call.id = id ∧ candidates ≠ [] then (c, [.candidates call.callId candidates]) else (c, [])

def onConnectionStateChange (id pc : Nat) (state : PeerConnectionState) (c : CallClient) :
    CallClient :=
  if c.isActivePeer id pc then
    match state with
    | .connected => { c with state := .connected }
    | .failed | .closed => teardown .ended c
    | .new | .connecting | .disconnected => c
  else c

def onRinging (callId from_ : String) (media : CallMediaKind) (c : CallClient) :
    CallClient × List ClientToHubFrame :=
  match c.call with
  | some _ => (c, [.reject callId (some "busy")])
  | none =>
    ({ c with
      call := some (c.newCall callId from_ media .callee [])
      made := c.made + 1
      state := .incoming }, [])

/-- Up to the await of `setRemoteDescription`. -/
def onRemoteOffer (callId : String) (media : CallMediaKind) (c : CallClient) : CallClient :=
  match c.call with
  | some call =>
    if call.callId = callId then buildPeerConnection call c
    else
      buildPeerConnection (c.newCall callId "unknown" media .callee [])
        { c with made := c.made + 1, state := .incoming }
  | none =>
    buildPeerConnection (c.newCall callId "unknown" media .callee [])
      { c with made := c.made + 1, state := .incoming }

def onCallState (callId : String) (state : CallState) (c : CallClient) : CallClient :=
  match c.call with
  | none => c
  | some call =>
    if call.callId = callId ∧ isTerminalCallState state = true then teardown .ended c else c

def onFrame (frame : HubToClientFrame) (c : CallClient) : CallClient × List ClientToHubFrame :=
  match frame with
  | .ready | .pong => (c, [])
  | .ringing callId from_ media => onRinging callId from_ media c
  | .iceServers callId servers _ =>
    ({ c with call := c.call.map fun call =>
      if call.callId = callId then { call with iceServers := servers } else call }, [])
  | .offer callId _ media => (onRemoteOffer callId media c, [])
  | .answer _ _ | .candidates _ _ => (c, [])
  | .peerAccepted _ => (if c.state = .calling then { c with state := .connecting } else c, [])
  | .peerRejected _ _ | .peerHangup _ _ => (teardown .ended c, [])
  | .callState callId state => (onCallState callId state c, [])
  | .error code _ => (if code = "peer_unreachable" then teardown .ended c else c, [])

def step (e : BrowserEvent) (c : CallClient) : CallClient × List ClientToHubFrame :=
  match e with
  | .started callId peer media iceServers => startCall callId peer media iceServers c
  | .userMedia call granted => setupMedia call granted c
  | .localOffer call pc sdp => makeOffer call pc sdp c
  | .localAnswer call pc sdp => makeAnswer call pc sdp c
  | .remoteDescription id =>
    ({ c with call := c.call.map fun call =>
      if call.id = id then { call with remoteDescriptionSet := true } else call }, [])
  | .candidates call candidates => flushCandidates call candidates c
  | .connectionState call pc state => (onConnectionStateChange call pc state c, [])
  | .accept => accept c
  | .reject reason => reject reason c
  | .hangup reason => hangup reason c
  | .idle => (if c.call = none ∧ c.state = .ended then { c with state := .idle } else c, [])
  | .frame frame => onFrame frame c

end CallClient

end Yurucommu.Call
