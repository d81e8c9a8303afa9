import Yurucommu.CallBusy

/-!
The ICE servers of a callee. The hub sends them before it rings, when the browser has no call yet
that could keep them.
-/

set_option autoImplicit false

namespace Yurucommu.Call

namespace CallClient

def configuration (call : ActiveCall) : List IceServerConfig :=
  call.iceServers.map fun s => ⟨s.urls,s.username,s.credential⟩

/-- The call and the configuration of the connection that an event builds, if it builds one. -/
def built (e : BrowserEvent) (c : CallClient) : List (String × List IceServerConfig) :=
  match (step e c).1.call with
  | none => []
  | some call =>
    if call.pc = none ∨ call.pc = c.call.bind (·.pc) then []
    else [(call.callId,configuration call)]

def builds (c : CallClient) : List BrowserEvent → List (String × List IceServerConfig)
  | [] => []
  | e :: es => built e c ++ builds (step e c).1 es

@[simp] theorem configuration_eq (call : ActiveCall) : configuration call = call.iceServers := by
  unfold configuration
  rw [List.map_id'']
  exact fun _ => rfl

end CallClient

def tabFrames (s t : Store) : List HubToClientFrame :=
  (t.log.drop s.log.length).filterMap Output.toTab

section offer

variable {i : Answer} {envelope : RtcSignalEnvelope} {s : Store} {ref : Nat} {call : CallRecord}

theorem tabFrames_ringing {servers : List IceServerConfig} {focus : Option SfuFocus}
    (hmedia : i.media = some (servers,focus)) (hcall : s.records[ref]? = some call) :
    tabFrames s (ringProvisioned i ref envelope s).1 =
      [.iceServers call.callId servers focus,
        .ringing call.callId call.peerApId call.media] ++
        (if envelope.sdp.getD "" = "" then []
          else [.offer call.callId (envelope.sdp.getD "") call.media]) := by
  unfold tabFrames ringProvisioned offerSdp
  rw [hmedia,hcall]
  cases envelope.sdp with
  | none => simp [Store.emit,Output.toTab]
  | some sdp =>
    by_cases hsdp : sdp = ""
    · simp [Store.emit,Output.toTab,hsdp]
    · simp [Store.emit,Output.toTab,hsdp]

end offer

namespace CallClient

variable {c : CallClient} {callId peer sdp : String} {media : CallMediaKind}
  {servers : List IceServerConfig} {focus : Option SfuFocus}

theorem builds_ring (hc : c.call = none) :
    builds c [.frame (.iceServers callId servers focus),.frame (.ringing callId peer media),
      .accept,.userMedia c.made true] = [(callId,[])] := by
  simp [builds,built,step,onFrame,onRinging,hc,newCall,accept,setupMedia,buildPeerConnection]

theorem builds_offer (hc : c.call = none) :
    builds c [.frame (.iceServers callId servers focus),.frame (.ringing callId peer media),
      .frame (.offer callId sdp media),.accept,.userMedia c.made true] = [(callId,[])] := by
  simp [builds,built,step,onFrame,onRinging,onRemoteOffer,hc,newCall,accept,setupMedia,
    buildPeerConnection]

/-- A client that is in no call and accepts the one that the hub rings it for builds one connection
for it, whose servers are those that the hub sent exactly where it sent none. -/
theorem callee_iceServers_iff {s t : Pool} {p ref : Nat} {i : Answer}
    {envelope : RtcSignalEnvelope} (hstep : machine.step (.act p i) s = some t)
    (hring : s.thread p = .ringing ref envelope)
    (hsent : HubToClientFrame.iceServers callId servers focus ∈ tabFrames s.store t.store)
    (hc : c.call = none) :
    (∃ config, builds c ((tabFrames s.store t.store).map .frame ++
      [.accept,.userMedia c.made true]) = [(callId,config)] ∧ config = servers) ↔
        servers = [] := by
  obtain ⟨_,rfl⟩ := step_handler.mp hstep
  rw [hring] at hsent ⊢
  simp only [work] at hsent ⊢
  cases hmedia : i.media with
  | none =>
    simp [ringProvisioned,hmedia,tabFrames] at hsent
  | some provisioned =>
    obtain ⟨given,sfu⟩ := provisioned
    cases hrecord : s.store.records[ref]? with
    | none => simp [ringProvisioned,hmedia,hrecord,tabFrames] at hsent
    | some call =>
      rw [tabFrames_ringing hmedia hrecord] at hsent ⊢
      have hsame : callId = call.callId ∧ servers = given ∧ focus = sfu := by
        split at hsent
        · simpa using hsent
        · simpa using hsent
      obtain ⟨rfl,rfl,rfl⟩ := hsame
      split
      · change (∃ config, builds c [.frame _,.frame _,.accept,.userMedia c.made true] = _ ∧ _) ↔ _
        rw [builds_ring hc]
        simp [eq_comm]
      · change (∃ config, builds c
          [.frame _,.frame _,.frame _,.accept,.userMedia c.made true] = _ ∧ _) ↔ _
        rw [builds_offer hc]
        simp [eq_comm]

section relayed

def stunServer : IceServerConfig := ⟨["stun:stun.example:3478"],none,none⟩

def provisioning : Answer := { media := some ([stunServer],none) }

/-- The hub sends its server and then rings; the callee's connection has none. -/
theorem callee_without_iceServers :
    start.state = .idle ∧ start.call = none ∧ isEnvelopeFresh bensOffer annsHub.now = true ∧
      HubToClientFrame.iceServers "call-1" [stunServer] none ∈
        offerFrames provisioning bensOffer annsHub ∧
      builds start ((offerFrames provisioning bensOffer annsHub).map .frame) = [("call-1",[])] := by
  decide +kernel

def rungPool : Pool :=
  ⟨(handleInboundSignal provisioning bensOffer annsHub).1,fun _ => .ringing 0 bensOffer⟩

theorem step_rungPool : machine.step (.act 0 provisioning) rungPool =
    some ⟨(ringProvisioned provisioning 0 bensOffer rungPool.store).1,
      Function.update rungPool.thread 0 .done⟩ :=
  step_handler.mpr ⟨by decide,rfl⟩

theorem callee_iceServers_relayed :
    (∃ config, builds start ((tabFrames rungPool.store
        (ringProvisioned provisioning 0 bensOffer rungPool.store).1).map .frame ++
      [.accept,.userMedia start.made true]) = [("call-1",config)] ∧ config = [stunServer]) ↔
        [stunServer] = [] :=
  @callee_iceServers_iff start "call-1" [stunServer] none _ _ _ _ _ _ step_rungPool rfl
    (by decide +kernel) rfl

end relayed

end CallClient

end Yurucommu.Call
