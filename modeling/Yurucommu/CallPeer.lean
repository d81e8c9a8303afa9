import Yurucommu.CallTerminal

/-!
Who drives a call: `handleInboundSignal` finds the record by the call id alone, and only
the envelopes that carry nothing leave the call of another peer as it was.
-/

set_option autoImplicit false

namespace Yurucommu.Call

def HubToClientFrame.callId? : HubToClientFrame → Option String
  | .ringing callId _ _ | .offer callId _ _ | .answer callId _ | .candidates callId _
  | .peerAccepted callId | .peerRejected callId _ | .peerHangup callId _
  | .iceServers callId _ _ | .callState callId _ => some callId
  | .ready | .pong | .error _ _ => none

def Output.broadcastFor (callId : String) : Output → Prop
  | .broadcast _ frame => frame.callId? = some callId
  | _ => False

/-- From `s` to `t` the records and the map stay and no tab hears of `callId`. -/
structure Leaves (callId : String) (s t : Store) : Prop where
  records : t.records = s.records
  calls : t.calls = s.calls
  silent : ∃ new, t.log = s.log ++ new ∧ ∀ o ∈ new, ¬o.broadcastFor callId

def Foreign (callId : String) (s : Store) : Handler → Prop
  | .inbound envelope =>
    envelope.callId = callId ∧ isEnvelopeFresh envelope s.now = true ∧
      ∃ ref call, s.lookup callId = some (ref,call) ∧ call.peerApId ≠ envelope.from_
  | .ringing ref envelope =>
    ∃ call : CallRecord, s.records[ref]? = some call ∧ call.callId = callId ∧
      call.peerApId ≠ envelope.from_
  | _ => False

def Harmless (i : Answer) : Handler → Prop
  | .inbound envelope =>
    match envelope.type with
    | .offer => i.hasClients = true ∨ envelope.sdp.getD "" = ""
    | .answer => envelope.sdp.getD "" = ""
    | .candidate => envelope.candidates.getD [] = []
    | .accept | .reject | .hangup | .cancel => False
  | .ringing _ _ => i.media = none
  | _ => True

theorem Leaves.refl (callId : String) (s : Store) : Leaves callId s s :=
  ⟨rfl,rfl,[],by simp,fun _ h => by cases h⟩

theorem not_leaves {callId : String} {s t : Store} (before : List Output) (ref : Nat)
    (frame : HubToClientFrame) (after : List Output)
    (hl : t.log = s.log ++ (before ++ .broadcast (some ref) frame :: after))
    (hf : frame.callId? = some callId) : ¬Leaves callId s t := by
  intro h
  obtain ⟨new,hl',hn⟩ := h.silent
  rw [hl] at hl'
  have ho : Output.broadcast (some ref) frame ∈ new := by
    rw [← List.append_cancel_left hl']
    simp
  exact hn _ ho hf

section log

variable (ref : Nat) (call : CallRecord) (s : Store)

theorem transition_log (state : CallState) :
    ∃ new, (transition ref state s).log = s.log ++ new := by
  unfold transition
  split
  · exact ⟨[],by simp⟩
  · exact ⟨_,rfl⟩

theorem connect_log : ∃ new, (connect ref call s).log = s.log ++ new := by
  unfold connect
  split
  · exact transition_log ref s .connecting
  · exact ⟨[],by simp⟩

end log

section signals

variable {i : Answer} {s : Store} {envelope : RtcSignalEnvelope} {ref : Nat} {call : CallRecord}

theorem leaves_ringCall_iff (hid : call.callId = envelope.callId) :
    Leaves envelope.callId s (ringCall i ref call envelope s).1 ↔
      i.hasClients = true ∨ envelope.sdp.getD "" = "" := by
  have ring : Leaves envelope.callId s (s.emit (.ring envelope)) :=
    ⟨rfl,rfl,[.ring envelope],rfl,fun o ho => by rw [List.mem_singleton] at ho; subst ho; exact id⟩
  unfold ringCall
  split
  · rename_i hc
    exact ⟨fun _ => .inl hc,fun _ => ring⟩
  · rename_i hc
    unfold offerSdp
    cases hsdp : envelope.sdp with
    | none => exact ⟨fun _ => .inr rfl,fun _ => ring⟩
    | some sdp =>
      simp only [Option.getD_some]
      split
      · rename_i he
        exact ⟨fun _ => .inr he,fun _ => ring⟩
      · rename_i he
        refine ⟨fun h => absurd h ?_,fun h => ?_⟩
        · exact not_leaves [.ring envelope] ref (.offer call.callId sdp call.media) []
            (by simp [Store.emit]) (congrArg some hid)
        · rcases h with h | h
          · exact absurd h hc
          · exact absurd h he

theorem leaves_onPeerAnswer_iff (hl : s.lookup envelope.callId = some (ref,call))
    (hid : call.callId = envelope.callId) :
    Leaves envelope.callId s (onPeerAnswer envelope s) ↔ envelope.sdp.getD "" = "" := by
  unfold onPeerAnswer
  rw [hl]
  cases hsdp : envelope.sdp with
  | none => exact ⟨fun _ => rfl,fun _ => .refl _ s⟩
  | some sdp =>
    simp only [Option.getD_some]
    split
    · rename_i he
      exact ⟨fun _ => he,fun _ => .refl _ s⟩
    · rename_i he
      refine ⟨fun h => absurd h ?_,fun h => absurd h he⟩
      obtain ⟨new,hnew⟩ := connect_log ref call s
      exact not_leaves new ref (.answer call.callId sdp) [] (by simp [Store.emit,hnew])
        (congrArg some hid)

theorem leaves_onPeerCandidate_iff (hl : s.lookup envelope.callId = some (ref,call))
    (hid : call.callId = envelope.callId) :
    Leaves envelope.callId s (onPeerCandidate envelope s) ↔ envelope.candidates.getD [] = [] := by
  unfold onPeerCandidate
  rw [hl]
  cases hcand : envelope.candidates with
  | none => exact ⟨fun _ => rfl,fun _ => .refl _ s⟩
  | some candidates =>
    simp only [Option.getD_some]
    split
    · rename_i he
      exact ⟨fun _ => he,fun _ => .refl _ s⟩
    · rename_i he
      refine ⟨fun h => absurd h ?_,fun h => absurd h he⟩
      exact not_leaves [] ref (.candidates call.callId candidates) [] rfl (congrArg some hid)

theorem not_leaves_onPeerAccept (hl : s.lookup envelope.callId = some (ref,call))
    (hid : call.callId = envelope.callId) :
    ¬Leaves envelope.callId s (onPeerAccept envelope s) := by
  unfold onPeerAccept
  rw [hl]
  obtain ⟨new,hnew⟩ := connect_log ref call s
  exact not_leaves new ref (.peerAccepted call.callId) [] (by simp [Store.emit,hnew])
    (congrArg some hid)

theorem not_leaves_announce {frame : HubToClientFrame} {state : CallState}
    (hf : frame.callId? = some envelope.callId) :
    ¬Leaves envelope.callId s
      (transition ref state (s.emit (.broadcast (some ref) frame))) := by
  obtain ⟨new,hnew⟩ :=
    transition_log ref (s.emit (.broadcast (some ref) frame)) state
  exact not_leaves [] ref frame new (by rw [hnew]; simp [Store.emit]) hf

theorem leaves_handleInboundSignal_iff (hv : Valid s)
    (hf : isEnvelopeFresh envelope s.now = true)
    (hl : s.lookup envelope.callId = some (ref,call)) :
    Leaves envelope.callId s (handleInboundSignal i envelope s).1 ↔
      Harmless i (.inbound envelope) := by
  have hid : call.callId = envelope.callId := (hv.lookup hl).2.2.1
  rw [handleInboundSignal,if_pos hf]
  cases ht : envelope.type with
  | offer =>
    simp only [onPeerOffer,hl,Harmless,ht]
    exact leaves_ringCall_iff hid
  | answer =>
    simp only [Harmless,ht]
    exact leaves_onPeerAnswer_iff hl hid
  | candidate =>
    simp only [Harmless,ht]
    exact leaves_onPeerCandidate_iff hl hid
  | accept =>
    simp only [Harmless,ht,iff_false]
    exact not_leaves_onPeerAccept hl hid
  | reject =>
    simp only [Harmless,ht,iff_false,onPeerReject,hl]
    exact not_leaves_announce (congrArg some hid)
  | hangup =>
    simp only [Harmless,ht,iff_false,onPeerHangup,hl]
    exact not_leaves_announce (congrArg some hid)
  | cancel =>
    simp only [Harmless,ht,iff_false,onPeerHangup,hl]
    exact not_leaves_announce (congrArg some hid)

theorem leaves_ringProvisioned_iff (hc : s.records[ref]? = some call) :
    Leaves call.callId s (ringProvisioned i ref envelope s).1 ↔ i.media = none := by
  cases hm : i.media with
  | none =>
    simp only [ringProvisioned,hm]
    exact ⟨fun _ => trivial,fun _ => .refl _ s⟩
  | some media =>
    simp only [ringProvisioned,hm,hc]
    refine ⟨fun h => absurd h ?_,fun h => by cases h⟩
    have grow : ∀ t : Store, ∃ new, (offerSdp ref call envelope t).log = t.log ++ new := by
      intro t
      unfold offerSdp
      split
      · exact ⟨[],by simp⟩
      · split
        · exact ⟨[],by simp⟩
        · exact ⟨_,rfl⟩
    obtain ⟨new,hnew⟩ := grow ((s.emit (.broadcast (some ref)
      (.iceServers call.callId media.1 media.2))).emit (.broadcast (some ref)
        (.ringing call.callId call.peerApId call.media)))
    exact not_leaves [] ref (.iceServers call.callId media.1 media.2)
      (.broadcast (some ref) (.ringing call.callId call.peerApId call.media) :: new)
      (by rw [hnew]; simp [Store.emit]) rfl

end signals

/-- The step of a handler at work for another actor leaves the call alone exactly when
the envelope is harmless. -/
theorem foreign_leaves_iff {s₀ s t : Pool} {p : Nat} {i : Answer} {callId : String}
    (h : Start s₀) (hr : machine.Reaches s₀ s) (hl : machine.step (.act p i) s = some t)
    (hf : Foreign callId s.store (s.thread p)) :
    Leaves callId s.store t.store ↔ Harmless i (s.thread p) := by
  have hv : Valid s.store := (call_stable.reaches hr h.holds).1
  obtain ⟨_,rfl⟩ := step_handler.mp hl
  cases hth : s.thread p with
  | inbound envelope =>
    rw [hth] at hf
    obtain ⟨rfl,hfresh,ref,call,hlook,_⟩ := hf
    exact leaves_handleInboundSignal_iff hv hfresh hlook
  | ringing ref envelope =>
    rw [hth] at hf
    obtain ⟨call,hc,rfl,_⟩ := hf
    exact leaves_ringProvisioned_iff hc
  | frame | markConnected | tick | invited | relaying | glare | done =>
    rw [hth] at hf
    exact hf.elim

/-- A call of `b` is ringing when a third actor sends a cancel with its call id. -/
def strangerCancels : Pool where
  store := emptyStore "https://a.example/ap/users/a" 0
  thread
    | 0 => .inbound (signal "c" "https://b.example/ap/users/b" "https://a.example/ap/users/a" .offer 0)
    | _ => .inbound (signal "c" "https://m.example/ap/users/m" "https://a.example/ap/users/a" .cancel 0)

theorem strangerCancels_start : Start strangerCancels := by
  refine ⟨⟨"https://a.example/ap/users/a",0,[],rfl⟩,fun p => ?_⟩
  match p with
  | 0 => exact .inbound _
  | _ + 1 => exact .inbound _

/-- The state in which the cancel of the third actor arrives. -/
theorem strangerCancels_run : ∃ s t, machine.Reaches strangerCancels s ∧
    machine.step (.act 1 {}) s = some t ∧ Foreign "c" s.store (s.thread 1) ∧
      s.thread 1 = .inbound
        (signal "c" "https://m.example/ap/users/m" "https://a.example/ap/users/a" .cancel 0) := by
  have hrun : ((machine.run [.act 0 { hasClients := false }] strangerCancels).map fun s =>
      (s.thread 1,s.store.now,(s.store.lookup "c").map (·.2.peerApId))) =
        some (.inbound (signal "c" "https://m.example/ap/users/m" "https://a.example/ap/users/a"
          .cancel 0),0,some "https://b.example/ap/users/b") := by decide
  obtain ⟨s,hs,hst⟩ := Option.map_eq_some_iff.mp hrun
  have hth := congrArg Prod.fst hst
  have hnow := congrArg (fun x => x.2.1) hst
  obtain ⟨⟨ref,call⟩,hlook,hpeer⟩ := Option.map_eq_some_iff.mp (congrArg (fun x => x.2.2) hst)
  simp only at hth hnow hpeer
  refine ⟨s,_,.of_run hs,step_handler.mpr ⟨by rw [hth]; decide,rfl⟩,?_,hth⟩
  rw [hth]
  refine ⟨rfl,by rw [hnow]; decide,ref,call,hlook,?_⟩
  rw [hpeer]
  decide

theorem foreign_leaves_iff_strangerCancels : ∃ s t : Pool,
    Leaves "c" s.store t.store ↔ Harmless {} (s.thread 1) := by
  obtain ⟨s,t,hr,hl,hf,_⟩ := strangerCancels_run
  exact ⟨s,t,foreign_leaves_iff strangerCancels_start hr hl hf⟩

/-- Another actor's envelope can end a call. -/
theorem stranger_drives_call : ¬∀ s₀ s t p i callId, Start s₀ → machine.Reaches s₀ s →
    machine.step (.act p i) s = some t → Foreign callId s.store (s.thread p) →
      Leaves callId s.store t.store := by
  intro h
  obtain ⟨s,t,hr,hl,hf,hth⟩ := strangerCancels_run
  have hleaves := h strangerCancels s t 1 {} "c" strangerCancels_start hr hl hf
  have hv : Valid s.store := (call_stable.reaches hr strangerCancels_start.holds).1
  obtain ⟨_,rfl⟩ := step_handler.mp hl
  rw [hth] at hf hleaves
  obtain ⟨hid,hfresh,ref,call,hlook,_⟩ := hf
  exact (leaves_handleInboundSignal_iff (i := {}) hv hfresh hlook).mp hleaves

end Yurucommu.Call
