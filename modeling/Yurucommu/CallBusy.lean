import Yurucommu.CallPeer
import Yurucommu.CallSweep

/-!
A browser that is in a call, and what the hub sends it about others. A second ring is declined, but
the offer that the hub sends right behind it takes the place of the call.
-/

set_option autoImplicit false

namespace Yurucommu.Call

namespace CallClient

def fed (c : CallClient) : List BrowserEvent → CallClient × List ClientToHubFrame
  | [] => (c,[])
  | e :: es => ((fed (step e c).1 es).1,(step e c).2 ++ (fed (step e c).1 es).2)

def Numbered (c : CallClient) : Prop := ∀ call ∈ c.call, call.id < c.made

/-- The call object and its peer connection are those of before, and so is what the user sees. -/
structure InCall (call : ActiveCall) (state : CallUiState) (c : CallClient) : Prop where
  call : ∃ call', c.call = some call' ∧ call'.id = call.id ∧ call'.callId = call.callId ∧
    call'.pc = call.pc
  state : c.state = state

/-- A frame of the hub about another call, or the end of an await. -/
inductive Foreign (callId : String) : BrowserEvent → Prop where
  | frame (frame : HubToClientFrame) (other : String) (about : frame.callId? = some other)
      (ne : other ≠ callId) : Foreign callId (.frame frame)
  | remoteDescription (call : Nat) : Foreign callId (.remoteDescription call)

/-- The frames that are not looked at for whether they are about the call. -/
def Breaks (state : CallUiState) : BrowserEvent → Bool
  | .frame (.offer _ _ _) | .frame (.peerRejected _ _) | .frame (.peerHangup _ _) => true
  | .frame (.peerAccepted _) => state = .calling
  | _ => false

variable {c : CallClient} {call : ActiveCall} {callId : String} {e : BrowserEvent}
  {es : List BrowserEvent} {state : CallUiState}

theorem numbered_start : Numbered start := fun _ h => by cases h

theorem numbered_teardown (final : CallUiState) : Numbered (teardown final c) :=
  fun _ h => by cases h

theorem numbered_buildPeerConnection (h : call.id < c.made) :
    Numbered (buildPeerConnection call c) := by
  intro call' hcall'
  unfold buildPeerConnection at hcall' ⊢
  split at hcall'
  · simp only [Option.mem_def,Option.some.injEq] at hcall'
    exact hcall' ▸ h
  · simp only [Option.mem_def,Option.some.injEq] at hcall'
    exact hcall' ▸ Nat.lt_succ_of_lt h

theorem numbered_map (h : Numbered c) {f : ActiveCall → ActiveCall}
    (hf : ∀ a, (f a).id = a.id) : Numbered { c with call := c.call.map f } := by
  intro call' hcall'
  obtain ⟨call,hcall,rfl⟩ := Option.map_eq_some_iff.mp hcall'
  rw [hf]
  exact h call hcall

theorem numbered_hangup (h : Numbered c) (reason : String) : Numbered (hangup reason c).1 := by
  unfold hangup
  split
  · exact h
  · exact numbered_teardown _

theorem numbered_setupMedia (h : Numbered c) (id : Nat) (granted : Bool) :
    Numbered (setupMedia id granted c).1 := by
  unfold setupMedia
  split
  · exact h
  · rename_i call hcall
    split
    · split
      · exact numbered_buildPeerConnection (h call hcall)
      · exact numbered_hangup h _
    · exact h

theorem numbered_onRemoteOffer (h : Numbered c) (callId : String) (media : CallMediaKind) :
    Numbered (onRemoteOffer callId media c) := by
  unfold onRemoteOffer
  split
  · rename_i call hcall
    split
    · exact numbered_buildPeerConnection (h call hcall)
    · exact numbered_buildPeerConnection (Nat.lt_succ_self _)
  · exact numbered_buildPeerConnection (Nat.lt_succ_self _)

theorem numbered_onFrame (h : Numbered c) (frame : HubToClientFrame) :
    Numbered (onFrame frame c).1 := by
  cases frame with
  | ready | pong | answer | candidates => exact h
  | ringing callId from_ media =>
    simp only [onFrame,onRinging]
    split
    · exact h
    · rintro call ⟨⟩
      exact Nat.lt_succ_self _
  | iceServers callId servers focus =>
    refine numbered_map h fun a => ?_
    split <;> rfl
  | offer callId sdp media => exact numbered_onRemoteOffer h callId media
  | peerAccepted callId =>
    simp only [onFrame]
    split <;> exact h
  | peerRejected | peerHangup => exact numbered_teardown _
  | callState callId state =>
    simp only [onFrame,onCallState]
    split
    · exact h
    · split
      · exact numbered_teardown _
      · exact h
  | error code message =>
    simp only [onFrame]
    split
    · exact numbered_teardown _
    · exact h

theorem numbered_step (h : Numbered c) (e : BrowserEvent) : Numbered (step e c).1 := by
  cases e with
  | started callId peer media servers =>
    rintro call ⟨⟩
    exact Nat.lt_succ_self _
  | userMedia id granted => exact numbered_setupMedia h id granted
  | localOffer id pc sdp =>
    simp only [step,makeOffer]
    repeat' split
    all_goals exact h
  | localAnswer id pc sdp =>
    simp only [step,makeAnswer]
    repeat' split
    all_goals exact h
  | remoteDescription id =>
    refine numbered_map h fun a => ?_
    split <;> rfl
  | candidates id list =>
    simp only [step,flushCandidates]
    repeat' split
    all_goals exact h
  | connectionState id pc state =>
    simp only [step,onConnectionStateChange]
    split
    · cases state with
      | connected | new | connecting | disconnected => exact h
      | failed | closed => exact numbered_teardown _
    · exact h
  | accept =>
    simp only [step,accept]
    repeat' split
    all_goals exact h
  | reject reason =>
    simp only [step,reject]
    split
    · exact h
    · exact numbered_teardown _
  | hangup reason => exact numbered_hangup h reason
  | idle =>
    simp only [step]
    split <;> exact h
  | frame frame => exact numbered_onFrame h frame

theorem numbered_fed (h : Numbered c) (es : List BrowserEvent) : Numbered (fed c es).1 := by
  induction es generalizing c with
  | nil => exact h
  | cons e es ih => exact ih (numbered_step h e)

/-- The call is gone for good, or its outgoing ring shows as answered. -/
def Lost (call : ActiveCall) (state : CallUiState) (c : CallClient) : Prop :=
  (call.id < c.made ∧ ∀ call' ∈ c.call, call'.id ≠ call.id) ∨ (state = .calling ∧ c.state ≠ state)

theorem InCall.not_lost (h : InCall call state c) : ¬Lost call state c := by
  obtain ⟨⟨call',hcall',hid,_⟩,hstate⟩ := h
  rintro (⟨_,hlost⟩ | ⟨_,hlost⟩)
  · exact hlost call' hcall' hid
  · exact hlost hstate

/-- What a frame or the end of an await leaves: the call object, a new one or none. -/
structure Follows (c c' : CallClient) : Prop where
  made : c.made ≤ c'.made
  call : ∀ call' ∈ c'.call, (∃ call ∈ c.call, call.id = call'.id) ∨ c.made ≤ call'.id
  state : c'.state = .calling → c.state = .calling

theorem Follows.refl (c : CallClient) : Follows c c :=
  ⟨le_refl _,fun call hcall => .inl ⟨call,hcall,rfl⟩,id⟩

theorem Follows.teardown (c : CallClient) : Follows c (teardown .ended c) :=
  ⟨le_refl _,fun _ h => (by cases h),fun h => (by cases h)⟩

theorem Follows.map (c : CallClient) {f : ActiveCall → ActiveCall} (hf : ∀ a, (f a).id = a.id) :
    Follows c { c with call := c.call.map f } := by
  refine ⟨le_refl _,fun call' hcall' => ?_,id⟩
  obtain ⟨call,hcall,rfl⟩ := Option.map_eq_some_iff.mp hcall'
  exact .inl ⟨call,hcall,(hf call).symm⟩

theorem Follows.state_only (c : CallClient) {state : CallUiState} (h : state ≠ .calling) :
    Follows c { c with state := state } :=
  ⟨le_refl _,fun call hcall => .inl ⟨call,hcall,rfl⟩,fun hs => (h hs).elim⟩

theorem follows_adopted (c : CallClient) (callId : String) (media : CallMediaKind) :
    Follows c (buildPeerConnection (c.newCall callId "unknown" media .callee [])
      { c with made := c.made + 1, state := .incoming }) := by
  refine ⟨by simp only [buildPeerConnection,newCall]; omega,?_,fun h => ?_⟩
  · rintro call' ⟨⟩
    exact .inr (le_refl _)
  · cases h

theorem follows_onRemoteOffer (callId : String) (media : CallMediaKind) :
    Follows c (onRemoteOffer callId media c) := by
  unfold onRemoteOffer
  split
  · rename_i call hcall
    split
    · unfold buildPeerConnection
      split
      · refine ⟨le_refl _,?_,id⟩
        rintro call' ⟨⟩
        exact .inl ⟨call,hcall,rfl⟩
      · refine ⟨Nat.le_succ _,?_,id⟩
        rintro call' ⟨⟩
        exact .inl ⟨call,hcall,rfl⟩
    · exact follows_adopted c callId media
  · exact follows_adopted c callId media

theorem follows_onFrame (frame : HubToClientFrame) : Follows c (onFrame frame c).1 := by
  cases frame with
  | ready | pong | answer | candidates => exact .refl c
  | ringing callId from_ media =>
    simp only [onFrame,onRinging]
    split
    · exact .refl c
    · refine ⟨Nat.le_succ _,?_,fun h => (by cases h)⟩
      rintro call' ⟨⟩
      exact .inr (le_refl _)
  | iceServers callId servers focus =>
    refine .map c fun a => ?_
    split <;> rfl
  | offer callId sdp media => exact follows_onRemoteOffer callId media
  | peerAccepted callId =>
    simp only [onFrame]
    split
    · exact .state_only c (by decide)
    · exact .refl c
  | peerRejected | peerHangup => exact .teardown c
  | callState callId state =>
    simp only [onFrame,onCallState]
    split
    · exact .refl c
    · split
      · exact .teardown c
      · exact .refl c
  | error code message =>
    simp only [onFrame]
    split
    · exact .teardown c
    · exact .refl c

theorem follows_foreign (h : Foreign callId e) : Follows c (step e c).1 := by
  cases h with
  | frame frame _ _ _ => exact follows_onFrame frame
  | remoteDescription id =>
    refine .map c fun a => ?_
    split <;> rfl

theorem Lost.foreign (h : Lost call state c) (he : Foreign callId e) :
    Lost call state (step e c).1 := by
  have hfollows : Follows c (step e c).1 := follows_foreign he
  rcases h with ⟨hlt,hlost⟩ | ⟨rfl,hstate⟩
  · refine .inl ⟨hlt.trans_le hfollows.made,fun call' hcall' hid => ?_⟩
    rcases hfollows.call call' hcall' with ⟨a,ha,hsame⟩ | hnew
    · exact hlost a ha (hsame.trans hid)
    · omega
  · exact .inr ⟨rfl,fun h => hstate (hfollows.state h)⟩

theorem InCall.foreign (h : InCall call state c) (he : Foreign call.callId e)
    (hb : Breaks state e = false) : InCall call state (step e c).1 := by
  obtain ⟨⟨call',hcall',hid,hcallId,hpc⟩,hstate⟩ := h
  cases he with
  | remoteDescription id =>
    refine ⟨⟨if call'.id = id then { call' with remoteDescriptionSet := true } else call',?_,?_⟩,
      hstate⟩
    · simp [step,hcall']
    · split <;> exact ⟨hid,hcallId,hpc⟩
  | frame frame other about ne =>
    cases frame with
    | ready | pong | error => cases about
    | offer | peerRejected | peerHangup => cases hb
    | answer | candidates => exact ⟨⟨call',hcall',hid,hcallId,hpc⟩,hstate⟩
    | ringing callId from_ media =>
      refine ⟨⟨call',?_,hid,hcallId,hpc⟩,?_⟩
      · simp [step,onFrame,onRinging,hcall']
      · simp [step,onFrame,onRinging,hcall',hstate]
    | iceServers callId servers focus =>
      obtain rfl := Option.some.inj about
      have hother : call'.callId ≠ callId := fun heq => ne (heq.symm.trans hcallId)
      refine ⟨⟨call',?_,hid,hcallId,hpc⟩,hstate⟩
      simp [step,onFrame,hcall',hother]
    | peerAccepted callId =>
      have hcalling : c.state ≠ .calling := by
        rw [hstate]
        simpa [Breaks] using hb
      refine ⟨⟨call',?_,hid,hcallId,hpc⟩,?_⟩
      · simp only [step,onFrame,if_neg hcalling]
        exact hcall'
      · simp only [step,onFrame,if_neg hcalling]
        exact hstate
    | callState callId news =>
      obtain rfl := Option.some.inj about
      have hother : call'.callId ≠ callId := fun heq => ne (heq.symm.trans hcallId)
      refine ⟨⟨call',?_,hid,hcallId,hpc⟩,?_⟩
      · simp [step,onFrame,onCallState,hcall',hother]
      · simp [step,onFrame,onCallState,hcall',hother,hstate]

theorem InCall.lost (h : InCall call state c) (hn : Numbered c) (he : Foreign call.callId e)
    (hb : Breaks state e = true) : Lost call state (step e c).1 := by
  obtain ⟨⟨call',hcall',hid,hcallId,_⟩,hstate⟩ := h
  have hlt : call.id < c.made := hid ▸ hn call' hcall'
  cases he with
  | remoteDescription id => cases hb
  | frame frame other about ne =>
    cases frame with
    | ready | pong | error | answer | candidates | ringing | iceServers | callState => cases hb
    | peerRejected | peerHangup => exact .inl ⟨hlt,fun _ hc => (by cases hc)⟩
    | peerAccepted callId =>
      have hcalling : state = .calling := by simpa [Breaks] using hb
      refine .inr ⟨hcalling,?_⟩
      simp [step,onFrame,hstate,hcalling]
    | offer callId sdp media =>
      obtain rfl := Option.some.inj about
      have hother : call'.callId ≠ callId := fun heq => ne (heq.symm.trans hcallId)
      left
      simp only [step,onFrame,onRemoteOffer,hcall',if_neg hother]
      refine ⟨by simp only [buildPeerConnection,newCall]; omega,?_⟩
      rintro taken ⟨⟩
      exact hlt.ne'

/-- A browser in a call that hears of others keeps it exactly where no frame comes that is not
looked at. -/
theorem inCall_fed_iff (hn : Numbered c) (h : InCall call state c)
    (hes : ∀ e ∈ es, Foreign call.callId e) :
    InCall call state (fed c es).1 ↔ ∀ e ∈ es, Breaks state e = false := by
  have hlost : ∀ (es : List BrowserEvent) (c : CallClient), Lost call state c →
      (∀ e ∈ es, Foreign call.callId e) → Lost call state (fed c es).1 := by
    intro es
    induction es with
    | nil => exact fun _ h _ => h
    | cons e es ih =>
      intro c h hes
      exact ih _ (h.foreign (hes e List.mem_cons_self)) fun e he =>
        hes e (List.mem_cons_of_mem _ he)
  induction es generalizing c with
  | nil => exact ⟨fun _ _ he => (by cases he),fun _ => h⟩
  | cons e es ih =>
    have he := hes e List.mem_cons_self
    have hrest : ∀ e ∈ es, Foreign call.callId e := fun e he => hes e (List.mem_cons_of_mem _ he)
    rw [List.forall_mem_cons]
    cases hb : Breaks state e with
    | false =>
      simp only [true_and]
      exact ih (numbered_step hn e) (h.foreign he hb) hrest
    | true =>
      simp only [Bool.true_eq_false,false_and,iff_false]
      exact fun hin => hin.not_lost (hlost es _ (h.lost hn he hb) hrest)

def RungBusy (callId : String) : CallClient → List BrowserEvent → Prop
  | _, [] => False
  | c, e :: es => (c.call.isSome = true ∧ ∃ from_ media, e = .frame (.ringing callId from_ media)) ∨
      RungBusy callId (step e c).1 es

def Brought : BrowserEvent → Prop
  | .frame _ | .remoteDescription _ => True
  | _ => False

/-- The only frame that makes the client reject by itself is a ring. -/
theorem rejects_brought_iff (he : Brought e) :
    (∃ reason, ClientToHubFrame.reject callId reason ∈ (step e c).2) ↔
      c.call.isSome = true ∧ ∃ from_ media, e = .frame (.ringing callId from_ media) := by
  cases e with
  | started | userMedia | localOffer | localAnswer | candidates | connectionState | accept | reject
  | hangup | idle => cases he
  | remoteDescription id => simp [step]
  | frame frame =>
    cases frame with
    | ringing other from_ media =>
      simp only [step,onFrame,onRinging]
      cases c.call with
      | none => simp
      | some call =>
        simp only [List.mem_singleton,ClientToHubFrame.reject.injEq,Option.isSome_some,
          BrowserEvent.frame.injEq,HubToClientFrame.ringing.injEq,true_and]
        constructor
        · rintro ⟨_,rfl,_⟩
          exact ⟨from_,media,rfl,rfl,rfl⟩
        · rintro ⟨_,_,rfl,_⟩
          exact ⟨_,rfl,rfl⟩
    | _ => simp [step,onFrame]

theorem rejects_fed_iff (hes : ∀ e ∈ es, Brought e) :
    (∃ reason, ClientToHubFrame.reject callId reason ∈ (fed c es).2) ↔ RungBusy callId c es := by
  induction es generalizing c with
  | nil => simp [fed,RungBusy]
  | cons e es ih =>
    have hrest := @ih (step e c).1 fun e he => hes e (List.mem_cons_of_mem _ he)
    have hfirst := @rejects_brought_iff c callId e (hes e List.mem_cons_self)
    simp only [fed,List.mem_append,exists_or,RungBusy]
    rw [hrest,hfirst]

/-- A client that is in a call keeps it while it hears of others, exactly where none of the frames
is an offer, a rejection or a hang-up, nor an acceptance while it rings out. It rejects its own call
exactly where it is rung for it again. -/
theorem call_kept_iff (before es : List BrowserEvent) (c : CallClient) (call : ActiveCall)
    (hc : c = (fed start before).1) (hcall : c.call = some call) :
    ((∀ e ∈ es, Foreign call.callId e) →
      (InCall call c.state (fed c es).1 ↔ ∀ e ∈ es, Breaks c.state e = false)) ∧
    ((∀ e ∈ es, Brought e) →
      ((∃ reason, ClientToHubFrame.reject call.callId reason ∈ (fed c es).2) ↔
        RungBusy call.callId c es)) := by
  have hn : Numbered c := hc ▸ numbered_fed numbered_start before
  have hin : InCall call c.state c := ⟨⟨call,hcall,rfl,rfl,rfl⟩,rfl⟩
  exact ⟨fun hes => inCall_fed_iff hn hin hes,fun hes => rejects_fed_iff hes⟩

end CallClient

def offerFrames (i : Answer) (envelope : RtcSignalEnvelope) (s : Store) : List HubToClientFrame :=
  match handleInboundSignal i envelope s with
  | (rung,.ringing ref offer) =>
    ((ringProvisioned i ref offer rung).1.log.drop s.log.length).filterMap Output.toTab
  | (after,_) => (after.log.drop s.log.length).filterMap Output.toTab

namespace CallClient

section second

def offerOf (callId from_ : String) : RtcSignalEnvelope where
  callId := callId
  from_ := from_
  to_ := "https://a.example/ap/users/ann"
  type := .offer
  media := none
  sdp := some "v=0"
  candidates := none
  sfuFocus := none
  reason := none
  ts := 0
  ttlMs := 30000

def bensOffer : RtcSignalEnvelope := offerOf "call-1" "https://b.example/ap/users/ben"

def carolsOffer : RtcSignalEnvelope := offerOf "call-2" "https://c.example/ap/users/carol"

def annsHub : Store := emptyStore "https://a.example/ap/users/ann" 0

def ringingHub : Store :=
  match handleInboundSignal {} bensOffer annsHub with
  | (rung,.ringing ref offer) => (ringProvisioned {} ref offer rung).1
  | (after,_) => after

def rungClient : CallClient := (fed start ((offerFrames {} bensOffer annsHub).map .frame)).1

def bensCall : ActiveCall where
  id := 0
  callId := "call-1"
  peer := "https://b.example/ap/users/ben"
  media := ⟨true,false⟩
  role := .callee
  pc := some 1
  iceServers := []
  remoteDescriptionSet := false

/-- Carol's offer takes ben's call away; ben's own offer, sent again, makes ann's browser reject
ben's call. -/
theorem second_offer_takes_call :
    rungClient.call = some bensCall ∧
      (offerFrames {} carolsOffer ringingHub).all (fun frame => frame.callId? = some "call-2") =
        true ∧
      (fed rungClient ((offerFrames {} carolsOffer ringingHub).map .frame)).1.call.map (·.callId) =
        some "call-2" ∧
      ClientToHubFrame.reject "call-1" (some "busy") ∈
        (fed rungClient ((offerFrames {} bensOffer ringingHub).map .frame)).2 := by
  decide +kernel

def carolsRing : List BrowserEvent :=
  [.frame (.ringing "call-2" "https://c.example/ap/users/carol" ⟨true,false⟩)]

/-- Carol's ring alone leaves ben's call. -/
theorem call_kept_ring :
    InCall bensCall rungClient.state (fed rungClient carolsRing).1 ∧
      ¬∃ reason,
        ClientToHubFrame.reject bensCall.callId reason ∈ (fed rungClient carolsRing).2 := by
  obtain ⟨hkept,hrejects⟩ := call_kept_iff ((offerFrames {} bensOffer annsHub).map .frame)
    carolsRing rungClient bensCall rfl (by decide +kernel)
  have hforeign : ∀ e ∈ carolsRing, Foreign bensCall.callId e := by
    intro e he
    obtain rfl := List.mem_singleton.mp he
    exact .frame _ "call-2" rfl (by decide)
  refine ⟨(hkept hforeign).mpr (by decide),(hrejects ?_).not.mpr ?_⟩
  · intro e he
    obtain rfl := List.mem_singleton.mp he
    trivial
  · rintro (⟨_,_,_,heq⟩ | hno)
    · simp only [BrowserEvent.frame.injEq,HubToClientFrame.ringing.injEq] at heq
      exact absurd heq.1 (by decide)
    · exact hno

end second

end CallClient

end Yurucommu.Call
