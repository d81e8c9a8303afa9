import Yurucommu.CallRelay
import Yurucommu.CallSweep

/-!
Who makes a call connected: `markConnected` alone, which no browser, no peer and no alarm calls,
neither at a hub whose host delivers itself nor at one whose host defers.
-/

set_option autoImplicit false

namespace Yurucommu.CallRelay

open Call (CallState RtcSignalEnvelope ClientToHubFrame)

section deferring

variable {δ : Type} {s : State δ} {call : CallRecord} {state : CallState} {a : Answer}
  {lane : Lane δ} {envelope : RtcSignalEnvelope}

def Unconnected (s : State δ) : Prop := ∀ call ∈ s.calls, call.state ≠ .connected

theorem Unconnected.transition (h : Unconnected s) (callId : String) (hs : state ≠ .connected) :
    Unconnected (CallRelay.transition callId state s) := by
  unfold CallRelay.transition
  intro call hc
  dsimp only at hc
  split at hc
  · exact h call (List.mem_filter.mp hc).1
  · obtain ⟨old,hold,rfl⟩ := List.mem_map.mp hc
    split
    · exact hs
    · exact h old hold

theorem Unconnected.addCall (h : Unconnected s) (hs : call.state ≠ .connected) :
    Unconnected (CallRelay.addCall call s) := by
  intro call' hc
  rcases List.mem_append.mp hc with hc | hc
  · exact h call' hc
  · rw [List.mem_singleton.mp hc]
    exact hs

theorem Unconnected.removeRelay (h : Unconnected s) (effectId : String) :
    Unconnected (CallRelay.removeRelay effectId s) := h

theorem Unconnected.relay (h : Unconnected s) (type : Call.RtcSignalType)
    (continuation : Continuation) :
    Unconnected (CallRelay.relay a lane call type continuation s) := by
  unfold CallRelay.relay
  split
  · exact h.transition _ (by decide)
  · rename_i s' hs'
    have hsame : s'.calls = s.calls := by
      unfold prepare at hs'
      dsimp only at hs'
      split at hs'
      · cases hs'
      · cases hs'
        rfl
    have hkept : Unconnected s' := by
      rw [Unconnected,hsame]
      exact h
    split
    · exact hkept
    · exact (hkept.removeRelay a.effectId).transition _ (by decide)

theorem Unconnected.connect (h : Unconnected s) : Unconnected (CallRelay.connect call s) := by
  unfold CallRelay.connect
  split
  · exact h.transition _ (by decide)
  · exact h

theorem Unconnected.completeDeferredRelay (h : Unconnected s) (e : Effect δ) (accepted : Bool)
    (continued : Option RtcSignalEnvelope) :
    Unconnected (CallRelay.completeDeferredRelay e accepted continued s) := by
  unfold CallRelay.completeDeferredRelay
  split
  · exact h
  · split
    · exact h
    · dsimp only
      split
      · exact Unconnected.transition (s := { s with applied := _ }) h _ (by decide)
      · split
        · exact h
        · rename_i state hstate
          refine Unconnected.transition (s := { s with applied := _ }) h _ ?_
          rintro rfl
          cases hc : e.continuation <;> rw [hc] at hstate <;> cases hstate

theorem Unconnected.handleClientFrame (h : Unconnected s) (frame : ClientToHubFrame) :
    Unconnected (CallRelay.handleClientFrame a frame s) := by
  cases frame with
  | hello | ping | resume => exact h
  | invite callId to_ media =>
    simp only [CallRelay.handleClientFrame]
    split
    · exact h
    · exact h.addCall fun hs => by cases hs
  | offer | reject =>
    simp only [CallRelay.handleClientFrame]
    split
    · exact h
    · exact h.relay _ _
  | answer | accept =>
    simp only [CallRelay.handleClientFrame]
    split
    · exact h
    · exact h.connect.relay _ _
  | candidates | hangup =>
    simp only [CallRelay.handleClientFrame]
    split
    · exact h
    · split
      · first | exact h | exact h.relay _ _
      · exact h.relay _ _

theorem Unconnected.onPeerOffer (h : Unconnected s) (actor : String) :
    Unconnected (CallRelay.onPeerOffer a lane actor envelope s) := by
  unfold CallRelay.onPeerOffer
  split
  · exact h
  · split
    · exact h.addCall fun hs => by cases hs
    · split
      · exact h.relay _ _
      · exact h

theorem Unconnected.handleInboundSignal (h : Unconnected s) (actor : String) :
    Unconnected (CallRelay.handleInboundSignal a lane actor envelope s) := by
  unfold CallRelay.handleInboundSignal
  split
  · exact h
  · split
    · exact h.onPeerOffer actor
    · split
      · exact h
      · split
        · exact h
        · exact h.connect
    · exact h
    · split
      · exact h
      · exact h.connect
    · split
      · exact h
      · exact h.transition _ (by decide)
    all_goals
      split
      · exact h
      · refine h.transition _ ?_
        split <;> decide

theorem Unconnected.tick (h : Unconnected s) : Unconnected (CallRelay.tick s) := by
  unfold CallRelay.tick
  generalize s.calls = calls
  induction calls generalizing s with
  | nil => exact h
  | cons call calls ih =>
    rw [List.foldl_cons]
    refine ih ?_
    unfold expire
    dsimp only
    split
    · refine h.transition _ ?_
      split <;> decide
    · split
      · exact h.transition _ (by decide)
      · exact h

theorem Unconnected.sweep (h : Unconnected s) : Unconnected (CallRelay.sweep s) := by
  unfold CallRelay.sweep
  generalize due s = effects
  induction effects generalizing s with
  | nil => exact h
  | cons e effects ih =>
    rw [List.foldl_cons]
    have htold := h.completeDeferredRelay e false none
    exact ih htold

theorem Unconnected.withHub {work : String → State δ → State δ} (h : Unconnected s)
    (hwork : ∀ actor s, Unconnected s → Unconnected (work actor s)) :
    Unconnected (CallRelay.withHub work s) := by
  unfold CallRelay.withHub
  split
  · exact h
  · refine hwork _ _ (Unconnected.sweep fun call hc => h call ?_)
    exact (List.mem_insertionSort _).mp hc

theorem Unconnected.bindActor (h : Unconnected s) (actor : String) :
    Unconnected (CallRelay.bindActor actor s) := by
  unfold CallRelay.bindActor
  split <;> exact h

theorem Unconnected.completeRelay (h : Unconnected s) (e : Effect δ) (outcome : Outcome)
    (continued : Option RtcSignalEnvelope) :
    Unconnected (CallRelay.completeRelay a e outcome continued s) := by
  refine Unconnected.removeRelay (h.withHub fun actor s hs => ?_) e.effectId
  split
  · exact hs
  · split
    · exact hs
    · dsimp only
      have htold := hs.completeDeferredRelay e (outcome = .peerAck) continued
      split
      · exact htold
      · split
        · exact htold.handleInboundSignal actor
        · exact htold

theorem Unconnected.handle [DecidableEq δ] (digest : RtcSignalEnvelope → δ) (h : Unconnected s)
    (a : Answer) (event : Event) : Unconnected (CallRelay.handle digest a event s) := by
  cases event with
  | bind actor => exact h.bindActor actor
  | frame frame => exact h.withHub fun _ _ hs => hs.handleClientFrame frame
  | ingest envelope =>
    simp only [CallRelay.handle]
    split
    · exact h.bindActor _
    · exact (h.bindActor _).withHub fun actor _ hs => hs.handleInboundSignal actor
  | relayResult result =>
    simp only [CallRelay.handle]
    split
    · exact h
    · exact h.completeRelay _ _ _
  | continuation result envelope =>
    simp only [CallRelay.handle]
    split
    · exact h
    · exact h.completeRelay _ _ _
  | alarm => exact h.withHub fun _ _ hs => hs.tick

theorem never_connected [DecidableEq δ] (digest : RtcSignalEnvelope → δ) {t : State δ}
    (h : Unconnected s) (hr : (machine digest).Reaches s t) : Unconnected t := by
  refine hr.invariant (P := Unconnected) h fun u l v hu hs _ => ?_
  simp only [machine] at hs
  split at hs
  · cases hs
    exact Unconnected.handle digest (s := arrive l.2 u) hu l.2 l.1
  · cases hs

end deferring

end Yurucommu.CallRelay

namespace Yurucommu.Call

def Connected (s : Store) (ref : Nat) : Prop :=
  ∃ call : CallRecord, s.records[ref]? = some call ∧ call.state = .connected

def Handler.Marks (s : Store) (ref : Nat) (h : Handler) : Prop :=
  ∃ callId call, h = .markConnected callId ∧ s.lookup callId = some (ref,call) ∧
    call.state ≠ .connected

def Handler.marks : Handler → Bool
  | .markConnected _ => true
  | _ => false

def Unpromoted (u s : Store) : Prop := ∀ ref, Connected s ref → Connected u ref

namespace Unpromoted

variable {u s : Store} {ref : Nat} {call : CallRecord} {state : CallState}

theorem refl (s : Store) : Unpromoted s s := fun _ h => h

theorem transition (h : Unpromoted u s) (hs : state ≠ .connected) :
    Unpromoted u (Call.transition ref state s) := by
  cases hc : s.records[ref]? with
  | none =>
    rw [transition_of_none hc]
    exact h
  | some call =>
    rintro ref' ⟨call',hc',hs'⟩
    by_cases heq : ref' = ref
    · subst heq
      rw [transition_self hc] at hc'
      cases hc'
      exact absurd hs' hs
    · rw [transition_of_ne heq] at hc'
      exact h ref' ⟨call',hc',hs'⟩

theorem ends (h : Unpromoted u s) (state : TerminalCallState) :
    Unpromoted u (Call.transition ref state s) := by
  refine h.transition fun hs => ?_
  have hterm := state.2
  rw [hs] at hterm
  cases hterm

theorem addCall (h : Unpromoted u s) (hs : call.state ≠ .connected) :
    Unpromoted u (Call.addCall call s) := by
  rintro ref ⟨call',hc',hs'⟩
  simp only [Call.addCall] at hc'
  rcases List.getElem?_eq_some_iff.mp hc' with ⟨hlt,heq⟩
  by_cases hin : ref < s.records.length
  · rw [List.getElem?_append_left hin] at hc'
    exact h ref ⟨call',hc',hs'⟩
  · rw [List.getElem?_append_right (Nat.le_of_not_lt hin)] at hc'
    obtain rfl := List.mem_singleton.mp (List.mem_of_getElem? hc')
    exact absurd hs' hs

theorem connect (h : Unpromoted u s) : Unpromoted u (Call.connect ref call s) := by
  unfold Call.connect
  split
  · exact h.transition (by decide)
  · exact h

theorem relayFailed (h : Unpromoted u s) : Unpromoted u (Call.relayFailed ref s) :=
  Unpromoted.transition (s := s.emit _) h (by decide)

theorem offerSdp {envelope : RtcSignalEnvelope} (h : Unpromoted u s) :
    Unpromoted u (Call.offerSdp ref call envelope s) := by
  unfold Call.offerSdp
  split
  · exact h
  · split <;> exact h

theorem ringCall {i : Answer} {envelope : RtcSignalEnvelope} (h : Unpromoted u s) :
    Unpromoted u (Call.ringCall i ref call envelope s).1 := by
  unfold Call.ringCall
  split
  · exact h
  · exact offerSdp (s := s.emit _) h

theorem ringNewCall {i : Answer} {envelope : RtcSignalEnvelope} (h : Unpromoted u s) :
    Unpromoted u (Call.ringNewCall i envelope s).1 :=
  ringCall (h.addCall fun hs => by cases hs)

theorem onClientFrame (h : Unpromoted u s) (frame : ClientToHubFrame) :
    Unpromoted u (Call.onClientFrame frame s).1 := by
  cases frame with
  | hello =>
    have all : ∀ (calls : List CallRecord) (t : Store), Unpromoted u t → Unpromoted u (calls.foldl
        (fun s call => s.emit (.send (.callState call.callId call.state))) t) := by
      intro calls
      induction calls with
      | nil => exact fun t ht => ht
      | cons call calls ih => exact fun t ht => ih _ ht
    exact all _ _ h
  | invite callId to_ media =>
    simp only [Call.onClientFrame,onClientInvite]
    split <;> exact h
  | ping | resume => exact h
  | offer =>
    simp only [Call.onClientFrame]
    split <;> exact h
  | answer | accept =>
    simp only [Call.onClientFrame]
    split
    · exact h
    · exact h.connect
  | candidates =>
    simp only [Call.onClientFrame]
    split
    · exact h
    · split <;> exact h
  | reject =>
    simp only [Call.onClientFrame]
    split <;> exact h
  | hangup =>
    simp only [Call.onClientFrame]
    split
    · exact h
    · split <;> exact h

theorem handleInboundSignal {i : Answer} (h : Unpromoted u s) (envelope : RtcSignalEnvelope) :
    Unpromoted u (Call.handleInboundSignal i envelope s).1 := by
  unfold Call.handleInboundSignal
  split
  · cases envelope.type with
    | offer =>
      simp only [onPeerOffer]
      split
      · exact h.ringCall
      · split
        · exact h.ringNewCall
        · split <;> exact h
    | answer =>
      simp only [onPeerAnswer]
      split
      · split
        · exact h
        · exact h.connect
      · exact h
    | candidate =>
      simp only [onPeerCandidate]
      split
      · split <;> exact h
      · exact h
    | accept =>
      simp only [onPeerAccept]
      split
      · exact h
      · exact h.connect
    | reject =>
      simp only [onPeerReject]
      split
      · exact h
      · exact Unpromoted.transition (s := s.emit _) h (by decide)
    | hangup | cancel =>
      simp only [onPeerHangup]
      split
      · exact h
      · refine Unpromoted.transition (s := s.emit _) h ?_
        split <;> decide
  · exact h

theorem tick (h : Unpromoted u s) : Unpromoted u (Call.tick s) := by
  unfold Call.tick
  generalize s.calls.values = refs
  generalize s.now = now
  induction refs generalizing s with
  | nil => exact h
  | cons ref refs ih =>
    rw [List.foldl_cons]
    refine ih ?_
    unfold tickCall
    split
    · exact h
    · split
      · exact h
      · exact h.ends _

theorem work (h : Unpromoted u s) (i : Answer) {x : Handler} (hx : x.marks = false) :
    Unpromoted u (Call.work i 0 s x).1 := by
  cases x with
  | markConnected callId => cases hx
  | frame frame => exact h.onClientFrame frame
  | inbound envelope => exact h.handleInboundSignal envelope
  | tick => exact h.tick
  | invited callId to_ media =>
    simp only [Call.work,inviteProvisioned]
    split
    · exact h
    · exact h.addCall fun hs => by cases hs
  | relaying ref ends =>
    simp only [Call.work]
    split
    · cases ends with
      | none => exact h
      | some state => exact h.ends state
    · exact h.relayFailed
  | glare ref envelope =>
    simp only [Call.work,glareRelayed]
    split
    · exact (h.transition (by decide)).ringNewCall
    · exact h.relayFailed
  | ringing ref envelope =>
    simp only [Call.work,ringProvisioned]
    split
    · exact offerSdp (s := (s.emit _).emit _) h
    · exact h
  | done => exact h

end Unpromoted

section steps

variable {s t : Store} {ref : Nat} {i : Answer} {x : Handler}

theorem onClientFrame_unmarked (frame : ClientToHubFrame) (s : Store) :
    (onClientFrame frame s).2.marks = false := by
  cases frame <;> simp only [onClientFrame,onClientInvite,relay] <;> repeat' split
  all_goals rfl

theorem onPeerOffer_unmarked (i : Answer) (envelope : RtcSignalEnvelope) (s : Store) :
    (onPeerOffer i envelope s).2.marks = false := by
  simp only [onPeerOffer,ringNewCall,ringCall]
  repeat' split
  all_goals rfl

theorem work_unmarked (i : Answer) (s : Store) (x : Handler) :
    (work i 0 s x).2.marks = false := by
  cases x with
  | frame frame => exact onClientFrame_unmarked frame s
  | inbound envelope =>
    simp only [work,handleInboundSignal]
    repeat' split
    all_goals first | rfl | exact onPeerOffer_unmarked i envelope s
  | markConnected | tick | done => rfl
  | invited | relaying | glare | ringing =>
    simp only [work,inviteProvisioned,glareRelayed,ringProvisioned,ringNewCall,ringCall]
    repeat' split
    all_goals rfl

theorem lookup_record {callId : String} {call : CallRecord}
    (h : s.lookup callId = some (ref,call)) : s.records[ref]? = some call := by
  obtain ⟨r,_,hr⟩ := Option.bind_eq_some_iff.mp h
  obtain ⟨c,hc,heq⟩ := Option.map_eq_some_iff.mp hr
  obtain ⟨rfl,rfl⟩ := Prod.mk.inj heq
  exact hc

theorem markConnected_iff {callId : String} :
    (Connected (markConnected callId s) ref ∧ ¬Connected s ref) ↔
      Handler.Marks s ref (.markConnected callId) := by
  constructor
  · rintro ⟨hafter,hbefore⟩
    unfold markConnected at hafter
    split at hafter
    · exact absurd hafter hbefore
    · rename_i r call hl
      split at hafter
      · exact absurd hafter hbefore
      · rename_i hopen
        by_cases heq : ref = r
        · subst heq
          exact ⟨callId,call,rfl,hl,hopen⟩
        · obtain ⟨call',hc',hs'⟩ := hafter
          rw [transition_of_ne heq] at hc'
          exact absurd ⟨call',hc',hs'⟩ hbefore
  · rintro ⟨_,call,⟨⟩,hl,hopen⟩
    have hc := lookup_record hl
    refine ⟨⟨call.moved .connected s.now,?_,rfl⟩,?_⟩
    · simp only [markConnected,hl,if_neg hopen]
      exact transition_self hc
    · rintro ⟨call',hc',hs'⟩
      rw [hc] at hc'
      cases hc'
      exact hopen hs'

theorem work_connects_iff :
    (Connected (work i 0 s x).1 ref ∧ ¬Connected s ref) ↔ x.Marks s ref := by
  cases hx : x.marks with
  | false =>
    refine ⟨fun h => absurd ((Unpromoted.refl s).work i hx ref h.1) h.2,?_⟩
    rintro ⟨callId,_,rfl,-⟩
    cases hx
  | true =>
    cases x with
    | markConnected callId => exact markConnected_iff
    | frame | inbound | tick | invited | relaying | glare | ringing | done => cases hx

end steps

section system

/-- No call of the hub is connected, and no handler is about to promote one. -/
structure Unmarked (y : System) : Prop where
  hub : ∀ ref, ¬Connected y.hub ref
  handlers : ∀ h ∈ y.handlers, h.marks = false

theorem Unmarked.act {y : System} (h : Unmarked y) (i : Answer) {x : Handler}
    (hx : x.marks = false) : Unmarked (y.act i x) where
  hub ref hc := h.hub ref ((Unpromoted.refl y.hub).work i hx ref hc)
  handlers x' hx' := by
    rcases List.mem_append.mp hx' with hx' | hx'
    · exact h.handlers x' hx'
    · rw [List.mem_singleton.mp (List.mem_filter.mp hx').1]
      exact work_unmarked i y.hub x

theorem Unmarked.step {y z : System} {e : Event} (h : Unmarked y)
    (hs : System.machine.step e y = some z) : Unmarked z := by
  cases e with
  | browser e =>
    simp only [System.machine,System.step] at hs
    split at hs
    · cases hs
    · cases hs
      exact ⟨h.hub,h.handlers⟩
  | uplink i =>
    simp only [System.machine,System.step] at hs
    split at hs
    · cases hs
    · rename_i frame rest _
      cases hs
      have hrest : Unmarked { y with uplink := rest } := ⟨h.hub,h.handlers⟩
      exact hrest.act i rfl
  | downlink =>
    simp only [System.machine,System.step] at hs
    split at hs
    · cases hs
    · cases hs
      exact ⟨h.hub,h.handlers⟩
  | loseUplink | loseDownlink | elapse =>
    cases hs
    exact ⟨h.hub,h.handlers⟩
  | frame frame i | inbound envelope i =>
    cases hs
    exact h.act i rfl
  | resume x i =>
    simp only [System.machine,System.step] at hs
    split at hs
    · rename_i hx
      cases hs
      have hrest : Unmarked { y with handlers := y.handlers.erase x } :=
        ⟨h.hub,fun x' hx' => h.handlers x' (List.mem_of_mem_erase hx')⟩
      exact hrest.act i (h.handlers x hx)
    · cases hs
  | tick =>
    cases hs
    exact h.act {} rfl

/-- Whatever the browser reports, no call of the hub ever becomes `connected`. -/
theorem never_connected {y₀ y : System} (h : Loaded y₀) (hhub : ∀ ref, ¬Connected y₀.hub ref)
    (hr : System.machine.Reaches y₀ y) : ∀ ref, ¬Connected y.hub ref := by
  have hstart : Unmarked y₀ := ⟨hhub,fun x hx => by rw [h.handlers] at hx; cases hx⟩
  exact (hr.invariant (P := Unmarked) hstart fun _ _ _ ha hs _ => ha.step hs).hub

end system

section results

/-- At the hub a step makes a call connected exactly where it promotes it; with its browser, and at a
host that defers, no run does. -/
theorem connected_iff_marked :
    (∀ (s t : Pool) (l : Label) (ref : Nat), machine.step l s = some t →
      ((Connected t.store ref ∧ ¬Connected s.store ref) ↔
        ∃ p i, l = .act p i ∧ (s.thread p).Marks s.store ref)) ∧
    (∀ y₀ y : System, Loaded y₀ → (∀ ref, ¬Connected y₀.hub ref) →
      System.machine.Reaches y₀ y → ∀ ref, ¬Connected y.hub ref) ∧
    ∀ (δ : Type) (_ : DecidableEq δ) (digest : RtcSignalEnvelope → δ) (s t : CallRelay.State δ),
      CallRelay.Unconnected s → (CallRelay.machine digest).Reaches s t →
        CallRelay.Unconnected t := by
  refine ⟨fun s t l ref hs => ?_,fun y₀ y h hhub hr => never_connected h hhub hr,
    fun δ _ digest s t h hr => CallRelay.never_connected digest h hr⟩
  cases l with
  | act p i =>
    obtain ⟨_,rfl⟩ := step_handler.mp hs
    refine work_connects_iff.trans ⟨fun h => ⟨p,i,rfl,h⟩,?_⟩
    rintro ⟨_,_,⟨⟩,h⟩
    exact h
  | env ms =>
    obtain rfl := step_elapse.mp hs
    refine ⟨fun h => absurd h.1 h.2,?_⟩
    rintro ⟨_,_,⟨⟩,-⟩

def placed : Pool where
  store := emptyStore "https://a.example/ap/users/a" 0
  thread
    | 0 => .frame (.invite "c" "https://b.example/ap/users/b" ⟨true,false⟩)
    | _ => .markConnected "c"

def invited : Pool := (machine.run [.act 0 {},.act 0 {}] placed).getD placed

def promoted : Pool := (machine.run [.act 1 {}] invited).getD invited

/-- The promoted call is connected; the one whose peers are is not. -/
theorem connected_iff_marked_invited :
    (Connected promoted.store 0 ∧ ¬Connected invited.store 0) ∧
      ∀ ref, ¬Connected ((System.machine.run talk fresh).get (by decide)).hub ref := by
  obtain ⟨hstep,hsystem,-⟩ := connected_iff_marked
  refine ⟨(hstep invited promoted (.act 1 {}) 0 rfl).mpr ⟨1,{},rfl,"c",?_⟩,
    hsystem fresh _ fresh_loaded ?_ (.of_run (Option.some_get _).symm)⟩
  · exact ⟨_,rfl,rfl,by decide⟩
  · rintro ref ⟨call,hc,-⟩
    cases hc

end results

end Yurucommu.Call
