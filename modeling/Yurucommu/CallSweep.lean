import Yurucommu.CallClient
import Yurucommu.CallTerminal

/-!
A browser and its hub: the hub never learns that the peers are connected, so its sweep
goes by the time since it last moved the call.
-/

set_option autoImplicit false

namespace Yurucommu.Call

/-- `uplink` and `downlink` are the frames on the socket. `established` has the calls
whose peer connection has reported that it is connected, and that nobody has rejected or
hung up since, or failed to relay for. -/
structure System where
  hub : Store
  handlers : List Handler
  client : CallClient
  uplink : List ClientToHubFrame
  downlink : List HubToClientFrame
  established : List String

/-- Frames can also come from another tab, and a socket can lose what is on it. -/
inductive Event where
  | browser (e : BrowserEvent)
  | uplink (i : Answer)
  | downlink
  | loseUplink
  | loseDownlink
  | frame (frame : ClientToHubFrame) (i : Answer)
  | inbound (envelope : RtcSignalEnvelope) (i : Answer)
  | resume (h : Handler) (i : Answer)
  | tick
  | elapse (ms : Nat)
deriving DecidableEq

def Output.toTab : Output → Option HubToClientFrame
  | .broadcast _ frame => some frame
  | .send frame => some frame
  | _ => none

def ClientToHubFrame.ends : ClientToHubFrame → Option String
  | .reject callId _ | .hangup callId _ => some callId
  | _ => none

def Handler.ends (i : Answer) (s : Store) : Handler → Option String
  | .frame sent => sent.ends
  | .inbound envelope =>
    match envelope.type with
    | .reject | .hangup | .cancel => some envelope.callId
    | _ => none
  | .relaying ref _ | .glare ref _ =>
    if i.relayed then none else (s.records[ref]?).map (·.callId)
  | _ => none

def BrowserEvent.isFrame : BrowserEvent → Bool
  | .frame _ => true
  | _ => false

namespace System

def act (i : Answer) (h : Handler) (y : System) : System :=
  { y with
    hub := (work i 0 y.hub h).1
    handlers := y.handlers ++ [(work i 0 y.hub h).2].filter (· ≠ .done)
    downlink := y.downlink ++
      ((work i 0 y.hub h).1.log.drop y.hub.log.length).filterMap Output.toTab
    established := y.established.filter fun callId => h.ends i y.hub ≠ some callId }

def reports (c : CallClient) : BrowserEvent → Option String
  | .connectionState id pc .connected =>
    if c.isActivePeer id pc then c.call.map (·.callId) else none
  | _ => none

def browse (e : BrowserEvent) (y : System) : System :=
  { y with
    client := (y.client.step e).1
    uplink := y.uplink ++ (y.client.step e).2
    established := (reports y.client e).toList ++ y.established.filter fun callId =>
      (y.client.step e).2.all fun frame => frame.ends ≠ some callId }

def step : Event → System → Option System
  | .browser e, y => if e.isFrame then none else some (y.browse e)
  | .uplink i, y =>
    match y.uplink with
    | [] => none
    | frame :: rest => some ({ y with uplink := rest }.act i (.frame frame))
  | .downlink, y =>
    match y.downlink with
    | [] => none
    | frame :: rest => some ({ y with downlink := rest }.browse (.frame frame))
  | .loseUplink, y => some { y with uplink := y.uplink.tail }
  | .loseDownlink, y => some { y with downlink := y.downlink.tail }
  | .frame frame i, y => some (y.act i (.frame frame))
  | .inbound envelope i, y => some (y.act i (.inbound envelope))
  | .resume h i, y =>
    if h ∈ y.handlers then some ({ y with handlers := y.handlers.erase h }.act i h) else none
  | .tick, y => some (y.act {} .tick)
  | .elapse ms, y => some { y with hub := Call.elapse ms y.hub }

def machine : Machine System Event := ⟨step⟩

end System

/-- A hub that has just been loaded, and a browser that has done nothing yet. -/
structure Loaded (y : System) : Prop where
  hub : ∃ localActorApId now records,
    y.hub = hydrate records (emptyStore localActorApId now)
  handlers : y.handlers = []
  client : y.client = .start
  uplink : y.uplink = []
  downlink : y.downlink = []
  established : y.established = []

/-- No step of the system touches the hub but the work of a handler and the clock. -/
theorem hub_step {e : Event} {y z : System} (hs : System.machine.step e y = some z) :
    z.hub = y.hub ∨ (∃ i h, z.hub = (work i 0 y.hub h).1) ∨ ∃ ms, z.hub = elapse ms y.hub := by
  cases e with
  | browser e =>
    simp only [System.machine,System.step] at hs
    split at hs
    · cases hs
    · cases hs
      exact .inl rfl
  | uplink i =>
    simp only [System.machine,System.step] at hs
    split at hs
    · cases hs
    · cases hs
      exact .inr (.inl ⟨i,_,rfl⟩)
  | downlink =>
    simp only [System.machine,System.step] at hs
    split at hs
    · cases hs
    · cases hs
      exact .inl rfl
  | loseUplink | loseDownlink =>
    cases hs
    exact .inl rfl
  | frame frame i | inbound envelope i =>
    cases hs
    exact .inr (.inl ⟨i,_,rfl⟩)
  | resume h i =>
    simp only [System.machine,System.step] at hs
    split at hs
    · cases hs
      exact .inr (.inl ⟨i,h,rfl⟩)
    · cases hs
  | tick =>
    cases hs
    exact .inr (.inl ⟨{},.tick,rfl⟩)
  | elapse ms =>
    cases hs
    exact .inr (.inr ⟨ms,rfl⟩)

/-- What the work of every handler and the clock keep, every run of the system keeps. -/
theorem hub_invariant {Q : Store → Prop} {y z : System}
    (hr : System.machine.Reaches y z) (hy : Q y.hub)
    (hwork : ∀ i s h, Q s → Q (work i 0 s h).1) (helapse : ∀ ms s, Q s → Q (elapse ms s)) :
    Q z.hub := by
  refine hr.invariant (P := fun y => Q y.hub) hy fun a e b ha hs _ => ?_
  rcases hub_step hs with hb | ⟨i,h,hb⟩ | ⟨ms,hb⟩
  · rw [hb]
    exact ha
  · rw [hb]
    exact hwork i _ h ha
  · rw [hb]
    exact helapse ms _ ha

theorem Loaded.valid {y z : System} (h : Loaded y) (hr : System.machine.Reaches y z) :
    Valid z.hub := by
  obtain ⟨localActorApId,now,records,hhub⟩ := h.hub
  refine hub_invariant hr ?_ (fun i s x hv => (work_shape x hv).1) fun ms s hv => hv
  rw [hhub]
  exact valid_hydrate records fun _ _ hg => by cases hg

section sweep

variable {s : Store} {ref : Nat} {call : CallRecord} {callId : String}

theorem Valid.values_nodup (hv : Valid s) : s.calls.values.Nodup := by
  refine JsMap.values_nodup fun k k' ref h h' => ?_
  obtain ⟨call,hc,hid,_⟩ := hv k ref h
  obtain ⟨call',hc',hid',_⟩ := hv k' ref h'
  rw [hc] at hc'
  cases hc'
  exact hid.symm.trans hid'

def CallRecord.swept (call : CallRecord) (now : Int) : CallRecord :=
  match timedOut call now with
  | none => call
  | some state => call.moved state now

theorem tickCall_now (now : Int) : (tickCall now s ref).now = s.now := by
  unfold tickCall
  cases hc : s.records[ref]? with
  | none => rfl
  | some call =>
    cases ht : timedOut call now with
    | none => simp only [ht]
    | some state => simp only [ht,transition_of_some hc]

theorem tickCall_self (hc : s.records[ref]? = some call) :
    (tickCall s.now s ref).records[ref]? = some (call.swept s.now) := by
  unfold tickCall CallRecord.swept
  simp only [hc]
  cases timedOut call s.now with
  | none => exact hc
  | some state => exact transition_self hc

theorem tickCall_of_ne {ref' : Nat} (now : Int) (hne : ref ≠ ref') :
    (tickCall now s ref').records[ref]? = s.records[ref]? := by
  unfold tickCall
  split
  · rfl
  · split
    · rfl
    · exact transition_of_ne hne

theorem foldl_tickCall_of_not_mem {refs : List Nat} (now : Int) (h : ref ∉ refs) :
    (refs.foldl (tickCall now) s).records[ref]? = s.records[ref]? := by
  induction refs generalizing s with
  | nil => rfl
  | cons ref' refs ih =>
    rw [List.mem_cons,not_or] at h
    rw [List.foldl_cons,ih h.2]
    exact tickCall_of_ne now h.1

theorem foldl_tickCall_of_mem {refs : List Nat} (hn : refs.Nodup) (h : ref ∈ refs)
    (hc : s.records[ref]? = some call) :
    (refs.foldl (tickCall s.now) s).records[ref]? = some (call.swept s.now) := by
  suffices hall : ∀ (t : Store), t.now = s.now → t.records[ref]? = some call →
      (refs.foldl (tickCall s.now) t).records[ref]? = some (call.swept s.now) from hall s rfl hc
  induction refs with
  | nil => cases h
  | cons ref' refs ih =>
    intro t hnow hct
    rw [List.nodup_cons] at hn
    rw [List.foldl_cons]
    by_cases heq : ref = ref'
    · subst heq
      rw [foldl_tickCall_of_not_mem _ hn.1,← hnow]
      exact tickCall_self hct
    · refine ih hn.2 ((List.mem_cons.mp h).resolve_left heq) _ ?_ ?_
      · exact (tickCall_now s.now).trans hnow
      · rw [tickCall_of_ne _ heq]
        exact hct

theorem tick_record (hv : Valid s) (hg : s.calls.get callId = some ref)
    (hc : s.records[ref]? = some call) :
    (tick s).records[ref]? = some (call.swept s.now) :=
  foldl_tickCall_of_mem hv.values_nodup (JsMap.mem_values_iff.mpr ⟨callId,hg⟩) hc

def CallRecord.inTime (call : CallRecord) (now : Int) : Prop :=
  (call.state = .ringing → now - call.updatedAt ≤ ringingTimeoutMs) ∧
    (call.state = .connecting → now - call.updatedAt ≤ connectingTimeoutMs)

theorem timedOut_eq_none_iff {now : Int} : timedOut call now = none ↔ call.inTime now := by
  unfold timedOut CallRecord.inTime
  by_cases hr : call.state = .ringing
  · have hne : call.state ≠ .connecting := by
      rw [hr]
      decide
    by_cases hlate : ringingTimeoutMs < now - call.updatedAt
    · rw [if_pos ⟨hr,hlate⟩]
      refine ⟨fun h => (by cases h),fun h => ?_⟩
      have hle := h.1 hr
      omega
    · rw [if_neg fun h => hlate h.2,if_neg fun h => hne h.1]
      exact ⟨fun _ => ⟨fun _ => by omega,fun h => absurd h hne⟩,fun _ => rfl⟩
  · rw [if_neg fun h => hr h.1]
    by_cases hc : call.state = .connecting
    · by_cases hlate : connectingTimeoutMs < now - call.updatedAt
      · rw [if_pos ⟨hc,hlate⟩]
        refine ⟨fun h => (by cases h),fun h => ?_⟩
        have hle := h.2 hc
        omega
      · rw [if_neg fun h => hlate h.2]
        exact ⟨fun _ => ⟨fun h => absurd h hr,fun _ => by omega⟩,fun _ => rfl⟩
    · rw [if_neg fun h => hc h.1]
      exact ⟨fun _ => ⟨fun h => absurd h hr,fun h => absurd h hc⟩,fun _ => rfl⟩

theorem swept_stays_iff {now : Int} (ht : isTerminalCallState call.state = false) :
    isTerminalCallState (call.swept now).state = false ↔ call.inTime now := by
  rw [← timedOut_eq_none_iff]
  unfold CallRecord.swept
  cases h : timedOut call now with
  | none => exact ⟨fun _ => rfl,fun _ => ht⟩
  | some state =>
    have hend : isTerminalCallState (call.moved state now).state = true := state.2
    simp only [hend]
    exact ⟨fun hx => (by cases hx),fun hx => by cases hx⟩

end sweep

def StaysUp (y₀ : System) (ls : List Event) : Prop :=
  ∀ as bs y z callId ref, ls = as ++ .tick :: bs → System.machine.run as y₀ = some y →
    System.machine.step .tick y = some z → callId ∈ y.established →
      y.hub.calls.get callId = some ref →
        ∃ call : CallRecord, z.hub.records[ref]? = some call ∧
          isTerminalCallState call.state = false

def SweptInTime (y₀ : System) (ls : List Event) : Prop :=
  ∀ as bs y callId ref call, ls = as ++ .tick :: bs → System.machine.run as y₀ = some y →
    callId ∈ y.established → y.hub.lookup callId = some (ref,call) → call.inTime y.hub.now

/-- Whether a sweep spares an established call only depends on the time since the hub last
moved it. -/
theorem stays_up_iff {y₀ : System} (h : Loaded y₀) (ls : List Event) :
    StaysUp y₀ ls ↔ SweptInTime y₀ ls := by
  constructor
  · intro hup as bs y callId ref call hls hr he hl
    have hv := h.valid (.of_run hr)
    obtain ⟨hg,hc,_,ht⟩ := hv.lookup hl
    obtain ⟨call',hc',ht'⟩ := hup as bs y _ callId ref hls hr rfl he hg
    have hswept : (tick y.hub).records[ref]? = some (call.swept y.hub.now) := tick_record hv hg hc
    rw [show (y.act {} .tick).hub = tick y.hub from rfl,hswept] at hc'
    cases hc'
    exact (swept_stays_iff ht).mp ht'
  · intro hin as bs y z callId ref hls hr hs he hg
    have hv := h.valid (.of_run hr)
    obtain ⟨call,hc,_,ht⟩ := hv callId ref hg
    have htime := hin as bs y callId ref call hls hr he (by simp [Store.lookup,hg,hc])
    cases hs
    exact ⟨call.swept y.hub.now,tick_record hv hg hc,(swept_stays_iff ht).mpr htime⟩

def fresh : System where
  hub := emptyStore "https://a.example/ap/users/a" 0
  handlers := []
  client := .start
  uplink := []
  downlink := []
  established := []

theorem fresh_loaded : Loaded fresh := ⟨⟨_,0,[],rfl⟩,rfl,rfl,rfl,rfl,rfl⟩

def answered : RtcSignalEnvelope :=
  { signal "c" "https://b.example/ap/users/b" "https://a.example/ap/users/a" .answer 0 with
    sdp := some "v=0" }

def talk : List Event :=
  [.browser (.started "c" "https://b.example/ap/users/b" ⟨true,false⟩ []), .uplink {},
    .resume (.invited "c" "https://b.example/ap/users/b" ⟨true,false⟩) {},
    .browser (.userMedia 0 true), .browser (.localOffer 0 1 "v=0"), .uplink {},
    .resume (.relaying 0 none) {}, .inbound answered {},
    .browser (.connectionState 0 1 .connected), .elapse 40001]

theorem stays_up_iff_talk : StaysUp fresh talk ↔ SweptInTime fresh talk :=
  stays_up_iff fresh_loaded talk

/-- A sweep ends a call whose peers are connected. -/
theorem sweep_ends_established : ¬∀ y₀ ls, Loaded y₀ → StaysUp y₀ ls := by
  intro h
  have hrun : ((System.machine.run talk fresh).map fun y =>
      (y.established,y.hub.calls.get "c",(tick y.hub).records.map (·.state))) =
        some (["c"],some 0,[.failed]) := by decide
  obtain ⟨y,hy,heq⟩ := Option.map_eq_some_iff.mp hrun
  simp only [Prod.mk.injEq,List.map_eq_singleton_iff] at heq
  obtain ⟨hest,hget,call,hrec,hstate⟩ := heq
  obtain ⟨call',hc,ht⟩ := h fresh (talk ++ [.tick]) fresh_loaded talk [] y _ "c" 0 rfl hy rfl
    (by rw [hest]; exact List.mem_cons_self) hget
  rw [show (y.act {} .tick).hub.records = [call] from hrec] at hc
  cases hc
  rw [hstate] at ht
  cases ht

end Yurucommu.Call
