import Yurucommu.GlareHub

/-!
The two hubs follow the protocol as long as their steps are orderly, and are left with
the same one call.
-/

set_option autoImplicit false

namespace Yurucommu.Glare

open Call

theorem countP_erase_add {α : Type} [DecidableEq α] {p : α → Bool} {a : α} {l : List α}
    (h : a ∈ l) : (l.erase a).countP p + (if p a then 1 else 0) = l.countP p := by
  rw [(List.perm_cons_erase h).countP_eq,List.countP_cons]

theorem countP_erase_of_true {α : Type} [DecidableEq α] {p : α → Bool} {a : α} {l : List α}
    (h : a ∈ l) (hp : p a = true) : (l.erase a).countP p + 1 = l.countP p := by
  have hcount := countP_erase_add (p := p) h
  rwa [if_pos hp] at hcount

structure Carried (p : RtcSignalEnvelope → Bool) (flight delivered : List RtcSignalEnvelope)
    (m : Message) : Prop where
  flight : flight.countP p = if m = .inFlight then 1 else 0
  delivered : 0 < delivered.countP p ↔ m = .delivered

namespace Carried

variable {p : RtcSignalEnvelope → Bool} {flight delivered es : List RtcSignalEnvelope}
  {m : Message} {e : RtcSignalEnvelope}

theorem take_other (h : Carried p flight delivered m) (he : e ∈ flight) (hp : p e = false) :
    Carried p (flight.erase e) (delivered ++ [e]) m where
  flight := by
    have hcount := countP_erase_add (p := p) he
    rw [hp] at hcount
    rw [← h.flight,← hcount]
    simp
  delivered := by
    rw [← h.delivered]
    simp [hp]

theorem take_self (h : Carried p flight delivered m) (he : e ∈ flight) (hp : p e = true) :
    m = .inFlight ∧ Carried p (flight.erase e) (delivered ++ [e]) .delivered := by
  have hcount := countP_erase_add (p := p) he
  rw [if_pos hp,h.flight] at hcount
  split at hcount
  · rename_i hm
    refine ⟨hm,?_,?_⟩
    · rw [if_neg (by decide)]
      omega
    · simp [hp]
  · omega

theorem send_other (h : Carried p flight delivered m) (hp : ∀ e ∈ es, p e = false) :
    Carried p (flight ++ es) delivered m where
  flight := by
    have hzero : es.countP p = 0 := List.countP_eq_zero.mpr fun e he => by simp [hp e he]
    rw [List.countP_append,hzero,h.flight,Nat.add_zero]
  delivered := h.delivered

theorem send_self (h : Carried p flight delivered .unsent) (hp : p e = true) :
    Carried p (flight ++ [e]) delivered .inFlight where
  flight := by
    have hzero := h.flight
    rw [if_neg (by decide)] at hzero
    rw [List.countP_append,hzero]
    simp [hp]
  delivered := by
    have hnone := h.delivered
    simpa using hnone

end Carried

def isOfferOf (callId : String) (e : RtcSignalEnvelope) : Bool :=
  e.type = .offer ∧ e.callId = callId

def isCancel (e : RtcSignalEnvelope) : Bool := e.type = .cancel

inductive Sound (P : Parties) : RtcSignalEnvelope → Prop where
  | chat {e : RtcSignalEnvelope} (side : Side) (h : Chat P side e) : Sound P e
  | offer {e : RtcSignalEnvelope} (side : Side) (h : Offer P side e) : Sound P e
  | cancel {e : RtcSignalEnvelope} (h : Cancel P e) : Sound P e

def isInvited : Handler → Bool
  | .invited _ _ _ => true
  | _ => false

def isGlare : Handler → Bool
  | .glare _ _ => true
  | _ => false

def Awaits (P : Parties) (side : Side) (s : Store) : Handler → Prop
  | .invited callId to_ _ => callId = P.callId side ∧ to_ = P.actor side.other
  | .glare ref e => Offer P side.other e ∧ s.calls.get (P.callId side) = some ref
  | .relaying _ none | .ringing _ _ => True
  | _ => False

structure At (P : Parties) (side : Side) (h : Half) (p : Place) : Prop where
  hub : Shows P side h p.hub
  awaits : ∀ x ∈ p.handlers, Awaits P side p.hub x
  invited : p.handlers.countP isInvited + (if h.own = .unplaced then 0 else 1) ≤
    if p.client = .quiet then 0 else 1
  yielding : p.handlers.countP isGlare = if h.yielding = true then 1 else 0
  offered : p.client = .offered → h.offer ≠ .unsent ∨ h.own = .gone
  unoffered : p.client ≠ .offered → h.offer = .unsent

structure Refines (P : Parties) (w : World) (g : Protocol) : Prop where
  places : ∀ side, At P side (g.half side) (w.place side)
  sound : ∀ e ∈ w.flight, Sound P e
  offers : ∀ side, Carried (isOfferOf (P.callId side)) w.flight w.delivered (g.half side).offer
  cancel : Carried isCancel w.flight w.delivered g.cancel

theorem Tame.awaits {P : Parties} {side : Side} {s : Store} {x : Handler} (h : Tame x)
    (hx : x ≠ .done) : Awaits P side s x := by
  cases x with
  | done => exact absurd rfl hx
  | relaying ref ends =>
    cases ends with
    | none => trivial
    | some state => exact h.elim
  | ringing => trivial
  | frame | inbound | markConnected | tick | invited | glare => exact h.elim

theorem Tame.not_invited {x : Handler} (h : Tame x) : isInvited x = false := by
  cases x <;> first | rfl | exact h.elim

theorem Tame.not_glare {x : Handler} (h : Tame x) : isGlare x = false := by
  cases x <;> first | rfl | exact h.elim

theorem Awaits.mono {P : Parties} {side : Side} {s t : Store} {x : Handler}
    (h : Awaits P side s x) (hp : t.calls.get (P.callId side) = s.calls.get (P.callId side)) :
    Awaits P side t x := by
  cases x with
  | glare ref e => exact ⟨h.1,hp.trans h.2⟩
  | relaying ref ends =>
    cases ends with
    | none => trivial
    | some state => exact h.elim
  | invited | ringing => exact h
  | frame | inbound | markConnected | tick | done => exact h.elim

theorem mem_handlers {xs : List Handler} {x y : Handler}
    (h : y ∈ xs ++ [x].filter (· ≠ .done)) : y ∈ xs ∨ y = x ∧ x ≠ .done := by
  rcases List.mem_append.mp h with h | h
  · exact .inl h
  · rw [List.mem_filter,List.mem_singleton,decide_eq_true_eq] at h
    exact .inr ⟨h.1,h.1 ▸ h.2⟩

theorem countP_handlers {xs : List Handler} {x : Handler} {p : Handler → Bool}
    (hp : p x = false) : (xs ++ [x].filter (· ≠ .done)).countP p = xs.countP p := by
  rw [List.countP_append]
  have hzero : ([x].filter (· ≠ .done)).countP p = 0 := by
    refine List.countP_eq_zero.mpr fun y hy => ?_
    rw [List.mem_filter,List.mem_singleton] at hy
    rw [hy.1,hp]
    decide
  rw [hzero,Nat.add_zero]

/-- `h'` differs from `h` in nothing a suspended handler or the client knows of. -/
structure Alike (h h' : Half) : Prop where
  offer : h'.offer = h.offer
  yielding : h'.yielding = h.yielding
  unplaced : h'.own = .unplaced ↔ h.own = .unplaced
  gone : h.own = .gone → h'.own = .gone

theorem Answers.alike {h h' : Half} (ha : Answers h h') : Alike h h' := by
  rcases ha with rfl | ⟨hr,rfl⟩
  · exact ⟨rfl,rfl,.rfl,id⟩
  · refine ⟨rfl,rfl,?_,?_⟩
    · simp [hr]
    · rw [hr]
      exact fun hx => by cases hx

theorem At.acts {P : Parties} {side : Side} {h h' : Half} {p : Place} {i : Answer} {x : Handler}
    (ha : At P side h p) (hs : Shows P side h' (work i 0 p.hub x).1)
    (hp : (work i 0 p.hub x).1.calls.get (P.callId side) = p.hub.calls.get (P.callId side))
    (ht : Tame (work i 0 p.hub x).2) (hh : Alike h h') : At P side h' (p.act i x) where
  hub := hs
  awaits y hy := by
    rcases mem_handlers hy with hy | ⟨rfl,hne⟩
    · exact (ha.awaits y hy).mono hp
    · exact ht.awaits hne
  invited := by
    have hcount := ha.invited
    simp only [Place.act,countP_handlers ht.not_invited,hh.unplaced]
    exact hcount
  yielding := by
    simp only [Place.act,countP_handlers ht.not_glare,hh.yielding]
    exact ha.yielding
  offered hc := by
    rw [hh.offer]
    exact (ha.offered hc).imp_right hh.gone
  unoffered hc := hh.offer.trans (ha.unoffered hc)

theorem At.offer_delivered {P : Parties} {side : Side} {h : Half} {p : Place}
    (ha : At P side h p) (ho : h.offer = .inFlight) :
    At P side { h with offer := .delivered } p where
  hub := ha.hub.alter rfl rfl
  awaits := ha.awaits
  invited := ha.invited
  yielding := ha.yielding
  offered _ := .inl fun hx => by cases hx
  unoffered hc := by
    have hunsent := ha.unoffered hc
    rw [ho] at hunsent
    cases hunsent

theorem forall_side {Q : Side → Prop} (side : Side) (h : Q side) (k : Q side.other) :
    ∀ s, Q s := by
  intro s
  cases side <;> cases s
  · exact h
  · exact k
  · exact k
  · exact h

section chat

variable {P : Parties} {side : Side} {e : RtcSignalEnvelope}

theorem Chat.not_offer (h : Chat P side e) (callId : String) : isOfferOf callId e = false := by
  rcases h.type with ht | ht | ht <;> simp [isOfferOf,ht]

theorem Chat.not_cancel (h : Chat P side e) : isCancel e = false := by
  rcases h.type with ht | ht | ht <;> simp [isCancel,ht]

theorem Offer.not_cancel (h : Offer P side e) : isCancel e = false := by
  simp [isCancel,h.type]

theorem Offer.is (h : Offer P side e) : isOfferOf (P.callId side) e = true := by
  simp [isOfferOf,h.type,h.callId]

theorem Offer.not_other (h : Offer P side e) : isOfferOf (P.callId side.other) e = false := by
  have hne : P.callId side ≠ P.callId side.other := (P.distinct_other side).symm
  simp [isOfferOf,h.callId,hne]

theorem Cancel.not_offer (h : Cancel P e) (callId : String) : isOfferOf callId e = false := by
  simp [isOfferOf,h.type]

theorem Cancel.is (h : Cancel P e) : isCancel e = true := by
  simp [isCancel,h.type]

theorem Parties.target_of (h : e.to_ = P.actor side.other) : P.target e = side.other := by
  cases side with
  | low =>
    have hne : P.actor .high ≠ P.actor .low := (JsString.ne_of_lt P.ordered).symm
    rw [Parties.target,if_neg]
    · rfl
    · rw [h]
      exact hne
  | high =>
    rw [Parties.target,if_pos (show e.to_ = P.actor .low from h)]
    rfl

end chat

section refines

variable {P : Parties} {w : World} {g g' : Protocol} {side : Side} {i : Answer} {x : Handler}

theorem Refines.setPlace {p : Place} (h : Refines P w g) (ha : At P side (g.half side) p) :
    Refines P (w.setPlace side p) g where
  places := by
    refine forall_side side ?_ ?_
    · rw [World.place_setPlace]
      exact ha
    · rw [World.place_setPlace_other]
      exact h.places side.other
  sound := by
    rw [World.flight_setPlace]
    exact h.sound
  offers := by
    rw [World.flight_setPlace,World.delivered_setPlace]
    exact h.offers
  cancel := by
    rw [World.flight_setPlace,World.delivered_setPlace]
    exact h.cancel

theorem Refines.of_act {l : List RtcSignalEnvelope}
    (hat : At P side (g'.half side) ((w.place side).act i x))
    (hother : At P side.other (g'.half side.other) (w.place side.other))
    (hes : Sends (w.place side).hub (work i 0 (w.place side).hub x).1 l)
    (hsound : ∀ e ∈ w.flight ++ l, Sound P e)
    (hoffers : ∀ s, Carried (isOfferOf (P.callId s)) (w.flight ++ l) w.delivered
      (g'.half s).offer)
    (hcancel : Carried isCancel (w.flight ++ l) w.delivered g'.cancel) :
    Refines P (w.act i side x) g' := by
  have hplace : ∀ s, (w.act i side x).place s =
      (w.setPlace side ((w.place side).act i x)).place s := fun s => by cases s <;> rfl
  have hflight : (w.act i side x).flight = w.flight ++ l := by
    rw [← hes.sent]
    rfl
  have hdelivered : (w.act i side x).delivered = w.delivered := by cases side <;> rfl
  constructor
  case places =>
    refine forall_side side ?_ ?_
    · rw [hplace,World.place_setPlace]
      exact hat
    · rw [hplace,World.place_setPlace_other]
      exact hother
  case sound =>
    rw [hflight]
    exact hsound
  case offers =>
    rw [hflight,hdelivered]
    exact hoffers
  case cancel =>
    rw [hflight,hdelivered]
    exact hcancel

theorem Refines.chats {l : List RtcSignalEnvelope} (h : Refines P w g)
    (hat : At P side (g'.half side) ((w.place side).act i x))
    (hother : g'.half side.other = g.half side.other)
    (hoffer : (g'.half side).offer = (g.half side).offer) (hcancel : g'.cancel = g.cancel)
    (hes : Sends (w.place side).hub (work i 0 (w.place side).hub x).1 l)
    (hchat : ∀ e ∈ l, Chat P side e) : Refines P (w.act i side x) g' := by
  refine .of_act hat (hother ▸ h.places side.other) hes (fun e he => ?_) (fun s => ?_) ?_
  · rcases List.mem_append.mp he with he | he
    · exact h.sound e he
    · exact .chat side (hchat e he)
  · have hsame : ∀ s, (g'.half s).offer = (g.half s).offer :=
      forall_side side hoffer (by rw [hother])
    rw [hsame]
    exact (h.offers s).send_other fun e he => (hchat e he).not_offer _
  · rw [hcancel]
    exact h.cancel.send_other fun e he => (hchat e he).not_cancel

theorem Refines.talks (h : Refines P w g)
    (ht : Talks P side (g.half side) (w.place side).hub (work i 0 (w.place side).hub x).1 ∧
      Tame (work i 0 (w.place side).hub x).2) :
    ∃ g', machine.Reaches g g' ∧ Refines P (w.act i side x) g' := by
  obtain ⟨⟨⟨h',ha,hs⟩,hp,es,hes,hchat⟩,htame⟩ := ht
  have hat := (h.places side).acts hs hp htame ha.alike
  rcases ha with rfl | ⟨hr,rfl⟩
  · exact ⟨g,.refl g,h.chats hat rfl rfl rfl hes hchat⟩
  · refine ⟨move g (.answered side),.single (step_iff.mpr ⟨?_,rfl⟩),
      h.chats ?_ ?_ ?_ ?_ hes hchat⟩
    · simpa [may] using hr
    · simpa [move] using hat
    · simp [move]
    · simp [move]
    · simp [move]

theorem Refines.take_chat {e : RtcSignalEnvelope} (h : Refines P w g) (he : e ∈ w.flight)
    (hc : Chat P side e) : Refines P (take e w) g where
  places s := by
    have hs := h.places s
    cases s <;> exact hs
  sound e' he' := h.sound e' (List.mem_of_mem_erase he')
  offers s := (h.offers s).take_other he (hc.not_offer _)
  cancel := h.cancel.take_other he hc.not_cancel

end refines

section events

variable {P : Parties} {w : World} {g : Protocol} {side : Side} {i : Answer}

theorem follows_frame (h : Refines P w g) {frame : ClientToHubFrame}
    (hp : isPassive frame = true) :
    ∃ g', machine.Reaches g g' ∧ Refines P (w.act i side (.frame frame)) g' :=
  h.talks (talks_frame (h.places side).hub hp)

theorem follows_tick (h : Refines P w g)
    (ht : (activeCalls (w.place side).hub).all
      (fun call => (timedOut call (w.place side).hub.now).isNone) = true) :
    ∃ g', machine.Reaches g g' ∧ Refines P (w.act i side .tick) g' := by
  refine h.talks ⟨?_,trivial⟩
  simp only [work,tick_eq ht]
  exact .refl (h.places side).hub

theorem follows_elapse (h : Refines P w g) (ms : Nat) :
    Refines P (w.setPlace side { w.place side with hub := elapse ms (w.place side).hub }) g := by
  refine h.setPlace ?_
  have hs := h.places side
  exact ⟨hs.hub.congr rfl hs.hub.valid (fun _ => rfl) rfl,fun x hx => (hs.awaits x hx).mono rfl,
    hs.invited,hs.yielding,hs.offered,hs.unoffered⟩

theorem follows_invite (h : Refines P w g) (hq : (w.place side).client = .quiet)
    (media : CallMediaKind) :
    Refines P ((setClient side .invited w).act i side
      (.frame (.invite (P.callId side) (P.actor side.other) media))) g := by
  have ha := h.places side
  have hcount := ha.invited
  rw [if_pos hq] at hcount
  have hown : (g.half side).own = .unplaced := by
    by_contra hne
    rw [if_neg hne] at hcount
    omega
  have hnone : (w.place side).hub.calls.has (P.callId side) = false := by
    have hheld := ha.hub.held
    rw [hown] at hheld
    have hl : (w.place side).hub.lookup (P.callId side) = none := by
      rw [← Option.isNone_iff_eq_none,← Option.isSome_eq_false_iff]
      exact hheld.symm
    rw [JsMap.has,lookup_none ha.hub.valid hl]
    rfl
  have hwork : work i 0 (w.place side).hub
      (.frame (.invite (P.callId side) (P.actor side.other) media)) =
        ((w.place side).hub,.invited (P.callId side) (P.actor side.other) media) := by
    simp only [work,onClientFrame,onClientInvite,hnone]
    rfl
  have hset : Refines P (setClient side .invited w) g := by
    refine h.setPlace ⟨ha.hub,ha.awaits,?_,ha.yielding,(fun hc => by cases hc),fun _ => ?_⟩
    · exact Nat.le_succ_of_le hcount
    · exact ha.unoffered (by rw [hq]; decide)
  have hplace : ((setClient side .invited w).place side) =
      { w.place side with client := .invited } := World.place_setPlace w side _
  refine hset.chats (l := []) ?_ rfl rfl rfl ?_ (fun _ he => by cases he)
  · rw [hplace]
    constructor
    case hub =>
      simp only [Place.act,hwork]
      exact ha.hub
    case awaits =>
      intro x hx
      simp only [Place.act,hwork] at hx ⊢
      rcases mem_handlers hx with hx | ⟨rfl,_⟩
      · exact ha.awaits x hx
      · exact ⟨rfl,rfl⟩
    case invited =>
      simp only [Place.act,hwork,List.countP_append]
      rw [if_pos hown,if_neg (by decide)]
      have hone : ([Handler.invited (P.callId side) (P.actor side.other) media].filter
        (· ≠ .done)).countP isInvited = 1 := rfl
      omega
    case yielding =>
      simp only [Place.act,hwork]
      rw [countP_handlers rfl]
      exact ha.yielding
    case offered => exact fun hc => by cases hc
    case unoffered => exact fun _ => ha.unoffered (by rw [hq]; decide)
  · rw [hplace]
    simp only [hwork]
    exact .refl _

theorem follows_offer (h : Refines P w g) (hc : (w.place side).client = .invited)
    (ho : P.own side w ≠ .unplaced) (sdp : String) :
    ∃ g', machine.Reaches g g' ∧ Refines P ((setClient side .offered w).act i side
      (.frame (.offer (P.callId side) sdp))) g' := by
  have ha := h.places side
  have hown : (g.half side).own ≠ .unplaced := by
    rw [← ha.hub.own]
    exact ho
  have hunsent : (g.half side).offer = .unsent := ha.unoffered (by rw [hc]; decide)
  have hplace : ((setClient side .offered w).place side) =
      { w.place side with client := .offered } := World.place_setPlace w side _
  have hflight : (setClient side .offered w).flight = w.flight := World.flight_setPlace w side _
  have hdelivered : (setClient side .offered w).delivered = w.delivered :=
    World.delivered_setPlace w side _
  have hother : (setClient side .offered w).place side.other = w.place side.other :=
    World.place_setPlace_other w side _
  cases hh : (g.half side).own.isHeld with
  | false =>
    have hwork : work i 0 (w.place side).hub (.frame (.offer (P.callId side) sdp)) =
        ((w.place side).hub,.done) := offer_frame_away ha.hub hh sdp
    have hgone : (g.half side).own = .gone := by
      cases hx : (g.half side).own with
      | unplaced => exact absurd hx hown
      | gone => rfl
      | ringing | answered =>
        rw [hx] at hh
        cases hh
    refine ⟨g,.refl g,.of_act (l := []) ?_ ?_ ?_ ?_ ?_ ?_⟩
    · rw [hplace]
      have hnil : (w.place side).handlers ++ [Handler.done].filter (· ≠ .done) =
          (w.place side).handlers := List.append_nil _
      simp only [Place.act,hwork,hnil]
      refine ⟨ha.hub,ha.awaits,?_,ha.yielding,fun _ => .inr hgone,fun hx => absurd rfl hx⟩
      have hcount := ha.invited
      rw [hc] at hcount
      exact hcount
    · rw [hother]
      exact h.places side.other
    · rw [hplace]
      simp only [hwork]
      exact .refl _
    · rw [hflight,List.append_nil]
      exact h.sound
    · rw [hflight,hdelivered,List.append_nil]
      exact h.offers
    · rw [hflight,hdelivered,List.append_nil]
      exact h.cancel
  | true =>
    obtain ⟨ref,e,hframe,he⟩ := offer_frame_held ha.hub hh sdp
    have hwork : work i 0 (w.place side).hub (.frame (.offer (P.callId side) sdp)) =
        ((w.place side).hub.emit (.sendToPeer e),.relaying ref none) := hframe
    have hhalf : (move g (.offers side)).half side =
        { g.half side with offer := .inFlight } := Protocol.half_setHalf g side _
    have hrest : (move g (.offers side)).half side.other = g.half side.other :=
      Protocol.half_setHalf_other g side _
    refine ⟨move g (.offers side),.single (step_iff.mpr ⟨?_,rfl⟩),
      .of_act (l := [e]) ?_ ?_ ?_ ?_ ?_ ?_⟩
    · simp [may,hh,hunsent]
    · rw [hplace,hhalf]
      constructor
      case hub =>
        simp only [Place.act,hwork]
        exact (ha.hub.emit _).alter rfl rfl
      case awaits =>
        intro x hx
        simp only [Place.act,hwork] at hx ⊢
        rcases mem_handlers hx with hx | ⟨rfl,_⟩
        · exact (ha.awaits x hx).mono rfl
        · trivial
      case invited =>
        simp only [Place.act,hwork]
        rw [countP_handlers rfl]
        have hcount := ha.invited
        rw [hc] at hcount
        exact hcount
      case yielding =>
        simp only [Place.act,hwork]
        rw [countP_handlers rfl]
        exact ha.yielding
      case offered => exact fun _ => .inl fun hx => by cases hx
      case unoffered => exact fun hx => absurd rfl hx
    · rw [hother,hrest]
      exact h.places side.other
    · rw [hplace]
      simp only [hwork]
      exact (Sends.refl _).send e
    · rw [hflight]
      intro e' he'
      rcases List.mem_append.mp he' with he' | he'
      · exact h.sound e' he'
      · rw [List.mem_singleton.mp he']
        exact .offer side he
    · rw [hflight,hdelivered]
      refine forall_side side ?_ ?_
      · rw [hhalf]
        exact (hunsent ▸ h.offers side).send_self he.is
      · rw [hrest]
        refine (h.offers side.other).send_other fun e' he' => ?_
        rw [List.mem_singleton.mp he']
        exact he.not_other
    · rw [hflight,hdelivered]
      refine (Protocol.cancel_setHalf g side _).symm ▸ h.cancel.send_other fun e' he' => ?_
      rw [List.mem_singleton.mp he']
      exact he.not_cancel

theorem At.lose {h : Half} {p : Place} {x : Handler} (ha : At P side h p) (hx : x ∈ p.handlers)
    (hg : isGlare x = false) : At P side h { p with handlers := p.handlers.erase x } where
  hub := ha.hub
  awaits y hy := ha.awaits y (List.mem_of_mem_erase hy)
  invited := by
    have hcount := countP_erase_add (p := isInvited) hx
    have hinv := ha.invited
    simp only at hcount ⊢
    omega
  yielding := by
    have hcount := countP_erase_add (p := isGlare) hx
    rw [hg,ha.yielding] at hcount
    simpa using hcount
  offered := ha.offered
  unoffered := ha.unoffered

theorem place_setHandlers (xs : List Handler) :
    (setHandlers side xs w).place side = { w.place side with handlers := xs } :=
  World.place_setPlace w side _

theorem Refines.lose (h : Refines P w g) {x : Handler} (hx : x ∈ (w.place side).handlers)
    (hg : isGlare x = false) :
    Refines P (setHandlers side ((w.place side).handlers.erase x) w) g :=
  h.setPlace ((h.places side).lose hx hg)

theorem follows_invited (h : Refines P w g) {media : CallMediaKind}
    (hx : .invited (P.callId side) (P.actor side.other) media ∈ (w.place side).handlers)
    (ho : side = .high → i.media = none ∨ (w.place .high).hub.lookup (P.callId .low) = none) :
    ∃ g', machine.Reaches g g' ∧ Refines P ((setHandlers side ((w.place side).handlers.erase
      (.invited (P.callId side) (P.actor side.other) media)) w).act i side
        (.invited (P.callId side) (P.actor side.other) media)) g' := by
  have ha := h.places side
  have hlose := ha.lose hx rfl
  have hset := h.lose hx rfl
  have hcount := countP_erase_of_true (p := isInvited) hx rfl
  have hinv := ha.invited
  have hown : (g.half side).own = .unplaced := by
    by_contra hne
    rw [if_neg hne] at hinv
    split at hinv <;> omega
  by_cases hm : i.media = none
  · refine hset.talks ?_
    rw [place_setHandlers]
    simp only [work,inviteProvisioned,hm]
    exact ⟨.refl ha.hub,trivial⟩
  · obtain ⟨hshow,hsends,hdone⟩ := invite_recorded ha.hub hm media
    have hhalf : (move g (.dials side)).half side = { g.half side with own := .ringing } :=
      Protocol.half_setHalf g side _
    have hmay : may g (.dials side) = true := by
      cases side with
      | low =>
        simp only [may,decide_eq_true_eq]
        exact hown
      | high =>
        have hgot := ha.hub.got
        rw [show (w.place .high).hub.lookup (P.callId Side.high.other) = none from
          (ho rfl).resolve_left hm] at hgot
        simp only [may,decide_eq_true_eq]
        exact ⟨hown,hgot.symm⟩
    refine ⟨move g (.dials side),.single (step_iff.mpr ⟨hmay,rfl⟩),
      hset.chats (l := []) ?_ ?_ ?_ ?_ ?_ (fun _ he => by cases he)⟩
    · rw [place_setHandlers,hhalf]
      have hnil : (w.place side).handlers.erase
          (.invited (P.callId side) (P.actor side.other) media) ++
            [Handler.done].filter (· ≠ .done) = (w.place side).handlers.erase
              (.invited (P.callId side) (P.actor side.other) media) := List.append_nil _
      have hresult : (work i 0 (w.place side).hub
          (.invited (P.callId side) (P.actor side.other) media)).2 = .done := hdone
      simp only [Place.act,hresult,hnil]
      constructor
      case hub => exact hshow
      case awaits =>
        intro y hy
        have hmem := List.mem_of_mem_erase hy
        have hy' := ha.awaits y hmem
        cases y with
        | glare ref e =>
          have hget := hy'.2
          obtain ⟨call,hc,_⟩ := ha.hub.valid _ _ hget
          have hheld := ha.hub.held
          rw [hown,lookup_of_get hget hc] at hheld
          cases hheld
        | relaying ref ends =>
          cases ends with
          | none => trivial
          | some state => exact hy'.elim
        | invited | ringing => exact hy'
        | frame | inbound | markConnected | tick | done => exact hy'.elim
      case invited =>
        simp only
        rw [if_neg (by decide)]
        rw [if_pos hown] at hinv
        omega
      case yielding => exact hlose.yielding
      case offered =>
        intro hc
        left
        rcases ha.offered hc with hne | hgone
        · exact hne
        · rw [hown] at hgone
          cases hgone
      case unoffered => exact ha.unoffered
    · simp [move]
    · simp [move]
    · simp [move]
    · rw [place_setHandlers]
      exact hsends

theorem follows_glare (h : Refines P w g) (hsane : Sane g) {ref : Nat} {e : RtcSignalEnvelope}
    (hx : .glare ref e ∈ (w.place side).handlers) (hr : i.relayed = true) :
    ∃ g', machine.Reaches g g' ∧ Refines P
      ((setHandlers side ((w.place side).handlers.erase (.glare ref e)) w).act i side
        (.glare ref e)) g' := by
  have ha := h.places side
  have hcount := countP_erase_of_true (p := isGlare) hx rfl
  rw [ha.yielding] at hcount
  have hyield : (g.half side).yielding = true := by
    by_contra hne
    rw [if_neg hne] at hcount
    omega
  rw [if_pos hyield] at hcount
  cases side with
  | low =>
    rw [show (g.half .low).yielding = false from hsane.lowKeeps.2] at hyield
    cases hyield
  | high =>
    obtain ⟨ho,hget⟩ := ha.awaits _ hx
    obtain ⟨hshow,hsends,htame⟩ := glare_yields ha.hub ho hr hget
    have hmay : may g .yields = true := hyield
    refine ⟨move g .yields,.single (step_iff.mpr ⟨hmay,rfl⟩),
      .of_act (l := []) ?_ (h.places .low) hsends ?_ ?_ ?_⟩
    · constructor
      case hub =>
        exact hshow.alter rfl rfl
      case awaits =>
        intro y hy
        rcases mem_handlers hy with hy | ⟨rfl,hne⟩
        · have hy' := ha.awaits y (List.mem_of_mem_erase hy)
          cases y with
          | glare ref' e' =>
            have hzero : ((w.place .high).handlers.erase (.glare ref e)).countP isGlare = 0 := by
              omega
            exact absurd rfl (List.countP_eq_zero.mp hzero _ hy)
          | relaying ref ends =>
            cases ends with
            | none => trivial
            | some state => exact hy'.elim
          | invited | ringing => exact hy'
          | frame | inbound | markConnected | tick | done => exact hy'.elim
        · exact htame.awaits hne
      case invited =>
        have hinv := ha.invited
        have herase := countP_erase_add (p := isInvited) hx
        rw [show isInvited (.glare ref e) = false from rfl] at herase
        have hheld : (g.half .high).own ≠ .unplaced := by
          intro hu
          have hh := (hsane.yielding hyield).1
          rw [show g.high.own = .unplaced from hu] at hh
          cases hh
        rw [if_neg hheld] at hinv
        refine le_trans (Nat.le_of_eq ?_) hinv
        refine congrArg (· + 1) ?_
        refine (countP_handlers htame.not_invited).trans ?_
        rw [place_setHandlers]
        simpa using herase
      case yielding =>
        refine (countP_handlers htame.not_glare).trans ?_
        change ((w.place .high).handlers.erase (.glare ref e)).countP isGlare = 0
        omega
      case offered => exact fun _ => .inr rfl
      case unoffered => exact ha.unoffered
    · rw [List.append_nil]
      exact h.sound
    · rw [List.append_nil]
      intro s
      cases s with
      | low => exact h.offers .low
      | high => exact h.offers .high
    · rw [List.append_nil]
      exact h.cancel

theorem follows_resume (h : Refines P w g) (hsane : Sane g) {x : Handler}
    (hx : x ∈ (w.place side).handlers) (hr : i.relayed = true)
    (ho : Orderly P w (.resume side x i)) :
    ∃ g', machine.Reaches g g' ∧
      Refines P ((setHandlers side ((w.place side).handlers.erase x) w).act i side x) g' := by
  have ha := h.places side
  have hwait := ha.awaits x hx
  cases x with
  | invited callId to_ media =>
    obtain ⟨rfl,rfl⟩ := hwait
    refine follows_invited h hx ?_
    rintro rfl
    exact ho
  | glare ref e => exact follows_glare h hsane hx hr
  | relaying ref ends =>
    cases ends with
    | some state => exact hwait.elim
    | none =>
      refine (h.lose hx rfl).talks ?_
      rw [place_setHandlers]
      simp only [work,hr,if_true]
      exact ⟨.refl ha.hub,trivial⟩
  | ringing ref e =>
    refine (h.lose hx rfl).talks ?_
    rw [place_setHandlers]
    exact talks_ringing ha.hub ref e
  | frame | inbound | markConnected | tick | done => exact hwait.elim

theorem place_take {e : RtcSignalEnvelope} (s : Side) : (take e w).place s = w.place s := by
  cases s <;> rfl

theorem follows_chat (h : Refines P w g) {e : RtcSignalEnvelope} (he : e ∈ w.flight)
    (hc : Chat P side e) :
    ∃ g', machine.Reaches g g' ∧ Refines P ((take e w).act i side.other (.inbound e)) g' := by
  refine (h.take_chat he hc).talks ?_
  rw [place_take]
  exact talks_chat (h.places side.other).hub hc.type

theorem follows_low_offer (h : Refines P w g) (hsane : Sane g) {e : RtcSignalEnvelope}
    (he : e ∈ w.flight) (ho : Offer P .low e)
    (hf : isEnvelopeFresh e (w.place .high).hub.now = true) (hn : P.own .high w ≠ .answered) :
    ∃ g', machine.Reaches g g' ∧ Refines P ((take e w).act i .high (.inbound e)) g' := by
  have ha := h.places .high
  obtain ⟨hflying,hcarried⟩ := (h.offers .low).take_self he ho.is
  have hother := (h.offers .high).take_other he ho.not_other
  have hsound : ∀ x ∈ (take e w).flight, Sound P x := fun x hx => h.sound x (List.mem_of_mem_erase hx)
  have hlow : g.low.offer ≠ .delivered := by
    rw [show g.low.offer = .inFlight from hflying]
    decide
  have hgot : g.high.got = false := by
    by_contra hg
    exact hlow (hsane.gotLow (by simpa using hg)).2
  have hcancel : g.cancel = .unsent := by
    by_contra hc
    exact hlow (hsane.cancel hc).1
  have hown : g.high.own = .unplaced ∨ g.high.own = .ringing := by
    cases hx : g.high.own with
    | unplaced => exact .inl rfl
    | ringing => exact .inr rfl
    | answered => exact absurd (ha.hub.own.trans hx) hn
    | gone =>
      rw [(hsane.gone hx).1] at hgot
      cases hgot
  have hmay : may g .lowOfferArrives = true := by
    simp only [may,decide_eq_true_eq]
    exact ⟨hflying,hown⟩
  refine ⟨move g .lowOfferArrives,.single (step_iff.mpr ⟨hmay,rfl⟩),?_⟩
  have hlowAt : At P .low { g.low with offer := .delivered } (w.place .low) :=
    (h.places .low).offer_delivered hflying
  rcases hown with hown | hown
  · have hne : g.high.own ≠ .ringing := by
      rw [hown]
      decide
    have hmove : move g .lowOfferArrives = { g with
        low := { g.low with offer := .delivered }
        high := { g.high with got := true } } := if_neg hne
    rw [hmove]
    obtain ⟨hturn,htame⟩ := offer_rings (i := i) ha.hub ho hf hgot hne
    refine .of_act (l := []) ?_ ?_ ?_ ?_ ?_ ?_
    · rw [place_take]
      exact ha.acts hturn.shows_ hturn.place htame ⟨rfl,rfl,.rfl,id⟩
    · rw [place_take]
      exact hlowAt
    · rw [place_take]
      exact hturn.sends
    · rw [List.append_nil]
      exact hsound
    · rw [List.append_nil]
      intro s
      cases s with
      | low => exact hcarried
      | high => exact hother
    · rw [List.append_nil]
      exact h.cancel.take_other he ho.not_cancel
  · have hmove : move g .lowOfferArrives =
        { low := { g.low with offer := .delivered }, high := { g.high with yielding := true }
          cancel := .inFlight } := if_pos hown
    rw [hmove]
    obtain ⟨ref,c,hwork,hc,hget⟩ := offer_glares (i := i) ha.hub ho hf hgot hown
    have hresult : work i 0 (w.place .high).hub (.inbound e) =
        ((w.place .high).hub.emit (.sendToPeer c),.glare ref e) := hwork
    refine .of_act (l := [c]) ?_ ?_ ?_ ?_ ?_ ?_
    · rw [place_take]
      constructor
      case hub =>
        simp only [Place.act,hresult]
        exact (ha.hub.emit _).alter rfl rfl
      case awaits =>
        intro y hy
        simp only [Place.act,hresult] at hy ⊢
        rcases mem_handlers hy with hy | ⟨rfl,_⟩
        · exact (ha.awaits y hy).mono rfl
        · exact ⟨ho,hget⟩
      case invited =>
        simp only [Place.act,hresult]
        rw [countP_handlers rfl]
        exact ha.invited
      case yielding =>
        have hzero := ha.yielding
        rw [if_neg] at hzero
        · simp only [Place.act,hresult,List.countP_append,hzero]
          rfl
        · exact fun hy => hlow (hsane.yielding hy).2.1
      case offered => exact ha.offered
      case unoffered => exact ha.unoffered
    · rw [place_take]
      exact hlowAt
    · rw [place_take,hresult]
      exact (Sends.refl _).send c
    · intro x hx
      rcases List.mem_append.mp hx with hx | hx
      · exact hsound x hx
      · rw [List.mem_singleton.mp hx]
        exact .cancel hc
    · have hnot : ∀ callId, ∀ x ∈ [c], isOfferOf callId x = false := fun callId x hx => by
        rw [List.mem_singleton.mp hx]
        exact hc.not_offer callId
      intro s
      cases s with
      | low => exact hcarried.send_other (hnot _)
      | high => exact hother.send_other (hnot _)
    · have hunsent := h.cancel.take_other he ho.not_cancel
      rw [hcancel] at hunsent
      exact hunsent.send_self hc.is

theorem follows_high_offer (h : Refines P w g) (hsane : Sane g) {e : RtcSignalEnvelope}
    (he : e ∈ w.flight) (ho : Offer P .high e)
    (hf : isEnvelopeFresh e (w.place .low).hub.now = true)
    (hn : P.own .low w = .answered → ∀ x ∈ w.delivered, x.type ≠ .cancel) :
    ∃ g', machine.Reaches g g' ∧ Refines P ((take e w).act i .low (.inbound e)) g' := by
  have ha := h.places .low
  obtain ⟨hflying,hcarried⟩ := (h.offers .high).take_self he ho.is
  have hother := (h.offers .low).take_other he ho.not_other
  have hgot : g.low.got = false := by
    by_contra hg
    have hlate := hsane.gotLate (by simpa using hg)
    rw [show g.high.offer = .inFlight from hflying] at hlate
    cases hlate
  have hopen : g.low.own = .answered → g.cancel ≠ .delivered := by
    intro hx hc
    have hpos := h.cancel.delivered.mpr hc
    obtain ⟨x,hx',hcx⟩ := List.countP_pos_iff.mp hpos
    exact hn (ha.hub.own.trans hx) x hx' (by simpa [isCancel] using hcx)
  have hmay : may g .highOfferArrives = true := by
    simp only [may,decide_eq_true_eq]
    exact ⟨hflying,hopen⟩
  have hhighAt : At P .high { g.high with offer := .delivered } (w.place .high) :=
    (h.places .high).offer_delivered hflying
  have hturn : Turns P .low { g.low with got := g.low.got || g.low.own ≠ .ringing }
      (w.place .low).hub (work i 0 (w.place .low).hub (.inbound e)).1 ∧
        Tame (work i 0 (w.place .low).hub (.inbound e)).2 := by
    by_cases hr : g.low.own = .ringing
    · have hsame : { g.low with got := g.low.got || g.low.own ≠ .ringing } = g.low := by
        rw [hr]
        simp
      rw [hsame]
      simp only [work,offer_ignored (i := i) ha.hub ho hf hgot hr]
      exact ⟨⟨ha.hub,rfl,.refl _⟩,trivial⟩
    · have hsame : (g.low.got || g.low.own ≠ .ringing) = true := by simp [hr]
      rw [hsame]
      exact offer_rings (i := i) ha.hub ho hf hgot hr
  refine ⟨move g .highOfferArrives,.single (step_iff.mpr ⟨hmay,rfl⟩),
    .of_act (l := []) ?_ ?_ ?_ ?_ ?_ ?_⟩
  · rw [place_take]
    exact ha.acts hturn.1.shows_ hturn.1.place hturn.2 ⟨rfl,rfl,.rfl,id⟩
  · rw [place_take]
    exact hhighAt
  · rw [place_take]
    exact hturn.1.sends
  · rw [List.append_nil]
    exact fun x hx => h.sound x (List.mem_of_mem_erase hx)
  · rw [List.append_nil]
    intro s
    cases s with
    | low => exact hother
    | high => exact hcarried
  · rw [List.append_nil]
    exact h.cancel.take_other he ho.not_cancel

theorem follows_cancel (h : Refines P w g) {e : RtcSignalEnvelope} (he : e ∈ w.flight)
    (hc : Cancel P e) (hf : isEnvelopeFresh e (w.place .low).hub.now = true) :
    ∃ g', machine.Reaches g g' ∧ Refines P ((take e w).act i .low (.inbound e)) g' := by
  have ha := h.places .low
  obtain ⟨hflying,hcarried⟩ := h.cancel.take_self he hc.is
  have hmay : may g .cancelArrives = true := by
    simp only [may,decide_eq_true_eq]
    exact hflying
  obtain ⟨hturn,htame⟩ := cancel_arrives (i := i) ha.hub hc hf
  refine ⟨move g .cancelArrives,.single (step_iff.mpr ⟨hmay,rfl⟩),
    .of_act (l := []) ?_ ?_ ?_ ?_ ?_ ?_⟩
  · rw [place_take]
    exact ha.acts hturn.shows_ hturn.place htame ⟨rfl,rfl,.rfl,id⟩
  · rw [place_take]
    exact h.places .high
  · rw [place_take]
    exact hturn.sends
  · rw [List.append_nil]
    exact fun x hx => h.sound x (List.mem_of_mem_erase hx)
  · rw [List.append_nil]
    intro s
    cases s with
    | low => exact (h.offers .low).take_other he (hc.not_offer _)
    | high => exact (h.offers .high).take_other he (hc.not_offer _)
  · rw [List.append_nil]
    exact hcarried

theorem follows_deliver (h : Refines P w g) (hsane : Sane g) {e : RtcSignalEnvelope}
    (he : e ∈ w.flight) (hf : isEnvelopeFresh e (w.place (P.target e)).hub.now = true)
    (ho : Orderly P w (.deliver e i)) :
    ∃ g', machine.Reaches g g' ∧ Refines P ((take e w).act i (P.target e) (.inbound e)) g' := by
  cases h.sound e he with
  | chat side hc =>
    rw [Parties.target_of hc.to_]
    exact follows_chat h he hc
  | offer side hoffer =>
    have htarget := Parties.target_of hoffer.to_
    rw [htarget] at hf ⊢
    have hord := ho hoffer.type
    rw [htarget] at hord
    cases side with
    | low => exact follows_low_offer h hsane he hoffer hf hord
    | high => exact follows_high_offer h hsane he hoffer hf hord
  | cancel hc =>
    have htarget : P.target e = Side.high.other := Parties.target_of hc.to_
    rw [htarget] at hf ⊢
    exact follows_cancel h he hc hf

/-- An orderly step of the two hubs is some moves of the protocol. -/
theorem follows {e : Event} {w' : World} (h : Refines P w g) (hsane : Sane g)
    (hl : (world P).step e w = some w') (ho : Orderly P w e) :
    ∃ g', machine.Reaches g g' ∧ Refines P w' g' := by
  obtain ⟨hp,rfl⟩ := world_step_iff.mp hl
  cases e with
  | invite side media =>
    simp only [possible,decide_eq_true_eq] at hp
    exact ⟨g,.refl g,follows_invite h hp media⟩
  | offer side sdp =>
    simp only [possible,decide_eq_true_eq] at hp
    exact follows_offer h hp ho sdp
  | frame side frame => exact follows_frame h hp
  | deliver e i =>
    simp only [possible,decide_eq_true_eq] at hp
    exact follows_deliver h hsane hp.1 hp.2 ho
  | resume side x i =>
    simp only [possible,decide_eq_true_eq] at hp
    exact follows_resume h hsane hp.1 hp.2 ho
  | tick side => exact follows_tick h hp
  | elapse side ms => exact ⟨g,.refl g,follows_elapse h ms⟩

end events

theorem refines_start (P : Parties) (now : Side → Int) : Refines P (start P now) {} where
  places side := by
    have hub : Shows P side {} ((start P now).place side).hub := by
      constructor
      case actor => cases side <;> rfl
      case valid =>
        cases side <;> exact fun _ _ hg => by cases hg
      case only => cases side <;> exact fun _ _ _ => rfl
      case own => cases side <;> rfl
      case outgoing =>
        cases side <;> exact fun _ _ hl => by cases hl
      case got => cases side <;> rfl
      case incoming =>
        cases side <;> exact fun _ _ hl => by cases hl
    have none : ((start P now).place side).handlers = [] := by cases side <;> rfl
    have quiet : ((start P now).place side).client = .quiet := by cases side <;> rfl
    have half : ({} : Protocol).half side = {} := by cases side <;> rfl
    rw [half]
    refine ⟨hub,?_,?_,?_,?_,fun _ => rfl⟩
    · rw [none]
      exact fun _ hx => by cases hx
    · rw [none,quiet]
      exact Nat.le_refl 0
    · rw [none]
      rfl
    · rw [quiet]
      exact fun hc => by cases hc
  sound _ he := by cases he
  offers side := by
    have half : ({} : Protocol).half side = {} := by cases side <;> rfl
    rw [half]
    exact ⟨rfl,⟨fun hx => absurd hx (Nat.lt_irrefl 0),fun hx => by cases hx⟩⟩
  cancel := ⟨rfl,⟨fun hx => absurd hx (Nat.lt_irrefl 0),fun hx => by cases hx⟩⟩

section quiet

variable {P : Parties} {side : Side} {h : Half} {s : Store} {w : World} {g : Protocol}

theorem Shows.absent (hs : Shows P side h s) {c : String} (hl : s.lookup c = none) :
    s.calls.get c = none := lookup_none hs.valid hl

theorem Shows.only_own (hs : Shows P side h s) (ho : h.own.isHeld = true) (hg : h.got = false) :
    Only (P.callId side) (P.actor side.other) s := by
  rw [hs.held] at ho
  obtain ⟨⟨ref,call⟩,hl⟩ := Option.isSome_iff_exists.mp ho
  obtain ⟨hget,hc,_,ht⟩ := hs.valid.lookup hl
  refine ⟨ref,call,JsMap.entries_eq_singleton hget fun c hne => hs.absent ?_,hc,hs.peer hl,ht⟩
  by_cases hother : c = P.callId side.other
  · have hgot := hs.got
    rw [hg,Option.isSome_eq_false_iff,Option.isNone_iff_eq_none] at hgot
    rw [hother]
    exact hgot
  · exact hs.only c hne hother

theorem Shows.only_got (hs : Shows P side h s) (ho : h.own.isHeld = false) (hg : h.got = true) :
    Only (P.callId side.other) (P.actor side.other) s := by
  have hsome := hs.got
  rw [hg] at hsome
  obtain ⟨⟨ref,call⟩,hl⟩ := Option.isSome_iff_exists.mp hsome
  obtain ⟨hget,hc,_,ht⟩ := hs.valid.lookup hl
  refine ⟨ref,call,JsMap.entries_eq_singleton hget fun c hne => hs.absent ?_,hc,hs.peer hl,ht⟩
  by_cases hown : c = P.callId side
  · rw [hs.held,Option.isSome_eq_false_iff,Option.isNone_iff_eq_none] at ho
    rw [hown]
    exact ho
  · exact hs.only c hown hne

theorem Carried.landed {p : RtcSignalEnvelope → Bool} {delivered : List RtcSignalEnvelope}
    {m : Message} (h : Carried p [] delivered m) : m ≠ .inFlight := by
  intro hm
  have hcount := h.flight
  rw [if_pos hm] at hcount
  cases hcount

theorem At.offered_of_placed {p : Place} (ha : At P side h p) (hp : h.own ≠ .unplaced)
    (hc : p.client ≠ .invited) : p.client = .offered := by
  have hcount := ha.invited
  cases hx : p.client with
  | quiet =>
    rw [hx,if_neg hp,if_pos rfl] at hcount
    omega
  | invited => exact absurd hx hc
  | offered => rfl

theorem Refines.still (h : Refines P w g) (hsane : Sane g) (hq : Quiet w) : Still g where
  lowOffer := (hq.flight ▸ h.offers .low).landed
  highOffer := (hq.flight ▸ h.offers .high).landed
  cancel := (hq.flight ▸ h.cancel).landed
  yielding := by
    by_contra hy
    have hcount := (h.places .high).yielding
    rw [hq.handlers .high,if_pos (show (g.half .high).yielding = true from eq_true_of_ne_false hy)]
      at hcount
    cases hcount
  low hp := by
    have ha := h.places .low
    have hc := ha.offered_of_placed hp (hq.client .low)
    exact (ha.offered hc).resolve_right hsane.lowKeeps.1
  high hh := by
    have ha := h.places .high
    have hp : (g.half .high).own ≠ .unplaced := by
      intro hu
      rw [show g.high.own = .unplaced from hu] at hh
      cases hh
    have hc := ha.offered_of_placed hp (hq.client .high)
    refine (ha.offered hc).resolve_right fun hgone => ?_
    rw [show g.high.own = .gone from hgone] at hh
    cases hh

end quiet

/-- Two hubs whose steps are orderly are left with one call, the lower side's if that side
dialed. -/
theorem glare_converges {P : Parties} {now : Side → Int} {w : World}
    (hr : (world P).ReachesBy (fun w e _ => Orderly P w e) (start P now) w) (hq : Quiet w)
    (hd : ∃ side, (w.place side).client = .offered) :
    Converged P (P.callId (if w.low.client = .offered then .low else .high)) w := by
  obtain ⟨g,_,hg,h⟩ := hr.simulated (n := machine)
    (R := fun w g => machine.Reaches {} g ∧ Refines P w g) ⟨.refl _,refines_start P now⟩
    (by
      intro s e t a hs hl ho
      obtain ⟨b,hab,hb⟩ := follows hs.2 (sane_reaches hs.1) hl ho
      exact ⟨b,hab,hs.1.trans hab,hb⟩)
  have hsane := sane_reaches hg
  have hstill := h.still hsane hq
  have hlow := (h.places .low).hub
  have hhigh := (h.places .high).hub
  by_cases hc : w.low.client = .offered
  · rw [if_pos hc]
    have hp : g.low.own ≠ .unplaced := by
      intro hu
      rcases (h.places .low).offered hc with hne | hgone
      · exact hne (hsane.lowOffer hu)
      · rw [show g.low.own = .gone from hgone] at hu
        cases hu
    obtain ⟨h₁,h₂,h₃,h₄⟩ := low_wins hg hstill hp
    exact forall_side .low (hlow.only_own h₁ h₂) (hhigh.only_got h₃ h₄)
  · rw [if_neg hc]
    have hu : g.low.own = .unplaced := by
      by_contra hp
      exact hc ((h.places .low).offered_of_placed hp (hq.client .low))
    have hhc : w.high.client = .offered := by
      obtain ⟨side,hside⟩ := hd
      cases side with
      | low => exact absurd hside hc
      | high => exact hside
    have hp : g.high.own ≠ .unplaced := by
      intro hu'
      rcases (h.places .high).offered hhc with hne | hgone
      · exact hne (hsane.highOffer hu')
      · rw [show g.high.own = .gone from hgone] at hu'
        cases hu'
    obtain ⟨h₁,h₂,h₃,h₄⟩ := high_wins hg hstill hu hp
    exact forall_side .low (hlow.only_got h₁ h₂) (hhigh.only_own h₃ h₄)

def pair : Parties where
  actor
    | .low => "https://a.example/ap/users/a"
    | .high => "https://b.example/ap/users/b"
  callId
    | .low => "a1"
    | .high => "b1"
  ordered := by decide
  distinct := by decide

def audio : CallMediaKind := ⟨true,false⟩

def offerOf (side : Side) : RtcSignalEnvelope where
  callId := pair.callId side
  from_ := pair.actor side
  to_ := pair.actor side.other
  type := .offer
  media := some audio
  sdp := some "v=0"
  candidates := none
  sfuFocus := none
  reason := none
  ts := 0
  ttlMs := defaultTtlMs

def cancelOf (side : Side) : RtcSignalEnvelope :=
  { offerOf side with type := .cancel, media := none, sdp := none, reason := some "glare" }

/-- Both dial, and each offer finds the other's call ringing. -/
theorem glare_converges_dial : ∃ w, Converged pair "a1" w := by
  have step : ∀ {w : World} (e : Event),
      (world pair).ReachesBy (fun w e _ => Orderly pair w e) (start pair fun _ => 0) w →
        possible pair w e = true → Orderly pair w e →
          (world pair).ReachesBy (fun w e _ => Orderly pair w e) (start pair fun _ => 0)
            (happen pair w e) := fun e hr hp ho => hr.snoc (world_step_iff.mpr ⟨hp,rfl⟩) ho
  have h₁ := step (.invite .low audio) (.refl _) (by decide) trivial
  have h₂ := step (.invite .high audio) h₁ (by decide) trivial
  have h₃ := step (.resume .low (.invited (pair.callId .low) (pair.actor .high) audio) {}) h₂
    (by decide) trivial
  have h₄ := step (.resume .high (.invited (pair.callId .high) (pair.actor .low) audio) {}) h₃
    (by decide) (.inr (by decide))
  have h₅ := step (.offer .low "v=0") h₄ (by decide) (show pair.own .low _ ≠ .unplaced by decide)
  have h₆ := step (.offer .high "v=0") h₅ (by decide)
    (show pair.own .high _ ≠ .unplaced by decide)
  have h₇ := step (.resume .low (.relaying 0 none) {}) h₆ (by decide) trivial
  have h₈ := step (.resume .high (.relaying 0 none) {}) h₇ (by decide) trivial
  have h₉ := step (.deliver (offerOf .low) {}) h₈ (by decide)
    (fun _ => show pair.own .high _ ≠ .answered by decide)
  have hyield := step (.resume .high (.glare 0 (offerOf .low)) {}) h₉ (by decide) trivial
  have hring := step (.resume .high (.ringing 1 (offerOf .low)) {}) hyield (by decide) trivial
  have hkeep := step (.deliver (offerOf .high) {}) hring (by decide) (fun _ =>
    show pair.own .low _ = .answered → _ from fun ha => absurd ha (by decide))
  have hcancel := step (.deliver (cancelOf .high) {}) hkeep (by decide) (fun hc => by cases hc)
  refine ⟨_,glare_converges hcancel ⟨by decide,fun side => ?_,fun side => ?_⟩ ⟨.low,by decide⟩⟩
  · cases side <;> decide
  · cases side <;> decide

/-- `b` dials while the call of `a` rings. -/
def lateDial : List Event :=
  [.invite .low audio,
    .resume .low (.invited (pair.callId .low) (pair.actor .high) audio) {},
    .offer .low "v=0", .resume .low (.relaying 0 none) {},
    .deliver (offerOf .low) { hasClients := false },
    .invite .high audio,
    .resume .high (.invited (pair.callId .high) (pair.actor .low) audio) {},
    .offer .high "v=0", .resume .high (.relaying 1 none) {},
    .deliver (offerOf .high) {}]

theorem lateDial_two_calls :
    ((world pair).run lateDial (start pair fun _ => 0)).map (fun w =>
      ((w.flight.length,w.low.handlers.length,w.high.handlers.length),
        (w.low.client,w.high.client),w.high.hub.calls.values)) =
      some ((0,0,0),(.offered,.offered),[0,1]) := by decide

/-- The higher side dials while the lower side's call rings at it. -/
theorem glare_diverges : ¬∀ (P : Parties) (now : Side → Int) (w : World),
    (world P).Reaches (start P now) w → Quiet w →
      (∃ side, (w.place side).client = .offered) → ∃ callId, Converged P callId w := by
  intro h
  obtain ⟨w,hw,heq⟩ := Option.map_eq_some_iff.mp lateDial_two_calls
  simp only [Prod.mk.injEq,List.length_eq_zero_iff] at heq
  obtain ⟨⟨hflight,hlow,hhigh⟩,⟨hcl,hch⟩,hvalues⟩ := heq
  have hquiet : Quiet w := by
    refine ⟨hflight,fun side => ?_,fun side => ?_⟩
    · cases side with
      | low => exact hlow
      | high => exact hhigh
    · cases side with
      | low => exact fun hc => by cases hcl.symm.trans hc
      | high => exact fun hc => by cases hch.symm.trans hc
  obtain ⟨callId,hconv⟩ := h pair (fun _ => 0) w (.of_run hw) hquiet ⟨.low,hcl⟩
  obtain ⟨ref,call,hentries,_⟩ := hconv .high
  have hone : w.high.hub.calls.values = [ref] := by
    rw [JsMap.values,show w.high.hub.calls.entries = [(callId,ref)] from hentries]
    rfl
  rw [hone] at hvalues
  cases hvalues

end Yurucommu.Glare
