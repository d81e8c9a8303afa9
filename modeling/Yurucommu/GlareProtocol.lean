import Yurucommu.Machine

/-!
What glare resolution is for: of two sides that may call each other, both are left with
the same one call, and it is the lower side's whenever that side dialed.
-/

set_option autoImplicit false

namespace Yurucommu.Glare

inductive Side where
  | low | high
deriving DecidableEq, Repr

def Side.other : Side → Side
  | .low => .high
  | .high => .low

/-- A side's own call: not dialed, dialed, taken up by the other side, cancelled. -/
inductive Own where
  | unplaced | ringing | answered | gone
deriving DecidableEq, Repr

def Own.isHeld : Own → Bool
  | .ringing | .answered => true
  | .unplaced | .gone => false

inductive Message where
  | unsent | inFlight | delivered
deriving DecidableEq, Repr

/-- One side: its own call, whether it holds the other's, the offer of its own call, and
whether it is about to give its own call up. -/
structure Half where
  own : Own := .unplaced
  got : Bool := false
  offer : Message := .unsent
  yielding : Bool := false
deriving DecidableEq, Repr

/-- `cancel` is how the higher side tells that it gave its call up. -/
structure Protocol where
  low : Half := {}
  high : Half := {}
  cancel : Message := .unsent
deriving DecidableEq, Repr

namespace Protocol

def half (g : Protocol) : Side → Half
  | .low => g.low
  | .high => g.high

def setHalf (g : Protocol) (side : Side) (h : Half) : Protocol :=
  match side with
  | .low => { g with low := h }
  | .high => { g with high := h }

@[simp] theorem half_setHalf (g : Protocol) (side : Side) (h : Half) :
    (g.setHalf side h).half side = h := by
  cases side <;> rfl

@[simp] theorem half_setHalf_other (g : Protocol) (side : Side) (h : Half) :
    (g.setHalf side h).half side.other = g.half side.other := by
  cases side <;> rfl

@[simp] theorem cancel_setHalf (g : Protocol) (side : Side) (h : Half) :
    (g.setHalf side h).cancel = g.cancel := by
  cases side <;> rfl

end Protocol

inductive Move where
  | dials (side : Side)
  | offers (side : Side)
  | answered (side : Side)
  | lowOfferArrives | highOfferArrives | yields | cancelArrives
deriving DecidableEq, Repr

/-- The higher side does not dial while it holds the lower side's call, and does not hear
of that call while its own is taken up; the lower side does not hear of the higher side's
call when its own is taken up and that call's cancel has come. -/
def may (g : Protocol) : Move → Bool
  | .dials .low => g.low.own = .unplaced
  | .dials .high => g.high.own = .unplaced ∧ g.high.got = false
  | .offers side => (g.half side).own.isHeld = true ∧ (g.half side).offer = .unsent
  | .answered side => (g.half side).own = .ringing
  | .lowOfferArrives =>
    g.low.offer = .inFlight ∧ (g.high.own = .unplaced ∨ g.high.own = .ringing)
  | .highOfferArrives =>
    g.high.offer = .inFlight ∧ (g.low.own = .answered → g.cancel ≠ .delivered)
  | .yields => g.high.yielding
  | .cancelArrives => g.cancel = .inFlight

def move (g : Protocol) : Move → Protocol
  | .dials side => g.setHalf side { g.half side with own := .ringing }
  | .offers side => g.setHalf side { g.half side with offer := .inFlight }
  | .answered side => g.setHalf side { g.half side with own := .answered }
  | .lowOfferArrives =>
    if g.high.own = .ringing then
      { low := { g.low with offer := .delivered }, high := { g.high with yielding := true }
        cancel := .inFlight }
    else { g with
      low := { g.low with offer := .delivered }
      high := { g.high with got := true } }
  | .highOfferArrives =>
    { g with
      high := { g.high with offer := .delivered }
      low := { g.low with got := g.low.got || g.low.own ≠ .ringing } }
  | .yields => { g with high := { g.high with own := .gone, got := true, yielding := false } }
  | .cancelArrives => { g with low := { g.low with got := false }, cancel := .delivered }

def machine : Machine Protocol Move :=
  ⟨fun m g => if may g m then some (move g m) else none⟩

theorem step_iff {m : Move} {g g' : Protocol} :
    machine.step m g = some g' ↔ may g m = true ∧ g' = move g m := by
  simp only [machine,Option.ite_none_right_eq_some,Option.some.injEq]
  exact and_congr_right fun _ => eq_comm

/-- What holds whenever both sides only make moves they may make. -/
structure Sane (g : Protocol) : Prop where
  lowKeeps : g.low.own ≠ .gone ∧ g.low.yielding = false
  lowOffer : g.low.own = .unplaced → g.low.offer = .unsent
  highOffer : g.high.own = .unplaced → g.high.offer = .unsent
  gotLow : g.high.got = true → g.high.own.isHeld = false ∧ g.low.offer = .delivered
  yielding : g.high.yielding = true →
    g.high.own.isHeld = true ∧ g.low.offer = .delivered ∧ g.cancel ≠ .unsent
  delivered : g.low.offer = .delivered → g.high.got = true ∨ g.high.yielding = true
  gone : g.high.own = .gone → g.high.got = true ∧ g.cancel ≠ .unsent
  cancel : g.cancel ≠ .unsent →
    g.low.offer = .delivered ∧ (g.high.yielding = true ∨ g.high.own = .gone)
  gotHigh : g.low.got = true → g.cancel ≠ .delivered ∧ (g.cancel = .unsent →
    g.high.own.isHeld = true ∧ g.high.yielding = false)
  gotLate : g.low.got = true → g.high.offer = .delivered
  heard : g.high.offer = .delivered → g.low.own = .unplaced → g.low.got = true

theorem sane_initial : Sane {} := by
  constructor <;> decide

section moves

variable {g : Protocol}

theorem sane_dials (h : Sane g) {side : Side} (hm : may g (.dials side) = true) :
    Sane (move g (.dials side)) := by
  obtain ⟨h1,h2,h3,h4,h5,h6,h7,h8,h9,h10,h11⟩ := h
  cases side with
  | low =>
    replace hm := of_decide_eq_true hm
    constructor <;> grind -ring -linarith [move,Protocol.setHalf,Protocol.half,Own.isHeld]
  | high =>
    replace hm := of_decide_eq_true hm
    constructor <;> grind -ring -linarith [move,Protocol.setHalf,Protocol.half,Own.isHeld]

theorem sane_offers (h : Sane g) {side : Side} (hm : may g (.offers side) = true) :
    Sane (move g (.offers side)) := by
  obtain ⟨h1,h2,h3,h4,h5,h6,h7,h8,h9,h10,h11⟩ := h
  cases side with
  | low =>
    simp only [may,Protocol.half] at hm
    constructor <;> grind -ring -linarith [move,Protocol.setHalf,Protocol.half,Own.isHeld]
  | high =>
    simp only [may,Protocol.half] at hm
    constructor <;> grind -ring -linarith [move,Protocol.setHalf,Protocol.half,Own.isHeld]

theorem sane_answered (h : Sane g) {side : Side} (hm : may g (.answered side) = true) :
    Sane (move g (.answered side)) := by
  obtain ⟨h1,h2,h3,h4,h5,h6,h7,h8,h9,h10,h11⟩ := h
  cases side with
  | low =>
    simp only [may,Protocol.half] at hm
    constructor <;> grind -ring -linarith [move,Protocol.setHalf,Protocol.half,Own.isHeld]
  | high =>
    simp only [may,Protocol.half] at hm
    constructor <;> grind -ring -linarith [move,Protocol.setHalf,Protocol.half,Own.isHeld]

theorem sane_highOfferArrives (h : Sane g) (hm : may g .highOfferArrives = true) :
    Sane (move g .highOfferArrives) := by
  obtain ⟨h1,h2,h3,h4,h5,h6,h7,h8,h9,h10,h11⟩ := h
  replace hm := of_decide_eq_true hm
  have unheard : g.low.own ≠ .ringing → g.cancel ≠ .delivered := by
    cases hown : g.low.own with
    | unplaced => grind -ring -linarith
    | ringing => exact fun hne => absurd rfl hne
    | answered => exact fun _ => hm.2 hown
    | gone => exact absurd hown h1.1
  have held : g.cancel = .unsent → g.high.own.isHeld = true := by
    cases hown : g.high.own with
    | unplaced => exact absurd (h3 hown) (by rw [hm.1]; decide)
    | ringing | answered => exact fun _ => rfl
    | gone => exact fun hc => absurd hc (h7 hown).2
  constructor <;> grind -ring -linarith [move,Own.isHeld]

end moves

theorem sane_step {m : Move} {g g' : Protocol} (h : Sane g) (hs : machine.step m g = some g') :
    Sane g' := by
  obtain ⟨hm,rfl⟩ := step_iff.mp hs
  clear hs
  cases m with
  | dials side => exact sane_dials h hm
  | offers side => exact sane_offers h hm
  | answered side => exact sane_answered h hm
  | lowOfferArrives =>
    obtain ⟨h1,h2,h3,h4,h5,h6,h7,h8,h9,h10,h11⟩ := h
    replace hm := of_decide_eq_true hm
    constructor <;> grind -ring -linarith [move,Own.isHeld]
  | highOfferArrives => exact sane_highOfferArrives h hm
  | yields =>
    obtain ⟨h1,h2,h3,h4,h5,h6,h7,h8,h9,h10,h11⟩ := h
    simp only [may] at hm
    constructor <;> grind -ring -linarith [move,Own.isHeld]
  | cancelArrives =>
    obtain ⟨h1,h2,h3,h4,h5,h6,h7,h8,h9,h10,h11⟩ := h
    replace hm := of_decide_eq_true hm
    constructor <;> grind -ring -linarith [move,Own.isHeld]

theorem sane_reaches {g : Protocol} (h : machine.Reaches {} g) : Sane g :=
  h.invariant sane_initial fun _ _ _ hs hl _ => sane_step hs hl

/-- Nothing is under way: no message, no yielding, and what was dialed was offered. -/
structure Still (g : Protocol) : Prop where
  lowOffer : g.low.offer ≠ .inFlight
  highOffer : g.high.offer ≠ .inFlight
  cancel : g.cancel ≠ .inFlight
  yielding : g.high.yielding = false
  low : g.low.own ≠ .unplaced → g.low.offer ≠ .unsent
  high : g.high.own.isHeld = true → g.high.offer ≠ .unsent

/-- Both sides are left with the lower side's call if that side dialed. -/
theorem low_wins {g : Protocol} (h : machine.Reaches {} g) (hs : Still g)
    (hd : g.low.own ≠ .unplaced) :
    g.low.own.isHeld = true ∧ g.low.got = false ∧ g.high.own.isHeld = false ∧
      g.high.got = true := by
  have hsane := sane_reaches h
  have arrived : g.low.offer = .delivered := by
    cases ho : g.low.offer with
    | unsent => exact absurd ho (hs.low hd)
    | inFlight => exact absurd ho hs.lowOffer
    | delivered => rfl
  have got : g.high.got = true := by
    have hor := hsane.delivered arrived
    rw [hs.yielding] at hor
    simpa using hor
  have away := (hsane.gotLow got).1
  refine ⟨?_,?_,away,got⟩
  · cases ho : g.low.own with
    | unplaced => exact absurd ho hd
    | gone => exact absurd ho hsane.lowKeeps.1
    | ringing | answered => rfl
  · by_contra hlow
    obtain ⟨hnd,hun⟩ := hsane.gotHigh (by simpa using hlow)
    cases hc : g.cancel with
    | unsent =>
      rw [away] at hun
      exact absurd (hun hc).1 (by decide)
    | inFlight => exact hs.cancel hc
    | delivered => exact hnd hc

/-- Otherwise with the higher side's, if that side dialed. -/
theorem high_wins {g : Protocol} (h : machine.Reaches {} g) (hs : Still g)
    (hl : g.low.own = .unplaced) (hd : g.high.own ≠ .unplaced) :
    g.low.own.isHeld = false ∧ g.low.got = true ∧ g.high.own.isHeld = true ∧
      g.high.got = false := by
  have hsane := sane_reaches h
  have unsent := hsane.lowOffer hl
  have alone : g.high.got = false := by
    by_contra hg
    rw [(hsane.gotLow (by simpa using hg)).2] at unsent
    cases unsent
  have held : g.high.own.isHeld = true := by
    cases ho : g.high.own with
    | unplaced => exact absurd ho hd
    | gone =>
      rw [(hsane.gone ho).1] at alone
      cases alone
    | ringing | answered => rfl
  have arrived : g.high.offer = .delivered := by
    cases ho : g.high.offer with
    | unsent => exact absurd ho (hs.high held)
    | inFlight => exact absurd ho hs.highOffer
    | delivered => rfl
  exact ⟨by rw [hl]; rfl,hsane.heard arrived hl,held,alone⟩

end Yurucommu.Glare
