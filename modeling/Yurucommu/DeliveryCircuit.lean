import Yurucommu.DeliveryPlanner
import Yurucommu.JsonRecord
import Mathlib.Data.List.DropRight

/-!
The circuit breaker of one endpoint, and what it is for: a contract on the outcomes that were
recorded and on the answers that were given.
-/

set_option autoImplicit false

namespace Yurucommu.DeliveryCircuit

open DeliveryPlanner (safeParseIsoTimeMs)
open IsoDates (isoText)
open JsonText (Json NumberFormat Units)
open StoryUpdates (Dates)
open Whatwg (Text)

inductive CircuitState where
  | closed | opened | halfOpen
deriving DecidableEq, Repr

def openDurationMs : ℤ := 5 * 60 * 1000
def halfOpenProbes : Nat := 3
def halfOpenDeferSeconds : ℤ := 30
def recentWindowSize : Nat := 20
def consecutiveFailureThreshold : Nat := 5

/-- As the quotient it is compared with, rounded to the nearest double. -/
def failureRateThreshold : ℚ := 6 / 10

/-- The row of the endpoint in `delivery_circuit`. -/
structure CircuitRow where
  state : CircuitState
  consecutiveFailures : Nat
  recentOutcomesJson : Units
  openUntil : Option Text
  halfOpenProbeAttempts : Nat
  halfOpenProbeSuccesses : Nat
deriving DecidableEq

def initialCircuitData : CircuitRow where
  state := .closed
  consecutiveFailures := 0
  recentOutcomesJson := [91,93]
  openUntil := none
  halfOpenProbeAttempts := 0
  halfOpenProbeSuccesses := 0

section code

variable (dates : Dates) (F : NumberFormat ℤ)

def isOne : Json ℤ → Bool
  | .number (.finite value) => value = 1
  | _ => false

def parseRecentOutcomes (json : Units) : List Nat :=
  match JsonText.parse F json with
  | some (.array entries) => (entries.map fun v => if isOne v then 1 else 0).rtake recentWindowSize
  | _ => []

def serializeRecentOutcomes (values : List Nat) : Units :=
  JsonText.stringify F (.array ((values.rtake recentWindowSize).map fun v : Nat =>
    .number (.finite (v : ℤ))))

def getOrCreateCircuit (stored : Option CircuitRow) : CircuitRow := stored.getD initialCircuitData

def loadCircuitWithOutcome (stored : Option CircuitRow) (outcome : Nat) : CircuitRow × List Nat :=
  let circuit := getOrCreateCircuit stored
  (circuit,parseRecentOutcomes F circuit.recentOutcomesJson ++ [outcome])

/-- None where `toISOString` throws. -/
def buildOpenData (now : ℤ) (recent : List Nat) (consecutiveFailures : Nat) : Option CircuitRow := do
  let openUntil ← isoText (now + openDurationMs)
  return {
    state := .opened
    consecutiveFailures
    recentOutcomesJson := serializeRecentOutcomes F recent
    openUntil := some openUntil
    halfOpenProbeAttempts := 0
    halfOpenProbeSuccesses := 0 }

inductive Decision where
  | allow
  | deny (deferSeconds : ℤ)
deriving DecidableEq, Repr

def checkCircuit (now : ℤ) (stored : Option CircuitRow) : Decision × CircuitRow :=
  let circuit := getOrCreateCircuit stored
  match circuit.state with
  | .opened =>
    let halfOpen := { circuit with
      state := .halfOpen
      openUntil := none
      halfOpenProbeAttempts := 0
      halfOpenProbeSuccesses := 0 }
    match safeParseIsoTimeMs dates circuit.openUntil with
    | some untilMs =>
      if now < untilMs then (.deny (max 1 ⌈((untilMs - now : ℤ) : ℚ) / 1000⌉),circuit)
      else (.allow,halfOpen)
    | none => (.allow,halfOpen)
  | .halfOpen =>
    if halfOpenProbes ≤ circuit.halfOpenProbeAttempts then (.deny halfOpenDeferSeconds,circuit)
    else (.allow,circuit)
  | .closed => (.allow,circuit)

def recordCircuitSuccess (stored : Option CircuitRow) : CircuitRow :=
  let (circuit,recent) := loadCircuitWithOutcome F stored 0
  let serialized := serializeRecentOutcomes F recent
  if circuit.state = .halfOpen then
    let nextAttempts := circuit.halfOpenProbeAttempts + 1
    let nextSuccesses := circuit.halfOpenProbeSuccesses + 1
    if halfOpenProbes ≤ nextAttempts ∧ halfOpenProbes ≤ nextSuccesses then
      { initialCircuitData with recentOutcomesJson := serialized }
    else { circuit with
      consecutiveFailures := 0
      recentOutcomesJson := serialized
      halfOpenProbeAttempts := nextAttempts
      halfOpenProbeSuccesses := nextSuccesses }
  else { circuit with consecutiveFailures := 0, recentOutcomesJson := serialized }

/-- None where it throws. -/
def recordCircuitFailure (now : ℤ) (stored : Option CircuitRow) : Option CircuitRow :=
  let (circuit,recent) := loadCircuitWithOutcome F stored 1
  if circuit.state = .halfOpen then buildOpenData F now recent consecutiveFailureThreshold
  else
    let consecutiveFailures := circuit.consecutiveFailures + 1
    let window := recent.rtake recentWindowSize
    let failures := window.sum
    let fullWindow := window.length = recentWindowSize
    if consecutiveFailureThreshold ≤ consecutiveFailures ∨
        fullWindow ∧ failureRateThreshold ≤ (failures : ℚ) / recentWindowSize then
      buildOpenData F now recent consecutiveFailures
    else some { circuit with
      consecutiveFailures
      recentOutcomesJson := serializeRecentOutcomes F recent }

end code

section runs

inductive Call where
  | check | success | failure
deriving DecidableEq, Repr

/-- A call, when it was made, and what it answered if it was a check. -/
structure Answered where
  call : Call
  now : ℤ
  decision : Option Decision
deriving DecidableEq, Repr

/-- The row of the endpoint, and the calls so far. -/
structure Breaker where
  row : Option CircuitRow := none
  clock : ℤ
  trace : List Answered := []
deriving DecidableEq

def Breaker.record (b : Breaker) (row : CircuitRow) (answered : Answered) : Breaker :=
  ⟨some row,answered.now,b.trace ++ [answered]⟩

variable (dates : Dates) (F : NumberFormat ℤ)

/-- The calls come one after another, on a clock that does not run backwards. -/
def step (l : Call × ℤ) (b : Breaker) : Option Breaker :=
  if l.2 < b.clock then none
  else
    match l.1 with
    | .check =>
      let (decision,row) := checkCircuit dates l.2 b.row
      some (b.record row ⟨.check,l.2,some decision⟩)
    | .success => some (b.record (recordCircuitSuccess F b.row) ⟨.success,l.2,none⟩)
    | .failure => (recordCircuitFailure F l.2 b.row).map fun row => b.record row ⟨.failure,l.2,none⟩

def machine : Machine Breaker (Call × ℤ) := ⟨step dates F⟩

end runs

section contract

/-- What is promised: the circuit is closed, open for a time, or has let probes through. -/
inductive Phase where
  | closed
  | opened (openUntil : ℤ)
  | halfOpen (successes : Nat)

/-- A phase, and the outcomes that were recorded: whether each was a failure. -/
structure Promise where
  phase : Phase
  outcomes : List Bool

/-- The last five outcomes are failures, or at least twelve of the last twenty. -/
def Opens (outcomes : List Bool) : Prop :=
  (5 ≤ outcomes.length ∧ ∀ failed ∈ outcomes.rtake 5, failed = true) ∨
    (20 ≤ outcomes.length ∧ 12 ≤ (outcomes.rtake 20).count true)

inductive Obeys : Promise → Answered → Promise → Prop where
  | closedAdmits (o : List Bool) (now : ℤ) :
      Obeys ⟨.closed,o⟩ ⟨.check,now,some .allow⟩ ⟨.closed,o⟩
  | denies {openUntil now deferSeconds : ℤ} (o : List Bool) (early : now < openUntil)
      (positive : 1 ≤ deferSeconds) (late : openUntil ≤ now + 1000 * deferSeconds) :
      Obeys ⟨.opened openUntil,o⟩ ⟨.check,now,some (.deny deferSeconds)⟩ ⟨.opened openUntil,o⟩
  | probes {openUntil now : ℤ} (o : List Bool) (passed : openUntil ≤ now) :
      Obeys ⟨.opened openUntil,o⟩ ⟨.check,now,some .allow⟩ ⟨.halfOpen 0,o⟩
  | halfOpenAdmits (k : Nat) (o : List Bool) (now : ℤ) :
      Obeys ⟨.halfOpen k,o⟩ ⟨.check,now,some .allow⟩ ⟨.halfOpen k,o⟩
  | closedSucceeds (o : List Bool) (now : ℤ) :
      Obeys ⟨.closed,o⟩ ⟨.success,now,none⟩ ⟨.closed,o ++ [false]⟩
  | openSucceeds (openUntil : ℤ) (o : List Bool) (now : ℤ) :
      Obeys ⟨.opened openUntil,o⟩ ⟨.success,now,none⟩ ⟨.opened openUntil,o ++ [false]⟩
  | probeSucceeds {k : Nat} (o : List Bool) (now : ℤ) (more : k + 1 < 3) :
      Obeys ⟨.halfOpen k,o⟩ ⟨.success,now,none⟩ ⟨.halfOpen (k + 1),o ++ [false]⟩
  | lastProbeSucceeds (o : List Bool) (now : ℤ) :
      Obeys ⟨.halfOpen 2,o⟩ ⟨.success,now,none⟩ ⟨.closed,o ++ [false]⟩
  | opens {o : List Bool} (now : ℤ) (due : Opens (o ++ [true])) :
      Obeys ⟨.closed,o⟩ ⟨.failure,now,none⟩ ⟨.opened (now + openDurationMs),o ++ [true]⟩
  | tolerates {o : List Bool} (now : ℤ) (notDue : ¬Opens (o ++ [true])) :
      Obeys ⟨.closed,o⟩ ⟨.failure,now,none⟩ ⟨.closed,o ++ [true]⟩
  | openFails {openUntil later now : ℤ} (o : List Bool) (longer : openUntil ≤ later)
      (which : later = openUntil ∨ later = now + openDurationMs) :
      Obeys ⟨.opened openUntil,o⟩ ⟨.failure,now,none⟩ ⟨.opened later,o ++ [true]⟩
  | probeFails (k : Nat) (o : List Bool) (now : ℤ) :
      Obeys ⟨.halfOpen k,o⟩ ⟨.failure,now,none⟩ ⟨.opened (now + openDurationMs),o ++ [true]⟩

/-- Calls and answers that keep the promise, from one state of it to another. -/
inductive Follows (p : Promise) : List Answered → Promise → Prop where
  | nil : Follows p [] p
  | snoc {trace : List Answered} {answered : Answered} {q r : Promise}
      (before : Follows p trace q) (last : Obeys q answered r) : Follows p (trace ++ [answered]) r

end contract

end Yurucommu.DeliveryCircuit
