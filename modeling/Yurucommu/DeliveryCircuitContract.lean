import Yurucommu.DeliveryCircuit
import Yurucommu.MachineTrace
import Yurucommu.StoryUpdatesExact

/-!
The circuit keeps its contract in every run.
-/

set_option autoImplicit false

namespace Yurucommu.DeliveryCircuit

open DeliveryPlanner (safeParseIsoTimeMs)
open FeedCursor (toISOString)
open IsoDates (InRange isoText isoText_some)
open JsonText (Json NumberFormat Units)
open StoryUpdates (Dates isoDates)

section windows

variable {α : Type} {n : Nat} {o : List Bool}

theorem rtake_snoc (l : List α) (x : α) (n : Nat) :
    (l.rtake n ++ [x]).rtake n = (l ++ [x]).rtake n := by
  cases n with
  | zero => simp
  | succ n =>
    simp only [List.rtake_concat_succ]
    congr 1
    rw [List.rtake_eq_reverse_take_reverse,List.rtake_eq_reverse_take_reverse,
      List.rtake_eq_reverse_take_reverse,List.reverse_reverse,List.take_take,
      Nat.min_eq_left (Nat.le_succ n)]

theorem rtake_rtake (l : List α) (n : Nat) : (l.rtake n).rtake n = l.rtake n := by
  rw [List.rtake_eq_reverse_take_reverse,List.rtake_eq_reverse_take_reverse,List.reverse_reverse,
    List.take_take,Nat.min_self]

theorem length_rtake (l : List α) (n : Nat) : (l.rtake n).length = min n l.length := by
  rw [List.rtake_eq_reverse_take_reverse,List.length_reverse,List.length_take,List.length_reverse]

theorem map_rtake {β : Type} (f : α → β) (l : List α) (n : Nat) :
    (l.map f).rtake n = (l.rtake n).map f := by
  simp only [List.rtake_eq_reverse_take_reverse,← List.map_reverse,← List.map_take]

def trailing (o : List Bool) : Nat := (o.rtakeWhile id).length

theorem trailing_failure (o : List Bool) : trailing (o ++ [true]) = trailing o + 1 := by
  rw [trailing,List.rtakeWhile_concat_pos _ _ _ rfl,List.length_append]
  rfl

theorem trailing_success (o : List Bool) : trailing (o ++ [false]) = 0 := by
  rw [trailing,List.rtakeWhile_concat_neg _ _ _ Bool.false_ne_true]
  rfl

theorem le_length_takeWhile_iff {l : List Bool} :
    n ≤ (l.takeWhile id).length ↔ n ≤ l.length ∧ ∀ failed ∈ l.take n, failed = true := by
  induction l generalizing n with
  | nil => simp +contextual
  | cons x l ih =>
    cases n with
    | zero => simp
    | succ n =>
      cases x with
      | false => simp
      | true => simp [ih]

theorem le_trailing_iff :
    n ≤ trailing o ↔ n ≤ o.length ∧ ∀ failed ∈ o.rtake n, failed = true := by
  rw [trailing,List.rtakeWhile,List.length_reverse,le_length_takeWhile_iff,
    List.rtake_eq_reverse_take_reverse,List.length_reverse]
  simp only [List.mem_reverse]

theorem sum_toNat (o : List Bool) : (o.map Bool.toNat).sum = o.count true := by
  induction o with
  | nil => rfl
  | cons x o ih => cases x <;> simp [ih,Nat.add_comm]

theorem rate_iff (failures : Nat) :
    failureRateThreshold ≤ (failures : ℚ) / recentWindowSize ↔ 12 ≤ failures := by
  rw [failureRateThreshold,recentWindowSize,le_div_iff₀ (by norm_num)]
  norm_num

end windows

section stored

variable {F : NumberFormat ℤ} {dates : Dates} {row : CircuitRow} {o : List Bool} {failed : Bool}
  {clock now : ℤ}

theorem parse_serialize (o : List Bool) :
    parseRecentOutcomes F (serializeRecentOutcomes F (o.map Bool.toNat)) =
      (o.rtake recentWindowSize).map Bool.toNat := by
  have hproper : JsonText.Proper (.array (((o.map Bool.toNat).rtake recentWindowSize).map
      fun v : Nat => Json.number (.finite (v : ℤ)))) := by
    refine .array fun v hv => ?_
    obtain ⟨n,_,rfl⟩ := List.mem_map.mp hv
    exact .number _
  have hone : ∀ failed : Bool, (if isOne (JsonText.reread (.number (.finite
      ((failed.toNat : Nat) : ℤ)))) = true then 1 else 0) = failed.toNat := by
    intro failed
    cases failed <;> rfl
  unfold parseRecentOutcomes serializeRecentOutcomes
  rw [JsonText.parse_stringify hproper,JsonText.reread,JsonText.rereadAll_eq]
  simp only [map_rtake,List.map_map]
  rw [rtake_rtake]
  refine List.map_congr_left fun failed _ => ?_
  exact hone failed

def Stores (F : NumberFormat ℤ) (row : CircuitRow) (o : List Bool) : Prop :=
  parseRecentOutcomes F row.recentOutcomesJson = (o.rtake recentWindowSize).map Bool.toNat

inductive InPhase (row : CircuitRow) (o : List Bool) (clock : ℤ) : Phase → Prop where
  | closed (state : row.state = .closed) (fails : row.consecutiveFailures = trailing o) :
      InPhase row o clock .closed
  | opened {openUntil : ℤ} (state : row.state = .opened)
      (stored : row.openUntil = some (toISOString openUntil)) (inRange : InRange openUntil)
      (bounded : openUntil ≤ clock + openDurationMs) : InPhase row o clock (.opened openUntil)
  | halfOpen {k : Nat} (state : row.state = .halfOpen) (attempts : row.halfOpenProbeAttempts = k)
      (successes : row.halfOpenProbeSuccesses = k) (few : k < 3) :
      InPhase row o clock (.halfOpen k)

structure Represents (F : NumberFormat ℤ) (row : CircuitRow) (clock : ℤ) (p : Promise) : Prop where
  window : Stores F row p.outcomes
  phase : InPhase row p.outcomes clock p.phase

theorem represents_initial : Represents F initialCircuitData clock ⟨.closed,[]⟩ :=
  ⟨parse_serialize [],.closed rfl rfl⟩

theorem recent_eq (h : Stores F row o) (failed : Bool) :
    parseRecentOutcomes F row.recentOutcomesJson ++ [failed.toNat] =
      (o.rtake recentWindowSize ++ [failed]).map Bool.toNat := by
  rw [h,List.map_append]
  rfl

theorem stores_serialize (h : row.recentOutcomesJson = serializeRecentOutcomes F
    ((o.rtake recentWindowSize ++ [failed]).map Bool.toNat)) : Stores F row (o ++ [failed]) := by
  rw [Stores,h,parse_serialize,rtake_snoc]

theorem safeParse_toISOString {ms : ℤ} (h : InRange ms) :
    safeParseIsoTimeMs dates (some (toISOString ms)) = some ms := by
  have hne : toISOString ms ≠ [] := by
    rw [IsoDates.toISOString_eq]
    intro he
    have hlength := congrArg List.length he
    rw [List.length_append,IsoDates.length_afterYear,List.length_nil] at hlength
    omega
  rw [safeParseIsoTimeMs,if_neg hne,dates.parse_toISOString ms h]

theorem InPhase.later {phase : Phase} (h : InPhase row o clock phase) (hnow : clock ≤ now) :
    InPhase row o now phase := by
  cases h with
  | closed state fails => exact .closed state fails
  | opened state stored inRange bounded => exact .opened state stored inRange (by omega)
  | halfOpen state attempts successes few => exact .halfOpen state attempts successes few

theorem check_obeys {stored : Option CircuitRow} {p : Promise}
    (h : Represents F (getOrCreateCircuit stored) clock p) (hnow : clock ≤ now) :
    ∃ q, Obeys p ⟨.check,now,some (checkCircuit dates now stored).1⟩ q ∧
      Represents F (checkCircuit dates now stored).2 now q := by
  obtain ⟨phase,o⟩ := p
  obtain ⟨hwindow,hphase⟩ := h
  have hkeep := hphase.later hnow
  unfold checkCircuit
  generalize getOrCreateCircuit stored = row at hwindow hphase hkeep
  dsimp only at hwindow hphase hkeep
  cases hphase with
  | closed state fails =>
    simp only [state]
    exact ⟨_,.closedAdmits o now,hwindow,hkeep⟩
  | @opened openUntil state stored inRange bounded =>
    simp only [state,stored,safeParse_toISOString inRange]
    by_cases hearly : now < openUntil
    · rw [if_pos hearly]
      refine ⟨_,.denies o hearly (le_max_left ..) ?_,hwindow,hkeep⟩
      have hceil := Int.le_ceil (((openUntil - now : ℤ) : ℚ) / 1000)
      rw [div_le_iff₀ (by norm_num)] at hceil
      have hceil : openUntil - now ≤ ⌈((openUntil - now : ℤ) : ℚ) / 1000⌉ * 1000 := by
        exact_mod_cast hceil
      have hmax := le_max_right 1 ⌈((openUntil - now : ℤ) : ℚ) / 1000⌉
      omega
    · rw [if_neg hearly]
      exact ⟨_,.probes o (Int.not_lt.mp hearly),hwindow,.halfOpen rfl rfl rfl (by decide)⟩
  | @halfOpen k state attempts successes few =>
    have hfew : ¬halfOpenProbes ≤ row.halfOpenProbeAttempts := by
      rw [attempts]
      exact Nat.not_le.mpr few
    simp only [state,if_neg hfew]
    exact ⟨_,.halfOpenAdmits k o now,hwindow,hkeep⟩

theorem success_obeys {stored : Option CircuitRow} {p : Promise}
    (h : Represents F (getOrCreateCircuit stored) clock p) (hnow : clock ≤ now) :
    ∃ q, Obeys p ⟨.success,now,none⟩ q ∧ Represents F (recordCircuitSuccess F stored) now q := by
  obtain ⟨phase,o⟩ := p
  obtain ⟨hwindow,hphase⟩ := h
  have hrecent := recent_eq hwindow false
  unfold recordCircuitSuccess loadCircuitWithOutcome
  generalize getOrCreateCircuit stored = row at hwindow hphase hrecent
  dsimp only at hwindow hphase hrecent ⊢
  rw [Bool.toNat_false] at hrecent
  rw [hrecent]
  cases hphase with
  | closed state fails =>
    rw [if_neg (by rw [state]; decide)]
    exact ⟨_,.closedSucceeds o now,stores_serialize rfl,.closed state (trailing_success o).symm⟩
  | @opened openUntil state stored inRange bounded =>
    rw [if_neg (by rw [state]; decide)]
    exact ⟨_,.openSucceeds openUntil o now,stores_serialize rfl,
      .opened state stored inRange (by omega)⟩
  | @halfOpen k state attempts successes few =>
    rw [if_pos state,attempts,successes]
    by_cases hlast : k = 2
    · subst hlast
      rw [if_pos (by decide)]
      exact ⟨_,.lastProbeSucceeds o now,stores_serialize rfl,.closed rfl (trailing_success o).symm⟩
    · have hmore : k + 1 < 3 := by omega
      rw [if_neg fun hall => absurd hall.1 (Nat.not_le.mpr hmore)]
      exact ⟨_,.probeSucceeds o now hmore,stores_serialize rfl,.halfOpen state rfl rfl hmore⟩

theorem open_represents {recent : List Nat} {fails : Nat} {opened : CircuitRow}
    (hrecent : recent = (o.rtake recentWindowSize ++ [failed]).map Bool.toNat)
    (h : buildOpenData F now recent fails = some opened) :
    Represents F opened now ⟨.opened (now + openDurationMs),o ++ [failed]⟩ := by
  unfold buildOpenData at h
  obtain ⟨text,htext,hopened⟩ := Option.bind_eq_some_iff.mp h
  obtain ⟨hrange,rfl⟩ := isoText_some htext
  cases hopened
  exact ⟨stores_serialize (by rw [hrecent]),.opened rfl rfl hrange le_rfl⟩

theorem due_iff {fails : Nat} (hfails : fails = trailing o) :
    (consecutiveFailureThreshold ≤ fails + 1 ∨
      (((o.rtake recentWindowSize ++ [true]).map Bool.toNat).rtake recentWindowSize).length =
          recentWindowSize ∧
        failureRateThreshold ≤ ((((o.rtake recentWindowSize ++ [true]).map
          Bool.toNat).rtake recentWindowSize).sum : ℚ) / recentWindowSize) ↔
      Opens (o ++ [true]) := by
  rw [map_rtake,rtake_snoc,sum_toNat,rate_iff,List.length_map,length_rtake,hfails,
    ← trailing_failure,consecutiveFailureThreshold,le_trailing_iff]
  unfold Opens recentWindowSize
  refine or_congr_right (and_congr_left' ?_)
  omega

theorem failure_obeys {stored : Option CircuitRow} {p : Promise} {after : CircuitRow}
    (h : Represents F (getOrCreateCircuit stored) clock p) (hnow : clock ≤ now)
    (hafter : recordCircuitFailure F now stored = some after) :
    ∃ q, Obeys p ⟨.failure,now,none⟩ q ∧ Represents F after now q := by
  obtain ⟨phase,o⟩ := p
  obtain ⟨hwindow,hphase⟩ := h
  have hrecent := recent_eq hwindow true
  unfold recordCircuitFailure loadCircuitWithOutcome at hafter
  generalize getOrCreateCircuit stored = row at hwindow hphase hrecent hafter
  dsimp only at hwindow hphase hrecent hafter
  rw [Bool.toNat_true] at hrecent
  rw [hrecent] at hafter
  cases hphase with
  | closed state fails =>
    rw [if_neg (by rw [state]; decide)] at hafter
    split at hafter
    · rename_i hdue
      exact ⟨_,.opens now ((due_iff fails).mp hdue),open_represents rfl hafter⟩
    · rename_i hdue
      cases hafter
      refine ⟨_,.tolerates now fun hopens => hdue ((due_iff fails).mpr hopens),
        stores_serialize rfl,.closed state ?_⟩
      rw [trailing_failure,fails]
  | @opened openUntil state stored inRange bounded =>
    rw [if_neg (by rw [state]; decide)] at hafter
    split at hafter
    · exact ⟨_,.openFails o (by omega) (.inr rfl),open_represents rfl hafter⟩
    · cases hafter
      exact ⟨_,.openFails o le_rfl (.inl rfl),stores_serialize rfl,
        .opened state stored inRange (by omega)⟩
  | @halfOpen k state attempts successes few =>
    rw [if_pos state] at hafter
    exact ⟨_,.probeFails k o now,open_represents rfl hafter⟩

end stored

section runs

variable {F : NumberFormat ℤ} {dates : Dates} {b c : Breaker} {l : Call × ℤ}

def Kept (F : NumberFormat ℤ) (b : Breaker) : Prop :=
  ∃ p, Follows ⟨.closed,[]⟩ b.trace p ∧ Represents F (getOrCreateCircuit b.row) b.clock p

theorem kept_step (h : Kept F b) (hs : (machine dates F).step l b = some c) : Kept F c := by
  obtain ⟨p,hfollows,hrep⟩ := h
  obtain ⟨call,now⟩ := l
  simp only [machine,step] at hs
  split at hs
  · cases hs
  · rename_i hnow
    rw [Int.not_lt] at hnow
    cases call with
    | check =>
      cases hs
      obtain ⟨q,hobeys,hq⟩ := check_obeys hrep hnow
      exact ⟨q,hfollows.snoc hobeys,hq⟩
    | success =>
      cases hs
      obtain ⟨q,hobeys,hq⟩ := success_obeys hrep hnow
      exact ⟨q,hfollows.snoc hobeys,hq⟩
    | failure =>
      obtain ⟨after,hafter,rfl⟩ := Option.map_eq_some_iff.mp hs
      obtain ⟨q,hobeys,hq⟩ := failure_obeys hrep hnow hafter
      exact ⟨q,hfollows.snoc hobeys,hq⟩

theorem kept_fresh (start : ℤ) : Kept F { clock := start } :=
  ⟨_,.nil,represents_initial⟩

/-- In every run of calls the circuit does what it promises, and its row stores where it is. -/
theorem circuit_keeps_contract (dates : Dates) (F : NumberFormat ℤ) (start : ℤ)
    {ls : List (Call × ℤ)} (h : (machine dates F).run ls { clock := start } = some b) :
    ∃ p, Follows ⟨.closed,[]⟩ b.trace p ∧ Represents F (getOrCreateCircuit b.row) b.clock p :=
  Machine.run_invariant (P := Kept F) (kept_fresh start) (fun _ _ _ => kept_step) h

end runs

section concrete

instance (outcomes : List Bool) : Decidable (Opens outcomes) := inferInstanceAs (Decidable (_ ∨ _))

def outcomesOf (trace : List Answered) : List Bool :=
  trace.filterMap fun answered =>
    match answered.call with
    | .check => none
    | .success => some false
    | .failure => some true

/-- Four failures and a success, four times over, without the last success. -/
def nearlyOpened : List (Call × ℤ) :=
  ((List.replicate 4 [Call.failure,.failure,.failure,.failure,.success]).flatten.dropLast).map
    fun call => (call,0)

noncomputable def nearlyOpenedBreaker : Breaker :=
  ((machine isoDates JsonText.integerFormat).run nearlyOpened { clock := 0 }).getD { clock := 0 }

theorem run_nearlyOpened : (machine isoDates JsonText.integerFormat).run nearlyOpened
    { clock := 0 } = some nearlyOpenedBreaker :=
  Machine.some_getD (by decide +kernel) _

theorem circuit_keeps_contract_nearlyOpened :
    ∃ p, Follows ⟨.closed,[]⟩ nearlyOpenedBreaker.trace p ∧
      Represents JsonText.integerFormat (getOrCreateCircuit nearlyOpenedBreaker.row)
        nearlyOpenedBreaker.clock p :=
  circuit_keeps_contract isoDates JsonText.integerFormat 0 run_nearlyOpened

/-- A success fills the window with sixteen failures, and the circuit stays closed. -/
theorem success_leaves_closed : ¬∀ (dates : Dates) (F : NumberFormat ℤ) (ls : List (Call × ℤ))
    (l : Call × ℤ) (b c : Breaker), (machine dates F).run ls { clock := 0 } = some b →
    (machine dates F).step l b = some c → (getOrCreateCircuit b.row).state = .closed →
    ((getOrCreateCircuit c.row).state = .opened ↔ Opens (outcomesOf c.trace)) := by
  intro h
  have hstep : ((machine isoDates JsonText.integerFormat).step (.success,0)
      nearlyOpenedBreaker).any (fun c => (getOrCreateCircuit nearlyOpenedBreaker.row).state =
        .closed ∧ (getOrCreateCircuit c.row).state = .closed ∧ Opens (outcomesOf c.trace)) =
      true := by
    decide +kernel
  obtain ⟨c,hc,hboth⟩ := (Option.any_eq_true ..).mp hstep
  obtain ⟨hb,hclosed,hopens⟩ := of_decide_eq_true hboth
  have hopened := (h isoDates JsonText.integerFormat nearlyOpened (.success,0) _ c
    run_nearlyOpened hc hb).mpr hopens
  rw [hclosed] at hopened
  cases hopened

end concrete

end Yurucommu.DeliveryCircuit
