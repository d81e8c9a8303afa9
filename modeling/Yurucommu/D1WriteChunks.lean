import Yurucommu.D1Write

/-!
What `insertMany` answers: its statements carry the rows once and in their order, each of them fits,
and nothing runs before `replaceSet` hands them to the driver together.
-/

set_option autoImplicit false

namespace Yurucommu.D1Write

variable {ν : Type} {call : Insertion ν} {db : Database ν} {driver : Driver ν}
variable {statements : List (D1Statement ν)}

section slices

def Fits (call : Insertion ν) (driver : Driver ν) (statement : D1Statement ν) : Prop :=
  ∃ chunk parameters, statement = buildStatement call chunk ∧ chunk ≠ [] ∧
    boundParameterCount driver statement = .ok parameters ∧ parameters ≤ d1SafeParamBudget

/-- The statements carry these rows once and in their order. -/
structure Covers (call : Insertion ν) (driver : Driver ν) (rows : List (Row ν))
    (statements : List (D1Statement ν)) : Prop where
  values : statements.flatMap D1Statement.values = rows
  fits : ∀ statement ∈ statements, Fits call driver statement

theorem covers_nil : Covers call driver [] [] :=
  ⟨rfl,fun _ h => absurd h List.not_mem_nil⟩

theorem Covers.snoc {rows chunk : List (Row ν)} {parameters : Nat}
    (h : Covers call driver rows statements) (hchunk : chunk ≠ [])
    (hcount : boundParameterCount driver (buildStatement call chunk) = .ok parameters)
    (hle : parameters ≤ d1SafeParamBudget) :
    Covers call driver (rows ++ chunk) (statements ++ [buildStatement call chunk]) := by
  constructor
  · rw [List.flatMap_append,h.values,List.flatMap_singleton]
    rfl
  · intro statement hmem
    rw [List.mem_append,List.mem_singleton] at hmem
    cases hmem with
    | inl hold => exact h.fits statement hold
    | inr hnew => exact ⟨chunk,parameters,hnew,hchunk,hnew ▸ hcount,hle⟩

theorem take_append_slice {rows : List (Row ν)} {offset chunkSize : Nat} :
    rows.take offset ++ slice rows offset chunkSize = rows.take (offset + chunkSize) := by
  rw [slice,List.take_add]

theorem slice_ne_nil {rows : List (Row ν)} {offset chunkSize : Nat} (hsize : 0 < chunkSize)
    (hin : offset + chunkSize ≤ rows.length) : slice rows offset chunkSize ≠ [] := by
  have hlen : (slice rows offset chunkSize).length = chunkSize := by
    rw [slice,List.length_take,List.length_drop]
    omega
  intro hnil
  rw [hnil,List.length_nil] at hlen
  omega

theorem exists_slice_one {rows : List (Row ν)} {offset : Nat} (hin : offset + 1 ≤ rows.length) :
    ∃ row ∈ rows, slice rows offset 1 = [row] := by
  have hlt : offset < rows.length := hin
  refine ⟨rows[offset],List.getElem_mem hlt,?_⟩
  rw [slice,List.drop_eq_getElem_cons hlt,List.take_succ_cons,List.take_zero]

theorem rescale_bounds {chunkSize : Nat} (parameters : Nat) (hsize : 1 < chunkSize) :
    0 < rescale chunkSize parameters ∧ rescale chunkSize parameters < chunkSize := by
  unfold rescale
  generalize chunkSize * d1SafeParamBudget / parameters = scaled
  dsimp only
  omega

end slices

section loops

def Reason (call : Insertion ν) (driver : Driver ν) : Failure → Prop
  | .rowKey key => key ∉ call.table.columns ∧ ∃ row ∈ call.rows, key ∈ row.map Prod.fst
  | .noToSQL => driver.toSQL = none
  | .rowTooWide parameters => ∃ row ∈ call.rows,
    boundParameterCount driver (buildStatement call [row]) = .ok parameters ∧
      d1SafeParamBudget < parameters
  | .insertManyTooLarge rows count => rows = call.rows.length ∧ d1MaxBatchStatements < count ∧
    ∃ statements, Covers call driver call.rows statements ∧ statements.length = count
  | .replaceSetTooLarge _ _ | .runBatchTooLarge _ | .batchUnsupported _ | .rejected _ => False

structure Settled (call : Insertion ν) (driver : Driver ν) (phase : Phase ν) : Prop where
  returned : ∀ statements, phase = .returned statements →
    Covers call driver call.rows statements ∧ statements.length ≤ d1MaxBatchStatements
  threw : ∀ failure, phase = .threw failure → Reason call driver failure

def Phase.Sound (call : Insertion ν) (driver : Driver ν) : Phase ν → Prop
  | .chunks offset statements =>
    offset ≤ call.rows.length ∧ Covers call driver (call.rows.take offset) statements
  | .shrink offset chunkSize statements =>
    0 < chunkSize ∧ chunkSize ≤ d1SafeParamBudget ∧ offset + chunkSize ≤ call.rows.length ∧
      Covers call driver (call.rows.take offset) statements
  | .returned statements => Settled call driver (.returned statements)
  | .threw failure => Settled call driver (.threw failure)

theorem settled_returned (h : Covers call driver call.rows statements)
    (hlen : statements.length ≤ d1MaxBatchStatements) :
    Settled call driver (.returned statements) := by
  constructor
  · intro answered heq
    cases heq
    exact ⟨h,hlen⟩
  · intro failure heq
    cases heq

theorem settled_threw {failure : Failure} (h : Reason call driver failure) :
    Settled call driver (.threw failure) := by
  constructor
  · intro answered heq
    cases heq
  · intro thrown heq
    cases heq
    exact h

theorem sound_chunksTurn {offset : Nat}
    (h : (Phase.chunks offset statements).Sound call driver) :
    (chunksTurn call offset statements).Sound call driver := by
  obtain ⟨hle,hcovers⟩ := h
  unfold chunksTurn
  split
  · rename_i hlt
    refine ⟨?_,Nat.min_le_left _ _,?_,hcovers⟩
    · have hbudget : 0 < d1SafeParamBudget := by decide
      omega
    · omega
  · rename_i hlt
    have hall : offset = call.rows.length := by omega
    rw [hall,List.take_length] at hcovers
    split
    · rename_i hmany
      exact settled_threw ⟨rfl,hmany,statements,hcovers,rfl⟩
    · rename_i hfew
      exact settled_returned hcovers (Nat.not_lt.mp hfew)

theorem sound_shrinkTurn {offset chunkSize : Nat}
    (h : (Phase.shrink offset chunkSize statements).Sound call driver) :
    (shrinkTurn call driver offset chunkSize statements).Sound call driver := by
  obtain ⟨hsize,hbudget,hin,hcovers⟩ := h
  unfold shrinkTurn
  dsimp only
  cases hcount : boundParameterCount driver
      (buildStatement call (slice call.rows offset chunkSize)) with
  | error failure =>
    unfold boundParameterCount at hcount
    split at hcount
    · rename_i hnone
      cases hcount
      exact settled_threw hnone
    · cases hcount
  | ok parameters =>
    dsimp only
    split
    · rename_i hfits
      refine ⟨hin,?_⟩
      rw [← take_append_slice]
      exact hcovers.snoc (slice_ne_nil hsize hin) hcount hfits
    · rename_i hover
      split
      · rename_i hone
        subst hone
        obtain ⟨row,hmem,hslice⟩ := exists_slice_one hin
        rw [hslice] at hcount
        exact settled_threw ⟨row,hmem,hcount,Nat.not_le.mp hover⟩
      · rename_i hone
        obtain ⟨hpos,hlt⟩ := rescale_bounds parameters (by omega : 1 < chunkSize)
        exact ⟨hpos,by omega,by omega,hcovers⟩

theorem sound_enter : (enter call).Sound call driver := by
  unfold enter
  split
  · rename_i hnil
    refine settled_returned ?_ (Nat.zero_le _)
    rw [hnil]
    exact covers_nil
  · split
    · rename_i failure hassert
      unfold assertKnownRowKeys at hassert
      obtain ⟨key,hfind,rfl⟩ := Option.map_eq_some_iff.mp hassert
      have hunknown := List.find?_some hfind
      have hmem := List.mem_of_find?_eq_some hfind
      obtain ⟨row,hrow,hkey⟩ := List.mem_flatMap.mp hmem
      exact settled_threw ⟨by simpa using hunknown,row,hrow,hkey⟩
    · exact ⟨Nat.zero_le _,covers_nil⟩

end loops

section runs

/-- The loops of `insertMany` keep what they cover, and run nothing. -/
structure Kept (call : Insertion ν) (db : Database ν) (s : State ν) : Prop where
  sound : s.phase.Sound call db.driver
  driver : s.db.driver = db.driver
  executed : s.db.executed = db.executed

def Phase.left (call : Insertion ν) : Phase ν → Nat
  | .chunks offset _ => (call.rows.length - offset) * (d1SafeParamBudget + 2) + 1
  | .shrink offset chunkSize _ =>
    (call.rows.length - offset - 1) * (d1SafeParamBudget + 2) + chunkSize + 1
  | .returned _ | .threw _ => 0

theorem turn_ended {s : State ν} (h : s.phase.Ended) : turn call s = s := by
  unfold turn
  split
  · rename_i hphase
    rw [hphase] at h
    exact h.elim
  · rename_i hphase
    rw [hphase] at h
    exact h.elim
  · rfl
  · rfl

theorem Kept.turn {s : State ν} (h : Kept call db s) : Kept call db (turn call s) := by
  obtain ⟨hsound,hdriver,hexecuted⟩ := h
  unfold D1Write.turn
  split
  · rename_i offset statements hphase
    rw [hphase] at hsound
    exact ⟨sound_chunksTurn hsound,hdriver,hexecuted⟩
  · rename_i offset chunkSize statements hphase
    rw [hphase] at hsound
    refine ⟨?_,hdriver,hexecuted⟩
    rw [hdriver]
    exact sound_shrinkTurn hsound
  · exact ⟨hsound,hdriver,hexecuted⟩
  · exact ⟨hsound,hdriver,hexecuted⟩

theorem left_chunksTurn {offset : Nat} :
    (chunksTurn call offset statements).left call < (Phase.chunks offset statements).left call := by
  unfold chunksTurn
  split
  · rename_i hlt
    obtain ⟨k,hk⟩ : ∃ k, call.rows.length - offset = k + 1 :=
      Nat.exists_eq_succ_of_ne_zero (by omega)
    simp only [Phase.left,hk,Nat.add_sub_cancel,Nat.add_mul,d1SafeParamBudget]
    omega
  · split
    · exact Nat.succ_pos _
    · exact Nat.succ_pos _

theorem left_shrinkTurn {offset chunkSize : Nat}
    (h : (Phase.shrink offset chunkSize statements).Sound call driver) :
    (shrinkTurn call driver offset chunkSize statements).left call <
      (Phase.shrink offset chunkSize statements).left call := by
  obtain ⟨hsize,_,hin,_⟩ := h
  unfold shrinkTurn
  dsimp only
  split
  · exact Nat.succ_pos _
  · rename_i parameters hcount
    split
    · simp only [Phase.left]
      have hle : call.rows.length - (offset + chunkSize) ≤ call.rows.length - offset - 1 := by omega
      have hmul := Nat.mul_le_mul_right (d1SafeParamBudget + 2) hle
      omega
    · split
      · exact Nat.succ_pos _
      · rename_i hone
        obtain ⟨_,hlt⟩ := rescale_bounds parameters (by omega : 1 < chunkSize)
        simp only [Phase.left]
        omega

theorem left_turn {s : State ν} (h : Kept call db s) (hgoes : ¬ s.phase.Ended) :
    (turn call s).phase.left call < s.phase.left call := by
  have hsound := h.sound
  unfold turn
  split
  · rename_i offset statements hphase
    rw [hphase]
    exact left_chunksTurn
  · rename_i offset chunkSize statements hphase
    rw [hphase] at hsound ⊢
    exact left_shrinkTurn (h.driver ▸ hsound)
  · rename_i statements hphase
    rw [hphase] at hgoes
    exact absurd trivial hgoes
  · rename_i failure hphase
    rw [hphase] at hgoes
    exact absurd trivial hgoes

theorem kept_enter : Kept call db ⟨enter call,db⟩ := ⟨sound_enter,rfl,rfl⟩

theorem left_enter : (enter call).left call ≤ call.rows.length * (d1SafeParamBudget + 2) + 1 := by
  unfold enter
  split
  · exact Nat.zero_le _
  · split
    · exact Nat.zero_le _
    · exact le_refl _

theorem settled_of_sound {phase : Phase ν} (h : phase.Sound call driver) (hended : phase.Ended) :
    Settled call driver phase := by
  cases phase with
  | chunks _ _ => exact hended.elim
  | shrink _ _ _ => exact hended.elim
  | returned _ => exact h
  | threw _ => exact h

def Insertion.turns (call : Insertion ν) : Nat :=
  call.rows.length * (d1SafeParamBudget + 2) + 1

theorem exists_end (call : Insertion ν) (db : Database ν) : ∃ s : State ν, s.phase.Ended ∧
    Kept call db s ∧ ∀ turns, call.turns ≤ turns → insertMany turns call db = s := by
  obtain ⟨s,hended,hkept,hturns⟩ :=
    @Loop.exists_end _ (turn call) (fun s => s.phase.Ended) (Kept call db) ⟨enter call,db⟩
      (fun s => s.phase.left call) (fun _ => turn_ended)
      (fun _ hinv hgoes => ⟨hinv.turn,left_turn hinv hgoes⟩) kept_enter
  exact ⟨s,hended,hkept,fun turns hle => hturns turns (left_enter.trans hle)⟩

/-- A call comes to one end, however its statements compile: it answers statements that carry the
rows once and in their order, few enough and each within the budget, or it throws for a reason, and
at no time has it run anything. -/
theorem insertMany_settles (call : Insertion ν) (db : Database ν) :
    (∃ s : State ν, (∀ turns, call.turns ≤ turns → insertMany turns call db = s) ∧
      s.phase.Ended ∧ Settled call db.driver s.phase) ∧
    ∀ turns, (insertMany turns call db).db.executed = db.executed := by
  constructor
  · obtain ⟨s,hended,hkept,hturns⟩ := exists_end call db
    exact ⟨s,hturns,hended,settled_of_sound hkept.sound hended⟩
  · intro turns
    exact (Loop.invariant (fun _ => Kept.turn) kept_enter turns).executed

end runs

section replacements

theorem commit_executed (context : String) (statements : List (D1Statement ν))
    (db : Database ν) :
    (∃ failure, commit context statements db = (.error failure,db)) ∨
      commit context statements db =
        (.ok (),{ db with executed := db.executed ++ [statements] }) := by
  unfold commit
  split
  · exact .inl ⟨_,rfl⟩
  · split
    · exact .inl ⟨_,rfl⟩
    · exact .inr rfl

/-- What a replacement may come to: it throws and nothing was run, or the old rows went and all of
the new ones came in one batch. -/
def Replaced (call : Insertion ν) (condition : String) (db : Database ν)
    (answer : Except Failure Unit × Database ν) : Prop :=
  (∃ failure, answer.1 = .error failure ∧ answer.2.executed = db.executed) ∨
    ∃ inserts, answer.1 = .ok () ∧ Covers call db.driver call.rows inserts ∧
      inserts.length < d1MaxBatchStatements ∧
      answer.2.executed = db.executed ++ [.delete call.table condition :: inserts]

theorem replaced_after (condition : String) {s : State ν} (hended : s.phase.Ended)
    (hkept : Kept call db s) :
    ∃ answer, replaceAfter call condition s = some answer ∧ Replaced call condition db answer := by
  have hsettled := settled_of_sound hkept.sound hended
  unfold replaceAfter
  cases hphase : s.phase with
  | chunks _ _ =>
    rw [hphase] at hended
    exact hended.elim
  | shrink _ _ _ =>
    rw [hphase] at hended
    exact hended.elim
  | threw failure => exact ⟨_,rfl,.inl ⟨failure,rfl,hkept.executed⟩⟩
  | returned inserts =>
    dsimp only
    split
    · exact ⟨_,rfl,.inl ⟨_,rfl,hkept.executed⟩⟩
    · rename_i hfew
      have hfew' : inserts.length < d1MaxBatchStatements := by omega
      obtain ⟨hcovers,_⟩ := hsettled.returned inserts hphase
      refine ⟨_,rfl,?_⟩
      rcases commit_executed "replaceSet" (.delete call.table condition :: inserts) s.db with
        ⟨failure,hcommit⟩ | hcommit
      · rw [hcommit]
        exact .inl ⟨failure,rfl,hkept.executed⟩
      · rw [hcommit]
        refine .inr ⟨inserts,rfl,hcovers,hfew',?_⟩
        dsimp only
        rw [hkept.executed]

/-- A replacement is all or nothing. -/
theorem replaceSet_atomic (call : Insertion ν) (condition : String) (db : Database ν) :
    ∃ answer, (∀ turns, call.turns ≤ turns →
        replaceSet turns call condition db = some answer) ∧
      Replaced call condition db answer := by
  unfold replaceSet
  split
  · exact ⟨_,fun _ _ => rfl,.inl ⟨.batchUnsupported "replaceSet",rfl,rfl⟩⟩
  · obtain ⟨s,hended,hkept,hturns⟩ := exists_end call db
    obtain ⟨answer,hafter,hreplaced⟩ := replaced_after condition hended hkept
    refine ⟨answer,fun turns hle => ?_,hreplaced⟩
    rw [hturns turns hle,hafter]

end replacements

end Yurucommu.D1Write
