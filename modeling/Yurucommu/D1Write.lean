import Yurucommu.Loop

/-!
The writes of d1-write.ts: rows are cut into INSERT statements by the parameters that each compiles
to, and statements run in one batch.
-/

set_option autoImplicit false

namespace Yurucommu.D1Write

def d1SafeParamBudget : Nat := 90

def d1MaxBatchStatements : Nat := 50

structure SQLiteTable where
  columns : List String

abbrev Row (ν : Type) := List (String × ν)

inductive Conflict where
  | error
  | ignore
  deriving DecidableEq

/-- A statement that was built; only a batch runs it. -/
inductive D1Statement (ν : Type) where
  | insert (table : SQLiteTable) (values : List (Row ν)) (onConflictDoNothing : Bool)
  | delete (table : SQLiteTable) (condition : String)

def D1Statement.values {ν : Type} : D1Statement ν → List (Row ν)
  | .insert _ values _ => values
  | .delete _ _ => []

/-- An error of the driver itself. -/
structure DriverError where
  name : String
  message : String
  deriving DecidableEq

inductive Failure where
  | rowKey (key : String)
  | noToSQL
  | rowTooWide (parameters : Nat)
  | insertManyTooLarge (rows statements : Nat)
  | replaceSetTooLarge (rows statements : Nat)
  | runBatchTooLarge (statements : Nat)
  | batchUnsupported (context : String)
  | rejected (error : DriverError)
  deriving DecidableEq

def Failure.name : Failure → String
  | .rowKey _ | .noToSQL | .rowTooWide _ => "D1WriteShapeError"
  | .insertManyTooLarge _ _ | .replaceSetTooLarge _ _ | .runBatchTooLarge _ =>
    "D1BatchTooLargeError"
  | .batchUnsupported _ => "D1BatchUnsupportedError"
  | .rejected error => error.name

def Failure.message : Failure → String
  | .rowKey key => "insertMany: row key \"" ++ key ++ "\" is not a column of the target table"
  | .noToSQL => "insertMany: the active insert builder exposes no toSQL(); the D1 " ++
      "parameter budget cannot be proven before execution"
  | .rowTooWide parameters =>
    "insertMany: a single row compiles to " ++ toString parameters ++ " parameters, " ++
      "over the D1 budget of " ++ toString d1SafeParamBudget ++ "; no chunking can make this fit"
  | .insertManyTooLarge rows statements =>
    "insertMany: " ++ toString rows ++ " rows need " ++ toString statements ++ " statements, " ++
      "over the batch cap of " ++ toString d1MaxBatchStatements ++ ". Do not split the " ++
      "batch — that reintroduces the partial-write window this module " ++
      "exists to remove. Page the source set instead, or apply the " ++
      "generational-replace pattern in docs/quality/d1-write.md §3."
  | .replaceSetTooLarge rows statements =>
    "replaceSet: " ++ toString rows ++ " rows need " ++ toString statements ++ " statements, " ++
      "over the batch cap of " ++ toString d1MaxBatchStatements ++ ". See " ++
      "docs/quality/d1-write.md §3."
  | .runBatchTooLarge statements =>
    "runBatch: " ++ toString statements ++ " statements exceed the atomic batch cap " ++
      "of " ++ toString d1MaxBatchStatements ++ ". Do not split a logical mutation across " ++
      "batches; make the writes set-based or use the generational-replace " ++
      "pattern in docs/quality/d1-write.md §3."
  | .batchUnsupported context =>
    context ++ ": the active driver exposes no batch(); a delete-then-insert " ++
      "cannot be made atomic without it. Both the D1 and libsql drivers do — " ++
      "a driver that does not is a test double that must gain one."
  | .rejected error => error.message

/-- The driver: the parameters that a statement compiles to, where its builder can tell, and the
error of a batch, where it has batches; a batch without an error is committed as a whole. -/
structure Driver (ν : Type) where
  toSQL : Option (D1Statement ν → Nat)
  batch : Option (List (D1Statement ν) → Option DriverError)

/-- A driver, the statements that were built on it and the batches that it committed. -/
structure Database (ν : Type) where
  driver : Driver ν
  built : List (D1Statement ν)
  executed : List (List (D1Statement ν))

variable {ν : Type}

section insertMany

structure Insertion (ν : Type) where
  table : SQLiteTable
  rows : List (Row ν)
  conflict : Option Conflict

def assertKnownRowKeys (table : SQLiteTable) (rows : List (Row ν)) : Option Failure :=
  (rows.flatMap fun row => row.map Prod.fst).find? (fun key => !table.columns.contains key)
    |>.map .rowKey

def boundParameterCount (driver : Driver ν) (statement : D1Statement ν) : Except Failure Nat :=
  match driver.toSQL with
  | none => .error .noToSQL
  | some params => .ok (params statement)

def buildStatement (call : Insertion ν) (chunk : List (Row ν)) : D1Statement ν :=
  .insert call.table chunk (call.conflict = some .ignore)

/-- `rows.slice(offset, offset + chunkSize)` -/
def slice (rows : List (Row ν)) (offset chunkSize : Nat) : List (Row ν) :=
  (rows.drop offset).take chunkSize

/-- The next size, after a chunk that compiled to too many parameters. -/
def rescale (chunkSize parameters : Nat) : Nat :=
  let scaled := chunkSize * d1SafeParamBudget / parameters
  max 1 (min (chunkSize - 1) scaled)

/-- Where `insertMany` is: at the head of the outer loop, at the head of the inner loop, or behind
its end. -/
inductive Phase (ν : Type) where
  | chunks (offset : Nat) (statements : List (D1Statement ν))
  | shrink (offset chunkSize : Nat) (statements : List (D1Statement ν))
  | returned (statements : List (D1Statement ν))
  | threw (failure : Failure)

structure State (ν : Type) where
  phase : Phase ν
  db : Database ν

def Phase.Ended : Phase ν → Prop
  | .chunks _ _ | .shrink _ _ _ => False
  | .returned _ | .threw _ => True

def chunksTurn (call : Insertion ν) (offset : Nat) (statements : List (D1Statement ν)) : Phase ν :=
  if offset < call.rows.length then
    .shrink offset (min d1SafeParamBudget (call.rows.length - offset)) statements
  else if statements.length > d1MaxBatchStatements then
    .threw (.insertManyTooLarge call.rows.length statements.length)
  else .returned statements

def shrinkTurn (call : Insertion ν) (driver : Driver ν) (offset chunkSize : Nat)
    (statements : List (D1Statement ν)) : Phase ν :=
  let statement := buildStatement call (slice call.rows offset chunkSize)
  match boundParameterCount driver statement with
  | .error failure => .threw failure
  | .ok parameters =>
    if parameters ≤ d1SafeParamBudget then .chunks (offset + chunkSize) (statements ++ [statement])
    else if chunkSize = 1 then .threw (.rowTooWide parameters)
    else .shrink offset (rescale chunkSize parameters) statements

def turn (call : Insertion ν) (s : State ν) : State ν :=
  match s.phase with
  | .chunks offset statements => { s with phase := chunksTurn call offset statements }
  | .shrink offset chunkSize statements =>
    let statement := buildStatement call (slice call.rows offset chunkSize)
    { phase := shrinkTurn call s.db.driver offset chunkSize statements
      db := { s.db with built := s.db.built ++ [statement] } }
  | .returned _ | .threw _ => s

def enter (call : Insertion ν) : Phase ν :=
  if call.rows = [] then .returned []
  else
    match assertKnownRowKeys call.table call.rows with
    | some failure => .threw failure
    | none => .chunks 0 []

/-- The state of a call of `insertMany` after so many turns of its loops. -/
def insertMany (turns : Nat) (call : Insertion ν) (db : Database ν) : State ν :=
  (turn call)^[turns] ⟨enter call,db⟩

end insertMany

section batches

def commit (context : String) (statements : List (D1Statement ν)) (db : Database ν) :
    Except Failure Unit × Database ν :=
  match db.driver.batch with
  | none => (.error (.batchUnsupported context),db)
  | some batch =>
    match batch statements with
    | some error => (.error (.rejected error),db)
    | none => (.ok (),{ db with executed := db.executed ++ [statements] })

def runBatch (db : Database ν) (statements : List (D1Statement ν)) :
    Except Failure Unit × Database ν :=
  if statements.length > d1MaxBatchStatements then
    (.error (.runBatchTooLarge statements.length),db)
  else commit "runBatch" statements db

/-- What `replaceSet` does with the end of its call of `insertMany`. -/
def replaceAfter (call : Insertion ν) (condition : String) (s : State ν) :
    Option (Except Failure Unit × Database ν) :=
  match s.phase with
  | .chunks _ _ | .shrink _ _ _ => none
  | .threw failure => some (.error failure,s.db)
  | .returned inserts =>
    if inserts.length + 1 > d1MaxBatchStatements then
      some (.error (.replaceSetTooLarge call.rows.length (inserts.length + 1)),s.db)
    else some (commit "replaceSet" (.delete call.table condition :: inserts) s.db)

/-- `replaceSet`, unless its call of `insertMany` needs more turns than these. -/
def replaceSet (turns : Nat) (call : Insertion ν) (condition : String) (db : Database ν) :
    Option (Except Failure Unit × Database ν) :=
  if db.driver.batch.isNone then some (.error (.batchUnsupported "replaceSet"),db)
  else replaceAfter call condition (insertMany turns call db)

end batches

end Yurucommu.D1Write
