import Mathlib.Data.List.Lex
import Mathlib.Tactic
import Yurucommu.JsMap
import Yurucommu.JsonText
import Yurucommu.Keyset
import Yurucommu.Whatwg

/-!
The storage of the call actor: the text of a record is kept in chunks, a row for each, and is read
back in pages.
-/

set_option autoImplicit false

namespace Yurucommu.CallActorStorage

open JsonText (Json NumberFormat Units parse stringify)
open Whatwg (Text)

/-- `call_signaling_state`; the key and the part are its primary key. -/
structure Row where
  key : Text
  part : Nat
  value : Text
deriving DecidableEq, Repr

def Row.units (row : Row) : Units := row.value.flatMap JsString.codeUnits

/-- The columns have one type, so that a key or a value of another is not met. -/
inductive Failure where
  | invalidChunk
  | missingChunks
  | capacity
  | syntaxError
  | storage
deriving DecidableEq, Repr

/-- The message of the error; those of the parser and of the storage are their own. -/
def Failure.message : Failure → Option Text
  | invalidChunk => some "invalid call state chunk".toList
  | missingChunks => some "missing call state chunks".toList
  | capacity => some "call state exceeds atomic storage capacity".toList
  | syntaxError => none
  | storage => none

section put

def chunkLength (rest : Units) : Nat :=
  let stop := min 16384 rest.length
  if stop < rest.length && Utf16.isLeading (rest.getD (stop - 1) 0) then stop - 1 else stop

theorem chunkLength_pos {rest : Units} (h : rest ≠ []) : 0 < chunkLength rest := by
  have hlen := List.length_pos_iff.2 h
  simp only [chunkLength]
  split
  next hcut =>
    rw [Bool.and_eq_true,decide_eq_true_eq] at hcut
    omega
  next => omega

def chunks (rest : Units) : List Units :=
  if _h : rest = [] then []
  else rest.take (chunkLength rest) :: chunks (rest.drop (chunkLength rest))
termination_by rest.length
decreasing_by
  have hpos := chunkLength_pos _h
  have hlen := List.length_pos_iff.2 _h
  rw [List.length_drop]
  omega

inductive Statement where
  | delete (key : Text)
  | insert (row : Row)
deriving DecidableEq, Repr

/-- A row whose key and part are there already is an error. -/
def Statement.run (rows : List Row) : Statement → Option (List Row)
  | delete key => some (rows.filter fun row => row.key ≠ key)
  | insert row =>
    if rows.any fun other => other.key = row.key && other.part = row.part then none
    else some (rows ++ [row])

def transaction (commits : Bool) (statements : List Statement) (rows : List Row) :
    Except Failure (List Row) :=
  match commits, statements.foldlM Statement.run rows with
  | true, some rows => .ok rows
  | _, _ => .error .storage

def statements (key : Text) (encoded : Units) : List Statement :=
  .delete key :: (chunks encoded).mapIdx fun part chunk => .insert ⟨key,part,Utf16.decode chunk⟩

variable {ν : Type} [Zero ν] (F : NumberFormat ν)

def put (commits : Bool) (key : Text) (value : Json ν) (rows : List Row) :
    Except Failure (List Row) :=
  let statements := statements key (stringify F value)
  if 100 < statements.length then .error .capacity else transaction commits statements rows

/-- Whether a row was deleted, and the rows that are left. -/
def delete (key : Text) (rows : List Row) : Bool × List Row :=
  (rows.any fun row => row.key = key,rows.filter fun row => row.key ≠ key)

end put

section get

variable {ν : Type} [Zero ν] (F : NumberFormat ν)

/-- `SELECT part, value … WHERE key = ? AND part >= ? ORDER BY part LIMIT 16`. -/
def selectParts (rows : List Row) (key : Text) (offset : Nat) : List Row :=
  ((rows.filter fun row => row.key = key && offset ≤ row.part).insertionSort
    fun row other => row.part ≤ other.part).take 16

def appendRows : List Row → Units → Nat → Except Failure (Units × Nat)
  | [], value, offset => .ok (value,offset)
  | row :: rest, value, offset =>
    if row.part ≠ offset then .error .invalidChunk
    else appendRows rest (value ++ row.units) (offset + 1)

/-- The pages until one is not full; none if so many are not enough. -/
def getLoop (rows : List Row) (key : Text) : Nat → Units → Nat →
    Option (Except Failure (Units × Nat))
  | 0, _, _ => none
  | pages + 1, value, offset =>
    let result := selectParts rows key offset
    match appendRows result value offset with
    | .error failure => some (.error failure)
    | .ok (value,offset) =>
      if result.length < 16 then some (.ok (value,offset)) else getLoop rows key pages value offset

def parseRecord (value : Units) (offset : Nat) : Except Failure (Option (Json ν)) :=
  if offset = 0 then .ok none
  else
    match parse F value with
    | some json => .ok (some json)
    | none => .error .syntaxError

def get (pages : Nat) (rows : List Row) (key : Text) :
    Option (Except Failure (Option (Json ν))) :=
  (getLoop rows key pages [] 0).map fun read => read.bind fun (value,offset) =>
    parseRecord F value offset

end get

section list

variable {ν : Type} [Zero ν] (F : NumberFormat ν)

/-- `SELECT key … WHERE part = 0 AND instr(key, ?) = 1 AND key > ? ORDER BY key LIMIT 100`. -/
def selectKeys (rows : List Row) (keyPrefix after : Text) : List Text :=
  Keyset.page 100 (some after)
    ((rows.filter fun row => row.part = 0 && keyPrefix.isPrefixOf row.key).map Row.key)

def readKeys (pages : Nat) (rows : List Row) : List Text → JsMap Text (Json ν) → Text →
    Option (Except Failure (JsMap Text (Json ν) × Text))
  | [], values, after => some (.ok (values,after))
  | key :: rest, values, _ =>
    match get F pages rows key with
    | none => none
    | some (.error failure) => some (.error failure)
    | some (.ok none) => some (.error .missingChunks)
    | some (.ok (some value)) => readKeys pages rows rest (values.set key value) key

def listLoop (pages : Nat) (rows : List Row) (keyPrefix : Text) : Nat → JsMap Text (Json ν) →
    Text → Option (Except Failure (JsMap Text (Json ν)))
  | 0, _, _ => none
  | more + 1, values, after =>
    let result := selectKeys rows keyPrefix after
    match readKeys F pages rows result values after with
    | none => none
    | some (.error failure) => some (.error failure)
    | some (.ok (values,after)) =>
      if result.length < 100 then some (.ok values)
      else listLoop pages rows keyPrefix more values after

/-- No prefix is the empty one. -/
def list (pages : Nat) (rows : List Row) (keyPrefix : Text) :
    Option (Except Failure (JsMap Text (Json ν))) :=
  listLoop F pages rows keyPrefix pages JsMap.empty []

end list

section runs

/-- A value that `JSON.stringify` takes. -/
structure Value (ν : Type) where
  json : Json ν
  proper : JsonText.Proper json

inductive Call (ν : Type) where
  | put (commits : Bool) (key : Text) (value : Value ν)
  | delete (key : Text)

variable {ν : Type} [Zero ν] (F : NumberFormat ν)

def Call.after (rows : List Row) : Call ν → List Row
  | .put commits key value =>
    match CallActorStorage.put F commits key value.json rows with
    | .ok rows => rows
    | .error _ => rows
  | .delete key => (CallActorStorage.delete key rows).2

def run (calls : List (Call ν)) : List Row := calls.foldl (Call.after F) []

end runs

end Yurucommu.CallActorStorage
