import Yurucommu.JsonRecord
import Yurucommu.Machine

/-!
The login lockout of one client: a record of its failed attempts, kept as JSON text in a key-value
store that forgets it after a time.
-/

set_option autoImplicit false

namespace Yurucommu.AuthLockout

open JsonText

structure LoginLockoutStatus where
  locked : Bool
  failedAttempts : ℤ
  retryAfterSeconds : ℤ
deriving DecidableEq, Repr

structure LoginLockoutRecord where
  failedAttempts : ℤ
  firstFailedAt : ℤ
  lockoutUntil : Option ℤ
deriving DecidableEq, Repr

def maxFailedAttempts : ℤ := 5
def lockoutMs : ℤ := 15 * 60 * 1000
def trackingWindowMs : ℤ := 60 * 60 * 1000

/-- What the store has under the key of the client, and when it forgets it. -/
structure Entry where
  value : Units
  expiresAt : ℤ
deriving DecidableEq, Repr

def isRecordExpired (record : LoginLockoutRecord) (now : ℤ) : Bool :=
  record.lockoutUntil.any (· ≤ now) || trackingWindowMs < now - record.firstFailedAt

def normalizeLockoutRecord (record : Option LoginLockoutRecord) (now : ℤ) :
    Option LoginLockoutRecord :=
  record.filter fun record => !isRecordExpired record now

def unlockedStatus : LoginLockoutStatus := ⟨false,0,0⟩

def toStatus (record : Option LoginLockoutRecord) (now : ℤ) : LoginLockoutStatus :=
  match record with
  | none => unlockedStatus
  | some record =>
    match record.lockoutUntil with
    | none => ⟨false,record.failedAttempts,0⟩
    | some lockoutUntil =>
      if now < lockoutUntil then
        ⟨true,record.failedAttempts,max 1 ⌈((lockoutUntil - now : ℤ) : ℚ) / 1000⌉⟩
      else ⟨false,record.failedAttempts,0⟩

def nextRecord (existing : Option LoginLockoutRecord) (now : ℤ) : LoginLockoutRecord :=
  let failedAttempts := (existing.map LoginLockoutRecord.failedAttempts).getD 0 + 1
  { failedAttempts
    firstFailedAt := (existing.map LoginLockoutRecord.firstFailedAt).getD now
    lockoutUntil := if maxFailedAttempts ≤ failedAttempts then some (now + lockoutMs) else none }

def isLocked (record : Option LoginLockoutRecord) (now : ℤ) : Bool :=
  record.any fun record => record.lockoutUntil.any (now < ·)

/-- How much longer the record matters; `lockoutUntil` is no date where it is zero. -/
def ttlMs (record : LoginLockoutRecord) (now : ℤ) : ℤ :=
  match record.lockoutUntil.filter (· ≠ 0) with
  | some lockoutUntil => lockoutUntil - now
  | none => trackingWindowMs - (now - record.firstFailedAt)

def expirationTtl (record : LoginLockoutRecord) (now : ℤ) : ℤ :=
  max 60 (⌈((ttlMs record now : ℤ) : ℚ) / 1000⌉ + 60)

section code

variable (F : NumberFormat ℤ)

def recordJson (record : LoginLockoutRecord) : Json ℤ :=
  .object (defined [(JsString.units "failedAttempts",some (.number (.finite record.failedAttempts))),
    (JsString.units "firstFailedAt",some (.number (.finite record.firstFailedAt))),
    (JsString.units "lockoutUntil",
      some (nullable (record.lockoutUntil.map fun ms => .number (.finite ms))))])

/-- No text that is written has an infinite number. -/
def asInteger : Option (Json ℤ) → Option ℤ
  | some (.number (.finite value)) => some value
  | some (.number .minusZero) => some 0
  | _ => none

def asDeadline : Option (Json ℤ) → Option (Option ℤ)
  | some .null => some none
  | value => (asInteger value).map some

def parseLockoutRecord (raw : Option Units) : Option LoginLockoutRecord := do
  let text ← raw.filter (· ≠ [])
  let parsed ← parse F text
  let failedAttempts ← asInteger (parsed.get (JsString.units "failedAttempts"))
  let firstFailedAt ← asInteger (parsed.get (JsString.units "firstFailedAt"))
  let lockoutUntil ← asDeadline (parsed.get (JsString.units "lockoutUntil"))
  return ⟨failedAttempts,firstFailedAt,lockoutUntil⟩

def kvGet (kv : Option Entry) (now : ℤ) : Option Units :=
  (kv.filter fun entry => now < entry.expiresAt).map Entry.value

/-- The record, and the store: a record that is no more is deleted. -/
def readRecord (kv : Option Entry) (now : ℤ) : Option LoginLockoutRecord × Option Entry :=
  let record := normalizeLockoutRecord (parseLockoutRecord F (kvGet kv now)) now
  (record,if record.isSome then kv else none)

def writeRecord (record : LoginLockoutRecord) (now : ℤ) : Entry :=
  ⟨stringify F (recordJson record),now + 1000 * expirationTtl record now⟩

def getLoginLockoutStatus (kv : Option Entry) (now : ℤ) : LoginLockoutStatus × Option Entry :=
  let (record,kv) := readRecord F kv now
  (toStatus record now,kv)

def recordFailedLoginAttempt (kv : Option Entry) (now : ℤ) : LoginLockoutStatus × Option Entry :=
  let (existing,kv) := readRecord F kv now
  if isLocked existing now then (toStatus existing now,kv)
  else
    let next := nextRecord existing now
    (toStatus (some next) now,some (writeRecord F next now))

end code

section runs

inductive Call where
  | fail | status | clear
deriving DecidableEq, Repr

/-- A call, when it was made, what it answered, and the record that is then in the store. -/
structure Answered where
  call : Call
  now : ℤ
  status : Option LoginLockoutStatus
  record : Option LoginLockoutRecord
deriving DecidableEq, Repr

structure Lockout where
  kv : Option Entry := none
  clock : ℤ := 0
  log : List Answered := []
deriving DecidableEq, Repr

variable (F : NumberFormat ℤ)

def recordOf (kv : Option Entry) : Option LoginLockoutRecord :=
  parseLockoutRecord F (kv.map Entry.value)

def answer (call : Call) (now : ℤ) (kv : Option Entry) :
    Option LoginLockoutStatus × Option Entry :=
  match call with
  | .fail => Prod.map some id (recordFailedLoginAttempt F kv now)
  | .status => Prod.map some id (getLoginLockoutStatus F kv now)
  | .clear => (none,none)

/-- One call at a time, on a clock that does not run backwards. -/
def step (l : Call × ℤ) (s : Lockout) : Option Lockout :=
  if l.2 < s.clock then none
  else
    let answered := answer F l.1 l.2 s.kv
    some ⟨answered.2,l.2,s.log ++ [⟨l.1,l.2,answered.1,recordOf F answered.2⟩]⟩

def machine : Machine Lockout (Call × ℤ) := ⟨step F⟩

end runs

end Yurucommu.AuthLockout
