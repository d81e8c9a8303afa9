import Yurucommu.Binary64
import Yurucommu.MachineTrace

/-!
The dispatcher of relay jobs. A request takes one step from each await to the next, and so does the
producer that goes on behind its response; both are one entry of the list of requests. What the
body, the clock and the dependencies do comes from outside.
-/

set_option autoImplicit false

namespace Yurucommu.CallDispatcher

def maxActiveJobs : ℤ := 8
def maxLiveJobBytes : ℤ := 16 * 1024 * 1024
def liveBytesPerWireByte : Nat := 4
def callRelayJobMaxBytes : Nat := 4 * 1024 * 1024
def callRelayTimeoutMs : ℚ := 10000

section numbers

/-- A number of the language, none where it is not finite. -/
abbrev Number := Option ℚ

def Number.ofExact (q : ℚ) : Number :=
  if |Binary64.round q| < 2 ^ 1024 then some (Binary64.round q) else none

def Number.add (a b : Number) : Number := do Number.ofExact ((← a) + (← b))

def Number.sub (a b : Number) : Number := do Number.ofExact ((← a) - (← b))

def isSafeInteger : Number → Bool
  | some q => q.den = 1 && |q.num| ≤ 2 ^ 53 - 1
  | none => false

end numbers

section jobs

/-- What the dispatcher reads of a job. -/
structure CallRelayJob where
  deadline : Number
  ts : Number
  ttlMs : Number
deriving DecidableEq, Repr

/-- The differences that are not finite pass no comparison. -/
def isEnvelopeFresh (job : CallRelayJob) (now : Number) : Bool :=
  (job.ts.sub now).any (· ≤ 30000) &&
    match now.sub job.ts, job.ttlMs with
    | some age, some ttlMs => age ≤ ttlMs
    | _, _ => false

def validJobAt (job : CallRelayJob) (current : Number) : Bool :=
  match current, job.deadline, job.ts.add job.ttlMs with
  | some _, some deadline, some envelopeDeadline =>
    deadline ≤ envelopeDeadline && isEnvelopeFresh job current &&
      (job.deadline.sub current).any fun remaining =>
        0 < remaining && remaining ≤ callRelayTimeoutMs
  | _, _, _ => false

inductive Outcome where
  | peerAck | failed
deriving DecidableEq, Repr

/-- A reading of the clock. -/
inductive Clock where
  | throws
  | reads (time : Number)
deriving DecidableEq, Repr

def sendsOnce (job : CallRelayJob) : Clock → Bool
  | .throws => false
  | .reads time => validJobAt job time

/-- How `send` ends: whether it resolves, whether its signal is aborted, and the clock behind it. -/
structure Sent where
  resolves : Bool
  aborted : Bool
  clock : Clock
deriving DecidableEq, Repr

def outcome (job : CallRelayJob) (before : Clock) (sent : Sent) : Outcome :=
  match sent.clock, job.deadline with
  | .reads (some time), some deadline =>
    if sendsOnce job before ∧ sent.resolves ∧ !sent.aborted ∧ time < deadline then .peerAck
    else .failed
  | _, _ => .failed

end jobs

section requests

inductive Body where
  | absent
  /-- `getReader` throws. -/
  | locked
  | stream
deriving DecidableEq, Repr

structure Request where
  pathname : String
  method : String
  /-- The number that the header reads as, if there is one. -/
  contentLength : Option Number
  body : Body
deriving DecidableEq, Repr

/-- Where a request, or the producer behind it, waits. -/
inductive Phase where
  /-- For the next chunk. -/
  | reading (request : Request) (bytes : List UInt8) (reserved : Nat)
  /-- For `reader.cancel`. -/
  | cancelling (reserved : Nat) (status : Nat)
  /-- For `readBody`, which has read nothing. -/
  | refused (status : Nat)
  /-- For `readBody`, which has read the body. -/
  | read (request : Request) (bytes : List UInt8)
  /-- For `sendOnce`, with the request still open. -/
  | sending (job : CallRelayJob) (before : Clock) (reservation : Nat)
  /-- The producer, for its start. -/
  | admitted (job : CallRelayJob) (reservation : Nat)
  /-- The producer, for `sendOnce`. -/
  | delivering (job : CallRelayJob) (before : Clock) (reservation : Nat)
  /-- The producer, for `report`. -/
  | reporting (outcome : Outcome)
  /-- Nothing: the response is given, with its result, and no producer goes on. -/
  | settled (status : Nat) (result : Option Outcome)
deriving DecidableEq, Repr

/-- What ends an await, and what the step behind it meets. -/
inductive Answer where
  /-- A chunk; `allocates` says whether the buffer can grow. -/
  | chunk (value : List UInt8) (allocates : Bool)
  | done
  | fails
  /-- An await ends; the clock is read, once more before a send, and `waitUntil` may throw. -/
  | goes (clock before : Clock) (waits : Bool)
  | sent (sent : Sent)
deriving DecidableEq, Repr

/-- The counters of the dispatcher. `clamped` says whether `Math.max` has ever taken effect. -/
structure Counters where
  activeJobs : ℤ
  activeBytes : ℤ
  clamped : Bool
deriving DecidableEq, Repr

def releaseBytes (bytes : Nat) (c : Counters) : Counters :=
  { c with
    activeBytes := max 0 (c.activeBytes - bytes)
    clamped := c.clamped || decide (c.activeBytes - bytes < 0) }

def releaseJob (c : Counters) : Counters := { c with activeJobs := c.activeJobs - 1 }

def refusal (request : Request) : Option Nat :=
  match request.contentLength with
  | some length =>
    if isSafeInteger length = false ∨ length.any (· < 0) then some 400
    else if length.any ((callRelayJobMaxBytes : ℚ) < ·) then some 413
    else if request.body ≠ .stream then some 400 else none
  | none => if request.body ≠ .stream then some 400 else none

/-- `fetch` up to its first await. -/
def fetch (request : Request) (c : Counters) : Counters × Phase :=
  if request.pathname ≠ "/_dispatch" ∧ request.pathname ≠ "/_send" then (c,.settled 404 none)
  else if request.method ≠ "POST" then (c,.settled 405 none)
  else if maxActiveJobs ≤ c.activeJobs then (c,.settled 503 none)
  else
    ({ c with activeJobs := c.activeJobs + 1 },
      match refusal request with
      | some status => .refused status
      | none => .reading request [] 0)

def readChunk (request : Request) (bytes : List UInt8) (reserved : Nat) (value : List UInt8)
    (allocates : Bool) (c : Counters) : Counters × Phase :=
  let nextSize := bytes.length + value.length
  if callRelayJobMaxBytes < nextSize then (c,.cancelling reserved 413)
  else
    let nextReservation := nextSize * liveBytesPerWireByte
    let additional : ℤ := nextReservation - reserved
    if maxLiveJobBytes < c.activeBytes + additional then (c,.cancelling reserved 503)
    else
      let c := { c with activeBytes := c.activeBytes + additional }
      if allocates then (c,.reading request (bytes ++ value) nextReservation)
      else (releaseBytes nextReservation c,.refused 400)

/-- `finally` of `handle`, where the slot was not transferred. -/
def finish (reservation : Nat) (status : Nat) (result : Option Outcome) (c : Counters) :
    Counters × Phase :=
  (releaseJob (if 0 < reservation then releaseBytes reservation c else c),.settled status result)

variable (parseJob : List UInt8 → Option (Option CallRelayJob))

/-- `handle` behind `readBody`. `parseJob` decodes and parses; none where that throws. -/
def accept (request : Request) (bytes : List UInt8) (clock before : Clock) (waits : Bool)
    (c : Counters) : Counters × Phase :=
  let reservation := bytes.length * liveBytesPerWireByte
  match parseJob bytes, clock with
  | some (some job), .reads time =>
    if validJobAt job time = false then finish reservation 400 none c
    else if request.pathname = "/_send" then (c,.sending job before reservation)
    else if waits then (c,.admitted job reservation)
    else finish reservation 400 none c
  | _, _ => finish reservation 400 none c

/-- `handle` behind `sendOnce`, which throws where the clock does. -/
def sendResult (job : CallRelayJob) (before : Clock) (sent : Sent) : Nat × Option Outcome :=
  if before = .throws then (400,none) else (200,some (outcome job before sent))

def resume : Phase → Answer → Counters → Option (Counters × Phase)
  | .reading request bytes reserved, .chunk value allocates, c =>
    some (readChunk request bytes reserved value allocates c)
  | .reading request bytes reserved, .done, c =>
    some (if bytes.length = 0 then (releaseBytes reserved c,.refused 400)
      else (c,.read request bytes))
  | .reading _ _ reserved, .fails, c => some (releaseBytes reserved c,.refused 400)
  | .cancelling reserved status, .goes _ _ _, c =>
    some (releaseBytes reserved c,.refused status)
  | .refused status, .goes _ _ _, c => some (finish 0 status none c)
  | .read request bytes, .goes clock before waits, c =>
    some (accept parseJob request bytes clock before waits c)
  | .sending job before reservation, .sent sent, c =>
    some (finish reservation (sendResult job before sent).1 (sendResult job before sent).2 c)
  | .admitted job reservation, .goes _ before _, c => some (c,.delivering job before reservation)
  | .delivering job before reservation, .sent sent, c =>
    some (releaseBytes reservation c,.reporting (outcome job before sent))
  | .reporting _, .goes _ _ _, c => some (releaseJob c,.settled 202 none)
  | _, _, _ => none

structure State where
  counters : Counters
  requests : List Phase

inductive Label where
  | fetch (request : Request)
  | resume (i : Nat) (answer : Answer)
deriving DecidableEq, Repr

def machine : Machine State Label where
  step
    | .fetch request, s =>
      some ⟨(fetch request s.counters).1,s.requests ++ [(fetch request s.counters).2]⟩
    | .resume i answer, s =>
      s.requests[i]?.bind fun phase =>
        (resume parseJob phase answer s.counters).map fun next =>
          ⟨next.1,s.requests.set i next.2⟩

/-- `createCallDispatcher`. -/
def start : State := ⟨⟨0,0,false⟩,[]⟩

end requests

end Yurucommu.CallDispatcher
