import Mathlib.Data.Rat.Defs
import Mathlib.Algebra.Order.Field.Rat
import Yurucommu.Machine
import Yurucommu.Whatwg

/-!
The body of a federated response. Three members of the response read it under a cap and a timer;
the others are those of the response as it came.
-/

set_option autoImplicit false

namespace Yurucommu.FederationBody

open Whatwg (Text)

section streams

abbrev Bytes := List UInt8

/-- How a stream goes on after its chunks. -/
inductive Ending where
  | closed
  | failed
  | unending
deriving DecidableEq, Repr

structure Stream where
  chunks : List Bytes
  ending : Ending
deriving DecidableEq, Repr

/-- `declared` is what the content length is as a number, if that is finite. -/
structure Response where
  status : Nat
  declared : Option ℚ
  body : Option Stream
deriving DecidableEq

inductive Failure where
  | tooLarge (url : Text) (limit : Nat)
  | timedOut (url : Text)
  | stream
  | consumed
  | syntaxError
deriving DecidableEq, Repr

inductive Outcome where
  | ok (bytes : Bytes)
  | error (failure : Failure)
  | pending
deriving DecidableEq, Repr

/-- What is read, and whether the source was cancelled. -/
structure Reading where
  outcome : Outcome
  cancelled : Bool
deriving DecidableEq

/-- When the timer of a read fires: before the stream is read, or while it waits for a chunk after
so many. -/
inductive Timer where
  | never
  | before
  | waiting (chunks : Nat)
deriving DecidableEq, Repr

def Timer.chunks : Timer → Option Nat
  | .waiting chunks => some chunks
  | _ => none

/-- What becomes of the clones when the stream is cancelled: all were cancelled, one of them came to
the end of the source, or neither. -/
inductive Clones where
  | cancelled
  | ended
  | open_
deriving DecidableEq, Repr

/-- How the one who reads the stream itself leaves it. -/
inductive Leave where
  | released
  | held
  | cancelled
deriving DecidableEq, Repr

/-- `bodyConsumed`, and the stream of the response: what is left of it, whether a reader has it for
good or the caller's reader holds it, whether it was read or cancelled, and whether a clone has the
other branch. -/
structure Wrapper where
  bodyConsumed : Bool
  body : Option Stream
  locked : Bool
  held : Bool
  disturbed : Bool
  teed : Bool
deriving DecidableEq, Repr

def Wrapper.taken (w : Wrapper) : Bool := w.locked || w.held

def Wrapper.unusable (w : Wrapper) : Bool := w.taken || w.disturbed

def Wrapper.left (w : Wrapper) : Bytes := w.body.elim [] fun stream => stream.chunks.flatten

def Wrapper.read (w : Wrapper) : Wrapper := { w with locked := true, disturbed := true }

end streams

section reads

variable (url : Text) (limit : Nat)

/-- `await` of `cancel` of the stream: a branch waits for the other one or for the end of the
source, and a stream that has a reader is not cancelled. -/
def cancelBody (w : Wrapper) (clones : Clones) (failure : Failure) : Reading × Wrapper :=
  if w.body = none ∨ w.taken = true then (⟨.error failure,false⟩,w)
  else
    (if w.teed = true then
      match clones with
      | .cancelled => ⟨.error failure,true⟩
      | .ended => ⟨.error failure,false⟩
      | .open_ => ⟨.pending,false⟩
    else ⟨.error failure,true⟩,
    { w with disturbed := true, body := some ⟨[],.closed⟩ })

/-- The loop, with what the cancel above the limit comes to; it waits for good where there is none.
A reader that is cancelled while it waits is told that the stream is done. -/
def readLoop (above : Reading) (ending : Ending) : List Bytes → Option Nat → Bytes → Option Reading
  | _, some 0, got => some ⟨.ok got,above.cancelled⟩
  | [], _, got =>
    match ending with
    | .closed => some ⟨.ok got,false⟩
    | .failed => some ⟨.error .stream,false⟩
    | .unending => none
  | chunk :: rest, timer, got =>
    if limit < got.length + chunk.length then some above
    else readLoop above ending rest (timer.map (· - 1)) (got ++ chunk)

def readBodyBytesWithCap (response : Response) (timer : Timer) (clones : Clones) (w : Wrapper) :
    Option (Reading × Wrapper) :=
  let above := cancelBody w clones (.tooLarge url limit)
  if response.declared.any ((limit : ℚ) < ·) then some above
  else
    match w.body with
    | none => some (⟨.ok [],false⟩,w)
    | some stream =>
      if timer = .before then some (cancelBody w clones (.timedOut url))
      else if w.taken then some (⟨.error .consumed,false⟩,w)
      else (readLoop limit above.1 stream.ending stream.chunks timer.chunks []).map fun reading =>
        (reading,w.read)

end reads

section members

/-- The members that give the body; the last gives the stream, of which so many chunks are read. -/
inductive Member where
  | text
  | json
  | arrayBuffer
  | blob
  | bytes
  | formData
  | clone
  | body (chunks : Nat) (leave : Leave)
deriving DecidableEq, Repr

def Member.capped : Member → Bool
  | .text | .json | .arrayBuffer => true
  | _ => false

def fresh (response : Response) : Wrapper := ⟨false,response.body,false,false,false,false⟩

/-- `arrayBuffer` of the response itself. -/
def wholeBody (w : Wrapper) : Reading × Wrapper :=
  match w.body with
  | none => (⟨.ok [],false⟩,w)
  | some stream =>
    if w.unusable then (⟨.error .consumed,false⟩,w)
    else
      match stream.ending with
      | .closed => (⟨.ok stream.chunks.flatten,false⟩,w.read)
      | .failed => (⟨.error .stream,false⟩,w.read)
      | .unending => (⟨.pending,false⟩,w.read)

/-- What a reader of the clone gets. -/
def clone (w : Wrapper) : Reading × Wrapper :=
  match w.body with
  | none => (⟨.ok [],false⟩,w)
  | some stream =>
    if w.unusable then (⟨.error .consumed,false⟩,w)
    else (⟨.ok stream.chunks.flatten,false⟩,{ w with teed := true })

def readStream (chunks : Nat) (leave : Leave) (w : Wrapper) : Reading × Wrapper :=
  match w.body with
  | none => (⟨.ok [],false⟩,w)
  | some stream =>
    if w.locked then (⟨.error .consumed,false⟩,w)
    else
      (⟨.ok (stream.chunks.take chunks).flatten,false⟩,
        { w with
          body := some (if leave = .cancelled then ⟨[],.closed⟩
            else ⟨stream.chunks.drop chunks,stream.ending⟩)
          held := leave = .held
          disturbed := w.disturbed || 0 < chunks || leave = .cancelled })

variable (url : Text) (limit : Nat)

def readBytes (response : Response) (timer : Timer) (clones : Clones) (w : Wrapper) :
    Option (Reading × Wrapper) :=
  if w.bodyConsumed then some (wholeBody w)
  else readBodyBytesWithCap url limit response timer clones { w with bodyConsumed := true }

/-- A use of a member, with what the timer and the clones do meanwhile. -/
structure Call where
  member : Member
  timer : Timer
  clones : Clones
deriving DecidableEq, Repr

/-- What a call reads, and the wrapper after it. -/
def access (response : Response) (call : Call) (w : Wrapper) : Option (Reading × Wrapper) :=
  match call.member with
  | .text | .json | .arrayBuffer => readBytes url limit response call.timer call.clones w
  | .clone => some (clone w)
  | .body chunks leave => some (readStream chunks leave w)
  | .blob | .bytes | .formData => some (wholeBody w)

structure Use where
  call : Call
  wrapper : Wrapper
  reading : Reading
deriving DecidableEq

structure Session where
  wrapper : Wrapper
  uses : List Use
deriving DecidableEq

/-- A redirect is not returned. -/
def fetchWithTimeout (response : Response) : Option Session :=
  if 300 ≤ response.status ∧ response.status < 400 then none else some ⟨fresh response,[]⟩

def machine (response : Response) : Machine Session Call where
  step call s := (access url limit response call s.wrapper).map fun r =>
    ⟨r.2,s.uses ++ [⟨call,s.wrapper,r.1⟩]⟩

end members

section delivery

inductive Delivered (J : Type) where
  | text (text : Text)
  | json (value : J)
  | bytes (bytes : Bytes)
deriving DecidableEq

variable {J : Type} (decode : Bytes → Text) (parse : Text → Option J)

def deliver (member : Member) (bytes : Bytes) : Except Failure (Delivered J) :=
  match member with
  | .text => .ok (.text (decode bytes))
  | .json =>
    match parse (decode bytes) with
    | some value => .ok (.json value)
    | none => .error .syntaxError
  | _ => .ok (.bytes bytes)

def Response.complete (response : Response) : Option Bytes :=
  match response.body with
  | none => some []
  | some stream => if stream.ending = .closed then some stream.chunks.flatten else none

def Response.sent (response : Response) : Bytes :=
  response.body.elim [] fun stream => stream.chunks.flatten

def Response.firesIn (response : Response) (timer : Timer) : Prop :=
  ∃ stream, response.body = some stream ∧
    (timer = .before ∨ ∃ n, timer = .waiting n ∧ n ≤ stream.chunks.length)

def Response.declaresOver (response : Response) (limit : Nat) : Prop :=
  response.declared.any ((limit : ℚ) < ·) = true

def Wrapper.untouched (w : Wrapper) : Prop := w.bodyConsumed = false ∧ w.unusable = false

/-- The capped members throw or deliver the whole body, which is in the limit; they throw and cancel
when the timer fires or the limit is exceeded, and throw when the body was read before; the others
give no more than the limit. -/
structure Right (limit : Nat) (response : Response) (use : Use) : Prop where
  settles : use.call.member.capped = true → use.reading.outcome ≠ .pending
  whole : use.call.member.capped = true → ∀ got, use.reading.outcome = .ok got →
    ∀ delivered : Delivered J, deliver decode parse use.call.member got = .ok delivered →
      ∃ bytes, response.complete = some bytes ∧ bytes.length ≤ limit ∧
        deliver decode parse use.call.member bytes = .ok delivered
  cut : use.call.member.capped = true → use.wrapper.untouched →
    response.firesIn use.call.timer ∨ limit < response.sent.length →
      (∃ failure, use.reading.outcome = .error failure) ∧ use.reading.cancelled = true
  second : use.call.member.capped = true → use.wrapper.bodyConsumed = true →
    ∃ failure, use.reading.outcome = .error failure
  others : use.call.member.capped = false → ∀ bytes, use.reading.outcome = .ok bytes →
    bytes.length ≤ limit

/-- What a capped member of `InCap` does not meet: a second read of no body or of one that was held
at the first; a stream that was read in part or cancelled and let go; a timer that fires while the
loop waits; a clone that is open when the stream is cancelled. -/
structure InCap.Read (limit : Nat) (response : Response) (call : Call) (w : Wrapper) : Prop where
  again : w.bodyConsumed = true → w.body ≠ none ∧ w.unusable = true
  released : w.bodyConsumed = false → w.disturbed = true → w.taken = true
  waiting : w.untouched → ∀ n stream, call.timer = .waiting n → w.body = some stream →
    n ≤ stream.chunks.length →
      limit < (stream.chunks.take n).flatten.length ∨ response.declaresOver limit
  clones : w.untouched → w.teed = true →
    response.firesIn call.timer ∨ limit < response.sent.length ∨ response.declaresOver limit →
      call.clones = .cancelled

def InCap (limit : Nat) (response : Response) (call : Call) (w : Wrapper) : Prop :=
  match call.member with
  | .text | .json | .arrayBuffer => InCap.Read limit response call w
  | .body _ _ => w.locked = true ∨ w.left.length ≤ limit
  | _ => w.unusable = true ∨ w.left.length ≤ limit

end delivery

end Yurucommu.FederationBody
