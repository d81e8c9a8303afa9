import Yurucommu.JsonProper
import Yurucommu.JsonRecord

/-!
The signaling envelope that an instance takes from another: it is read from any JSON value, sent on
as its text, and read again where the call goes on.
-/

set_option autoImplicit false

namespace Yurucommu.RtcEnvelope

open JsonText
open Utf16 (IsUnits utf8)

inductive RtcSignalType where
  | offer | answer | candidate | accept | reject | hangup | cancel
deriving DecidableEq, Repr

def RtcSignalType.text : RtcSignalType → Units
  | .offer => JsString.units "offer"
  | .answer => JsString.units "answer"
  | .candidate => JsString.units "candidate"
  | .accept => JsString.units "accept"
  | .reject => JsString.units "reject"
  | .hangup => JsString.units "hangup"
  | .cancel => JsString.units "cancel"

def signalTypes : List RtcSignalType :=
  [.offer,.answer,.candidate,.accept,.reject,.hangup,.cancel]

/-- `null` is none. -/
structure CallIceCandidate (ν : Type) where
  candidate : Units
  sdpMid : Option Units
  sdpMLineIndex : Option (Number ν)
  usernameFragment : Option Units

structure SfuFocus where
  kind : Units
  url : Units
  token : Option Units
  room : Option Units
deriving DecidableEq, Repr

/-- A value that is `undefined` is none; `sfuFocus` may be null besides. -/
structure RtcSignalEnvelopeV1 (ν : Type) where
  callId : Units
  from_ : Units
  to_ : Units
  type : RtcSignalType
  media : Option (Json ν)
  sdp : Option Units
  candidates : Option (List (CallIceCandidate ν))
  sfuFocus : Option (Option SfuFocus)
  reason : Option Units
  ts : Number ν
  ttlMs : Number ν

def maxRtcSdpBytes : Nat := 100000

def fitsUtf8Bytes (value : Units) (maxBytes : Nat) : Bool :=
  value.length ≤ maxBytes && (utf8 value).length ≤ maxBytes

variable {ν : Type} [LinearOrder ν] [Zero ν] [One ν]

section parse

def asNumber : Option (Json ν) → Option (Number ν)
  | some (.number value) => some value
  | _ => none

def isBoolean : Option (Json ν) → Bool
  | some (.bool _) => true
  | _ => false

def isFinite : Number ν → Bool
  | .infinite _ => false
  | _ => true

/-- `value < 0`. -/
def isNegative : Number ν → Bool
  | .finite value => value < 0
  | .minusZero => false
  | .infinite negative => negative

/-- `value === RTC_SIGNAL_ENVELOPE_VERSION`. -/
def isVersion : Option (Json ν) → Bool
  | some (.number (.finite value)) => value = 1
  | _ => false

def isCallMediaKind (value : Json ν) : Bool :=
  value.isObject && isBoolean (value.get (JsString.units "audio")) &&
    isBoolean (value.get (JsString.units "video"))

/-- None of what is passed over. -/
def parseCandidate (raw : Json ν) : Option (CallIceCandidate ν) :=
  (asString (raw.get (JsString.units "candidate"))).map fun candidate =>
    { candidate := candidate
      sdpMid := asString (raw.get (JsString.units "sdpMid"))
      sdpMLineIndex := asNumber (raw.get (JsString.units "sdpMLineIndex"))
      usernameFragment := asString (raw.get (JsString.units "usernameFragment")) }

def parseCandidates : Option (Json ν) → Option (List (CallIceCandidate ν))
  | some (.array entries) => some (entries.filterMap parseCandidate)
  | _ => none

def parseSfuFocus : Option (Json ν) → Option (Option SfuFocus)
  | none => none
  | some .null => some none
  | some value =>
    (asString (value.get (JsString.units "kind"))).bind fun kind =>
      (asString (value.get (JsString.units "url"))).map fun url =>
        some
          { kind := kind
            url := url
            token := asString (value.get (JsString.units "token"))
            room := asString (value.get (JsString.units "room")) }

def acceptable (callId from_ to_ : Units) (ts ttlMs : Number ν) : Bool :=
  callId.length ≠ 0 && callId.length ≤ 200 && from_.length ≠ 0 && to_.length ≠ 0 &&
    isFinite ts && isFinite ttlMs && !isNegative ttlMs

/-- None where the envelope is refused. -/
def parseRtcSignalEnvelope (input : Json ν) : Option (RtcSignalEnvelopeV1 ν) := do
  guard (input.isObject = true ∧ isVersion (input.get (JsString.units "v")) = true)
  let callId ← asString (input.get (JsString.units "callId"))
  let from_ ← asString (input.get (JsString.units "from"))
  let to_ ← asString (input.get (JsString.units "to"))
  let typeText ← asString (input.get (JsString.units "type"))
  let type ← signalTypes.find? fun type => type.text = typeText
  let ts ← asNumber (input.get (JsString.units "ts"))
  let ttlMs ← asNumber (input.get (JsString.units "ttlMs"))
  guard (acceptable callId from_ to_ ts ttlMs = true)
  guard ((asString (input.get (JsString.units "sdp"))).all (fitsUtf8Bytes · maxRtcSdpBytes) = true)
  return {
    callId := callId
    from_ := from_
    to_ := to_
    type := type
    media := (input.get (JsString.units "media")).filter isCallMediaKind
    sdp := asString (input.get (JsString.units "sdp"))
    candidates := parseCandidates (input.get (JsString.units "candidates"))
    sfuFocus := parseSfuFocus (input.get (JsString.units "sfuFocus"))
    reason := (asString (input.get (JsString.units "reason"))).map (·.take 200)
    ts := ts
    ttlMs := ttlMs }

end parse

section text

def CallIceCandidate.toJson (c : CallIceCandidate ν) : Json ν :=
  .object [(JsString.units "candidate",.string c.candidate),
    (JsString.units "sdpMid",nullable (c.sdpMid.map .string)),
    (JsString.units "sdpMLineIndex",nullable (c.sdpMLineIndex.map .number)),
    (JsString.units "usernameFragment",nullable (c.usernameFragment.map .string))]

def SfuFocus.toJson (f : SfuFocus) : Json ν :=
  .object (defined [(JsString.units "kind",some (.string f.kind)),
    (JsString.units "url",some (.string f.url)),
    (JsString.units "token",f.token.map .string),
    (JsString.units "room",f.room.map .string)])

def RtcSignalEnvelopeV1.members (e : RtcSignalEnvelopeV1 ν) : List (Units × Option (Json ν)) :=
  [(JsString.units "v",some (.number (.finite 1))),
    (JsString.units "callId",some (.string e.callId)),
    (JsString.units "from",some (.string e.from_)),
    (JsString.units "to",some (.string e.to_)),
    (JsString.units "type",some (.string e.type.text)),
    (JsString.units "media",e.media),
    (JsString.units "sdp",e.sdp.map .string),
    (JsString.units "candidates",e.candidates.map fun cs => .array (cs.map (·.toJson))),
    (JsString.units "sfuFocus",e.sfuFocus.map fun f => nullable (f.map (·.toJson))),
    (JsString.units "reason",e.reason.map .string),
    (JsString.units "ts",some (.number e.ts)),
    (JsString.units "ttlMs",some (.number e.ttlMs))]

def RtcSignalEnvelopeV1.toJson (e : RtcSignalEnvelopeV1 ν) : Json ν := .object (defined e.members)

def hexDigits (b : UInt8) : Units := [hexDigit (b.toNat / 16),hexDigit (b.toNat % 16)]

variable (F : NumberFormat ν) (sha256 : List UInt8 → List UInt8)

def callIngressDigest (e : RtcSignalEnvelopeV1 ν) : Units :=
  (sha256 (utf8 (stringify F e.toJson))).flatMap hexDigits

/-- The envelope of `/_continue`, if it is the one that was taken in; `actor` is whose calls these
are. -/
def continued (actor : Option Units) (ingressDigest : Option Units) (body : Units) :
    Option (RtcSignalEnvelopeV1 ν) :=
  (parse F body).bind fun input =>
    ((input.get (JsString.units "envelope")).bind parseRtcSignalEnvelope).filter fun e =>
      some (callIngressDigest F sha256 e) = ingressDigest && some e.to_ = actor

/-- The body of `/_continue`. -/
def continuation (result : Json ν) (e : RtcSignalEnvelopeV1 ν) : Units :=
  stringify F (.object [(JsString.units "result",result),(JsString.units "envelope",e.toJson)])

/-- An envelope sent on as its text and read again, a number of times. -/
def resent : Nat → RtcSignalEnvelopeV1 ν → Option (RtcSignalEnvelopeV1 ν)
  | 0, e => some e
  | n + 1, e => ((parse F (stringify F e.toJson)).bind parseRtcSignalEnvelope).bind (resent n)

end text

end Yurucommu.RtcEnvelope
