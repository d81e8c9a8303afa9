import Yurucommu.ActorIdentity
import Yurucommu.JsonProper
import Yurucommu.JsonRecord

/-!
The patch of an Update of a Note: it is taken from any object that a peer sends, kept as its text,
and checked again when it is read back.
-/

set_option autoImplicit false

namespace Yurucommu.NotePatch

open ActorIdentity (Platform isSafeRemoteUrl)
open JsonText

section addressing

def maxInboundAddressEntries : Nat := 64
def maxInboundAddressLength : Nat := 2048

inductive AddressField where
  | to_ | cc | bto | bcc | audience
deriving DecidableEq, Repr

def addressFields : List AddressField := [.to_,.cc,.bto,.bcc,.audience]

def AddressField.key : AddressField → Units
  | .to_ => JsString.units "to"
  | .cc => JsString.units "cc"
  | .bto => JsString.units "bto"
  | .bcc => JsString.units "bcc"
  | .audience => JsString.units "audience"

inductive InboundAddressingFailureReason where
  | tooMany | tooLong
deriving DecidableEq, Repr

/-- What was seen in each field, the addresses in order, and how many entries count. -/
structure Collected where
  seen : List (AddressField × Units)
  addresses : List Units
  entryCount : Nat

abbrev Collecting := Except (InboundAddressingFailureReason × List Units) Collected

def Collected.add (c : Collected) (field : AddressField) (candidate : Units) : Collected where
  seen := (field,candidate) :: c.seen
  addresses := if candidate ∈ c.addresses then c.addresses else c.addresses ++ [candidate]
  entryCount := c.entryCount + 1

def collectText (field : AddressField) (c : Collected) (candidate : Units) : Collecting :=
  if candidate.length = 0 then .ok c
  else if maxInboundAddressLength < candidate.length then .error (.tooLong,c.addresses)
  else if (field,candidate) ∈ c.seen then .ok c
  else if maxInboundAddressEntries ≤ c.entryCount then .error (.tooMany,c.addresses)
  else .ok (c.add field candidate)

variable {ν : Type}

def collectCandidate (field : AddressField) (c : Collected) : Json ν → Collecting
  | .string candidate => collectText field c candidate
  | _ => .ok c

def candidates : Option (Json ν) → List (Json ν)
  | some (.string t) => [.string t]
  | some (.array entries) => entries
  | _ => []

/-- The members of an object that address it. -/
abbrev AddressSource (ν : Type) := AddressField → Option (Json ν)

def collectSource (c : Collected) (source : AddressSource ν) : Collecting :=
  addressFields.foldlM
    (fun c field => (candidates (source field)).foldlM (collectCandidate field) c) c

def collectBoundedInboundAddresses (sources : List (AddressSource ν)) :
    Except (InboundAddressingFailureReason × List Units) (List Units) :=
  (sources.foldlM collectSource ⟨[],[],0⟩).map (·.addresses)

end addressing

section reply

def maxInboundReplyTargetLength : Nat := 2048

inductive ReplyFailure where
  | malformed | tooLong | unsafeUrl
deriving DecidableEq, Repr

/-- `parentId` may be `undefined` or null. -/
inductive InboundReplyTargetResult where
  | ok (parentId : Option (Option Units))
  | fail (reason : ReplyFailure)
deriving DecidableEq, Repr

variable {ν : Type} (P : Platform)

def validateInboundReplyTarget : Option (Json ν) → InboundReplyTargetResult
  | none => .ok none
  | some .null => .ok (some none)
  | some (.string value) =>
    if value.length = 0 then .fail .malformed
    else if maxInboundReplyTargetLength < value.length then .fail .tooLong
    else if isSafeRemoteUrl P (Utf16.decode value) = false then .fail .unsafeUrl
    else .ok (some (some value))
  | some _ => .fail .malformed

def isOwnId : Option (Option Units) → Option (Json ν) → Bool
  | none, none => true
  | some none, some .null => true
  | some (some parentId), some (.string id) => parentId = id
  | _, _ => false

end reply

section bounds

def maxPostContentLength : Nat := 5000
def maxPostSummaryLength : Nat := 500
def maxAttachments : Nat := 8
def maxAttachmentsJsonLength : Nat := 16 * 1024
def maxInboundTags : Nat := 64
def maxInboundTagsJsonLength : Nat := 16 * 1024

def truncate (s : Units) (max : Nat) : Units := if max < s.length then s.take max else s

variable {ν : Type} [Zero ν] (F : NumberFormat ν)

def boundInboundContent : Json ν → Units
  | .string content => truncate content maxPostContentLength
  | _ => []

def boundInboundSummary : Json ν → Option Units
  | .string summary =>
    if 0 < summary.length then some (truncate summary maxPostSummaryLength) else none
  | _ => none

def emptyList : Units := [91,93]

def normalizeBoundedRecordArray (value : Json ν) (maxItems maxJsonLength : Nat) : Units :=
  let candidates := match value with
    | .null => []
    | .array entries => entries
    | value => [value]
  let json := stringify F (.array ((candidates.filter (·.isObject)).take maxItems))
  if json.length ≤ maxJsonLength then json else emptyList

def boundAttachmentsJson (json : Units) : Units :=
  if maxAttachmentsJsonLength < json.length then emptyList else json

def boundInboundNoteAttachmentsJson (attachment : Json ν) : Units :=
  boundAttachmentsJson (normalizeBoundedRecordArray F attachment maxAttachments
    maxAttachmentsJsonLength)

def boundInboundTagsJson (tag : Json ν) : Units :=
  normalizeBoundedRecordArray F tag maxInboundTags maxInboundTagsJsonLength

end bounds

section patch

structure Addressing where
  to_ : List Units
  cc : List Units
  bto : List Units
  bcc : List Units
deriving DecidableEq, Repr

/-- A field that is absent is none; a summary and a parent may be cleared by null. -/
structure AdmittedNotePatch where
  content : Option Units
  summary : Option (Option Units)
  attachmentsJson : Option Units
  tagsJson : Option Units
  addressing : Option Addressing
  audience : Option (List Units)
  inReplyTo : Option (Option Units)
  room : Option Units
deriving DecidableEq, Repr

variable {ν : Type} [Zero ν] (P : Platform) (F : NumberFormat ν)

def noteAddressList : Option (Json ν) → List Units
  | some (.string value) => [value]
  | some (.array entries) => (entries.filterMap fun v => asString (some v)).eraseDups
  | _ => []

def objectSource (object : Json ν) : AddressSource ν := fun field => object.get field.key

def maxRoomLength : Nat := 2048

/-- None where the room is refused; an empty one is none at all. -/
def roomOf : Option (Json ν) → Option (Option Units)
  | none => some none
  | some .null => some none
  | some (.string room) =>
    if room.length = 0 then some none
    else if maxRoomLength < room.length then none
    else some (some room)
  | some _ => none

def addressingOf (object : Json ν) : Option Addressing :=
  if [AddressField.to_,.cc,.bto,.bcc].any fun field => (object.get field.key).isSome then
    some
      { to_ := noteAddressList (object.get AddressField.to_.key)
        cc := noteAddressList (object.get AddressField.cc.key)
        bto := noteAddressList (object.get AddressField.bto.key)
        bcc := noteAddressList (object.get AddressField.bcc.key) }
  else none

def collects (sources : List (AddressSource ν)) : Bool :=
  match collectBoundedInboundAddresses sources with
  | .ok _ => true
  | .error _ => false

def normalizeNoteUpdatePatch (object : Json ν) : Option AdmittedNotePatch :=
  if collects [objectSource object] then
    match validateInboundReplyTarget P (object.get (JsString.units "inReplyTo")) with
    | .fail _ => none
    | .ok parentId =>
      if isOwnId parentId (object.get (JsString.units "id")) then none
      else (roomOf (object.get (JsString.units "room"))).map fun room =>
        { content := (object.get (JsString.units "content")).map boundInboundContent
          summary := (object.get (JsString.units "summary")).map boundInboundSummary
          attachmentsJson :=
            (object.get (JsString.units "attachment")).map (boundInboundNoteAttachmentsJson F)
          tagsJson := (object.get (JsString.units "tag")).map (boundInboundTagsJson F)
          addressing := addressingOf object
          audience := (object.get AddressField.audience.key).map fun audience =>
            noteAddressList (some audience)
          inReplyTo := parentId
          room := room }
  else none

end patch

section text

variable {ν : Type} [Zero ν] (P : Platform) (F : NumberFormat ν)

def strings (values : List Units) : Json ν := .array (values.map .string)

def Addressing.members (a : Addressing) : List (Units × Option (Json ν)) :=
  [(AddressField.to_.key,some (strings a.to_)),(AddressField.cc.key,some (strings a.cc)),
    (AddressField.bto.key,some (strings a.bto)),(AddressField.bcc.key,some (strings a.bcc))]

def AdmittedNotePatch.members (p : AdmittedNotePatch) : List (Units × Option (Json ν)) :=
  [(JsString.units "content",p.content.map .string),
    (JsString.units "summary",p.summary.map fun summary => nullable (summary.map .string)),
    (JsString.units "attachmentsJson",p.attachmentsJson.map .string),
    (JsString.units "tagsJson",p.tagsJson.map .string),
    (JsString.units "addressing",p.addressing.map fun a => .object (defined a.members)),
    (JsString.units "audience",p.audience.map strings),
    (JsString.units "inReplyTo",p.inReplyTo.map fun parentId => nullable (parentId.map .string)),
    (JsString.units "room",p.room.map .string)]

def AdmittedNotePatch.toJson (p : AdmittedNotePatch) : Json ν := .object (defined p.members)

def patchFields : List Units :=
  ["content","summary","attachmentsJson","tagsJson","addressing","audience","inReplyTo",
    "room"].map JsString.units

def hasOnly (keys : List Units) : Json ν → Bool
  | .object members => members.all fun m => m.1 ∈ keys
  | _ => false

def stringField : Option (Json ν) → Option (Option Units)
  | none => some none
  | some (.string t) => some (some t)
  | some _ => none

def nullableField : Option (Json ν) → Option (Option (Option Units))
  | none => some none
  | some .null => some (some none)
  | some (.string t) => some (some (some t))
  | some _ => none

def stringList : Option (Json ν) → Option (List Units)
  | some (.array entries) => entries.mapM fun v => asString (some v)
  | _ => none

def audienceField : Option (Json ν) → Option (Option (List Units))
  | none => some none
  | value => (stringList value).map some

def addressingField : Option (Json ν) → Option (Option Addressing)
  | none => some none
  | some value => do
    guard (hasOnly ([AddressField.to_,.cc,.bto,.bcc].map AddressField.key) value = true)
    let to_ ← stringList (value.get AddressField.to_.key)
    let cc ← stringList (value.get AddressField.cc.key)
    let bto ← stringList (value.get AddressField.bto.key)
    let bcc ← stringList (value.get AddressField.bcc.key)
    return some ⟨to_,cc,bto,bcc⟩

/-- `{ ...patch.addressing, audience: patch.audience }`. -/
def patchSource (p : AdmittedNotePatch) : AddressSource ν
  | .to_ => p.addressing.map fun a => strings a.to_
  | .cc => p.addressing.map fun a => strings a.cc
  | .bto => p.addressing.map fun a => strings a.bto
  | .bcc => p.addressing.map fun a => strings a.bcc
  | .audience => p.audience.map strings

def isList : Option (Json ν) → Bool
  | some (.array _) => true
  | _ => false

def acceptable (p : AdmittedNotePatch) : Bool :=
  collects [patchSource (ν := ν) p] &&
    (match validateInboundReplyTarget P (p.inReplyTo.map fun parentId =>
        (nullable (parentId.map .string) : Json ν)) with
      | .ok _ => true
      | .fail _ => false) &&
    p.room.all (fun room => room.length ≤ maxRoomLength) &&
    [p.attachmentsJson,p.tagsJson].all fun json => json.all fun t => isList (parse F t)

/-- None where it throws. -/
def decodeNoteUpdatePatch (json : Option Units) : Option AdmittedNotePatch := do
  let json ← json
  let raw ← parse F json
  guard (hasOnly patchFields raw = true)
  let content ← stringField (raw.get (JsString.units "content"))
  let attachmentsJson ← stringField (raw.get (JsString.units "attachmentsJson"))
  let tagsJson ← stringField (raw.get (JsString.units "tagsJson"))
  let room ← stringField (raw.get (JsString.units "room"))
  let summary ← nullableField (raw.get (JsString.units "summary"))
  let inReplyTo ← nullableField (raw.get (JsString.units "inReplyTo"))
  let audience ← audienceField (raw.get (JsString.units "audience"))
  let addressing ← addressingField (raw.get (JsString.units "addressing"))
  let patch : AdmittedNotePatch :=
    ⟨content,summary,attachmentsJson,tagsJson,addressing,audience,inReplyTo,room⟩
  guard (acceptable P F patch = true)
  return patch

end text

end Yurucommu.NotePatch
