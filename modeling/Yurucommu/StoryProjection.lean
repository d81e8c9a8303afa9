import Yurucommu.Binary64
import Yurucommu.ActorIdentity
import Yurucommu.JsString

/-!
What is stored of a remote Story: the values of an untrusted object, and those of the stored
projection itself, go through the same functions. A string is its UTF-16 code units. The column
holds the value of its text, as `JSON.parse` gives back what `JSON.stringify` was given.
-/

set_option autoImplicit false

namespace Yurucommu.StoryProjection

open ActorIdentity (Platform isSafeRemoteUrl)

abbrev Units := List Nat

section json

inductive Key where
  | attachment | displayDuration | caption | overlays
  | r2_key | content_type | mediaType | url | width | height
  | type | position | name | href | oneOf | x | y
  | other (units : Units)
deriving DecidableEq, Repr

/-- A number is none where it is too large for a double. -/
inductive Json where
  | null
  | bool (value : Bool)
  | number (value : Option ℚ)
  | string (value : Units)
  | array (entries : List Json)
  | object (entries : List (Key × Json))

/-- An absent value is `undefined`. -/
def Json.get (key : Key) : Json → Option Json
  | .object entries => (entries.find? fun e => e.1 = key).map (·.2)
  | _ => none

/-- `a ?? b`. -/
def coalesce : Option Json → Option Json → Option Json
  | none, b => b
  | some .null, b => b
  | a, _ => a

def Key.text : Key → Units
  | .attachment => JsString.units "attachment"
  | .displayDuration => JsString.units "displayDuration"
  | .caption => JsString.units "caption"
  | .overlays => JsString.units "overlays"
  | .r2_key => JsString.units "r2_key"
  | .content_type => JsString.units "content_type"
  | .mediaType => JsString.units "mediaType"
  | .url => JsString.units "url"
  | .width => JsString.units "width"
  | .height => JsString.units "height"
  | .type => JsString.units "type"
  | .position => JsString.units "position"
  | .name => JsString.units "name"
  | .href => JsString.units "href"
  | .oneOf => JsString.units "oneOf"
  | .x => JsString.units "x"
  | .y => JsString.units "y"
  | .other units => units

def hexDigit (n : Nat) : Nat := if n < 10 then 48 + n else 87 + n

def unicodeEscape (u : Nat) : Units :=
  [92,117,hexDigit (u / 4096 % 16),hexDigit (u / 256 % 16),hexDigit (u / 16 % 16),hexDigit (u % 16)]

def escaped (u : Nat) : Units :=
  if u = 34 ∨ u = 92 then [92,u]
  else if u = 8 then [92,98]
  else if u = 9 then [92,116]
  else if u = 10 then [92,110]
  else if u = 12 then [92,102]
  else if u = 13 then [92,114]
  else if u < 32 ∨ (0xd800 ≤ u ∧ u < 0xe000) then unicodeEscape u
  else [u]

/-- A surrogate without its other half is escaped. -/
def escapeAll : Units → Units
  | u :: v :: rest =>
    if 0xd800 ≤ u ∧ u < 0xdc00 ∧ 0xdc00 ≤ v ∧ v < 0xe000 then u :: v :: escapeAll rest
    else escaped u ++ escapeAll (v :: rest)
  | [u] => escaped u
  | [] => []

def quoted (t : Units) : Units := 34 :: escapeAll t ++ [34]

def commas : List Units → Units
  | [] => []
  | [t] => t
  | t :: ts => t ++ 44 :: commas ts

variable (numberText : ℚ → Units)

mutual

/-- `JSON.stringify`; `numberText` is how a number is written. -/
def Json.stringify : Json → Units
  | .null => JsString.units "null"
  | .bool value => if value then JsString.units "true" else JsString.units "false"
  | .number none => JsString.units "null"
  | .number (some value) => numberText value
  | .string value => quoted value
  | .array entries => 91 :: commas (stringifyAll entries) ++ [93]
  | .object entries => 123 :: commas (stringifyFields entries) ++ [125]

def stringifyAll : List Json → List Units
  | [] => []
  | value :: rest => value.stringify :: stringifyAll rest

def stringifyFields : List (Key × Json) → List Units
  | [] => []
  | (key,value) :: rest => (quoted key.text ++ 58 :: value.stringify) :: stringifyFields rest

end

end json

section values

def maxDisplayDurationSeconds : ℚ := 60
def maxStoryCaptionLength : Nat := 500
def maxStoryOverlays : Nat := 20
def maxStoryUrlLength : Nat := 2048
def maxStoryTextLength : Nat := 500
def maxMediaTypeLength : Nat := 255
def maxMediaDimension : ℚ := 32768

/-- The white space and the line ends of the language. -/
def isSpace (u : Nat) : Bool :=
  u ∈ [9,10,11,12,13,32,0xa0,0x1680,0x2028,0x2029,0x202f,0x205f,0x3000,0xfeff] ||
    (0x2000 ≤ u && u ≤ 0x200a)

def trim (t : Units) : Units := (t.dropWhile isSpace).rdropWhile isSpace

def boundedText (value : Option Json) (max : Nat) : Option Units :=
  match value with
  | some (.string t) => if 0 < (trim t).length then some ((trim t).take max) else none
  | _ => none

def normalizedDimension (value : Option Json) (fallback : Nat) : Nat :=
  match value with
  | some (.number (some v)) =>
    if v ≤ 0 ∨ maxMediaDimension < v then fallback else max 1 ⌊v + 1 / 2⌋₊
  | _ => fallback

/-- The lower case of the letters that have one in ASCII; the others stay outside it. -/
def lowerUnit (u : Nat) : Nat :=
  if 65 ≤ u ∧ u ≤ 90 then u + 32 else if u = 0x212a then 107 else u

def tokenUnit (u : Nat) : Bool :=
  (97 ≤ u && u ≤ 122) || (48 ≤ u && u ≤ 57) || u ∈ [33,35,36,38,94,95,46,43,45]

def matchesMediaType (t : Units) : Bool :=
  t.takeWhile tokenUnit ≠ [] &&
    match t.dropWhile tokenUnit with
    | 47 :: subtype => subtype ≠ [] && subtype.all tokenUnit
    | _ => false

def defaultMediaType : Units := JsString.units "image/jpeg"

def normalizedMediaType : Option Json → Units
  | some (.string t) =>
    let mediaType := (trim t).map lowerUnit
    if mediaType.length = 0 ∨ maxMediaTypeLength < mediaType.length ∨
      matchesMediaType mediaType = false then defaultMediaType
    else mediaType
  | _ => defaultMediaType

/-- The code points; a surrogate without its other half reads as the replacement character. -/
def decode : Units → Whatwg.Text
  | u :: v :: rest =>
    if 0xd800 ≤ u ∧ u < 0xdc00 ∧ 0xdc00 ≤ v ∧ v < 0xe000 then
      Char.ofNat (0x10000 + (u - 0xd800) * 0x400 + (v - 0xdc00)) :: decode rest
    else (if 0xd800 ≤ u ∧ u < 0xe000 then '\uFFFD' else Char.ofNat u) :: decode (v :: rest)
  | [u] => [if 0xd800 ≤ u ∧ u < 0xe000 then '\uFFFD' else Char.ofNat u]
  | [] => []

/-- A value that is no string reads as an empty one. -/
def trimmedText : Option Json → Units
  | some (.string t) => trim t
  | _ => []

/-- A trimmed address that is short enough and safe. -/
def safeUrl (P : Platform) (value : Option Json) : Option Units :=
  let url := trimmedText value
  if url.length = 0 ∨ maxStoryUrlLength < url.length ∨ isSafeRemoteUrl P (decode url) = false then
    none
  else some url

end values

section attachment

structure StoryAttachmentProjection where
  content_type : Units
  url : Units
  width : Nat
  height : Nat
deriving DecidableEq, Repr

def StoryAttachmentProjection.toJson (a : StoryAttachmentProjection) : Json :=
  .object [(.r2_key,.string []),(.content_type,.string a.content_type),(.url,.string a.url),
    (.width,.number (some a.width)),(.height,.number (some a.height))]

def normalizedRemoteAttachment (P : Platform) (raw : Option Json) :
    Option StoryAttachmentProjection :=
  let candidate := match raw with
    | some (.array entries) => entries.head?
    | _ => raw
  match candidate with
  | some (.object entries) =>
    let candidate := Json.object entries
    (safeUrl P (candidate.get .url)).map fun url =>
      { content_type := normalizedMediaType
          (coalesce (candidate.get .mediaType) (candidate.get .content_type))
        url := url
        width := normalizedDimension (candidate.get .width) 1080
        height := normalizedDimension (candidate.get .height) 1920 }
  | _ => none

end attachment

section overlays

structure StoryOverlayPosition where
  x : ℚ
  y : ℚ
  width : ℚ
  height : ℚ
deriving DecidableEq, Repr

def StoryOverlayPosition.toJson (p : StoryOverlayPosition) : Json :=
  .object [(.x,.number (some p.x)),(.y,.number (some p.y)),(.width,.number (some p.width)),
    (.height,.number (some p.height))]

/-- A number between 0 and 1. -/
def share : Option Json → Option ℚ
  | some (.number (some v)) => if v < 0 ∨ 1 < v then none else some v
  | _ => none

def normalizedPosition : Option Json → Option StoryOverlayPosition
  | some (.object entries) => do
    let raw := Json.object entries
    let x ← share (raw.get .x)
    let y ← share (raw.get .y)
    let width ← share (raw.get .width)
    let height ← share (raw.get .height)
    return ⟨x,y,width,height⟩
  | _ => none

inductive StoryOverlayProjection where
  | question (position : StoryOverlayPosition) (name : Option Units) (oneOf : List Units)
  | link (position : StoryOverlayPosition) (name : Option Units) (href : Units)
  | note (position : StoryOverlayPosition) (name : Option Units)
deriving DecidableEq, Repr

def questionType : Units := JsString.units "Question"
def linkType : Units := JsString.units "Link"
def noteType : Units := JsString.units "Note"

def field (key : Key) : Option Units → List (Key × Json)
  | some t => [(key,.string t)]
  | none => []

def optionJson (name : Units) : Json := .object [(.type,.string noteType),(.name,.string name)]

def StoryOverlayProjection.toJson : StoryOverlayProjection → Json
  | .question position name oneOf =>
    .object ([(.type,.string questionType),(.position,position.toJson)] ++ field .name name ++
      [(.oneOf,.array (oneOf.map optionJson))])
  | .link position name href =>
    .object ([(.type,.string linkType),(.position,position.toJson)] ++ field .name name ++
      [(.href,.string href)])
  | .note position name =>
    .object ([(.type,.string noteType),(.position,position.toJson)] ++ field .name name)

/-- What is no record has no name. -/
def optionName (candidate : Json) : Option Units :=
  boundedText (candidate.get .name) maxStoryTextLength

def normalizedQuestionOptions : Option Json → Option (List Units)
  | some (.array entries) =>
    if entries.length < 2 ∨ 4 < entries.length then none else entries.mapM optionName
  | _ => none

def Json.isText (t : Units) : Option Json → Bool
  | some (.string value) => value = t
  | _ => false

/-- One candidate; a second Question is passed over. What is no record has no position. -/
def normalizedOverlay (P : Platform) (hasQuestion : Bool) (candidate : Json) :
    Option StoryOverlayProjection :=
  (normalizedPosition (candidate.get .position)).bind fun position =>
    let name := boundedText (candidate.get .name) maxStoryTextLength
    if Json.isText questionType (candidate.get .type) then
      if hasQuestion then none
      else (normalizedQuestionOptions (candidate.get .oneOf)).map (.question position name)
    else if Json.isText linkType (candidate.get .type) then
      (safeUrl P (candidate.get .href)).map (.link position name)
    else if Json.isText noteType (candidate.get .type) then some (.note position name)
    else none

def StoryOverlayProjection.isQuestion : StoryOverlayProjection → Bool
  | .question _ _ _ => true
  | _ => false

def overlayLoop (P : Platform) : Bool → List Json → List StoryOverlayProjection
  | _, [] => []
  | hasQuestion, candidate :: rest =>
    match normalizedOverlay P hasQuestion candidate with
    | some overlay => overlay :: overlayLoop P (hasQuestion || overlay.isQuestion) rest
    | none => overlayLoop P hasQuestion rest

/-- None where the value is neither a list nor null. -/
def normalizedOverlays (P : Platform) : Json → Option (List StoryOverlayProjection)
  | .null => some []
  | .array entries => some (overlayLoop P false (entries.take maxStoryOverlays))
  | _ => none

end overlays

section duration

def isDigit (u : Nat) : Bool := 48 ≤ u && u ≤ 57

def digitsValue (ds : Units) : Nat := ds.foldl (fun n d => 10 * n + (d - 48)) 0

/-- `\d+(?:\.\d+)?`, with what follows it. -/
def decimal (t : Units) : Option (ℚ × Units) :=
  let whole := t.takeWhile isDigit
  if whole = [] then none
  else
    match t.dropWhile isDigit with
    | 46 :: rest =>
      let fraction := rest.takeWhile isDigit
      if fraction = [] then some (digitsValue whole,46 :: rest)
      else some (digitsValue whole + digitsValue fraction / 10 ^ fraction.length,
        rest.dropWhile isDigit)
    | rest => some (digitsValue whole,rest)

def component (letter : Nat) (t : Units) : Option ℚ × Units :=
  match decimal t with
  | some (value,u :: rest) => if u = letter then (some value,rest) else (none,t)
  | _ => (none,t)

/-- `Number` of a group of the match, none of which is missing. -/
def groupNumber (group : Option ℚ) : ℚ := Binary64.round (group.getD 0)

/-- `toFixed(3)`, in thousandths: the larger one halfway. -/
def thousandths (seconds : ℚ) : Nat := ⌊seconds * 1000 + 1 / 2⌋₊

def digitUnits (n : Nat) : Units := (Nat.toDigits 10 n).map Char.toNat

/-- Three digits behind the point, but for the zeros at the end. -/
def fractionUnits (n : Nat) : Units :=
  [48 + n / 100 % 10,48 + n / 10 % 10,48 + n % 10].rdropWhile (· = 48)

/-- How the nearest double of a number of thousandths is written. -/
def thousandthsText (n : Nat) : Units :=
  digitUnits (n / 1000) ++ if n % 1000 = 0 then [] else 46 :: fractionUnits (n % 1000)

def durationText (n : Nat) : Units := [80,84] ++ thousandthsText n ++ [83]

def totalSeconds (hours minutes seconds : Option ℚ) : ℚ :=
  Binary64.round (Binary64.round (Binary64.round (groupNumber hours * 3600) +
    Binary64.round (groupNumber minutes * 60)) + groupNumber seconds)

/-- A number of seconds too large for a double is too long as well. -/
def boundedDuration (seconds : ℚ) : Option Units :=
  if seconds < Binary64.round (1 / 1000) ∨ maxDisplayDurationSeconds < seconds then none
  else some (durationText (thousandths seconds))

def durationGroups (t : Units) : Option Units :=
  let hours := component 72 t
  let minutes := component 77 hours.2
  let seconds := component 83 minutes.2
  if seconds.2 ≠ [] ∨ (hours.1 = none ∧ minutes.1 = none ∧ seconds.1 = none) then none
  else boundedDuration (totalSeconds hours.1 minutes.1 seconds.1)

def normalizedDisplayDuration (raw : Units) : Option Units :=
  match trim raw with
  | 80 :: 84 :: rest => durationGroups rest
  | _ => none

def defaultDisplayDuration : Units := JsString.units "PT5S"

end duration

section projection

structure InboundStoryProjection where
  attachment : StoryAttachmentProjection
  displayDuration : Units
  caption : Option Units
  overlays : List StoryOverlayProjection
deriving DecidableEq, Repr

/-- An empty list of overlays is left out. -/
def InboundStoryProjection.toJson (p : InboundStoryProjection) : Json :=
  .object ([(.attachment,p.attachment.toJson),(.displayDuration,.string p.displayDuration)] ++
    field .caption p.caption ++
    if p.overlays = [] then [] else [(.overlays,.array (p.overlays.map (·.toJson)))])

/-- The fields of an activity's object that a Story is made of. -/
structure StoryObject where
  attachment : Option Json
  overlays : Option Json
  content : Option Units
  displayDuration : Option Units

def maxAttachmentsJsonLength : Nat := 16 * 1024

variable (P : Platform) (numberText : ℚ → Units)

def InboundStoryProjection.size (p : InboundStoryProjection) : Nat :=
  (p.toJson.stringify numberText).length

def durationOf : Option Json → Option Units
  | some (.string t) => normalizedDisplayDuration t
  | _ => none

/-- The values of an object, with what an absent one leaves. -/
def attachmentOr (absent : Option StoryAttachmentProjection) :
    Option Json → Option StoryAttachmentProjection
  | none => absent
  | some raw => normalizedRemoteAttachment P (some raw)

def durationOr (absent : Units) : Option Units → Option Units
  | none => some absent
  | some raw => normalizedDisplayDuration raw

def overlaysOr (absent : List StoryOverlayProjection) :
    Option Json → Option (List StoryOverlayProjection)
  | none => some absent
  | some raw => normalizedOverlays P raw

def captionOr (absent : Option Units) : Option Units → Option Units
  | none => absent
  | some content => boundedText (some (.string content)) maxStoryCaptionLength

/-- What is no record has no attachment. -/
def parseStoredStoryProjection (raw : Json) : Option InboundStoryProjection := do
  let attachment ← normalizedRemoteAttachment P (raw.get .attachment)
  let displayDuration ← durationOf (raw.get .displayDuration)
  let overlays ← overlaysOr P [] (raw.get .overlays)
  return ⟨attachment,displayDuration,boundedText (raw.get .caption) maxStoryCaptionLength,overlays⟩

def InboundStoryProjection.withoutOverlays (p : InboundStoryProjection) :
    InboundStoryProjection := { p with overlays := [] }

def serializedProjection (p : InboundStoryProjection) (dropOverlaysWhenOversized : Bool) :
    Option InboundStoryProjection :=
  let normalized := if maxAttachmentsJsonLength < p.size numberText ∧ dropOverlaysWhenOversized
    then p.withoutOverlays else p
  if normalized.size numberText ≤ maxAttachmentsJsonLength then some normalized else none

def buildInboundStoryCreateProjection (object : StoryObject) : Option InboundStoryProjection := do
  let attachment ← attachmentOr P none object.attachment
  let displayDuration ← durationOr defaultDisplayDuration object.displayDuration
  let overlays ← overlaysOr P [] object.overlays
  serializedProjection numberText
    ⟨attachment,displayDuration,captionOr none object.content,overlays⟩ true

def buildInboundStoryUpdateProjection (object : StoryObject) (existing : Json) :
    Option InboundStoryProjection := do
  let existing ← parseStoredStoryProjection P existing
  let attachment ← attachmentOr P (some existing.attachment) object.attachment
  let displayDuration ← durationOr existing.displayDuration object.displayDuration
  let overlays ← overlaysOr P existing.overlays object.overlays
  serializedProjection numberText
    ⟨attachment,displayDuration,captionOr existing.caption object.content,overlays⟩ false

def hasStoryProjectionUpdate (object : StoryObject) : Bool :=
  object.attachment.isSome || object.displayDuration.isSome || object.content.isSome ||
    object.overlays.isSome

end projection

end Yurucommu.StoryProjection
