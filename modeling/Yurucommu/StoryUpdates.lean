import Yurucommu.StoryProjection
import Yurucommu.IsoDates

/-!
A remote Story from its `Create` on: the `Update`s of it that come in, and the votes on its poll.
What the other tables give, the owner's blocks and the community that the addresses name, comes from
outside.
-/

set_option autoImplicit false

namespace Yurucommu.StoryUpdates

open ActorIdentity (Platform)
open FeedCursor (toISOString)
open IsoDates (InRange isoText)
open StoryProjection
open Whatwg (Text)

section dates

/-- `Date.parse`, none where it is not a number: it reads what `toISOString` writes, and gives only
times that a `Date` can hold. -/
structure Dates where
  parse : Text → Option ℤ
  parse_toISOString : ∀ ms, InRange ms → parse (toISOString ms) = some ms
  inRange : ∀ text ms, parse text = some ms → InRange ms

def maxStoryLifetimeMs : ℤ := 25 * 60 * 60 * 1000
def futurePublishedSkewMs : ℤ := 5 * 60 * 1000

variable (dates : Dates)

/-- An empty string is no date. -/
def present (text : Option Text) : Option Text := text.filter (· ≠ [])

def normalizeInboundTimestamp (raw : Option Text) (fallbackNow : Text) : Text :=
  match (present raw).bind dates.parse with
  | none => fallbackNow
  | some ms =>
    match dates.parse fallbackNow with
    | some nowMs => if nowMs + futurePublishedSkewMs < ms then fallbackNow else toISOString ms
    | none => toISOString ms

def normalizeInboundStoryCreateEndTime (publishedAt : Text) (requestedEndTime : Option Text)
    (nowIso : Text) : Option Text := do
  let publishedMs ← dates.parse publishedAt
  let nowMs ← dates.parse nowIso
  let maxEndMs := publishedMs + maxStoryLifetimeMs
  let endMs := match (present requestedEndTime).bind dates.parse with
    | some requestedMs => min requestedMs maxEndMs
    | none => maxEndMs
  if nowMs < endMs then isoText endMs else none

def normalizeInboundStoryUpdateEndTime (publishedAt : Text) (existingEndTime : Option Text)
    (requestedEndTime : Option Text) (nowIso : Text) : Option Text := do
  let publishedMs ← dates.parse publishedAt
  let existingMs ← (present existingEndTime).bind dates.parse
  let nowMs ← dates.parse nowIso
  if existingMs ≤ nowMs then none
  let requestedMs ← match requestedEndTime with
    | none => some existingMs
    | some text => dates.parse text
  isoText (min existingMs (min requestedMs (publishedMs + maxStoryLifetimeMs)))

end dates

section addresses

def maxStoryAddresses : Nat := 64

def appendAddresses (target : List Units) : List Units → Option (List Units)
  | [] => some target
  | candidate :: rest =>
    if candidate = [] then appendAddresses target rest
    else if maxStoryUrlLength < candidate.length then none
    else if candidate ∈ target then appendAddresses target rest
    else if maxStoryAddresses ≤ target.length then none
    else appendAddresses (target ++ [candidate]) rest

def storyAddressedCollections (fields : List (Option (List Units))) : Option (List Units) :=
  fields.foldlM (fun target field => appendAddresses target (field.getD [])) []

def declaresStoryAddressing (fields : List (Option (List Units))) : Bool :=
  fields.any (·.isSome)

end addresses

section stories

structure StoryVote where
  actorApId : Text
  optionIndex : Nat
deriving DecidableEq, Repr

/-- The columns of the object that a Story's `Update` reads or writes. -/
structure StoryRow where
  published : Text
  endTime : Option Text
  updated : Option Text
  attachmentsJson : Json
  communityApId : Option Units

structure CommunityScope where
  allowed : Bool
  communityApId : Option Units

/-- An activity about the Story, with what the handler finds: whether the activity's actor is the
author, whether the owner suppresses that actor, and which community addresses name. -/
structure Incoming where
  now : ℤ
  types : List Units
  object : StoryObject
  published : Option Text
  endTime : Option Text
  addressing : List (Option (List Units))
  byAuthor : Bool
  suppressed : Bool
  resolve : List Units → CommunityScope

def isStoryType (types : List Units) : Bool := types.contains (JsString.units "Story")

variable (dates : Dates) (P : Platform) (numberText : ℚ → Units)

/-- The row that a `Create` inserts; the other gates of the handler are past. -/
def handleCreateStory (a : Incoming) : Option StoryRow := do
  if a.suppressed then none
  let projection ← buildInboundStoryCreateProjection P numberText a.object
  let now := toISOString a.now
  let publishedAt := normalizeInboundTimestamp dates a.published now
  let endTime ← normalizeInboundStoryCreateEndTime dates publishedAt a.endTime now
  let addresses ← storyAddressedCollections a.addressing
  let scope := a.resolve addresses
  if !scope.allowed then none
  return ⟨publishedAt,some endTime,none,projection.toJson,scope.communityApId⟩

def scopeStays (a : Incoming) (existing : StoryRow) : Bool :=
  if declaresStoryAddressing a.addressing || existing.communityApId.isSome then
    match storyAddressedCollections a.addressing with
    | none => false
    | some addresses =>
      let scope := a.resolve (match existing.communityApId with
        | some community =>
          if community = [] then addresses else (addresses ++ [community]).eraseDups
        | none => addresses)
      scope.allowed && scope.communityApId = existing.communityApId
  else true

def handleUpdate (a : Incoming) (existing : StoryRow) : Option StoryRow := do
  if !a.byAuthor || !isStoryType a.types || a.suppressed then none
  let now := toISOString a.now
  let endTime ← normalizeInboundStoryUpdateEndTime dates existing.published existing.endTime
    a.endTime now
  if !scopeStays a existing then none
  let projection ← buildInboundStoryUpdateProjection P numberText a.object existing.attachmentsJson
  return { existing with
    attachmentsJson :=
      if hasStoryProjectionUpdate a.object then projection.toJson else existing.attachmentsJson
    endTime := some endTime
    updated := some now }

structure State where
  now : ℤ
  row : StoryRow
  votes : List StoryVote

inductive Event where
  | update (activity : Incoming)
  | vote (vote : StoryVote)

def afterUpdate (a : Incoming) (s : State) : State :=
  match handleUpdate dates P numberText a s.row with
  | none => { s with now := a.now }
  | some row => ⟨a.now,row,if a.object.overlays.isSome then [] else s.votes⟩

/-- The first time with a year of five digits. -/
def yearTenThousand : ℤ := 253402300800000

/-- The clock does not go back. -/
def machine : Machine State Event where
  step
    | .update a, s =>
      if s.now ≤ a.now ∧ a.now < yearTenThousand then some (afterUpdate dates P numberText a s)
      else none
    | .vote v, s => some { s with votes := v :: s.votes }

/-- A Story comes in while its longest life ends before the year 10000. -/
structure Created (s : State) : Prop where
  row : ∃ a : Incoming, handleCreateStory dates P numberText a = some s.row ∧ s.now = a.now ∧
    0 ≤ a.now ∧ a.now + futurePublishedSkewMs + maxStoryLifetimeMs < yearTenThousand
  votes : s.votes = []

end stories

end Yurucommu.StoryUpdates
