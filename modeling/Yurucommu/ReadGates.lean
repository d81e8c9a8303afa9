import Yurucommu.Blocklist
import Yurucommu.JsMap
import Yurucommu.JsString

/-!
The gates of a reader: of one object, with what it asks for only when it needs it, and of a page,
with the communities of the whole page at once. `parse` is `JSON.parse`, none where it throws; a
gate is none where it throws.
-/

set_option autoImplicit false

namespace Yurucommu.ReadGates

open Whatwg (Text)
open ActorIdentity (Platform)
open Blocklist (isActorBlockedStrict)

inductive Json where
  | null
  | bool (value : Bool)
  | number (text : Text)
  | string (value : Text)
  | array (entries : List Json)
  | object (entries : List (Text × Json))

def Json.isText (text : Text) : Json → Bool
  | .string value => value = text
  | _ => false

/-- `includes` of an array or of a string; no other value has it. -/
def Json.includes (text : Text) : Json → Option Bool
  | .array entries => some (entries.any (Json.isText text))
  | .string value => some (decide (text <:+: value))
  | _ => none

/-- An absent `apId` reads as an empty one. -/
structure Object where
  apId : Text
  type : Option Text
  attributedTo : Text
  visibility : Text
  toJson : Text
  ccJson : Text
  audienceJson : Option Text
  communityApId : Option Text
  endTime : Option Text
deriving DecidableEq, Repr

structure Community where
  apId : Text
  visibility : Option Text
  deletedAt : Option Text
deriving DecidableEq, Repr

structure Member where
  communityApId : Text
  actorApId : Text
deriving DecidableEq, Repr

structure Follow where
  followerApId : Text
  followingApId : Text
  status : Text
deriving DecidableEq, Repr

structure Recipient where
  objectApId : Text
  recipientApId : Text
  type : Text
deriving DecidableEq, Repr

structure Db where
  communities : List Community
  members : List Member
  follows : List Follow
  objectRecipients : List Recipient
  blockedDomains : List Text
  blockedActors : List Text
deriving DecidableEq, Repr

/-- An empty string is false. -/
def truthy (text : Option Text) : Option Text := text.filter (· ≠ [])

section community

variable (parse : Text → Option Json) (d : Db)

def safeJsonParse (json : Option Text) (defaultValue : Json) : Json :=
  ((truthy json).bind parse).getD defaultValue

def communityRequiresMembership (visibility : Option Text) : Bool :=
  visibility.getD "public".toList = "private".toList

def Json.texts : Json → List Text
  | .array entries => entries.filterMap fun
    | .string value => some value
    | _ => none
  | _ => []

def communityApIdsFor (o : Object) : List Text :=
  let audience := safeJsonParse parse (some (o.audienceJson.getD "[]".toList)) (.array [])
  ((truthy o.communityApId).toList ++ audience.texts.filter (· ≠ [])).dedup

def canViewerReadObject (o : Object) (viewer : Option Text) : Bool :=
  let communityIds := communityApIdsFor parse o
  if communityIds = [] then true
  else
    let communityRows := d.communities.filter fun c => c.apId ∈ communityIds
    if communityRows.any fun c => c.deletedAt.isSome then false
    else
      let privateRows := communityRows.filter fun c => communityRequiresMembership c.visibility
      if privateRows = [] then true
      else
        match truthy viewer with
        | none => false
        | some viewer => d.members.any fun m =>
            m.communityApId ∈ privateRows.map (·.apId) && m.actorApId = viewer

/-- The slices of at most `D1_IN_CHUNK`, which is the one of the blocklist. -/
def chunkForInClause (items : List Text) : List (List Text) := Blocklist.chunks items

def perObjectCommunityIds (page : List Object) : JsMap Text (List Text) :=
  page.foldl (fun m o => m.set o.apId (communityApIdsFor parse o)) .empty

def unionIds (page : List Object) : List Text := (page.flatMap (communityApIdsFor parse)).dedup

/-- The rows of the communities of a page, chunk by chunk. -/
def communityRows (page : List Object) : List Community :=
  (chunkForInClause (unionIds parse page)).flatMap fun chunk =>
    d.communities.filter fun c => c.apId ∈ chunk

def deletedSet (page : List Object) : List Text :=
  ((communityRows parse d page).filter fun c => c.deletedAt.isSome).map (·.apId)

def privateSet (page : List Object) : List Text :=
  ((communityRows parse d page).filter fun c =>
    c.deletedAt.isNone && communityRequiresMembership c.visibility).map (·.apId)

def viewerMemberSet (page : List Object) (viewer : Option Text) : List Text :=
  match truthy viewer with
  | none => []
  | some viewer =>
    (chunkForInClause (privateSet parse d page).dedup).flatMap fun chunk =>
      (d.members.filter fun m => m.communityApId ∈ chunk && m.actorApId = viewer).map
        (·.communityApId)

def readable (page : List Object) (viewer : Option Text) (o : Object) : Bool :=
  let communityIds := ((perObjectCommunityIds parse page).get o.apId).getD []
  if communityIds.any fun id => (deletedSet parse d page).contains id then false
  else
    let privateForObj := communityIds.filter fun id => (privateSet parse d page).contains id
    privateForObj = [] || privateForObj.any fun id =>
      (viewerMemberSet parse d page viewer).contains id

def communityReadableApIds (page : List Object) (viewer : Option Text) : List Text :=
  if unionIds parse page = [] then page.map (·.apId)
  else (page.filter (readable parse d page viewer)).map (·.apId)

end community

section visibility

variable (P : Platform) (parse : Text → Option Json) (d : Db)

/-- `a || b`, where either may throw. -/
def either (a b : Option Bool) : Option Bool :=
  match a with
  | some false => b
  | _ => a

def isExplicitRecipient (o : Object) (viewer : Text) : Option Bool :=
  either ((safeJsonParse parse (some o.toJson) (.array [])).includes viewer)
    ((safeJsonParse parse (some o.ccJson) (.array [])).includes viewer)

def hasAcceptedFollow (viewer author : Text) : Bool :=
  d.follows.any fun f =>
    f.followerApId = viewer && f.followingApId = author && f.status = "accepted".toList

def hasProjectedRecipient (objectApId viewer : Text) : Bool :=
  d.objectRecipients.any fun r =>
    r.objectApId = objectApId && r.recipientApId = viewer && r.type = "to".toList

def Object.isStory (o : Object) : Bool := o.type = some "Story".toList

/-- `endTime <= now`, as strings. -/
def Object.ended (o : Object) (now : Text) : Bool :=
  (truthy o.endTime).any fun endTime =>
    !JsString.ltUnits (now.flatMap JsString.codeUnits) (endTime.flatMap JsString.codeUnits)

def Object.isOwn (o : Object) (viewer : Option Text) : Bool :=
  (truthy viewer).any fun viewer => o.attributedTo = viewer

def passesPostVisibilitySync (o : Object) (viewer : Option Text) (isAcceptedFollower : Text → Bool)
    (isProjectedRecipient : Text → Bool) (now : Text) : Option Bool :=
  if o.isStory then
    if o.isOwn viewer then some true
    else if o.ended now then some false
    else if (truthy o.communityApId).isSome then some true
    else some ((truthy viewer).isSome && isAcceptedFollower o.attributedTo)
  else
    let projected := o.apId ≠ [] && isProjectedRecipient o.apId
    if o.visibility = "direct".toList then
      match truthy viewer with
      | none => some false
      | some viewer =>
        if o.attributedTo = viewer then some true
        else either (isExplicitRecipient parse o viewer) (some projected)
    else if o.visibility = "followers".toList then
      match truthy viewer with
      | none => some false
      | some viewer =>
        if o.attributedTo = viewer then some true
        else
          either (isExplicitRecipient parse o viewer)
            (some (projected || isAcceptedFollower o.attributedTo))
    else some (o.visibility = "public".toList || o.visibility = "unlisted".toList)

def needsProjection (o : Object) (viewer : Option Text) : Option Bool :=
  match truthy viewer with
  | none => some false
  | some viewer =>
    if o.apId ≠ [] && o.attributedTo ≠ viewer && !o.isStory &&
        (o.visibility = "direct".toList || o.visibility = "followers".toList) then
      (isExplicitRecipient parse o viewer).map (!·)
    else some false

def needsFollow (o : Object) (viewer : Option Text) (projectedRecipient : Bool) : Option Bool :=
  match truthy viewer with
  | none => some false
  | some viewer =>
    if o.attributedTo = viewer then some false
    else if o.isStory then some (truthy o.communityApId).isNone
    else if o.visibility = "followers".toList then
      (isExplicitRecipient parse o viewer).map fun explicit => !explicit && !projectedRecipient
    else some false

def lookup (viewer : Option Text) (needed : Bool) (ask : Text → Bool) : Bool :=
  needed && (truthy viewer).any ask

def canViewerReadObjectFull (o : Object) (viewer : Option Text) (now : Text) : Option Bool :=
  if isActorBlockedStrict P d.blockedDomains d.blockedActors o.attributedTo then some false
  else if o.isStory && o.isOwn viewer then some true
  else if o.isStory && o.ended now then some false
  else if !canViewerReadObject parse d o viewer then some false
  else
    (needsProjection parse o viewer).bind fun needed =>
      let projectedRecipient := lookup viewer needed (hasProjectedRecipient d o.apId)
      (needsFollow parse o viewer projectedRecipient).bind fun needed =>
        let following :=
          lookup viewer needed fun viewer => hasAcceptedFollow d viewer o.attributedTo
        passesPostVisibilitySync parse o viewer (fun _ => following) (fun _ => projectedRecipient)
          now

def acceptedFollower (viewer : Option Text) (author : Text) : Bool :=
  (truthy viewer).any fun viewer => hasAcceptedFollow d viewer author

def projectedRecipient (viewer : Option Text) (objectApId : Text) : Bool :=
  (truthy viewer).any fun viewer => hasProjectedRecipient d objectApId viewer

end visibility

end Yurucommu.ReadGates
