import Yurucommu.Blocklist
import Yurucommu.ObjectCounts

/-!
The timelines, the gate that a reader of one object passes, and the writers of what both of them
read. A join is its batch: it has read the community some time before. An inbound write reads the
scope of its audience and commits in one step.
-/

set_option autoImplicit false

namespace Yurucommu.Timelines

open Whatwg (Text)
open ActorIdentity (Platform isSameActivityPubActor activityPubActorIdentitySetSql)
open Blocklist (isActorBlockedStrict operatorActorNotBlockedSql)
open ObjectCounts (ObjectType Visibility Addressing noteVisibility isDirectNote isDirectShapedNote
  specificRecipientAddresses hiddenRecipientAddresses normalizeVisibility)

/-- A row of `objects`; `addressees` are its recipient rows of type `to`. -/
structure Object where
  apId : Text
  type : ObjectType := .note
  attributedTo : Text
  inReplyTo : Option Text := none
  visibility : Visibility := .pub
  toJson : List Text := []
  ccJson : List Text := []
  audienceJson : List Text := []
  communityApId : Option Text := none
  endTime : Option Nat := none
  published : Text := []
  deletedAt : Option Nat := none
  isLocal : Bool := true
  addressees : List Text := []
deriving DecidableEq, Repr

structure Follow where
  followerApId : Text
  followingApId : Text
  accepted : Bool
deriving DecidableEq, Repr

structure Community where
  apId : Text
  preferredUsername : Text
  isPrivate : Bool := false
  deletedAt : Option Nat := none
deriving DecidableEq, Repr

structure Member where
  communityApId : Text
  actorApId : Text
deriving DecidableEq, Repr

structure Suppression where
  ownerApId : Text
  suppressedApId : Text
deriving DecidableEq, Repr

structure Db where
  objects : List Object
  follows : List Follow
  communities : List Community
  members : List Member
  blocks : List Suppression
  mutes : List Suppression
  blockedDomains : List Text
  blockedActors : List Text
deriving DecidableEq, Repr

section gate

variable (P : Platform) (d : Db)

/-- The community of an object as the code reads it: an empty id is none. -/
def communityOf (o : Object) : Option Text := o.communityApId.filter (· ≠ [])

def communityApIdsFor (o : Object) : List Text :=
  ((communityOf o).toList ++ o.audienceJson.filter (· ≠ [])).dedup

def communityRequiresMembership (c : Community) : Bool := c.isPrivate

def canViewerReadObject (o : Object) (viewer : Option Text) : Bool :=
  let ids := communityApIdsFor o
  if ids = [] then true
  else
    let rows := d.communities.filter fun c => c.apId ∈ ids
    if rows.any fun c => c.deletedAt.isSome then false
    else
      let privateRows := rows.filter communityRequiresMembership
      if privateRows = [] then true
      else
        match viewer with
        | none => false
        | some viewer =>
          d.members.any fun m => m.communityApId ∈ privateRows.map (·.apId) && m.actorApId = viewer

def isExplicitRecipient (o : Object) (viewer : Text) : Bool :=
  o.toJson.contains viewer || o.ccJson.contains viewer

def hasAcceptedFollow (viewer author : Text) : Bool :=
  d.follows.any fun f => f.followerApId = viewer && f.followingApId = author && f.accepted

def hasProjectedRecipient (o : Object) (viewer : Text) : Bool := o.addressees.contains viewer

def passesPostVisibilitySync (o : Object) (viewer : Option Text) (isAcceptedFollower : Bool)
    (isProjectedRecipient : Bool) (now : Nat) : Bool :=
  if o.type = .story then
    if viewer = some o.attributedTo then true
    else if o.endTime.any (· ≤ now) then false
    else if (communityOf o).isSome then true
    else viewer.isSome && isAcceptedFollower
  else
    match o.visibility with
    | .direct =>
      match viewer with
      | none => false
      | some viewer =>
        o.attributedTo = viewer || isExplicitRecipient o viewer || isProjectedRecipient
    | .followers =>
      match viewer with
      | none => false
      | some viewer =>
        o.attributedTo = viewer || isExplicitRecipient o viewer || isProjectedRecipient ||
          isAcceptedFollower
    | .pub | .unlisted => true
    | .group => false

def canViewerReadObjectFull (o : Object) (viewer : Option Text) (now : Nat) : Bool :=
  if isActorBlockedStrict P d.blockedDomains d.blockedActors o.attributedTo then false
  else if o.type = .story && viewer = some o.attributedTo then true
  else if o.type = .story && o.endTime.any (· ≤ now) then false
  else if !canViewerReadObject d o viewer then false
  else
    let needsProjection := o.type ≠ .story &&
      (o.visibility = .direct || o.visibility = .followers) &&
        viewer.any fun viewer => o.attributedTo ≠ viewer && !isExplicitRecipient o viewer
    let projectedRecipient :=
      needsProjection && viewer.any fun viewer => hasProjectedRecipient o viewer
    let needsFollow := viewer.any fun viewer => o.attributedTo ≠ viewer &&
      ((o.type = .story && (communityOf o).isNone) ||
        (o.type ≠ .story && o.visibility = .followers && !isExplicitRecipient o viewer &&
          !projectedRecipient))
    let following :=
      needsFollow && viewer.any fun viewer => hasAcceptedFollow d viewer o.attributedTo
    passesPostVisibilitySync o viewer following projectedRecipient now

end gate

section feeds

/-- `before` is the decoded cursor; one of an older client has no id. -/
structure Query where
  limit : Nat
  offset : Nat
  before : Option (Text × Option Text)
deriving DecidableEq, Repr

variable (d : Db)

def suppressed (viewer : Text) : List Text :=
  (d.blocks.filter fun s => s.ownerApId = viewer).map (·.suppressedApId) ++
    (d.mutes.filter fun s => s.ownerApId = viewer).map (·.suppressedApId)

def excludeBlockedMutedAuthors (viewer : Text) (o : Object) : Bool :=
  !(activityPubActorIdentitySetSql (suppressed d viewer)).contains o.attributedTo

def excludeModeratedActors (viewer : Option Text) (o : Object) : Bool :=
  operatorActorNotBlockedSql d.blockedDomains d.blockedActors o.attributedTo &&
    viewer.all fun viewer => excludeBlockedMutedAuthors d viewer o

def feedCursorPredicate (cursor : Text × Option Text) (o : Object) : Bool :=
  match cursor.2 with
  | none => o.published < cursor.1
  | some apId => o.published < cursor.1 || (o.published = cursor.1 && o.apId < apId)

def base (viewer : Option Text) (q : Query) (o : Object) : Bool :=
  o.type = .note && o.inReplyTo.isNone && o.deletedAt.isNone && o.visibility ≠ .direct &&
    excludeModeratedActors d viewer o && q.before.all fun cursor => feedCursorPredicate cursor o

def openVisibility (o : Object) : Bool := o.visibility = .pub || o.visibility = .unlisted

def followVisibility (o : Object) : Bool := openVisibility o || o.visibility = .followers

def communityPostVisibilityGate (viewer : Option Text) (o : Object) : Bool :=
  openVisibility o || viewer.any (fun viewer => o.attributedTo = viewer) ||
    viewer.any fun viewer => o.visibility = .followers && hasAcceptedFollow d viewer o.attributedTo

def isMember (community actor : Text) : Bool :=
  d.members.any fun m => m.communityApId = community && m.actorApId = actor

def newer (a b : Object) : Prop :=
  b.published < a.published ∨ (b.published = a.published ∧ b.apId ≤ a.apId)

instance : DecidableRel newer := fun _ _ => inferInstanceAs (Decidable (_ ∨ _))

/-- One row beyond the limit is read, for `has_more`. -/
def page (q : Query) (matching : Object → Bool) : List Object :=
  ((((d.objects.filter matching).insertionSort newer).drop q.offset).take (q.limit + 1)).take
    q.limit

def resolveCommunityRead (communityParam : Text) (viewer : Option Text) : Option Community :=
  match d.communities.find? fun c =>
    (c.apId = communityParam || c.preferredUsername = communityParam) && c.deletedAt.isNone with
  | none => none
  | some c =>
    if !communityRequiresMembership c then some c
    else if viewer.any fun viewer => isMember d c.apId viewer then some c
    else none

def communitySource (c : Community) (viewer : Option Text) (o : Object) : Bool :=
  (o.communityApId = some c.apId && communityPostVisibilityGate d viewer o) ||
    (o.audienceJson = [] && isMember d c.apId o.attributedTo && openVisibility o)

def handleCommunityTimeline (communityParam : Text) (viewer : Option Text) (q : Query) :
    Option (List Object) :=
  (resolveCommunityRead d communityParam viewer).map fun c =>
    page d q fun o => base d viewer q o && communitySource d c viewer o

def publicSource (o : Object) : Bool := o.visibility = .pub && o.audienceJson = []

def myCommunities (viewer : Text) : List Text :=
  (d.members.filter fun m => m.actorApId = viewer).map (·.communityApId)

def isCoMember (viewer author : Text) : Bool :=
  d.members.any fun m =>
    m.communityApId ∈ myCommunities d viewer && m.actorApId ≠ viewer && m.actorApId = author

def homeSource (viewer : Text) (o : Object) : Bool :=
  (o.audienceJson = [] && (o.attributedTo = viewer || hasAcceptedFollow d viewer o.attributedTo) &&
      (o.attributedTo = viewer || followVisibility o)) ||
    (0 < (myCommunities d viewer).length &&
      ((o.audienceJson = [] && isCoMember d viewer o.attributedTo && openVisibility o) ||
        (o.communityApId.any (· ∈ myCommunities d viewer) &&
          communityPostVisibilityGate d (some viewer) o)))

/-- GET / without `community`. -/
def homeTimeline (viewer : Option Text) (q : Query) : List Object :=
  page d q fun o => base d viewer q o &&
    match viewer with
    | none => publicSource o
    | some viewer => homeSource d viewer o

def followingSource (viewer : Text) (o : Object) : Bool :=
  o.audienceJson = [] && (o.attributedTo = viewer || hasAcceptedFollow d viewer o.attributedTo) &&
    (o.attributedTo = viewer || followVisibility o)

def followingTimeline (viewer : Text) (q : Query) : List Object :=
  page d q fun o => base d (some viewer) q o && followingSource d viewer o

end feeds

/-- What an admitted update of a Note declares, whether policy lets it apply, and where its author
may post. -/
structure Patch where
  inReplyTo : Option (Option Text) := none
  addressing : Option Addressing := none
  audience : Option (List Text) := none
  admitted : Bool := true
  mayPost : List Text := []
deriving DecidableEq, Repr

/-- A Note that comes in: its signer or the author that it was fetched with, its declared reach, the
communities where the author may post, and the updates that were admitted before it. -/
structure Incoming where
  apId : Text
  actor : Text
  addressing : Addressing
  audience : List Text
  inReplyTo : Option Text
  published : Text
  mayPost : List Text
  patches : List Patch
deriving DecidableEq, Repr

inductive Op where
  | createPost (apId actor : Text) (visibility : Visibility) (community inReplyTo : Option Text)
      (toIris ccIris : List Text) (published : Text)
  | createDm (apId actor recipient published : Text)
  | createChat (apId actor community published : Text)
  | createStory (apId actor : Text) (community : Option Text) (endTime : Nat) (published : Text)
  | handleCreate (note : Incoming) (recipient : Text)
  | handleGroupCreate (note : Incoming) (community : Text)
  | handleCreateStory (note : Incoming) (endTime : Nat)
  | handleUpdate (apId actor : Text) (patches : List Patch)
  | fetchAndPersistAnnouncedNote (note : Incoming)
  | deleteObjects (apIds : List Text)
  | createCommunity (apId name actor : Text)
  | setCommunityVisibility (apId : Text) (isPrivate : Bool)
  | retireCommunity (apId : Text) (now : Nat)
  | join (community actor : Text)
  | leave (community actor : Text)
  | setFollows (rows : List Follow)
  | setSuppressions (blocks mutes : List Suppression)
  | setBlocklist (blockedDomains blockedActors : List Text)
deriving DecidableEq, Repr

section writes

variable (P : Platform) (isLocal : Text → Bool)

def insertObject (o : Object) (d : Db) : Db :=
  if d.objects.any fun o' => o'.apId = o.apId then d else { d with objects := d.objects ++ [o] }

def replaceObject (o : Object) (d : Db) : Db :=
  { d with objects := Table.update (fun o' => o'.apId = o.apId) (fun _ => o) d.objects }

def followersUrl (community : Text) : Text := community ++ "/followers".toList

/-- What `collectBoundedInboundAddresses` demands of an audience. -/
def boundedAudience (audience : List Text) : Bool := audience.dedup.length ≤ 64

/-- `none` is a refusal. -/
def resolveInboundCommunityScope (d : Db) (mayPost audience : List Text) : Option (Option Text) :=
  let addresses := (audience.dedup.filter (· ≠ [])).take 64
  let found := ((d.communities.filter fun c => c.deletedAt.isNone &&
    (addresses.contains c.apId || addresses.contains (followersUrl c.apId))).map (·.apId)).dedup
  match found with
  | [] => some none
  | [c] => if mayPost.contains c then some (some c) else none
  | _ :: _ :: _ => none

def projectAdmittedNotePatch (d : Db) (actor : Text) (source : Object) (patch : Patch) :
    Option Object :=
  if !patch.admitted || !patch.audience.all boundedAudience || source.type ≠ .note ||
      source.deletedAt.isSome || !isSameActivityPubActor P source.attributedTo actor then none
  else if source.visibility = .group then
    if patch.inReplyTo.any (· ≠ source.inReplyTo) then none else some source
  else
    let scope := match patch.audience with
      | some audience => resolveInboundCommunityScope d patch.mayPost audience
      | none =>
        match source.communityApId with
        | some c =>
          (resolveInboundCommunityScope d patch.mayPost [c]).filter (· = source.communityApId)
        | none => some none
    match scope with
    | none => none
    | some communityApId =>
      let moved := { source with
        communityApId := communityApId
        inReplyTo := patch.inReplyTo.getD source.inReplyTo
        audienceJson := patch.audience.getD source.audienceJson }
      match patch.addressing with
      | none => some moved
      | some addressing =>
        some { moved with
          visibility := noteVisibility addressing
          toJson := addressing.toIris
          ccJson := addressing.ccIris
          addressees := specificRecipientAddresses addressing }

def foldAdmittedNoteUpdates (d : Db) (actor : Text) (patches : List Patch) (source : Object) :
    Object :=
  patches.foldl (fun o patch => (projectAdmittedNotePatch P d actor o patch).getD o) source

def retained (actor : Text) (o : Object) : Bool :=
  o.type = .note && !o.isLocal && o.deletedAt.isNone &&
    isSameActivityPubActor P o.attributedTo actor

def newNote (note : Incoming) (direct : Bool) (communityApId : Option Text) : Object where
  apId := note.apId
  attributedTo := note.actor
  inReplyTo := note.inReplyTo
  visibility := if direct then .direct else noteVisibility note.addressing
  toJson := note.addressing.toIris
  ccJson := note.addressing.ccIris
  audienceJson := if direct then [] else note.audience
  communityApId := communityApId
  published := note.published
  isLocal := false
  addressees := if direct then specificRecipientAddresses note.addressing
    else hiddenRecipientAddresses note.addressing

def repairRecipient (direct : Bool) (recipient : Text) (o : Object) : Object :=
  if direct && o.visibility = .direct && !o.addressees.contains recipient then
    { o with addressees := o.addressees ++ [recipient] }
  else o

/-- A projection is inserted where the id is free, and replaces a Note of the same author. -/
def commitNoteProjection (d : Db) (actor : Text) (patches : List Patch) (new : Object)
    (repair : Object → Object) : Db :=
  match d.objects.find? fun o => o.apId = new.apId with
  | none => insertObject (foldAdmittedNoteUpdates P d actor patches new) d
  | some before =>
    if retained P actor before then
      replaceObject (foldAdmittedNoteUpdates P d actor patches (repair before)) d
    else d

def handleCreate (d : Db) (note : Incoming) (recipient : Text) : Db :=
  let direct := isDirectNote note.addressing recipient
  let scope :=
    if direct then some none else resolveInboundCommunityScope d note.mayPost note.audience
  if isLocal note.apId || !boundedAudience note.audience ||
      (isDirectShapedNote note.addressing && !direct) then d
  else
    match scope with
    | none => d
    | some communityApId =>
      commitNoteProjection P d note.actor note.patches (newNote note direct communityApId)
        (repairRecipient direct recipient)

def newGroupNote (note : Incoming) (community : Text) : Object where
  apId := note.apId
  attributedTo := note.actor
  visibility := .group
  audienceJson := [community]
  published := note.published
  isLocal := false

def handleGroupCreate (d : Db) (note : Incoming) (community : Text) : Db :=
  if isLocal note.apId ||
      !d.communities.any (fun c => c.apId = community && c.deletedAt.isNone) ||
      !note.mayPost.contains community ||
      d.objects.any (fun o => o.apId = note.apId &&
        (o.visibility ≠ .group || o.audienceJson ≠ [community] || o.communityApId.isSome)) then d
  else
    commitNoteProjection P d note.actor note.patches (newGroupNote note community) fun o =>
      { o with addressees := [] }

def newStory (note : Incoming) (endTime : Nat) (communityApId : Option Text) : Object where
  apId := note.apId
  type := .story
  attributedTo := note.actor
  audienceJson := match communityApId with
    | some c => [c]
    | none => note.audience
  communityApId := communityApId
  endTime := some endTime
  published := note.published
  isLocal := false

def handleCreateStory (d : Db) (note : Incoming) (endTime : Nat) : Db :=
  if isLocal note.apId then d
  else
    match resolveInboundCommunityScope d note.mayPost note.audience with
    | none => d
    | some communityApId => insertObject (newStory note endTime communityApId) d

def handleUpdate (d : Db) (apId actor : Text) (patches : List Patch) : Db :=
  match d.objects.find? fun o => o.apId = apId with
  | none => d
  | some before =>
    if before.type = .note && isSameActivityPubActor P before.attributedTo actor then
      replaceObject (foldAdmittedNoteUpdates P d actor patches before) d
    else d

def fetchAndPersistAnnouncedNote (d : Db) (note : Incoming) : Db :=
  if isLocal note.apId || !boundedAudience note.audience ||
      isDirectShapedNote note.addressing then d
  else
    let visibility := noteVisibility note.addressing
    if visibility ≠ .pub && visibility ≠ .unlisted then d
    else
      match resolveInboundCommunityScope d note.mayPost note.audience with
      | none => d
      | some communityApId =>
        let new := { newNote note false communityApId with addressees := [] }
        let projected := foldAdmittedNoteUpdates P d note.actor note.patches
          ((d.objects.find? fun o => o.apId = note.apId).getD new)
        if projected.visibility ≠ .pub && projected.visibility ≠ .unlisted then d
        else commitNoteProjection P d note.actor note.patches new id

def findCommunity (d : Db) (identifier : Text) : Option Community :=
  d.communities.find? fun c =>
    (c.apId = identifier || c.preferredUsername = identifier) && c.deletedAt.isNone

def newPost (apId actor : Text) (visibility : Visibility) (community inReplyTo : Option Text)
    (toIris ccIris : List Text) (published : Text) : Object where
  apId := apId
  attributedTo := actor
  inReplyTo := inReplyTo
  visibility := normalizeVisibility visibility
  toJson := toIris
  ccJson := ccIris
  audienceJson := community.toList
  communityApId := community
  published := published

/-- `checkCommunityPostPermission`, for an actor that may post there, and the insert. -/
def createPost (d : Db) (apId actor : Text) (visibility : Visibility)
    (community inReplyTo : Option Text) (toIris ccIris : List Text) (published : Text) : Db :=
  match community with
  | none => insertObject (newPost apId actor visibility none inReplyTo toIris ccIris published) d
  | some identifier =>
    match findCommunity d identifier with
    | none => d
    | some c =>
      insertObject (newPost apId actor visibility (some c.apId) inReplyTo toIris ccIris published) d

def newDm (apId actor recipient published : Text) : Object where
  apId := apId
  attributedTo := actor
  visibility := .direct
  toJson := [recipient]
  published := published
  addressees := [recipient]

def newChat (apId actor community published : Text) : Object where
  apId := apId
  attributedTo := actor
  visibility := .unlisted
  toJson := [community]
  audienceJson := [community]
  published := published

def newLocalStory (apId actor : Text) (community : Option Text) (endTime : Nat) (published : Text) :
    Object where
  apId := apId
  type := .story
  attributedTo := actor
  communityApId := community
  endTime := some endTime
  published := published

def createCommunity (d : Db) (apId name actor : Text) : Db :=
  if d.communities.any fun c => c.apId = apId then d
  else { d with
    communities := d.communities ++ [⟨apId,name,false,none⟩]
    members := d.members ++ [⟨apId,actor⟩] }

def updateCommunity (d : Db) (apId : Text) (set : Community → Community) : Db :=
  { d with
    communities := Table.update (fun c => c.apId = apId && c.deletedAt.isNone) set d.communities }

def join (d : Db) (community actor : Text) : Db :=
  if isMember d community actor then d
  else { d with members := d.members ++ [⟨community,actor⟩] }

def apply (d : Db) : Op → Db
  | .createPost apId actor visibility community inReplyTo toIris ccIris published =>
    createPost d apId actor visibility community inReplyTo toIris ccIris published
  | .createDm apId actor recipient published =>
    insertObject (newDm apId actor recipient published) d
  | .createChat apId actor community published =>
    insertObject (newChat apId actor community published) d
  | .createStory apId actor community endTime published =>
    insertObject (newLocalStory apId actor community endTime published) d
  | .handleCreate note recipient => handleCreate P isLocal d note recipient
  | .handleGroupCreate note community => handleGroupCreate P isLocal d note community
  | .handleCreateStory note endTime => handleCreateStory isLocal d note endTime
  | .handleUpdate apId actor patches => handleUpdate P d apId actor patches
  | .fetchAndPersistAnnouncedNote note => fetchAndPersistAnnouncedNote P isLocal d note
  | .deleteObjects apIds => { d with objects := Table.delete (fun o => o.apId ∈ apIds) d.objects }
  | .createCommunity apId name actor => createCommunity d apId name actor
  | .setCommunityVisibility apId isPrivate =>
    updateCommunity d apId fun c => { c with isPrivate := isPrivate }
  | .retireCommunity apId now => updateCommunity d apId fun c => { c with deletedAt := some now }
  | .join community actor => join d community actor
  | .leave community actor =>
    { d with
      members :=
        Table.delete (fun m => m.communityApId = community && m.actorApId = actor) d.members }
  | .setFollows rows => { d with follows := rows }
  | .setSuppressions blocks mutes => { d with blocks := blocks, mutes := mutes }
  | .setBlocklist blockedDomains blockedActors =>
    { d with blockedDomains := blockedDomains, blockedActors := blockedActors }

def machine : Machine Db Op := ⟨fun op d => some (apply P isLocal d op)⟩

end writes

inductive Feed where
  | timeline (viewer : Option Text)
  | following (viewer : Text)
  | community (identifier : Text) (viewer : Option Text)
deriving DecidableEq, Repr

def Feed.viewer : Feed → Option Text
  | .timeline viewer => viewer
  | .following viewer => some viewer
  | .community _ viewer => viewer

/-- The rows that a request for a feed returns; none if it is refused. -/
def Feed.rows (d : Db) (q : Query) : Feed → List Object
  | .timeline viewer => homeTimeline d viewer q
  | .following viewer => followingTimeline d viewer q
  | .community identifier viewer => (handleCommunityTimeline d identifier viewer q).getD []

structure Shown (P : Platform) (d : Db) (viewer : Option Text) (now : Nat) (o : Object) : Prop where
  readable : canViewerReadObjectFull P d o viewer now = true
  unsuppressed : ∀ v, viewer = some v → ∀ actor ∈ suppressed d v,
    o.attributedTo ∉ ActorIdentity.Sql.values actor
  notDirect : ¬(o.type = .note ∧ o.visibility = .direct)

/-- An id as an HTTP(S) URL is written, whose host does not end with two dots. -/
def Written (P : Platform) (actorApId : Text) : Prop :=
  ∃ s : ActorIdentity.Spelling P, s.text = actorApId ∧ ¬"..".toList <:+ s.host

/-- An audience that narrows a Note to a community here names no retired one. -/
def Clear (d : Db) (mayPost audience : List Text) : Prop :=
  ∀ c, resolveInboundCommunityScope d mayPost audience = some (some c) →
    ∀ k ∈ d.communities, k.deletedAt.isSome = true → k.apId ∉ audience

def ClearPatches (d : Db) (patches : List Patch) : Prop :=
  ∀ patch ∈ patches, ∀ audience, patch.audience = some audience → Clear d patch.mayPost audience

def Meets (P : Platform) (d : Db) : Op → Prop
  | .createPost _ actor _ _ _ _ _ _ | .createDm _ actor _ _ | .createChat _ actor _ _ =>
    Written P actor
  | .handleCreate note _ | .handleGroupCreate note _ | .fetchAndPersistAnnouncedNote note =>
    Written P note.actor ∧ Clear d note.mayPost note.audience ∧ ClearPatches d note.patches
  | .handleUpdate _ _ patches => ClearPatches d patches
  | .createCommunity apId _ _ =>
    ∀ o ∈ d.objects, o.communityApId.isSome = true → apId ∉ o.audienceJson
  | _ => True

/-- The condition on a read: of home, that the viewer is a member of no retired community. -/
def MeetsRead (d : Db) : Feed → Prop
  | .timeline (some viewer) => ∀ m ∈ d.members, m.actorApId = viewer →
      ∀ c ∈ d.communities, c.apId = m.communityApId → c.deletedAt = none
  | _ => True

def empty : Db := ⟨[],[],[],[],[],[],[],[]⟩

end Yurucommu.Timelines
