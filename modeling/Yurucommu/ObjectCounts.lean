import Yurucommu.ActorIdentity
import Yurucommu.Counter
import Yurucommu.Machine

/-!
The objects of an instance and the two columns that count them: what the routes for posts, direct
messages, community chat and Stories, the expiry sweep, the rejection of a message request and the
inbound handlers of Notes read and write, one read or one batch at a time. A request that stops
takes no further step. Gates that read other tables are answers from outside.
-/

set_option autoImplicit false

namespace Yurucommu.ObjectCounts

open Whatwg (Text)
open ActorIdentity (Platform isSameActivityPubActor)

inductive ObjectType where
  | note | story
deriving DecidableEq, Repr

inductive Visibility where
  | pub | unlisted | followers | direct | group
deriving DecidableEq, Repr

inductive RecipientType where
  | addressee | audience
deriving DecidableEq, Repr

structure Recipient where
  recipientApId : Text
  type : RecipientType
deriving DecidableEq, Repr

/-- What wrote a row. `is_local` is 0 for the last. -/
inductive Writer where
  | post | dm | chat | story | inbound
deriving DecidableEq, Repr

/-- A row of `objects` with its recipients; `content` stands for all that a PATCH writes. -/
structure ObjectRow where
  apId : Text
  type : ObjectType
  attributedTo : Text
  content : Text
  inReplyTo : Option Text
  conversation : Option Text
  visibility : Visibility
  communityApId : Option Text
  endTime : Option Nat
  recipients : List Recipient
  replyCount : Nat
  writer : Writer
deriving DecidableEq, Repr

structure ActorRow where
  apId : Text
  postCount : Nat
deriving DecidableEq, Repr

/-- `generated` is what `generateId` has given out. -/
structure Db where
  actors : List ActorRow
  objects : List ObjectRow
  generated : List Text
deriving DecidableEq, Repr

structure Site where
  platform : Platform
  isLocal : Text → Bool
  getConversationId : Text → Text → Text

def ObjectRow.isLocal (o : ObjectRow) : Bool := o.writer ≠ .inbound

/-- Made by POST /posts or the tool and not direct, or a Story that was made here. -/
def ObjectRow.counted (o : ObjectRow) : Bool :=
  match o.writer with
  | .post => o.visibility ≠ .direct
  | .story => true
  | .dm | .chat | .inbound => false

section columns

def posts : Counter ActorRow Text ObjectRow where
  id a := a.apId
  count a := a.postCount
  set n a := { a with postCount := n }
  key o := o.attributedTo
  counted := ObjectRow.counted
  count_set _ _ := rfl
  id_set _ _ := rfl

def replies : Counter ObjectRow (Option Text) ObjectRow where
  id o := some o.apId
  count o := o.replyCount
  set n o := { o with replyCount := n }
  key o := o.inReplyTo
  counted _ := true
  count_set _ _ := rfl
  id_set _ _ := rfl

end columns

section batches

variable (w : Site)

def present (apId : Text) (d : Db) : Bool := d.objects.any fun o => o.apId = apId

def bumpPostCount (actor : Text) (guard : Bool) (d : Db) : Db :=
  { d with
    actors := posts.adjust (fun a => a.apId = actor && guard) (fun a => a.postCount + 1) d.actors }

def decPostCount (actor : Text) (guard : Bool) (d : Db) : Db :=
  { d with
    actors := posts.adjust (fun a => a.apId = actor && decide (0 < a.postCount) && guard)
      (fun a => a.postCount - 1) d.actors }

/-- `MAX(0, post_count - n)`. -/
def subtractPostCount (actor : Text) (n : Nat) (d : Db) : Db :=
  { d with actors := posts.adjust (fun a => a.apId = actor) (fun a => a.postCount - n) d.actors }

def insertObject (o : ObjectRow) (d : Db) : Db := { d with objects := d.objects ++ [o] }

def deleteObjects (cond : ObjectRow → Bool) (d : Db) : Db :=
  { d with objects := Table.delete cond d.objects }

def setContent (apId content : Text) (d : Db) : Db :=
  { d with
    objects := Table.update (fun o => o.apId = apId) (fun o => { o with content := content })
      d.objects }

/-- `SET reply_count = (SELECT COUNT(*) …) WHERE ap_id = parent`. -/
def recomputeObjectReplyCount (parent : Text) (d : Db) : Db :=
  { d with
    objects := replies.adjust (fun o => some o.apId = some parent)
      (fun _ => replies.tally d.objects (some parent)) d.objects }

def recomputeAll (parents : List Text) (d : Db) : Db :=
  parents.foldl (fun d parent => recomputeObjectReplyCount parent d) d

def generate (apId : Text) (d : Db) : Db := { d with generated := apId :: d.generated }

/-- The batch of `preparePostInsertStatements`. It is taken back if its id is there or its local
parent is not. -/
def createPost (o : ObjectRow) (d : Db) : Db :=
  if present o.apId d || o.inReplyTo.any fun parent => w.isLocal parent && !present parent d then d
  else
    recomputeAll o.inReplyTo.toList
      (insertObject o
        (if o.visibility = .direct then d
          else bumpPostCount o.attributedTo (!present o.apId d) d))

def createMessage (o : ObjectRow) (d : Db) : Db :=
  if present o.apId d then d else insertObject o d

def createStory (o : ObjectRow) (d : Db) : Db :=
  if present o.apId d then d else bumpPostCount o.attributedTo true (insertObject o d)

def deletePost (post : ObjectRow) (d : Db) : Db :=
  recomputeAll post.inReplyTo.toList
    (deleteObjects (fun o => o.apId = post.apId)
      (if post.visibility = .direct then d
        else decPostCount post.attributedTo (present post.apId d) d))

def deleteStory (story : ObjectRow) (d : Db) : Db :=
  deleteObjects (fun o => o.apId = story.apId)
    (decPostCount story.attributedTo (present story.apId d) d)

/-- The row is there and has not been edited since it was read. -/
def unchanged (o : ObjectRow) (d : Db) : Bool :=
  d.objects.any fun o' => { o' with replyCount := o.replyCount } = o

/-- A delete of a message under a guard that it is as it was read, with no count. -/
def deleteMessage (message : ObjectRow) (d : Db) : Db :=
  if unchanged message d then deleteObjects (fun o => o.apId = message.apId) d else d

def editMessage (message : ObjectRow) (content : Text) (d : Db) : Db :=
  if unchanged message d then setContent message.apId content d else d

def values (after : ObjectRow) (o : ObjectRow) : ObjectRow :=
  { after with replyCount := o.replyCount }

def commitNoteProjection (before : Option ObjectRow) (after : ObjectRow) (countPost : Bool)
    (d : Db) : Db :=
  match before with
  | none =>
    if present after.apId d then d
    else
      recomputeAll (after.inReplyTo.toList ++ [after.apId])
        (insertObject after (if countPost then bumpPostCount after.attributedTo true d else d))
  | some before =>
    if unchanged before d then
      recomputeAll (before.inReplyTo.toList ++ after.inReplyTo.toList ++ [after.apId])
        { d with objects := Table.update (fun o => o.apId = after.apId) (values after) d.objects }
    else d

/-- The insert of `handleCreateStory`, which counts the replies that came before it. -/
def createInboundStory (o : ObjectRow) (d : Db) : Db :=
  { d with
    objects := Table.insertIgnore (fun o' => o'.apId = o.apId)
      { o with replyCount := replies.tally d.objects (some o.apId) } d.objects }

def deleteInbound (o : ObjectRow) (d : Db) : Db :=
  if unchanged o d then
    recomputeAll o.inReplyTo.toList
      (deleteObjects (fun o' => o'.apId = o.apId)
        (decPostCount o.attributedTo (present o.apId d) d))
  else d

end batches

section addressing

/-- The addresses of an object or, where it declares none, of its activity. -/
structure Addressing where
  toIris : List Text := []
  ccIris : List Text := []
  bto : List Text := []
  bcc : List Text := []
deriving DecidableEq, Repr

def publicCollection : List Text :=
  ["https://www.w3.org/ns/activitystreams#Public".toList,"as:Public".toList,"Public".toList]

def addressesPublic (addresses : List Text) : Bool :=
  addresses.any fun address => address ∈ publicCollection

def addressesFollowers (addresses : List Text) : Bool :=
  addresses.any fun address => "/followers".toList.isSuffixOf address

def allNoteAddresses (a : Addressing) : List Text := a.toIris ++ a.ccIris ++ a.bto ++ a.bcc

def specific (addresses : List Text) : List Text :=
  addresses.dedup.filter fun address => !addressesPublic [address] && !addressesFollowers [address]

def specificRecipientAddresses (a : Addressing) : List Text := specific (allNoteAddresses a)

def hiddenRecipientAddresses (a : Addressing) : List Text := specific (a.bto ++ a.bcc)

def noteVisibility (a : Addressing) : Visibility :=
  if addressesPublic a.toIris then .pub
  else if addressesPublic a.ccIris then .unlisted
  else if addressesPublic (allNoteAddresses a) then .pub
  else if addressesFollowers (allNoteAddresses a) then .followers
  else .direct

def isDirectShapedNote (a : Addressing) : Bool :=
  allNoteAddresses a ≠ [] && !addressesPublic (allNoteAddresses a) &&
    !addressesFollowers (allNoteAddresses a)

def isDirectNote (a : Addressing) (recipient : Text) : Bool :=
  isDirectShapedNote a && (allNoteAddresses a).contains recipient

def addressees (ids : List Text) : List Recipient := ids.map fun id => ⟨id,.addressee⟩

end addressing

/-- An admitted update of a Note: what it declares, and whether policy lets it apply and in which
community. -/
structure Patch where
  content : Option Text := none
  inReplyTo : Option (Option Text) := none
  addressing : Option Addressing := none
  admitted : Bool := true
  communityApId : Option Text := none
deriving DecidableEq, Repr

inductive Request where
  | createPost (content : Text) (inReplyTo communityApId : Option Text) (visibility : Visibility)
  | createDm (content recipient : Text)
  | createChat (content community : Text)
  | createStory (communityApId : Option Text)
  | editPost (ids : List Text) (content : Text)
  | editDm (apId content : Text)
  | editChat (community apId content : Text)
  | deletePost (ids : List Text)
  | deleteDm (apId : Text)
  | deleteChat (community apId : Text)
  | deleteStory (apId : Text)
  | cleanupExpiredStories
  | reject (sender : Text)
  | handleCreate (apId content : Text) (inReplyTo : Option Text) (addressing : Addressing)
      (recipient : Text)
  | handleGroupCreate (apId content community : Text)
  | handleCreateStory (apId : Text)
  | handleUpdate (apId : Text)
  | handleDelete (apId : Text)
deriving DecidableEq, Repr

def Request.inbound : Request → Bool
  | .handleCreate _ _ _ _ _ | .handleGroupCreate _ _ _ | .handleCreateStory _ | .handleUpdate _
  | .handleDelete _ => true
  | _ => false

inductive Stage where
  | start
  | createPost (o : ObjectRow)
  | createMessage (o : ObjectRow)
  | createStory (o : ObjectRow)
  | editPost (apId content : Text)
  | editMessage (message : ObjectRow) (content : Text)
  | deletePost (post : ObjectRow)
  | deleteMessage (message : ObjectRow)
  | deleteStory (story : ObjectRow)
  | sweepObjects (chunks : List (List Text)) (deletedAuthors : List Text)
  | sweepCounts (perAuthor : List (Text × Nat))
  | selectRejected (conversation : Text) (cursor : Option Text)
  | deleteRejected (conversation : Text) (page : List Text)
  | commit (before : Option ObjectRow) (after : ObjectRow) (countPost : Bool)
  | repairStory (apId : Text)
  | createInboundStory (o : ObjectRow)
  | deleteInbound (o : ObjectRow)
  | done
deriving DecidableEq, Repr

structure Call where
  actor : Text
  request : Request
  stage : Stage
deriving DecidableEq, Repr

/-- A fresh id, the clock, whether the gates let the request through, whether the actor manages the
community, the conversation of two actors, the community that an audience resolves to, the end of a
Story, the actors whose accounts are being deleted, the updates that were admitted before the Note,
and whether the step throws. -/
structure Answer where
  id : Text := []
  now : Nat := 0
  admitted : Bool := true
  manages : Bool := false
  conversation : Text := []
  communityApId : Option Text := none
  endTime : Option Nat := none
  reserved : List Text := []
  patches : List Patch := []
  fails : Bool := false
deriving DecidableEq, Repr

section requests

variable (w : Site)

def findObject (apId : Text) (d : Db) : Option ObjectRow := d.objects.find? fun o => o.apId = apId

def ownedDmScope (o : ObjectRow) : Bool :=
  o.visibility = .direct && o.type = .note && o.communityApId = none &&
    !o.recipients.any fun r => r.type = .audience

def groupMessageScope (community : Text) (o : ObjectRow) : Bool :=
  o.type = .note && o.communityApId = none &&
    o.recipients.any fun r => r.recipientApId = community && r.type = .audience

def addressed (apId : Text) (o : ObjectRow) : Bool :=
  o.recipients.any fun r => r.recipientApId = apId && r.type = .addressee

def senderMessage (conversation sender viewer : Text) (o : ObjectRow) : Bool :=
  o.conversation = some conversation && o.visibility = .direct && o.type = .note &&
    o.attributedTo = sender && addressed viewer o

def pending (conversation sender viewer : Text) (d : Db) : Bool :=
  !d.objects.any (senderMessage conversation viewer sender)

def normalizeVisibility : Visibility → Visibility
  | .group => .pub
  | visibility => visibility

def newPost (actor content : Text) (inReplyTo communityApId : Option Text)
    (visibility : Visibility) : ObjectRow where
  apId := []
  type := .note
  attributedTo := actor
  content := content
  inReplyTo := inReplyTo
  conversation := none
  visibility := normalizeVisibility visibility
  communityApId := communityApId
  endTime := none
  recipients := []
  replyCount := 0
  writer := .post

def newDm (actor content conversation recipient : Text) : ObjectRow where
  apId := []
  type := .note
  attributedTo := actor
  content := content
  inReplyTo := none
  conversation := some conversation
  visibility := .direct
  communityApId := none
  endTime := none
  recipients := [⟨recipient,.addressee⟩]
  replyCount := 0
  writer := .dm

def newChat (actor content community : Text) : ObjectRow where
  apId := []
  type := .note
  attributedTo := actor
  content := content
  inReplyTo := none
  conversation := none
  visibility := .unlisted
  communityApId := none
  endTime := none
  recipients := [⟨community,.audience⟩]
  replyCount := 0
  writer := .chat

def newStory (apId actor : Text) (communityApId : Option Text) (endTime : Option Nat)
    (writer : Writer) : ObjectRow where
  apId := apId
  type := .story
  attributedTo := actor
  content := []
  inReplyTo := none
  conversation := none
  visibility := .pub
  communityApId := communityApId
  endTime := endTime
  recipients := []
  replyCount := 0
  writer := writer

def conversationOf (actor : Text) (visibility : Visibility) (recipients : List Text) :
    Option Text :=
  match recipients with
  | [recipient] => if visibility = .direct then some (w.getConversationId actor recipient) else none
  | _ => none

def newNote (i : Answer) (actor apId content : Text) (inReplyTo : Option Text)
    (addressing : Addressing) (direct : Bool) : ObjectRow where
  apId := apId
  type := .note
  attributedTo := actor
  content := content
  inReplyTo := inReplyTo
  conversation :=
    if direct then conversationOf w actor .direct (specificRecipientAddresses addressing) else none
  visibility := if direct then .direct else noteVisibility addressing
  communityApId := if direct then none else i.communityApId
  endTime := none
  recipients := addressees
    (if direct then specificRecipientAddresses addressing else hiddenRecipientAddresses addressing)
  replyCount := 0
  writer := .inbound

def newGroupNote (actor apId content community : Text) : ObjectRow where
  apId := apId
  type := .note
  attributedTo := actor
  content := content
  inReplyTo := none
  conversation := none
  visibility := .group
  communityApId := none
  endTime := none
  recipients := [⟨community,.audience⟩]
  replyCount := 0
  writer := .inbound

def projectAdmittedNotePatch (actor : Text) (source : ObjectRow) (patch : Patch) :
    Option ObjectRow :=
  if !patch.admitted || source.type ≠ .note ||
      !isSameActivityPubActor w.platform source.attributedTo actor then none
  else if source.visibility = .group then
    if patch.inReplyTo.any fun inReplyTo => inReplyTo ≠ source.inReplyTo then none
    else some { source with content := patch.content.getD source.content }
  else if patch.inReplyTo = some (some source.apId) then none
  else
    let result := { source with
      content := patch.content.getD source.content
      inReplyTo := patch.inReplyTo.getD source.inReplyTo
      communityApId := patch.communityApId }
    match patch.addressing with
    | none => some result
    | some addressing =>
      let recipients := specificRecipientAddresses addressing
      some { result with
        visibility := noteVisibility addressing
        conversation := conversationOf w actor (noteVisibility addressing) recipients
        recipients :=
          (source.recipients.filter fun r => r.type ≠ .addressee) ++ addressees recipients }

/-- A rejected update consumes only itself. -/
def foldAdmittedNoteUpdates (actor : Text) (patches : List Patch) (source : ObjectRow) :
    ObjectRow :=
  patches.foldl (fun o patch => (projectAdmittedNotePatch w actor o patch).getD o) source

/-- A repeated delivery to an addressee that the Note still grants access. -/
def repairRecipient (admitted direct : Bool) (recipient : Text) (o : ObjectRow) : ObjectRow :=
  if direct && o.visibility = .direct && admitted && !addressed recipient o then
    { o with recipients := o.recipients ++ [⟨recipient,.addressee⟩] }
  else o

def retained (actor : Text) (o : ObjectRow) : Bool :=
  o.type = .note && !o.isLocal && isSameActivityPubActor w.platform o.attributedTo actor

def readCreate (i : Answer) (actor apId content : Text) (inReplyTo : Option Text)
    (addressing : Addressing) (recipient : Text) (d : Db) : Stage :=
  let direct := isDirectNote addressing recipient
  if !i.admitted || w.isLocal apId || (isDirectShapedNote addressing && !direct) then .done
  else
    match findObject apId d with
    | none =>
      .commit none (foldAdmittedNoteUpdates w actor i.patches
        (newNote w i actor apId content inReplyTo addressing direct)) true
    | some before =>
      if retained w actor before then
        .commit (some before) (foldAdmittedNoteUpdates w actor i.patches
          (repairRecipient i.admitted direct recipient before)) true
      else .done

def readGroupCreate (i : Answer) (actor apId content community : Text) (d : Db) : Stage :=
  if !i.admitted || w.isLocal apId then .done
  else
    match findObject apId d with
    | none =>
      .commit none (foldAdmittedNoteUpdates w actor i.patches
        (newGroupNote actor apId content community)) false
    | some before =>
      if retained w actor before && before.visibility = .group && before.communityApId = none then
        .commit (some before) (foldAdmittedNoteUpdates w actor i.patches
          { before with recipients := [⟨community,.audience⟩] }) false
      else .done

def readCreateStory (i : Answer) (actor apId : Text) (d : Db) : Stage :=
  if w.isLocal apId then .done
  else
    match findObject apId d with
    | some _ => .repairStory apId
    | none =>
      if i.admitted then
        .createInboundStory (newStory apId actor i.communityApId i.endTime .inbound)
      else .done

def readUpdate (i : Answer) (actor apId : Text) (d : Db) : Stage :=
  match findObject apId d with
  | none => .done
  | some before =>
    if i.admitted && before.type = .note &&
        isSameActivityPubActor w.platform before.attributedTo actor then
      .commit (some before) (foldAdmittedNoteUpdates w actor i.patches before) false
    else .done

def readDelete (actor apId : Text) (d : Db) : Stage :=
  match findObject apId d with
  | none => .done
  | some o =>
    if isSameActivityPubActor w.platform o.attributedTo actor then .deleteInbound o else .done

def readMessage (next : ObjectRow → Stage) (scope : ObjectRow → Bool) (manages : Bool)
    (actor apId : Text) (d : Db) : Stage :=
  match d.objects.find? fun o => o.apId = apId && scope o with
  | none => .done
  | some o => if o.attributedTo = actor || manages then next o else .done

def readOwn (next : ObjectRow → Stage) (ids : List Text) (actor : Text) (d : Db) : Stage :=
  match d.objects.find? fun o => o.apId ∈ ids with
  | none => .done
  | some o => if o.attributedTo = actor then next o else .done

def storyCleanupBatch : Nat := 200

def inChunk : Nat := 90

def chunkForInClause (ids : List Text) : List (List Text) :=
  (List.range ((ids.length + (inChunk - 1)) / inChunk)).map fun k =>
    (ids.drop (inChunk * k)).take inChunk

def expiredStories (i : Answer) (d : Db) : List Text :=
  ((d.objects.filter fun o => o.type = .story && o.endTime.any (· < i.now) &&
    !i.reserved.contains o.attributedTo).take storyCleanupBatch).map (·.apId)

def read (i : Answer) (actor : Text) (d : Db) : Request → Stage
  | .createPost content inReplyTo communityApId visibility =>
    if i.admitted && inReplyTo.all (present · d) then
      .createPost (newPost actor content inReplyTo communityApId visibility)
    else .done
  | .createDm content recipient =>
    if i.admitted then .createMessage (newDm actor content i.conversation recipient) else .done
  | .createChat content community =>
    if i.admitted then .createMessage (newChat actor content community) else .done
  | .createStory communityApId =>
    if i.admitted then .createStory (newStory [] actor communityApId i.endTime .story) else .done
  | .editPost ids content => readOwn (fun o => .editPost o.apId content) ids actor d
  | .editDm apId content =>
    readMessage (fun o => .editMessage o content) ownedDmScope false actor apId d
  | .editChat community apId content =>
    if i.admitted then
      readMessage (fun o => .editMessage o content) (groupMessageScope community) false actor apId d
    else .done
  | .deletePost ids => readOwn .deletePost ids actor d
  | .deleteDm apId => readMessage .deleteMessage ownedDmScope false actor apId d
  | .deleteChat community apId =>
    if i.admitted then
      readMessage .deleteMessage (groupMessageScope community) i.manages actor apId d
    else .done
  | .deleteStory apId => readOwn .deleteStory [apId] actor d
  | .cleanupExpiredStories => .sweepObjects (chunkForInClause (expiredStories i d)) []
  | .reject sender =>
    if pending i.conversation sender actor d then .selectRejected i.conversation none else .done
  | .handleCreate apId content inReplyTo addressing recipient =>
    readCreate w i actor apId content inReplyTo addressing recipient d
  | .handleGroupCreate apId content community => readGroupCreate w i actor apId content community d
  | .handleCreateStory apId => readCreateStory w i actor apId d
  | .handleUpdate apId => readUpdate w i actor apId d
  | .handleDelete apId => readDelete w actor apId d

def perAuthor (authors : List Text) : List (Text × Nat) :=
  (authors.filter (· ≠ [])).dedup.map fun author => (author,authors.count author)

def rejectPageSize : Nat := 40

def selectRejected (conversation sender viewer : Text) (cursor : Option Text) (d : Db) :
    List Text :=
  (((d.objects.filter fun o => senderMessage conversation sender viewer o &&
    cursor.all (· < o.apId)).map (·.apId)).insertionSort (· ≤ ·)).take rejectPageSize

/-- The guard of a page: nobody has replied and every message of it is still there. -/
def pageUnchanged (conversation sender viewer : Text) (page : List Text) (d : Db) : Bool :=
  pending conversation sender viewer d &&
    (d.objects.countP fun o => senderMessage conversation sender viewer o && o.apId ∈ page) =
      page.length

def Request.sender : Request → Text
  | .reject sender => sender
  | _ => []

def deletePage (conversation sender viewer : Text) (page : List Text) (d : Db) : Db × Stage :=
  if pageUnchanged conversation sender viewer page d then
    (deleteObjects (fun o => o.apId ∈ page) d,
      if page.length < rejectPageSize then .done else .selectRejected conversation page.getLast?)
  else (d,.done)

def removedAuthors (chunk : List Text) (d : Db) : List Text :=
  (d.objects.filter fun o => o.apId ∈ chunk).map (·.attributedTo)

def advance (i : Answer) (c : Call) (d : Db) : Db × Stage :=
  match c.stage with
  | .start => (d,read w i c.actor d c.request)
  | .createPost o => (createPost w { o with apId := i.id } (generate i.id d),.done)
  | .createMessage o => (createMessage { o with apId := i.id } (generate i.id d),.done)
  | .createStory o => (createStory { o with apId := i.id } (generate i.id d),.done)
  | .editPost apId content => (setContent apId content d,.done)
  | .editMessage message content => (editMessage message content d,.done)
  | .deletePost post => (deletePost post d,.done)
  | .deleteMessage message => (deleteMessage message d,.done)
  | .deleteStory story => (deleteStory story d,.done)
  | .sweepObjects [] deletedAuthors => (d,.sweepCounts (perAuthor deletedAuthors))
  | .sweepObjects (chunk :: chunks) deletedAuthors =>
    (deleteObjects (fun o => o.apId ∈ chunk) d,
      .sweepObjects chunks (deletedAuthors ++ removedAuthors chunk d))
  | .sweepCounts [] => (d,.done)
  | .sweepCounts (author :: rest) => (subtractPostCount author.1 author.2 d,.sweepCounts rest)
  | .selectRejected conversation cursor =>
    match selectRejected conversation c.request.sender c.actor cursor d with
    | [] => (d,.done)
    | page => (d,.deleteRejected conversation page)
  | .deleteRejected conversation page => deletePage conversation c.request.sender c.actor page d
  | .commit before after countPost => (commitNoteProjection before after countPost d,.done)
  | .repairStory apId => (recomputeObjectReplyCount apId d,.done)
  | .createInboundStory o => (createInboundStory o d,.done)
  | .deleteInbound o => (deleteInbound o d,.done)
  | .done => (d,.done)

def work (i : Answer) (_ : Nat) (d : Db) (c : Call) : Db × Call :=
  if i.fails then (d,{ c with stage := .done })
  else ((advance w i c d).1,{ c with stage := (advance w i c d).2 })

def Stage.generates : Stage → Bool
  | .createPost _ | .createMessage _ | .createStory _ => true
  | _ => false

def allowed (i : Answer) (d : Db) (c : Call) : Bool :=
  c.stage ≠ .done && (!c.stage.generates || (w.isLocal i.id && !d.generated.contains i.id))

def threads : Threads Db Call Answer Empty :=
  .guarded (allowed w) (work w) (fun e => nomatch e) (fun e => nomatch e)

abbrev Pool := Threads.Pool Db Call

abbrev Label := Threads.Label Answer Empty

abbrev machine : Machine Pool Label := (threads w).machine

end requests

def Here (d : Db) (apId : Text) : Prop := ∃ a ∈ d.actors, a.apId = apId

def Exact (d : Db) : Prop := replies.Exact d.objects d.objects ∧ posts.Exact d.actors d.objects

/-- What a row's columns say together. -/
structure Proper (w : Site) (d : Db) (o : ObjectRow) : Prop where
  site : o.isLocal = w.isLocal o.apId
  generated : o.isLocal = true → o.apId ∈ d.generated
  here : o.isLocal = true ↔ Here d o.attributedTo
  audience : ∀ r ∈ o.recipients, r.type = .audience → o.counted = false
  story : o.writer = .story → o.type = .story ∧ o.visibility = .pub

/-- Requests begin in a database whose rows are proper and whose counts are exact. The routes are
called by local actors, and who signs an inbound activity is not one of them. -/
structure Start (w : Site) (s : Pool) : Prop where
  keys : (s.store.objects.map (·.apId)).Nodup
  exact : Exact s.store
  rows : ∀ o ∈ s.store.objects, Proper w s.store o
  generated : ∀ apId ∈ s.store.generated, w.isLocal apId = true
  start : ∀ p, (s.thread p).stage = .start
  requester : ∀ p, (s.thread p).request.inbound = false → Here s.store (s.thread p).actor
  signer : ∀ p, (s.thread p).request.inbound = true → ¬Here s.store (s.thread p).actor ∧
    ∀ apId, Here s.store apId →
      isSameActivityPubActor w.platform apId (s.thread p).actor = false

def NoReplies (cond : ObjectRow → Bool) (d : Db) : Prop :=
  ∀ o ∈ d.objects, cond o = true → ∀ parent ∈ d.objects, cond parent = false →
    o.inReplyTo ≠ some parent.apId

def Decrements (apId : Text) (d : Db) : Prop :=
  ∀ o ∈ d.objects, o.apId = apId → o.counted = true ∨
    ∀ a ∈ d.actors, a.apId = o.attributedTo → a.postCount = 0

def MeetsAt (d : Db) (c : Call) (i : Answer) : Prop :=
  match c.stage with
  | .createPost _ | .createMessage _ | .createStory _ =>
    ∀ o ∈ d.objects, o.inReplyTo ≠ some i.id
  | .deletePost post => post.visibility = .direct ∨ Decrements post.apId d
  | .deleteStory story =>
    Decrements story.apId d ∧ NoReplies (fun o => o.apId = story.apId) d
  | .deleteMessage message =>
    unchanged message d = true → NoReplies (fun o => o.apId = message.apId) d
  | .deleteRejected conversation page =>
    pageUnchanged conversation c.request.sender c.actor page d = true →
      NoReplies (fun o => o.apId ∈ page) d
  | .sweepObjects (chunk :: _) _ =>
    NoReplies (fun o => o.apId ∈ chunk) d ∧
      ∀ o ∈ d.objects, o.apId ∈ chunk → ¬Here d o.attributedTo
  | _ => True

def Meets (s : Pool) (l : Label) : Prop :=
  ∀ p i, l = .act p i → i.fails = false → MeetsAt s.store (s.thread p) i

end Yurucommu.ObjectCounts
