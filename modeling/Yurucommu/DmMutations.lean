import Yurucommu.Blocklist
import Yurucommu.JsString
import Yurucommu.ObjectCounts

/-!
PATCH and DELETE of a direct message by its author: each reads the row, plans what it writes from
that row, and writes in one batch that asserts the row. Requests overlap, and rejected requests and
purges remove messages between their statements.
-/

set_option autoImplicit false

namespace Yurucommu.DmMutations

open ActorIdentity (Platform trim isSafeRemoteUrl)
open Blocklist (isActorBlockedStrict)
open ObjectCounts (ObjectType Visibility RecipientType)
open Whatwg (Text)

/-- A row of `objects`; `others` stands for the columns that no statement of a mutation names. -/
structure Object where
  apId : Text
  type : ObjectType := .note
  attributedTo : Text
  content : Text
  attachmentsJson : Text := "[]".toList
  conversation : Option Text
  visibility : Visibility := .direct
  toJson : Text
  ccJson : Text := "[]".toList
  communityApId : Option Text := none
  published : Text
  updated : Option Text := none
  others : Text := []
deriving DecidableEq, Repr

structure Recipient where
  objectApId : Text
  recipientApId : Text
  type : RecipientType := .addressee
deriving DecidableEq, Repr

inductive Kind where
  | update | delete
deriving DecidableEq, Repr

/-- What an Update says of the note. Its attachment list is made from `attachmentsJson`. -/
structure Note where
  id : Text
  attributedTo : Text
  toIris : List Text
  ccIris : List Text
  content : Text
  published : Text
  updated : Text
  conversation : Option Text
  attachmentsJson : Text
deriving DecidableEq, Repr

/-- The activity on the wire; its object is a Tombstone where there is no note. -/
structure Wire where
  id : Text
  type : Kind
  actor : Text
  toIris : List Text
  ccIris : List Text
  objectId : Text
  note : Option Note
deriving DecidableEq, Repr

/-- A row of `activities`; `wire` is kept for those that mutations write. -/
structure Activity where
  apId : Text
  type : Text
  actorApId : Text
  objectApId : Option Text
  wire : Option Wire := none
deriving DecidableEq, Repr

/-- A row of `delivery_resolutions`; its id is a hash of the two. -/
structure Resolution where
  activityApId : Text
  recipientActorApId : Text
deriving DecidableEq, Repr

inductive ProjectionTable where
  | notificationPushJobs | notificationArchived | inboundActivityClaims | deliveryQueue
  | deliveryFanouts | inbox
deriving DecidableEq, Repr

structure Projection where
  table : ProjectionTable
  activityApId : Text
  announceActivityApId : Option Text := none
deriving DecidableEq, Repr

inductive ChildTable where
  | likes | announces | bookmarks | storyViews | storyVotes | storyShares
deriving DecidableEq, Repr

structure Child where
  table : ChildTable
  actorApId : Text
  objectApId : Text
deriving DecidableEq, Repr

structure Media where
  r2Key : Text
  uploaderApId : Text
deriving DecidableEq, Repr

/-- The tables that mutations read and write, and the keys of the stored blobs. -/
structure Db where
  objects : List Object
  recipients : List Recipient := []
  activities : List Activity := []
  resolutions : List Resolution := []
  projections : List Projection := []
  children : List Child := []
  mediaUploads : List Media := []
  mediaBlobDeletionJobs : List Media := []
  blobs : List Text := []
  blockedDomains : List Text := []
  blockedActors : List Text := []
  remoteActorTombstones : List Text := []
deriving DecidableEq, Repr

/-- What the platform and the configuration supply: the hash of the JSON of a list of values, the
strings of a JSON array, and the upload keys that stored attachments name. -/
structure Site where
  platform : Platform
  appUrl : Text
  sha256Hex : List (Option Text) → Text
  strings : Text → List Text
  attachedKeys : Text → List Text

inductive Mutation where
  | edit (content : Option Text)
  | delete
deriving DecidableEq, Repr

/-- `content` is none where the body has no string, and `activityApId` is the id that the request
generates. -/
structure Request where
  actorApId : Text
  messageId : Text
  ifMatch : Option Text
  mutation : Mutation
  activityApId : Text
deriving DecidableEq, Repr

section reads

def maxDmContentLength : Nat := 5000

def validateContent (raw : Option Text) : Option Text :=
  raw.bind fun raw =>
    let content := trim raw
    if content = [] || maxDmContentLength < (content.flatMap JsString.codeUnits).length then none
    else some content

def ownedDmScope (d : Db) (messageId : Text) (o : Object) : Bool :=
  o.apId = messageId && o.visibility = .direct && o.type = .note && o.communityApId = none &&
    !d.recipients.any fun r => r.objectApId = o.apId && r.type = .audience

def ownedDmRevision (w : Site) (o : Object) : Text :=
  "dm-v1:".toList ++ w.sha256Hex [some o.apId,some o.attributedTo,some o.content,some o.published,
    o.updated,some o.attachmentsJson,some o.toJson,some o.ccJson,o.conversation,o.communityApId]

def isHex (c : Char) : Bool := ('0' ≤ c && c ≤ '9') || ('a' ≤ c && c ≤ 'f')

def isRevisionHeader (header : Text) : Bool :=
  let digest := (header.drop 7).dropLast
  header = "\"dm-v1:".toList ++ digest ++ ['"'] && digest.length = 64 && digest.all isHex

/-- `JSON.stringify` of a revision, which has nothing to escape. -/
def quoted (revision : Text) : Text := '"' :: revision ++ ['"']

def revisionError (header : Option Text) (revision : Text) : Option Nat :=
  header.bind fun header =>
    if isRevisionHeader header = false then some 400
    else if header ≠ quoted revision then some 409
    else none

def isLocal (w : Site) (apId : Text) : Bool :=
  match Whatwg.parse w.platform.parseHost apId,Whatwg.parse w.platform.parseHost w.appUrl with
  | some apUrl,some base =>
    apUrl.hostname = base.hostname && (base.port.isNone || apUrl.port = base.port)
  | _,_ => false

def publicCollection : Text := "https://www.w3.org/ns/activitystreams#Public".toList

def addresses (w : Site) (json : Text) : List Text :=
  ((w.strings json).filter fun id =>
    id ≠ publicCollection && !"/followers".toList.isSuffixOf id).eraseDups

def recipients (w : Site) (d : Db) (o : Object) : List Text :=
  ((addresses w o.toJson ++ addresses w o.ccJson).eraseDups).filter fun id =>
    !isLocal w id && isSafeRemoteUrl w.platform id &&
      !isActorBlockedStrict w.platform d.blockedDomains d.blockedActors id

end reads

inductive Write where
  | edit (content updated : Text)
  | delete (jobs : List Media)
deriving DecidableEq, Repr

def Write.kind : Write → Kind
  | .edit _ _ => .update
  | .delete _ => .delete

section writes

def Kind.name : Kind → Text
  | .update => "Update".toList
  | .delete => "Delete".toList

def wireOf (w : Site) (id : Text) (o : Object) (write : Write) : Wire :=
  let toIris := addresses w o.toJson
  let ccIris := addresses w o.ccJson
  { id := id
    type := write.kind
    actor := o.attributedTo
    toIris := toIris
    ccIris := ccIris
    objectId := o.apId
    note :=
      match write with
      | .edit content updated =>
        some ⟨o.apId,o.attributedTo,toIris,ccIris,content,o.published,updated,o.conversation,
          o.attachmentsJson⟩
      | .delete _ => none }

def activityOf (w : Site) (id : Text) (o : Object) (write : Write) : Activity :=
  ⟨id,write.kind.name,o.attributedTo,some o.apId,some (wireOf w id o write)⟩

/-- The statements of `prepareDmMutationDelivery`; a trigger takes out the resolutions for actors
that have a tombstone. -/
def insertDelivery (w : Site) (id : Text) (o : Object) (write : Write) (who : List Text)
    (d : Db) : Db :=
  { d with
    activities := d.activities ++ [activityOf w id o write]
    resolutions := Table.insertAllIgnore (fun new row => row = new)
      ((who.filter fun recipient => !d.remoteActorTombstones.contains recipient).map
        fun recipient => ⟨id,recipient⟩) d.resolutions }

def targets (apId : Text) (d : Db) : List Text :=
  (d.activities.filter fun a => a.objectApId = some apId).map (·.apId)

def deleteProjections (apId : Text) (d : Db) : Db :=
  let ids := targets apId d
  { d with
    resolutions := Table.delete (fun r => ids.contains r.activityApId) d.resolutions
    projections := Table.delete (fun p => ids.contains p.activityApId ||
      p.announceActivityApId.any (ids.contains ·)) d.projections }

def activityDeleteCascade (apId : Text) (d : Db) : Db :=
  let cleared := deleteProjections apId d
  { cleared with
    activities := Table.delete (fun a => a.objectApId = some apId) cleared.activities }

def deleteChildren (apId : Text) (jobs : List Media) (d : Db) : Db :=
  deleteProjections apId
    { d with
      mediaBlobDeletionJobs :=
        Table.insertAllIgnore (fun new job => job.r2Key = new.r2Key) jobs d.mediaBlobDeletionJobs
      children := Table.delete (fun c => c.objectApId = apId) d.children
      recipients := Table.delete (fun r => r.objectApId = apId) d.recipients }

def applyWrite (apId : Text) (write : Write) (d : Db) : Db :=
  match write with
  | .edit content updated =>
    { d with
      objects := Table.update (fun o => o.apId = apId)
        (fun o => { o with content := content, updated := some updated }) d.objects }
  | .delete jobs =>
    let cleared := deleteChildren apId jobs (activityDeleteCascade apId d)
    { cleared with objects := Table.delete (fun o => o.apId = apId) cleared.objects }

def guardedOwnedDm (message : Object) (d : Db) : Bool :=
  d.objects.any fun o => ownedDmScope d message.apId o && o.attributedTo = message.attributedTo &&
    o.content = message.content && o.published = message.published &&
    o.updated = message.updated && o.attachmentsJson = message.attachmentsJson &&
    o.toJson = message.toJson && o.ccJson = message.ccJson &&
    o.conversation = message.conversation

/-- The batch, once its guard holds. -/
def commit (w : Site) (id : Text) (message : Object) (write : Write) (who : List Text) (d : Db) :
    Db := insertDelivery w id message write who (applyWrite message.apId write d)

end writes

/-- Where a request is: before each read and each write, and answered. -/
inductive Stage where
  | find
  | cascade (message : Object)
  | authors (message row : Object)
  | attached (message row : Object)
  | prepare (message : Object) (write : Write)
  | commit (message : Object) (write : Write) (who : List Text)
  | purge (mediaKeys : List Text)
  | publish
  | done (status : Nat)
deriving DecidableEq, Repr

/-- `wrote` is history: whether a step of the request has changed the database or a blob. -/
structure Call where
  request : Request
  stage : Stage
  wrote : Bool
deriving DecidableEq, Repr

/-- A batch that has committed, with the row that its request read and the databases around it. -/
structure Commit where
  request : Request
  read : Object
  write : Write
  before : Db
  after : Db
deriving DecidableEq, Repr

/-- The committed batches, the newest first. -/
structure State where
  db : Db
  log : List Commit
deriving DecidableEq, Repr

/-- What a step gets from outside: whether it fails, the time, and the keys that the journal lets a
purge delete. -/
structure Input where
  fails : Bool := false
  now : Text := []
  claimed : List Text := []
deriving DecidableEq, Repr

section requests

variable (w : Site)

def Object.hasAttachments (o : Object) : Bool :=
  o.attachmentsJson ≠ [] && o.attachmentsJson ≠ "[]".toList

/-- What `validateContent` leaves of a PATCH; a DELETE has no body. -/
def Mutation.write (now : Text) : Mutation → Option Write
  | .edit content => (validateContent content).map fun content => .edit content now
  | .delete => some (.delete [])

def find (now : Text) (d : Db) (r : Request) : Stage :=
  match r.mutation.write now with
  | none => .done 400
  | some write =>
    match d.objects.find? (ownedDmScope d r.messageId) with
    | none => .done 404
    | some message =>
      if message.attributedTo ≠ r.actorApId then .done 403
      else
        match revisionError r.ifMatch (ownedDmRevision w message) with
        | some status => .done status
        | none =>
          match r.mutation with
          | .edit _ => .prepare message write
          | .delete => .cascade message

def planned (message row : Object) (jobs : List Media) : Stage :=
  if row.attachmentsJson ≠ message.attachmentsJson then .done 409
  else .prepare message (.delete jobs)

def read (now : Text) (d : Db) (r : Request) : Stage → Stage
  | .find => find w now d r
  | .cascade message =>
    match d.objects.find? fun o => o.apId = message.apId with
    | none => .done 409
    | some row =>
      if row.hasAttachments then .authors message row else planned message row []
  | .authors message row =>
    if d.mediaUploads.any fun upload => upload.uploaderApId = row.attributedTo then
      .attached message row
    else planned message row []
  | .attached message row =>
    planned message row (d.mediaUploads.filter fun upload =>
      upload.uploaderApId = row.attributedTo &&
        (w.attachedKeys row.attachmentsJson).contains upload.r2Key)
  | .prepare message write => .commit message write (recipients w d message)
  | stage => stage

def Write.next : Write → Stage
  | .edit _ _ => .publish
  | .delete jobs => .purge (jobs.map (·.r2Key)).eraseDups

def purgeMediaBlobs (i : Input) (keys : List Text) (d : Db) : Db :=
  let gone := keys.filter (i.claimed.contains ·)
  { d with
    blobs := d.blobs.filter fun key => !gone.contains key
    mediaBlobDeletionJobs :=
      if i.fails then d.mediaBlobDeletionJobs
      else Table.delete (fun job => gone.contains job.r2Key) d.mediaBlobDeletionJobs }

/-- One read or batch of a request. Behind its batch nothing that fails is answered as an error. -/
def act (i : Input) (s : State) (c : Call) : State × Stage :=
  match c.stage with
  | .commit message write who =>
    if i.fails then (s,.done 500)
    else if guardedOwnedDm message s.db = false then (s,.done 409)
    else if s.db.activities.any fun a => a.apId = c.request.activityApId then (s,.done 500)
    else
      let after := commit w c.request.activityApId message write who s.db
      (⟨after,⟨c.request,message,write,s.db,after⟩ :: s.log⟩,write.next)
  | .purge keys => ({ s with db := purgeMediaBlobs i keys s.db },.publish)
  | .publish => (s,.done 200)
  | stage => (s,if i.fails then .done 500 else read w i.now s.db c.request stage)

def work (i : Input) (s : State) (c : Call) : State × Call :=
  let next := act w i s c
  (next.1,⟨c.request,next.2,c.wrote || next.1.db ≠ s.db⟩)

def Stage.running : Stage → Bool
  | .done _ => false
  | _ => true

def Db.valid (d : Db) : Bool :=
  (d.objects.map (·.apId)).Nodup && d.resolutions.Nodup

/-- What others may write: of the messages they only remove some, and the block lists stay. -/
def possible (d : Db) (s : State) : Bool :=
  d.valid && d.objects.isSublist s.db.objects && d.blockedDomains = s.db.blockedDomains &&
    d.blockedActors = s.db.blockedActors

def threads : Threads State Call Input Db :=
  .guarded (fun _ _ c => c.stage.running) (fun i _ s c => work w i s c)
    possible fun d s => { s with db := d }

def begin (d : Db) (requests : Nat → Request) : Threads.Pool State Call :=
  ⟨⟨d,[]⟩,fun p => ⟨requests p,.find,false⟩⟩

end requests

end Yurucommu.DmMutations
