import Yurucommu.JsMap
import Yurucommu.TalkArchives

/-!
The unread numbers of the talk surfaces: those of the contact list, which groups the messages by
conversation and counterpart, and those of the badge, which counts them at once.
-/

set_option autoImplicit false

namespace Yurucommu.TalkSurfaces

open Whatwg (Text)
open Blocklist (operatorActorNotBlockedSql)
open TalkArchives (Archive PeerArchive Expansion Kind otherParticipant hasPeerRow oldMarker)

/-- `audience` are the recipient rows of that type. -/
structure Message extends TalkArchives.Object where
  published : Text
  communityApId : Option Text := none
  audience : List Text := []
deriving DecidableEq, Repr

structure Member where
  communityApId : Text
  actorApId : Text
  owner : Bool := false
  joinedAt : Option Text
deriving DecidableEq, Repr

structure Community where
  apId : Text
  deletedAt : Option Nat := none
deriving DecidableEq, Repr

structure ReadStatus where
  actorApId : Text
  threadId : Text
  lastReadAt : Option Text
deriving DecidableEq, Repr

structure ReadMode where
  actorApId : Text
  kind : Kind
  targetApId : Text
  threadId : Text
  epoch : Text
deriving DecidableEq, Repr

structure MessageRead where
  mode : ReadMode
  objectApId : Text
deriving DecidableEq, Repr

structure Db where
  messages : List Message
  blockedDomains : List Text
  blockedActors : List Text
  archived : List Archive
  peerArchived : List PeerArchive
  expansions : List Expansion
  members : List Member
  communities : List Community
  dmReadStatus : List ReadStatus
  dmCommunityReadStatus : List ReadStatus
  readModes : List ReadMode
  messageReads : List MessageRead
deriving DecidableEq, Repr

def Db.talk (d : Db) : TalkArchives.Db where
  objects := d.messages.map (·.toObject)
  actors := []
  actorCache := []
  blockedDomains := d.blockedDomains
  blockedActors := d.blockedActors
  archived := d.archived
  peerArchived := d.peerArchived
  expansions := d.expansions

def epochStart : Text := "1970-01-01T00:00:00Z".toList

def contactLimit : Nat := 2000
def unreadChunk : Nat := 75

def chunkForInClause {α : Type} (size : Nat) (items : List α) : List (List α) :=
  (List.range ((items.length + size - 1) / size)).map fun i => (items.drop (i * size)).take size

section reads

variable (d : Db) (viewer : Text)

def unreadTalkObjectSql (kind : Kind) (target thread : Text) (epoch : Option Text) (o : Message)
    (legacyBaseline : Text) : Bool :=
  match epoch.filter fun epoch => d.readModes.contains ⟨viewer,kind,target,thread,epoch⟩ with
  | some epoch => !d.messageReads.contains ⟨⟨viewer,kind,target,thread,epoch⟩,o.apId⟩
  | none => legacyBaseline < o.published

def lastReadAt (status : List ReadStatus) (thread : Text) : Option Text :=
  (status.find? fun r => r.actorApId = viewer && r.threadId = thread).bind (·.lastReadAt)

def notBlocked (apId : Text) : Bool :=
  operatorActorNotBlockedSql d.blockedDomains d.blockedActors apId

def Message.direct (o : Message) : Bool :=
  o.visibility = .direct && o.type = .note && o.conversation.isSome

def dmWhereForActor (o : Message) : Bool :=
  o.direct && (o.attributedTo = viewer || o.addressees.contains viewer) &&
    (otherParticipant viewer o.toObject).all (notBlocked d)

/-- `peerArchivedSql`; no peer has no row. -/
def peerArchivedSql (peer : Option Text) (conversation : Text) : Bool :=
  peer.any (hasPeerRow d.talk viewer) || (oldMarker d.talk viewer conversation).isSome

/-- What the contact list groups by. -/
def groupKey (o : Message) : Text × Option Text :=
  (o.conversation.getD [],otherParticipant viewer o.toObject)

def contactRows : List Message :=
  d.messages.filter fun o => dmWhereForActor d viewer o &&
    !peerArchivedSql d viewer (groupKey viewer o).2 (groupKey viewer o).1

def newest : List Message → Option Message
  | [] => none
  | o :: rows =>
    match newest rows with
    | none => some o
    | some p => if o.published < p.published then some p else some o

/-- One row for each group, the most recent ones. -/
def dmObjects : List Message :=
  let keys := ((contactRows d viewer).map (groupKey viewer)).dedup
  let groups := keys.filterMap fun key =>
    newest ((contactRows d viewer).filter fun o => groupKey viewer o = key)
  (groups.insertionSort fun o p => p.published ≤ o.published).take contactLimit

structure Conversation where
  conversation : Text
  otherApId : Text
  lastMessageAt : Text
  lastSender : Text
deriving DecidableEq, Repr

def pairKey (o : Message) : Option (Text × Text) :=
  match groupKey viewer o with
  | (conversation,some other) =>
    if conversation = [] || other = [] then none else some (conversation,other)
  | (_,none) => none

def addConversation (map : JsMap (Text × Text) Conversation) (o : Message) :
    JsMap (Text × Text) Conversation :=
  match pairKey viewer o with
  | none => map
  | some key =>
    if map.has key then map else map.set key ⟨key.1,key.2,o.published,o.attributedTo⟩

def groupConversations (rows : List Message) : JsMap (Text × Text) Conversation :=
  rows.foldl (addConversation viewer) .empty

def conversationMap : JsMap (Text × Text) Conversation :=
  groupConversations viewer (dmObjects d viewer)

def unreadIncoming (baseline : Option Text → Text) (o : Message) : Bool :=
  o.direct && o.attributedTo ≠ viewer && o.addressees.contains viewer &&
    notBlocked d o.attributedTo &&
      unreadTalkObjectSql d viewer .user o.attributedTo (o.conversation.getD []) (some []) o
        (baseline (lastReadAt viewer d.dmReadStatus (o.conversation.getD [])))

/-- `COALESCE(NULLIF(last_read_at, ''), …)`. -/
def contactBaseline (lastReadAt : Option Text) : Text :=
  (lastReadAt.filter (· ≠ [])).getD epochStart

/-- `COALESCE(last_read_at, …)`. -/
def badgeBaseline (lastReadAt : Option Text) : Text := lastReadAt.getD epochStart

def senderKey (o : Message) : Text × Text := (o.conversation.getD [],o.attributedTo)

def unreadMessages (chunk : List (Text × Text)) : List ((Text × Text) × Nat) :=
  let rows := d.messages.filter fun o =>
    chunk.contains (senderKey o) && unreadIncoming d viewer contactBaseline o
  (rows.map senderKey).dedup.map fun key => (key,rows.countP fun o => senderKey o = key)

def addCount (counts : JsMap (Text × Text) Nat) (row : (Text × Text) × Nat) :
    JsMap (Text × Text) Nat :=
  if row.1.1 = [] then counts else counts.set row.1 row.2

def unreadCounts (pairs : List (Text × Text)) : JsMap (Text × Text) Nat :=
  ((chunkForInClause unreadChunk pairs).flatMap (unreadMessages d viewer)).foldl addCount .empty

structure UserContact where
  otherApId : Text
  conversationId : Text
  lastMessageAt : Text
  lastIsMine : Bool
  unreadCount : Nat
deriving DecidableEq, Repr

/-- The user entries of `GET /contacts`, but for their order. -/
def userContacts : List UserContact :=
  let conversations := (conversationMap d viewer).values
  let counts := unreadCounts d viewer (conversations.map fun c => (c.conversation,c.otherApId))
  conversations.map fun c =>
    ⟨c.otherApId,c.conversation,c.lastMessageAt,c.lastSender = viewer,
      (counts.get (c.conversation,c.otherApId)).getD 0⟩

def unreadChat (m : Member) (o : Message) : Bool :=
  o.audience.contains m.communityApId && o.type = .note && o.communityApId.isNone &&
    o.attributedTo ≠ viewer && notBlocked d o.attributedTo &&
      unreadTalkObjectSql d viewer .community m.communityApId m.communityApId m.joinedAt o
        (((lastReadAt viewer d.dmCommunityReadStatus m.communityApId).or m.joinedAt).getD
          epochStart)

def memberships : List Member := d.members.filter fun m => m.actorApId = viewer

def live (m : Member) : Bool :=
  d.communities.any fun c => c.apId = m.communityApId && c.deletedAt.isNone

structure CommunityContact where
  apId : Text
  unreadCount : Nat
deriving DecidableEq, Repr

def communityContacts : List CommunityContact :=
  ((memberships d viewer).filter (live d)).map fun m =>
    ⟨m.communityApId,d.messages.countP (unreadChat d viewer m)⟩

structure YurumeUnreadCounts where
  dm : Nat
  community : Nat
  total : Nat
deriving DecidableEq, Repr

def badgeUnread (o : Message) : Bool :=
  unreadIncoming d viewer badgeBaseline o &&
    !peerArchivedSql d viewer (some o.attributedTo) (o.conversation.getD [])

def yurumeUnreadCounts : YurumeUnreadCounts :=
  let dm := d.messages.countP (badgeUnread d viewer)
  let community :=
    ((memberships d viewer).map fun m => d.messages.countP (unreadChat d viewer m)).sum
  ⟨dm,community,dm + community⟩

end reads

end Yurucommu.TalkSurfaces
