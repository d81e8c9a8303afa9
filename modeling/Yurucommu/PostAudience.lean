import Yurucommu.Machine
import Yurucommu.Table
import Yurucommu.Whatwg

/-!
Where the edits and deletions of local objects are sent: the writers of posts, direct messages,
community chat messages and Stories, and PATCH, DELETE and the tool's delete of any object of the
author. What has been recorded stays in the lists of fan-outs and deliveries.
-/

set_option autoImplicit false

namespace Yurucommu.PostAudience

open Whatwg (Text)

inductive Visibility where
  | pub | unlisted | followers | direct
deriving DecidableEq, Repr

inductive ObjectType where
  | note | story
deriving DecidableEq, Repr

structure Tag where
  type : Text
  href : Text
  name : Text
deriving DecidableEq, Repr

structure Object where
  apId : Text
  type : ObjectType := .note
  attributedTo : Text
  content : Text := []
  summary : Option Text := none
  inReplyTo : Option Text := none
  visibility : Visibility := .pub
  toJson : List Text := []
  ccJson : List Text := []
  audienceJson : List Text := []
  tags : List Tag := []
  communityApId : Option Text := none
deriving DecidableEq, Repr

inductive ActivityType where
  | create | update | delete | announce
deriving DecidableEq, Repr

/-- An outbound activity; its object by its id and what it says of it. -/
structure Activity where
  type : ActivityType
  actorApId : Text
  objectApId : Text
  toIris : List Text
  ccIris : List Text
  audience : List Text := []
  content : Option Text := none
  summary : Option Text := none
  tags : List Tag := []
deriving DecidableEq, Repr

inductive FanoutKind where
  | followers | community
deriving DecidableEq, Repr

/-- A durable fan-out intent, with the activities that it names. -/
structure Fanout where
  kind : FanoutKind
  activity : Activity
  targetApId : Text
  announce : Option Activity := none
deriving DecidableEq, Repr

structure Delivery where
  activity : Activity
  recipient : Text
deriving DecidableEq, Repr

structure Db where
  objects : List Object
  activities : List Activity
  fanouts : List Fanout
  deliveries : List Delivery
deriving DecidableEq, Repr

structure Site where
  isLocal : Text → Bool
  isSafeRemoteUrl : Text → Bool
  objectApId : Text → Text
  /-- The path of the ids that older versions of the tool gave out. -/
  noteApId : Text → Text
  formatUsername : Text → Text

structure CommunityTarget where
  apId : Text
  followersUrl : Text
deriving DecidableEq, Repr

/-- `CreatedPostFederationInput`, of POST /posts and of the tool. -/
structure PostInput where
  actorApId : Text
  objectApId : Text
  content : Text
  summary : Option Text
  inReplyTo : Option Text
  parentAuthor : Option Text
  visibility : Visibility
  community : Option CommunityTarget
deriving DecidableEq, Repr

structure Mentions where
  tags : List Tag := []
  mentionedActorApIds : List Text := []
  remoteMentionedActorApIds : List Text := []
deriving DecidableEq, Repr

section addressing

def publicUrl : Text := "https://www.w3.org/ns/activitystreams#Public".toList

def followersOf (actorApId : Text) : Text := actorApId ++ "/followers".toList

def mergeCc (cc extra : List Text) : List Text :=
  extra.foldl (fun out iri =>
    if 0 < iri.length && !out.any (· = iri) then out ++ [iri] else out) cc

def buildAddressing (visibility : Visibility) (followersUrl : Text) : List Text × List Text :=
  match visibility with
  | .pub => ([publicUrl],[followersUrl])
  | .unlisted => ([followersUrl],[publicUrl])
  | .followers => ([followersUrl],[])
  | .direct => ([],[])

def buildCommunityObjectAddressing (visibility : Visibility) (community : CommunityTarget) :
    List Text × List Text × List Text :=
  ([community.apId,community.followersUrl],
    match visibility with
    | .pub | .unlisted => [publicUrl]
    | _ => [],
    [community.apId])

end addressing

structure Prepared where
  activities : List Activity
  fanouts : List Fanout
deriving DecidableEq, Repr

section fanout

def preparePersistAndFanout (a : Activity) : Prepared := ⟨[a],[⟨.followers,a,a.actorApId,none⟩]⟩

/-- `row` is the visibility of the community's row, as whether it is public. -/
def preparePersistAndFanoutToCommunity (a : Activity) (communityApId : Text) (row : Option Bool) :
    Prepared :=
  if a.type = .create then
    match row with
    | none => ⟨[a],[]⟩
    | some isPublicCommunity =>
      let announce := if isPublicCommunity then
          some ⟨.announce,communityApId,a.objectApId,[followersOf communityApId],[publicUrl],[],
            none,none,[]⟩
        else none
      ⟨a :: announce.toList,[⟨.community,a,communityApId,announce⟩]⟩
  else ⟨[a],[⟨.community,a,communityApId,none⟩]⟩

def commit (p : Prepared) (d : Db) : Db :=
  { d with activities := d.activities ++ p.activities, fanouts := d.fanouts ++ p.fanouts }

def enqueue (a : Activity) (recipients : List Text) (d : Db) : Db :=
  { d with deliveries := d.deliveries ++ recipients.map fun recipient => ⟨a,recipient⟩ }

def insertObject (o : Object) (d : Db) : Db := { d with objects := d.objects ++ [o] }

end fanout

section writers

variable (w : Site)

/-- The parent's author where a reply mentions them by replying alone. -/
def replyRecipient (input : PostInput) (mentioned : List Text) : Option Text :=
  if input.inReplyTo.isSome && input.visibility ≠ .direct then
    input.parentAuthor.filter fun author =>
      0 < author.length && author ≠ input.actorApId && !mentioned.any (· = author)
  else none

def postAddressing (input : PostInput) (recipients : List Text) :
    List Text × List Text × List Text :=
  let (toIris,ccIris,audience) :=
    if input.visibility = .direct then ([],[],[])
    else
      match input.community with
      | some community => buildCommunityObjectAddressing input.visibility community
      | none =>
        ((buildAddressing input.visibility (followersOf input.actorApId)).1,
          (buildAddressing input.visibility (followersOf input.actorApId)).2,[])
  (toIris,mergeCc ccIris recipients,audience)

def createPost (input : PostInput) (mentions : Mentions) (row : Option Bool) (d : Db) : Db :=
  let parent := replyRecipient input mentions.mentionedActorApIds
  let recipients := mentions.mentionedActorApIds ++ parent.toList
  let remoteRecipients := mentions.remoteMentionedActorApIds ++
    (parent.filter fun author => !w.isLocal author).toList
  let tags := mentions.tags ++ parent.toList.map fun author =>
    ⟨"Mention".toList,author,'@' :: w.formatUsername author⟩
  let (toIris,ccIris,audience) := postAddressing input recipients
  let create : Activity :=
    ⟨.create,input.actorApId,input.objectApId,toIris,ccIris,audience,some input.content,
      input.summary,tags⟩
  let prepared : Prepared :=
    if input.visibility = .direct then
      if mentions.mentionedActorApIds = [] then ⟨[],[]⟩ else ⟨[create],[]⟩
    else
      match input.community with
      | some community => preparePersistAndFanoutToCommunity create community.apId row
      | none => preparePersistAndFanout create
  enqueue create remoteRecipients.eraseDups
    (commit prepared
      (insertObject
        { apId := input.objectApId, attributedTo := input.actorApId, content := input.content
          summary := input.summary, inReplyTo := input.inReplyTo, visibility := input.visibility
          toJson := toIris, ccJson := ccIris, audienceJson := audience, tags := tags
          communityApId := input.community.map (·.apId) } d))

/-- A direct message; its own delivery is left out. -/
def createDm (actorApId objectApId content recipient : Text) (d : Db) : Db :=
  insertObject
    { apId := objectApId, attributedTo := actorApId, content := content, visibility := .direct
      toJson := [recipient] } d

def createChat (actorApId objectApId content community : Text) (d : Db) : Db :=
  insertObject
    { apId := objectApId, attributedTo := actorApId, content := content, visibility := .unlisted
      toJson := [community], audienceJson := [community] } d

def createStory (actorApId objectApId : Text) (community : Option CommunityTarget) (d : Db) : Db :=
  let create : Activity :=
    ⟨.create,actorApId,objectApId,
      [(community.map (·.followersUrl)).getD (followersOf actorApId)],[],[],none,none,[]⟩
  let fanout : Fanout :=
    match community with
    | some community => ⟨.community,create,community.apId,none⟩
    | none => ⟨.followers,create,actorApId,none⟩
  commit ⟨[create],[fanout]⟩
    (insertObject
      { apId := objectApId, type := .story, attributedTo := actorApId
        communityApId := community.map (·.apId) } d)

end writers

/-- What a valid body of PATCH asks for: the trimmed texts, and the tags of the next content. -/
structure Edit where
  content : Option Text
  summary : Option Text
  tags : List Tag
deriving DecidableEq, Repr

section handlers

variable (w : Site)

def postWhereByIdOrApId (postId : Text) (o : Object) : Bool :=
  o.apId = w.objectApId postId || o.apId = postId

def toolPostWhereByIdOrApId (postId : Text) (o : Object) : Bool :=
  o.apId = postId || o.apId = w.objectApId postId || o.apId = w.noteApId postId

def applyEdit (edit : Edit) (o : Object) : Object :=
  { o with
    content := edit.content.getD o.content
    summary := if edit.summary.isSome then edit.summary.filter (0 < ·.length) else o.summary
    tags := if edit.content.isSome then edit.tags else o.tags }

def patch (actorApId : Text) (post : Object) (edit : Edit) (d : Db) : Db :=
  let next := applyEdit edit post
  let update : Activity :=
    ⟨.update,actorApId,post.apId,post.toJson,post.ccJson,post.audienceJson,some next.content,
      next.summary,edit.tags⟩
  commit
    (match post.communityApId with
    | some community => preparePersistAndFanoutToCommunity update community none
    | none => preparePersistAndFanout update)
    { d with
      objects := Table.update (fun o => o.apId = post.apId) (applyEdit edit) d.objects }

def isExplicitRecipient (iri : Text) : Bool :=
  0 < iri.length && iri ≠ publicUrl && !"/followers".toList.isSuffixOf iri && !w.isLocal iri &&
    w.isSafeRemoteUrl iri

def parentAuthor (post : Object) (d : Db) : Option Text :=
  post.inReplyTo.bind fun parent =>
    (d.objects.find? fun o => o.apId = parent).map (·.attributedTo)

def explicitRecipients (post : Object) (d : Db) : List Text :=
  ((post.toJson ++ post.ccJson).filter (isExplicitRecipient w) ++
    ((parentAuthor post d).filter fun author =>
      0 < author.length && !w.isLocal author && w.isSafeRemoteUrl author).toList).eraseDups

def deletePost (actorApId : Text) (post : Object) (d : Db) : Db :=
  let delete : Activity := ⟨.delete,actorApId,post.apId,post.toJson,post.ccJson,[],none,none,[]⟩
  enqueue delete (explicitRecipients w post d)
    (commit
      (if post.visibility = .direct then ⟨[delete],[]⟩
      else
        match post.communityApId with
        | some community => preparePersistAndFanoutToCommunity delete community none
        | none => preparePersistAndFanout delete)
      { d with objects := Table.delete (fun o => o.apId = post.apId) d.objects })

/-- `receive` is an object of another server, and `remove` any other end of an object. -/
inductive Op where
  | createPost (input : PostInput) (mentions : Mentions) (row : Option Bool)
  | createDm (actorApId objectApId content recipient : Text)
  | createChat (actorApId objectApId content community : Text)
  | createStory (actorApId objectApId : Text) (community : Option CommunityTarget)
  | patch (actorApId postId : Text) (edit : Edit)
  | delete (actorApId postId : Text)
  | toolDelete (actorApId postId : Text)
  | receive (o : Object)
  | remove (apId : Text)
deriving DecidableEq, Repr

def target (d : Db) : Op → Option Object
  | .patch actorApId postId edit =>
    if edit.content.isSome || edit.summary.isSome then
      (d.objects.find? (postWhereByIdOrApId w postId)).filter (·.attributedTo = actorApId)
    else none
  | .delete actorApId postId =>
    (d.objects.find? (postWhereByIdOrApId w postId)).filter (·.attributedTo = actorApId)
  | .toolDelete actorApId postId =>
    d.objects.find? fun o => toolPostWhereByIdOrApId w postId o && o.attributedTo = actorApId
  | _ => none

/-- A new id is one that no object and no fan-out has. -/
def fresh (apId : Text) (d : Db) : Bool :=
  !d.objects.any (fun o => o.apId = apId) && !d.fanouts.any fun x => x.activity.objectApId = apId

def step : Op → Db → Option Db
  | .createPost input mentions row,d =>
    if w.isLocal input.actorApId && fresh input.objectApId d then
      some (createPost w input mentions row d)
    else none
  | .createDm actorApId objectApId content recipient,d =>
    if w.isLocal actorApId && fresh objectApId d then
      some (createDm actorApId objectApId content recipient d)
    else none
  | .createChat actorApId objectApId content community,d =>
    if w.isLocal actorApId && fresh objectApId d then
      some (createChat actorApId objectApId content community d)
    else none
  | .createStory actorApId objectApId community,d =>
    if w.isLocal actorApId && fresh objectApId d then
      some (createStory actorApId objectApId community d)
    else none
  | .patch actorApId postId edit,d =>
    if w.isLocal actorApId then
      (target w d (.patch actorApId postId edit)).map fun post => patch actorApId post edit d
    else none
  | .delete actorApId postId,d =>
    if w.isLocal actorApId then
      (target w d (.delete actorApId postId)).map fun post => deletePost w actorApId post d
    else none
  | .toolDelete actorApId postId,d =>
    if w.isLocal actorApId then
      (target w d (.toolDelete actorApId postId)).map fun post => deletePost w actorApId post d
    else none
  | .receive o,d =>
    if !w.isLocal o.attributedTo && fresh o.apId d then some (insertObject o d) else none
  | .remove apId,d => some { d with objects := Table.delete (fun o => o.apId = apId) d.objects }

def machine : Machine Db Op := ⟨step w⟩

end handlers

end Yurucommu.PostAudience
