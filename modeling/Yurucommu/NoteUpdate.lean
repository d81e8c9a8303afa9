import Mathlib.Data.Finset.Image
import Mathlib.Data.Finset.Union
import Mathlib.Data.Finset.Insert

/-!
A remote Note as the object row and its recipient rows, the patch of an admitted Update,
and what the patch makes of the Note under the policies that hold when it is applied.
-/

set_option autoImplicit false

namespace Yurucommu.NoteUpdate

inductive Visibility where
  | public_ | unlisted | followers | direct | group
deriving DecidableEq, Repr

structure Recipient where
  recipientApId : String
  type : String
deriving DecidableEq, Repr

/-- The columns of `objects` that a Note projection has. A JSON column of addresses is the
list it encodes. -/
structure NoteRow where
  apId : String
  type : String
  attributedTo : String
  isLocal : Nat
  deletedAt : Option String
  content : String
  summary : Option String
  attachmentsJson : String
  tagsJson : String
  inReplyTo : Option String
  conversation : Option String
  visibility : Visibility
  toJson : List String
  ccJson : List String
  audienceJson : List String
  communityApId : Option String
  published : String
  updated : Option String
  endTime : Option String
deriving DecidableEq, Repr

structure NoteProjection where
  row : NoteRow
  recipients : Finset Recipient
deriving DecidableEq

structure Addressing where
  to_ : List String
  cc : List String
  bto : List String
  bcc : List String
deriving DecidableEq, Repr

def Addressing.all (a : Addressing) : List String := a.to_ ++ a.cc ++ a.bto ++ a.bcc

/-- A field that is absent stays as it is; one that is `some none` is cleared. -/
structure AdmittedNotePatch where
  content : Option String := none
  summary : Option (Option String) := none
  attachmentsJson : Option String := none
  tagsJson : Option String := none
  addressing : Option Addressing := none
  audience : Option (List String) := none
  inReplyTo : Option (Option String) := none
  room : Option String := none
deriving DecidableEq, Repr

structure Community where
  apId : String
  preferredUsername : String
  followersUrl : String
deriving DecidableEq, Repr

/-- What the policy reads find when a patch is applied, and the time. `scope` is none
where `resolveInboundCommunityScope` does not allow the audience. -/
structure Policy where
  ownerSuppresses : Bool
  community : String → Option Community
  mayPost : Community → Bool
  scope : List String → Option (Option String)
  parentAllowed : Option String → Bool
  now : String

/-- `normalize` is `normalizeActivityPubActorId`, `decodable` what `decodeNoteUpdatePatch`
accepts. -/
structure Site where
  normalize : String → Option String
  conversationId : String → String → String
  decodable : AdmittedNotePatch → Bool

def isSameActivityPubActor (c : Site) (left right : String) : Bool :=
  left ≠ "" && right ≠ "" &&
    (left = right || ((c.normalize left).isSome && c.normalize left = c.normalize right))

def isPublicCollection (address : String) : Bool :=
  address = "https://www.w3.org/ns/activitystreams#Public" || address = "as:Public" ||
    address = "Public"

def addressesPublic (addresses : List String) : Bool := addresses.any isPublicCollection

def isFollowersAddress (address : String) : Bool := address.endsWith "/followers"

def noteVisibility (a : Addressing) : Visibility :=
  if addressesPublic a.to_ then .public_
  else if addressesPublic a.cc then .unlisted
  else if addressesPublic a.all then .public_
  else if a.all.any isFollowersAddress then .followers
  else .direct

def noteSpecificRecipients (a : Addressing) : List String :=
  a.all.eraseDups.filter fun address =>
    !addressesPublic [address] && !isFollowersAddress address

def roomId (room : String) : Option String :=
  let segment := (room.toList.reverse.takeWhile (· ≠ '/')).reverse
  let rest := room.toList.take (room.toList.length - segment.length)
  if segment ≠ [] ∧ "/ap/rooms/".toList.isSuffixOf rest = true then some (String.ofList segment)
  else none

/-- A group Note keeps its room, its reach and its thread. -/
def groupAllows (p : Policy) (source : NoteProjection) (patch : AdmittedNotePatch) : Bool :=
  match source.row.audienceJson.eraseDups with
  | [audience] =>
    match p.community audience with
    | none => false
    | some community =>
      p.mayPost community &&
      patch.audience.all (fun audience => audience = [community.apId]) &&
      patch.addressing.all (fun a => a.all.all fun address =>
        address = community.apId || address = community.followersUrl) &&
      patch.room.all (fun room => room = "" ||
        (roomId room).any fun room =>
          room = community.preferredUsername || room = community.apId) &&
      patch.inReplyTo.all (fun parent => parent = source.row.inReplyTo)
  | _ => false

def scopeOf (p : Policy) (source : NoteProjection) (patch : AdmittedNotePatch) :
    Option (Option String) :=
  if patch.room.isSome then none
  else
    match patch.audience with
    | some audience => p.scope audience
    | none =>
      let scope := match source.row.communityApId with
        | none => some none
        | some community => if community = "" then some none else p.scope [community]
      if scope = some source.row.communityApId then scope else none

/-- The community of the Note after the patch; none if a policy rejects the patch. -/
def communityOf (p : Policy) (source : NoteProjection) (patch : AdmittedNotePatch) :
    Option (Option String) :=
  if source.row.visibility = .group then
    if groupAllows p source patch then some source.row.communityApId else none
  else scopeOf p source patch

def parentAllows (p : Policy) (source : NoteProjection) (patch : AdmittedNotePatch) : Bool :=
  patch.inReplyTo.all fun parent => parent ≠ some source.row.apId && p.parentAllowed parent

def patchRow (c : Site) (p : Policy) (actor : String) (communityApId : Option String)
    (patch : AdmittedNotePatch) (row : NoteRow) : NoteRow :=
  let row := { row with
    communityApId := communityApId
    content := patch.content.getD row.content
    summary := patch.summary.getD row.summary
    attachmentsJson := patch.attachmentsJson.getD row.attachmentsJson
    tagsJson := patch.tagsJson.getD row.tagsJson
    inReplyTo := patch.inReplyTo.getD row.inReplyTo
    updated := some p.now }
  if row.visibility = .group then row
  else
    let row := match patch.addressing with
      | none => row
      | some a => { row with
        visibility := noteVisibility a
        toJson := a.to_
        ccJson := a.cc
        conversation :=
          match noteVisibility a, noteSpecificRecipients a with
          | .direct, [recipient] => some (c.conversationId actor recipient)
          | _, _ => none }
    { row with audienceJson := patch.audience.getD row.audienceJson }

def patchRecipients (patch : AdmittedNotePatch) (source : NoteProjection) : Finset Recipient :=
  if source.row.visibility = .group then source.recipients
  else
    match patch.addressing with
    | none => source.recipients
    | some a => (source.recipients.filter fun r => r.type ≠ "to") ∪
        (noteSpecificRecipients a).toFinset.image fun recipientApId => ⟨recipientApId,"to"⟩

def projectAdmittedNotePatch (c : Site) (p : Policy) (actor : String) (source : NoteProjection)
    (patch : AdmittedNotePatch) : Option NoteProjection :=
  if source.row.type ≠ "Note" ∨ source.row.deletedAt ≠ none ∨
      isSameActivityPubActor c source.row.attributedTo actor = false ∨
      p.ownerSuppresses = true then none
  else
    match communityOf p source patch with
    | none => none
    | some communityApId =>
      if parentAllows p source patch then
        some ⟨patchRow c p actor communityApId patch source.row,patchRecipients patch source⟩
      else none

/-- One step of `foldAdmittedNoteUpdates`: a patch that a policy rejects changes nothing. -/
def applyPatch (c : Site) (actor : String) (p : Policy) (source : NoteProjection)
    (patch : AdmittedNotePatch) : NoteProjection :=
  (projectAdmittedNotePatch c p actor source patch).getD source

/-- One row for each recipient, and no Note but a group Note has another recipient than
those it is addressed to. -/
structure NoteProjection.Addressed (n : NoteProjection) : Prop where
  distinct : ∀ r ∈ n.recipients, ∀ r' ∈ n.recipients,
    r.recipientApId = r'.recipientApId → r = r'
  addressed : n.row.visibility ≠ .group → ∀ r ∈ n.recipients, r.type = "to"

theorem noteVisibility_ne_group (a : Addressing) : noteVisibility a ≠ .group := by
  unfold noteVisibility
  repeat' split
  all_goals decide

theorem patchRow_group_iff (c : Site) (p : Policy) (actor : String) (communityApId : Option String)
    (patch : AdmittedNotePatch) (row : NoteRow) :
    (patchRow c p actor communityApId patch row).visibility = .group ↔
      row.visibility = .group := by
  unfold patchRow
  by_cases hg : row.visibility = .group
  · simp [hg]
  · cases ha : patch.addressing with
    | none => simp [hg]
    | some a => simp [hg,noteVisibility_ne_group a]

theorem addressed_patch {c : Site} {p : Policy} {actor : String} {communityApId : Option String}
    {patch : AdmittedNotePatch} {source : NoteProjection} (h : source.Addressed) :
    (NoteProjection.mk (patchRow c p actor communityApId patch source.row)
      (patchRecipients patch source)).Addressed := by
  by_cases hg : source.row.visibility = .group
  · have hsame : patchRecipients patch source = source.recipients := if_pos hg
    rw [hsame]
    refine ⟨h.distinct,fun hne => ?_⟩
    exact absurd ((patchRow_group_iff c p actor communityApId patch source.row).mpr hg) hne
  · have all : ∀ r ∈ patchRecipients patch source, r.type = "to" := by
      intro r hr
      rw [patchRecipients,if_neg hg] at hr
      cases ha : patch.addressing with
      | none =>
        rw [ha] at hr
        exact h.addressed hg r hr
      | some a =>
        rw [ha] at hr
        rcases Finset.mem_union.mp hr with hr | hr
        · exact h.addressed hg r (Finset.mem_filter.mp hr).1
        · obtain ⟨_,_,rfl⟩ := Finset.mem_image.mp hr
          rfl
    refine ⟨fun r hr r' hr' hid => ?_,fun _ => all⟩
    cases r
    cases r'
    simp only [Recipient.mk.injEq]
    exact ⟨hid,(all _ hr).trans (all _ hr').symm⟩

theorem addressed_applyPatch {c : Site} {actor : String} {p : Policy} {source : NoteProjection}
    {patch : AdmittedNotePatch} (h : source.Addressed) :
    (applyPatch c actor p source patch).Addressed := by
  unfold applyPatch projectAdmittedNotePatch
  split
  · exact h
  · split
    · exact h
    · split
      · exact addressed_patch h
      · exact h

end Yurucommu.NoteUpdate
