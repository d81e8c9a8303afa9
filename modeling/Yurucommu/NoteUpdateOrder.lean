import Yurucommu.Machine
import Yurucommu.NoteUpdate
import Yurucommu.NumberedLog

/-!
Admission and application of the Updates of one Note by its actor. A worker reads the head,
the pending window, the object row and its recipients by one statement each, folds the
window, and commits by one guarded batch.
-/

set_option autoImplicit false

namespace Yurucommu.NoteUpdate

def maxPendingNoteUpdates : Nat := 16

/-- A row of `inbound_note_update_events`. A released event has no patch. -/
structure UpdateEvent where
  sequence : Nat
  activityApId : String
  actorApId : String
  objectApId : String
  patchJson : Option AdmittedNotePatch
deriving DecidableEq, Repr

/-- The row of `inbound_note_update_heads`. -/
structure Head where
  appliedSequence : Nat
  creationActivityApId : Option String
deriving DecidableEq, Repr

/-- The canonical actor and the Note, and the site they are on. -/
structure Subject where
  site : Site
  actor : String
  objectId : String

/-- What a worker makes of the projection it has read: the recipients that a Create puts right,
and the patches, each under the policies that its fold has read. -/
inductive Edit where
  | repaired (recipients : Finset Recipient)
  | patched (sequence : Nat) (policy : Policy) (patch : AdmittedNotePatch)

def Edit.apply (c : Subject) (n : NoteProjection) : Edit → NoteProjection
  | .repaired recipients => { n with recipients := recipients }
  | .patched _ policy patch => applyPatch c.site c.actor policy n patch

def Edit.admitted : Edit → Option (Nat × AdmittedNotePatch)
  | .repaired _ => none
  | .patched sequence _ patch => some (sequence,patch)

/-- `sequence` is the autoincrement of the events. The last three fields are history: the patches
admitted for this Note, the projection it was materialized with, and the edits committed. -/
structure Store where
  events : List UpdateEvent
  sequence : Nat
  head : Option Head
  row : Option NoteRow
  recipients : Finset Recipient
  admitted : List (Nat × AdmittedNotePatch)
  initial : Option NoteProjection
  log : List Edit

def Subject.owns (c : Subject) (e : UpdateEvent) : Bool :=
  e.actorApId = c.actor && e.objectApId = c.objectId

def Store.own (c : Subject) (s : Store) : List UpdateEvent := s.events.filter c.owns

def Store.applied (s : Store) : Nat := (s.head.map (·.appliedSequence)).getD 0

def Store.creation (s : Store) : Option String := s.head.bind (·.creationActivityApId)

/-- `COALESCE(MAX(sequence), 0)`. -/
def Store.latest (c : Subject) (s : Store) : Nat :=
  (s.own c).foldl (fun n e => max n e.sequence) 0

def Store.projection (s : Store) : Option NoteProjection :=
  s.row.map fun row => ⟨row,s.recipients⟩

def insertHead (s : Store) : Store := { s with head := some (s.head.getD ⟨0,none⟩) }

/-- The guard of `admitInboundNoteUpdate`; `notDeleted` is `inboundObjectNotDeletedSql`. -/
def mayAdmit (c : Subject) (activityId : String) (notDeleted : Bool) (s : Store) : Bool :=
  (s.events.all fun e => e.activityApId ≠ activityId || c.owns e) &&
    ((s.events.any fun e => e.activityApId = activityId) ||
      ((s.own c).countP fun e => s.applied < e.sequence) < maxPendingNoteUpdates) &&
    notDeleted

/-- `INSERT OR IGNORE` under the unique `activity_ap_id`. -/
def insertEvent (c : Subject) (activityId : String) (patch : AdmittedNotePatch) (s : Store) :
    Store :=
  if s.events.any fun e => e.activityApId = activityId then s
  else { s with
    events := s.events ++ [⟨s.sequence + 1,activityId,c.actor,c.objectId,some patch⟩]
    sequence := s.sequence + 1
    admitted := s.admitted ++ [(s.sequence + 1,patch)] }

def admitInboundNoteUpdate (c : Subject) (activityId : String) (patch : AdmittedNotePatch)
    (notDeleted : Bool) (s : Store) : Store :=
  if mayAdmit c activityId notDeleted s then insertEvent c activityId patch (insertHead s) else s

structure NoteUpdateWindow where
  applied : Nat
  latest : Nat
  creationActivityId : Option String
  events : List (Nat × Option AdmittedNotePatch)
deriving DecidableEq, Repr

def Store.pending (c : Subject) (applied : Nat) (s : Store) :
    List (Nat × Option AdmittedNotePatch) :=
  NumberedLog.after applied ((s.own c).map fun e => (e.sequence,e.patchJson))

def lastSequence (applied : Nat) (events : List (Nat × Option AdmittedNotePatch)) : Nat :=
  (events.getLast?.map Prod.fst).getD applied

/-- The end of `loadInboundNoteUpdateWindow`; none if there are too many events. -/
def windowOf (applied : Nat) (creation : Option String)
    (events : List (Nat × Option AdmittedNotePatch)) : Option NoteUpdateWindow :=
  if maxPendingNoteUpdates < events.length then none
  else some ⟨applied,lastSequence applied events,creation,events⟩

/-- Where a Note comes in; `direct` is `isDirectNote`. -/
inductive Entrance where
  | createInboundObject (recipient : String) (direct : Bool)
  | handleGroupCreate (community : String)
  | fetchAndPersistAnnouncedNote
deriving DecidableEq, Repr

def Entrance.admits (b : NoteProjection) : Entrance → Bool
  | .handleGroupCreate community =>
    b.row.visibility = .group && b.row.audienceJson = [community] && b.row.communityApId = none
  | _ => true

/-- The Note that is there with its recipients put right; `canView` is what
`canViewerReadObjectFull` says of the recipient. -/
def Entrance.repair (canView : Bool) (b : NoteProjection) : Entrance → NoteProjection
  | .createInboundObject recipient direct =>
    if direct && b.row.visibility = .direct && canView && ⟨recipient,"to"⟩ ∉ b.recipients then
      { b with recipients := insert ⟨recipient,"to"⟩ b.recipients }
    else b
  | .handleGroupCreate community => { b with recipients := {⟨community,"audience"⟩} }
  | .fetchAndPersistAnnouncedNote => b

/-- A fetch does not commit private reach. -/
def Entrance.commits (n : NoteProjection) : Entrance → Bool
  | .fetchAndPersistAnnouncedNote => n.row.visibility = .public_ || n.row.visibility = .unlisted
  | _ => true

/-- What a Create or a fetch would materialize; nothing for an Update. `activityId` is the
dispatch identity of a Create. -/
structure Creation where
  base : NoteProjection
  activityId : Option String
  entrance : Entrance

/-- The guard of `commitNoteProjection`; `admission` are the policies checked again and
`inboundObjectNotDeletedSql`. -/
def mayCommit (c : Subject) (before : Option NoteProjection) (w : NoteUpdateWindow)
    (admission : Bool) (s : Store) : Bool :=
  (match before with
    | none => s.row = none
    | some b => s.row = some b.row && s.recipients = b.recipients) &&
  admission && s.applied = w.applied && s.latest c = w.latest && s.creation = w.creationActivityId

def writeRecipients (stored recipients : Finset Recipient) : Finset Recipient :=
  (stored ∩ recipients) ∪ recipients.filter fun r =>
    ∀ k ∈ stored ∩ recipients, k.recipientApId ≠ r.recipientApId

/-- The statements of `inboundNoteUpdateCommitStatements` on the head. -/
def commitHead (before : Option NoteProjection) (activityId : Option String)
    (w : NoteUpdateWindow) (head : Option Head) : Head :=
  let head := head.getD ⟨0,none⟩
  { appliedSequence := if head.appliedSequence = w.applied then w.latest else head.appliedSequence
    creationActivityApId :=
      if before = none ∧ head.creationActivityApId = w.creationActivityId then activityId
      else head.creationActivityApId }

def releaseEvent (c : Subject) (w : NoteUpdateWindow) (e : UpdateEvent) : UpdateEvent :=
  if c.owns e = true ∧ w.applied < e.sequence ∧ e.sequence ≤ w.latest then
    { e with patchJson := none }
  else e

def commitBatch (c : Subject) (before : Option NoteProjection) (source after : NoteProjection)
    (activityId : Option String) (w : NoteUpdateWindow) (s : Store) : Store :=
  { s with
    row := some after.row
    recipients := writeRecipients s.recipients after.recipients
    head := some (commitHead before activityId w s.head)
    events := s.events.map (releaseEvent c w)
    initial := if before = none then some source else s.initial }

def sameIdentity (c : Subject) (before : Option NoteProjection) (after : NoteProjection) : Bool :=
  after.row.type = "Note" && after.row.apId = c.objectId &&
    isSameActivityPubActor c.site after.row.attributedTo c.actor &&
    match before with
    | none => after.row.isLocal = 0
    | some b =>
      b.row.apId = after.row.apId && b.row.type = "Note" &&
        b.row.attributedTo = after.row.attributedTo && b.row.isLocal = after.row.isLocal &&
        b.row.deletedAt = after.row.deletedAt && b.row.published = after.row.published &&
        isSameActivityPubActor c.site b.row.attributedTo c.actor

/-- A call of `admitInboundNoteUpdate`, or a worker between two of its statements. -/
inductive Worker where
  | admitUpdate (activityId : String) (patch : AdmittedNotePatch)
  | start (creation : Option Creation)
  | events (creation : Option Creation) (applied : Nat) (creationActivityId : Option String)
  | row (creation : Option Creation) (window : NoteUpdateWindow)
  | recipients (creation : Option Creation) (window : NoteUpdateWindow) (row : NoteRow)
  /-- `edits` is history: what has been made of `before`, or of `source` where nothing was there. -/
  | folding (before : Option NoteProjection) (source : NoteProjection)
      (creation : Option Creation) (window : NoteUpdateWindow)
      (rest : List (Nat × Option AdmittedNotePatch)) (projected : NoteProjection)
      (edits : List Edit)
  | done

/-- The policies at the time of a step, whether they still hold at the commit, and whether the
recipient of a Create may read the Note that is there. -/
structure Answer where
  policy : Policy
  admission : Bool
  canView : Bool

def repairs (b source : NoteProjection) : List Edit :=
  if source.recipients = b.recipients then [] else [.repaired source.recipients]

def plan (c : Subject) (canView : Bool) (creation : Option Creation) (w : NoteUpdateWindow)
    (before : Option NoteProjection) : Worker :=
  match before, creation with
  | none, none => .done
  | none, some create =>
    if create.activityId ≠ none ∧ w.creationActivityId = create.activityId then .done
    else .folding none create.base (some create) w w.events create.base []
  | some b, none =>
    if b.row.type ≠ "Note" ∨ isSameActivityPubActor c.site b.row.attributedTo c.actor = false then
      .done
    else .folding (some b) b none w w.events b []
  | some b, some create =>
    if b.row.type ≠ "Note" ∨ b.row.isLocal ≠ 0 ∨ b.row.deletedAt ≠ none ∨
        isSameActivityPubActor c.site b.row.attributedTo c.actor = false ∨
        create.entrance.admits b = false then .done
    else
      let source := create.entrance.repair canView b
      .folding (some b) source (some create) w w.events source (repairs b source)

/-- `decodeNoteUpdatePatch`; none where it throws. -/
def decodeNoteUpdatePatch (c : Subject) (patchJson : Option AdmittedNotePatch) :
    Option AdmittedNotePatch := patchJson.filter c.site.decodable

def work (c : Subject) (i : Answer) (_ : Nat) (s : Store) : Worker → Store × Worker
  | .admitUpdate activityId patch => (admitInboundNoteUpdate c activityId patch i.admission s, .done)
  | .start creation => (s, .events creation s.applied s.creation)
  | .events creation applied creationActivityId =>
    match windowOf applied creationActivityId
        ((s.pending c applied).take (maxPendingNoteUpdates + 1)) with
    | none => (s, .done)
    | some window => (s, .row creation window)
  | .row creation window =>
    match s.row with
    | none => (s, plan c i.canView creation window none)
    | some row => (s, .recipients creation window row)
  | .recipients creation window row =>
    (s, plan c i.canView creation window (some ⟨row,s.recipients⟩))
  | .folding before source creation window (event :: rest) projected edits =>
    match decodeNoteUpdatePatch c event.2 with
    | none => (s, .done)
    | some patch =>
      (s, .folding before source creation window rest
        (applyPatch c.site c.actor i.policy projected patch)
        (edits ++ [.patched event.1 i.policy patch]))
  | .folding before source creation window [] projected edits =>
    if creation.all (·.entrance.commits projected) = true ∧
        sameIdentity c before projected = true ∧
        mayCommit c before window i.admission s = true then
      ({ commitBatch c before source projected (creation.bind (·.activityId)) window s with
          log := s.log ++ edits }, .done)
    else (s, .done)
  | .done => (s, .done)

def allowed (_ : Answer) (_ : Store) : Worker → Bool
  | .done => false
  | _ => true

/-- An Update of another Note, or by another actor, is admitted. -/
def elsewhere (c : Subject) (e : UpdateEvent) (s : Store) : Bool :=
  !c.owns e && e.sequence = s.sequence + 1 && s.events.all fun f => f.activityApId ≠ e.activityApId

def threads (c : Subject) : Threads Store Worker Answer UpdateEvent :=
  .guarded allowed (work c) (elsewhere c)
    fun e s => { s with events := s.events ++ [e], sequence := e.sequence }

abbrev Pool := Threads.Pool Store Worker

abbrev Label := Threads.Label Answer UpdateEvent

abbrev machine (c : Subject) : Machine Pool Label := (threads c).machine

/-- What is to come: admissions, Updates, and Creates and fetches that materialize as the
handlers do. -/
inductive Worker.Entry : Worker → Prop where
  | admitUpdate (activityId : String) (patch : AdmittedNotePatch) :
      Worker.Entry (.admitUpdate activityId patch)
  | update : Worker.Entry (.start none)
  | create (create : Creation) (h : create.base.Addressed) :
      Worker.Entry (.start (some create))

/-- No Update of the Note has been admitted; the Note may be there already. -/
structure Start (c : Subject) (s : Pool) : Prop where
  own : s.store.own c = []
  head : s.store.head = none
  admitted : s.store.admitted = []
  initial : s.store.initial = s.store.projection
  log : s.store.log = []
  addressed : ∀ n, s.store.projection = some n → n.Addressed
  entry : ∀ p, (s.thread p).Entry

end Yurucommu.NoteUpdate
