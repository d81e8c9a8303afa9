import Yurucommu.Machine

/-!
The observed read receipts of one viewer in one chat: the mode row of the viewer and the peer or
community, the receipts, the legacy read timestamps, and the three writes, each one batch.
-/

set_option autoImplicit false

namespace Yurucommu.TalkReads

structure TalkObject where
  apId : String
  type : String
  deletedAt : Option String
  attributedTo : String
  visibility : String
  conversation : Option String
  communityApId : Option String
  published : String
  /-- The rows of `object_recipients`, with their type. -/
  recipients : List (String × String)
deriving DecidableEq, Repr

inductive Kind where
  | user | community
deriving DecidableEq, Repr

/-- The key of the mode row. -/
structure Chat where
  viewer : String
  kind : Kind
  target : String
deriving DecidableEq, Repr

/-- The rest of a `TalkReadScope`: the resolved conversation and the membership epoch. -/
structure Thread where
  thread : String
  epoch : String
deriving DecidableEq, Repr

/-- The last two fields are history: the threads that have been initialized, and for each
object what marked it read in which thread. -/
structure Store where
  objects : List TalkObject
  blocked : List String
  viewerPresent : Bool
  targetKnown : Bool
  communityPresent : Bool
  joinedAt : Option String
  dmReadStatus : String → Option String
  dmCommunityReadStatus : Option String
  mode : Option Thread
  reads : List (Thread × String)
  initialized : List Thread
  marked : List (Thread × String)

def TalkObject.hasRecipient (o : TalkObject) (actor type : String) : Bool :=
  o.recipients.contains (actor,type)

def objectReadable (c : Chat) (thread : String) (blocked : List String) (o : TalkObject) : Bool :=
  o.type = "Note" && o.deletedAt.isNone && !blocked.contains o.attributedTo &&
    match c.kind with
    | .user =>
      o.visibility = "direct" && o.conversation = some thread &&
        ((o.attributedTo = c.target && o.hasRecipient c.viewer "to") ||
          (o.attributedTo = c.viewer && o.hasRecipient c.target "to"))
    | .community => o.communityApId.isNone && o.hasRecipient c.target "audience"

/-- The objects a statement with this scope selects. -/
def readable (c : Chat) (k : Thread) (s : Store) : List TalkObject :=
  s.objects.filter (objectReadable c k.thread s.blocked)

def scopeAuthorized (c : Chat) (k : Thread) (s : Store) : Bool :=
  s.viewerPresent &&
    match c.kind with
    | .user => !s.blocked.contains c.target && (s.targetKnown || !(readable c k s).isEmpty)
    | .community => s.communityPresent && s.joinedAt = some k.epoch

def observedModeExists (k : Thread) (s : Store) : Bool := s.mode = some k

def ambiguousLegacyThread (c : Chat) (k : Thread) (s : Store) : Bool :=
  match c.kind with
  | .user =>
    s.objects.any fun o =>
      o.visibility = "direct" && o.type = "Note" && o.conversation = some k.thread &&
        ((o.attributedTo ≠ c.viewer && o.attributedTo ≠ c.target && o.hasRecipient c.viewer "to") ||
          (o.attributedTo = c.viewer &&
            o.recipients.any fun p => p.2 = "to" && p.1 ≠ c.viewer && p.1 ≠ c.target))
  | .community => false

def legacyBaseline (c : Chat) (k : Thread) (s : Store) : String :=
  match c.kind with
  | .user => (s.dmReadStatus k.thread).getD "1970-01-01T00:00:00Z"
  | .community => s.dmCommunityReadStatus.getD k.epoch

/-- One statement of a batch; `none` is a failed `CHECK`. -/
abbrev Write := Store → Option Store

def assertion (condition : Store → Bool) : Write := fun s => if condition s then some s else none

/-- Rows that are there already stay as they are. -/
def addNew {α : Type} [DecidableEq α] (old new : List α) : List α :=
  old ++ new.filter fun x => !old.contains x

def receipts (k : Thread) (objects : List TalkObject) : List (Thread × String) :=
  objects.map fun o => (k,o.apId)

def insertReads (c : Chat) (k : Thread) (condition : Store → TalkObject → Bool) : Write := fun s =>
  some { s with reads := addNew s.reads (receipts k ((readable c k s).filter (condition s))) }

def checkedBatch (statements : List Write) (s : Store) : Option Store :=
  statements.foldlM (fun s f => f s) s

def upsertMode (k : Thread) (mode : Option Thread) : Thread :=
  match mode with
  | none => k
  | some m => if m.thread ≠ k.thread ∨ m.epoch ≠ k.epoch then k else m

def observedInitialization (c : Chat) (k : Thread) (when : Store → Bool) : List Write :=
  [insertReads c k fun s o =>
      when s && !observedModeExists k s && o.published ≤ legacyBaseline c k s,
    fun s => some (if when s then { s with mode := some (upsertMode k s.mode) } else s)]

def initializeObservedReads (c : Chat) (k : Thread) : Store → Option Store :=
  checkedBatch <|
    assertion (scopeAuthorized c k) :: observedInitialization c k (fun _ => true) ++
      [assertion fun s => scopeAuthorized c k s && observedModeExists k s]

def acknowledged (c : Chat) (k : Thread) (ids : List String) (s : Store) : Bool :=
  scopeAuthorized c k s && observedModeExists k s &&
    ((readable c k s).filter fun o => ids.contains o.apId).length = ids.length

def acknowledgeObservedReads (c : Chat) (k : Thread) (ids : List String) : Store → Option Store :=
  checkedBatch
    [assertion (acknowledged c k ids),insertReads c k fun _ o => ids.contains o.apId,
      assertion (acknowledged c k ids)]

def legacyObservedReadWrite (c : Chat) (k : Thread) : Write :=
  insertReads c k fun s _ => scopeAuthorized c k s && observedModeExists k s

def statusWrite (c : Chat) (k : Thread) (now : String) : Write := fun s =>
  some <|
    match c.kind with
    | .user =>
      if ambiguousLegacyThread c k s then s
      else { s with dmReadStatus := Function.update s.dmReadStatus k.thread (some now) }
    | .community => { s with dmCommunityReadStatus := some now }

def applyLegacyTalkRead (c : Chat) (k : Thread) (now : String) : Store → Option Store :=
  checkedBatch <|
    assertion (scopeAuthorized c k) :: observedInitialization c k (ambiguousLegacyThread c k) ++
      [legacyObservedReadWrite c k,statusWrite c k now,assertion (scopeAuthorized c k)]

def unreadTalkObject (k : Thread) (published objectId legacyBaseline : String) (s : Store) : Bool :=
  if s.mode = some k then !s.reads.contains (k,objectId) else legacyBaseline < published

def rememberInit (c : Chat) (k : Thread) (s t : Store) : Store :=
  if k ∈ s.initialized then t
  else
    { t with
      initialized := k :: t.initialized
      marked := addNew t.marked
        (receipts k ((readable c k s).filter fun o => o.published ≤ legacyBaseline c k s)) }

def rememberIds (k : Thread) (ids : List String) (t : Store) : Store :=
  { t with marked := addNew t.marked (ids.map fun id => (k,id)) }

/-- A legacy read of a thread in exact mode. -/
def rememberLegacy (c : Chat) (k : Thread) (s t : Store) : Store :=
  let t := if ambiguousLegacyThread c k s then rememberInit c k s t else t
  if t.mode = some k then { t with marked := addNew t.marked (receipts k (readable c k s)) } else t

/-- The three writes, with whether the database lets the batch through; an arrival; a change
of the membership; and a change of what the scope's authority and readability depend on. -/
inductive Label where
  | initializeObservedReads (k : Thread) (commits : Bool)
  | acknowledgeObservedReads (k : Thread) (ids : List String) (commits : Bool)
  | applyLegacyTalkRead (k : Thread) (now : String) (commits : Bool)
  | arrive (o : TalkObject)
  | join (joinedAt : Option String)
  | moderate (blocked : List String) (viewerPresent targetKnown communityPresent : Bool)

/-- The triggers on `community_members`; `forgets` is whether the history is forgotten too. -/
def join (c : Chat) (forgets : Bool) (joinedAt : Option String) (s : Store) : Store :=
  if c.kind = .community ∧ s.joinedAt.isSome = true ∧ joinedAt ≠ s.joinedAt then
    { s with
      joinedAt := joinedAt
      mode := none
      reads := []
      initialized := if forgets then [] else s.initialized
      marked := if forgets then [] else s.marked }
  else { s with joinedAt := joinedAt }

def committed (commits : Bool) (batch : Store → Option Store) (remember : Store → Store → Store)
    (s : Store) : Store :=
  match if commits then batch s else none with
  | some t => remember s t
  | none => s

def apply (c : Chat) (forgets : Bool) (l : Label) (s : Store) : Store :=
  match l with
  | .initializeObservedReads k commits =>
    committed commits (initializeObservedReads c k) (rememberInit c k) s
  | .acknowledgeObservedReads k ids commits =>
    committed commits (acknowledgeObservedReads c k ids) (fun _ => rememberIds k ids) s
  | .applyLegacyTalkRead k now commits =>
    committed commits (applyLegacyTalkRead c k now) (rememberLegacy c k) s
  | .arrive o =>
    if o.apId ∈ s.objects.map TalkObject.apId then s else { s with objects := o :: s.objects }
  | .join joinedAt => join c forgets joinedAt s
  | .moderate blocked viewerPresent targetKnown communityPresent =>
    { s with
      blocked := blocked
      viewerPresent := viewerPresent
      targetKnown := targetKnown
      communityPresent := communityPresent }

abbrev machine (c : Chat) (forgets : Bool) : Machine Store Label :=
  ⟨fun l s => some (apply c forgets l s)⟩

/-- Nothing has been read in exact mode yet; the messages and the timestamps are arbitrary. -/
structure Start (s : Store) : Prop where
  ids : (s.objects.map TalkObject.apId).Nodup
  mode : s.mode = none
  reads : s.reads = []
  history : s.initialized = [] ∧ s.marked = []

end Yurucommu.TalkReads
