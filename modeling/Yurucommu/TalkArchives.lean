import Yurucommu.Blocklist
import Yurucommu.ObjectCounts

/-!
The archive of direct conversations: the old markers of a whole conversation, the rows of a peer,
and the write that expands a marker into rows before it changes the one of its target.
-/

set_option autoImplicit false

namespace Yurucommu.TalkArchives

open Whatwg (Text)
open Blocklist (operatorActorNotBlockedSql)
open ObjectCounts (ObjectType Visibility)

/-- A row of `objects`; `addressees` are its recipient rows of type `to`. -/
structure Object where
  apId : Text
  type : ObjectType := .note
  attributedTo : Text
  visibility : Visibility := .direct
  toJson : List Text
  conversation : Option Text
  deletedAt : Option Nat := none
  addressees : List Text
deriving DecidableEq, Repr

structure Archive where
  actorApId : Text
  conversationId : Text
  archivedAt : Option Text
deriving DecidableEq, Repr

/-- A row of `dm_peer_archived_conversations`, keyed by the actor and the target. -/
structure PeerArchive where
  actorApId : Text
  targetApId : Text
  conversationId : Text
  archivedAt : Text
deriving DecidableEq, Repr

structure Expansion where
  actorApId : Text
  conversationId : Text
  expandedAt : Text
deriving DecidableEq, Repr

/-- `actors` are the live ones. -/
structure Db where
  objects : List Object
  actors : List Text
  actorCache : List Text
  blockedDomains : List Text
  blockedActors : List Text
  archived : List Archive
  peerArchived : List PeerArchive
  expansions : List Expansion
deriving DecidableEq, Repr

inductive Kind where
  | user | community
deriving DecidableEq, Repr

structure Scope where
  viewer : Text
  kind : Kind
  target : Text
  thread : Text
deriving DecidableEq, Repr

def otherParticipant (viewer : Text) (o : Object) : Option Text :=
  if o.attributedTo = viewer then o.toJson.head? else some o.attributedTo

section reads

variable (d : Db)

def expanded (actor conversation : Text) : Bool :=
  d.expansions.any fun e => e.actorApId = actor && e.conversationId = conversation

/-- The old marker of a conversation, unless it has been expanded. -/
def oldMarker (viewer conversation : Text) : Option Archive :=
  d.archived.find? fun old => old.actorApId = viewer && old.conversationId = conversation &&
    !expanded d old.actorApId old.conversationId

def hasPeerRow (viewer peer : Text) : Bool :=
  d.peerArchived.any fun p => p.actorApId = viewer && p.targetApId = peer

def peerArchived (viewer peer conversation : Text) : Bool :=
  hasPeerRow d viewer peer || (oldMarker d viewer conversation).isSome

def objectReadable (s : Scope) (o : Object) : Bool :=
  o.type = .note && o.deletedAt.isNone &&
    operatorActorNotBlockedSql d.blockedDomains d.blockedActors o.attributedTo &&
      o.visibility = .direct && o.conversation = some s.thread &&
        ((o.attributedTo = s.target && o.addressees.contains s.viewer) ||
          (o.attributedTo = s.viewer && o.addressees.contains s.target))

def scopeAuthorized (s : Scope) : Bool :=
  d.actors.contains s.viewer &&
    operatorActorNotBlockedSql d.blockedDomains d.blockedActors s.target &&
    (d.actors.contains s.target || d.actorCache.contains s.target ||
      d.objects.any (objectReadable d s))

end reads

section write

variable (s : Scope) (now : Text)

def common (o : Object) : Bool :=
  o.visibility = .direct && o.type = .note && o.conversation = some s.thread

def seededPeers (d : Db) : List Text :=
  ((d.objects.filter fun o => common s o && o.attributedTo = s.viewer).flatMap fun o =>
      o.addressees.filter (· ≠ s.viewer)) ++
    (d.objects.filter fun o => common s o && o.addressees.contains s.viewer &&
      o.attributedTo ≠ s.viewer).map (·.attributedTo)

def samePeer (new r : PeerArchive) : Bool :=
  r.actorApId = new.actorApId && r.targetApId = new.targetApId

def seedPeers (d : Db) : Db :=
  match oldMarker d s.viewer s.thread with
  | none => d
  | some old =>
    let rows := (seededPeers s d).dedup.map fun peer =>
      PeerArchive.mk s.viewer peer s.thread (old.archivedAt.getD now)
    { d with peerArchived := Table.insertAllIgnore samePeer rows d.peerArchived }

def markExpanded (d : Db) : Db :=
  if (oldMarker d s.viewer s.thread).isSome then
    { d with
      expansions := Table.insertIgnore
        (fun e => e.actorApId = s.viewer && e.conversationId = s.thread)
        ⟨s.viewer,s.thread,now⟩ d.expansions }
  else d

def choosePeer (archive : Bool) (d : Db) : Db :=
  if archive then
    let row := PeerArchive.mk s.viewer s.target s.thread now
    { d with peerArchived := Table.insertIgnore (samePeer row) row d.peerArchived }
  else
    { d with
      peerArchived := Table.delete
        (fun p => p.actorApId = s.viewer && p.targetApId = s.target) d.peerArchived }

/-- The batch between its two assertions; `none` is a refusal. -/
def setPeerArchived (d : Db) (archive : Bool) : Option Db :=
  if s.kind ≠ .user then none
  else if !scopeAuthorized d s then none
  else
    let d' := choosePeer s now archive (markExpanded s now (seedPeers s now d))
    if scopeAuthorized d' s then some d' else none

end write

structure Call where
  scope : Scope
  archive : Bool
  now : Text
deriving DecidableEq, Repr

def Call.result (call : Call) (d : Db) : Option Db :=
  setPeerArchived call.scope call.now d call.archive

def Call.apply (d : Db) (call : Call) : Db := (call.result d).getD d

def Call.admitted (d : Db) (call : Call) : Bool :=
  call.scope.kind = .user && scopeAuthorized d call.scope

def run (d : Db) (calls : List Call) : Db := calls.foldl Call.apply d

def Contact (d : Db) (viewer peer conversation : Text) : Prop :=
  ∃ o ∈ d.objects, o.type = .note ∧ o.visibility = .direct ∧ o.conversation = some conversation ∧
    (o.attributedTo = viewer ∨ viewer ∈ o.addressees) ∧ otherParticipant viewer o = some peer

structure Exact (d : Db) (call : Call) : Prop where
  target : ∀ d', call.result d = some d' → ∀ c, Contact d call.scope.viewer call.scope.target c →
    peerArchived d' call.scope.viewer call.scope.target c = call.archive
  others : ∀ d', call.result d = some d' → ∀ q c, q ≠ call.scope.target →
    Contact d call.scope.viewer q c →
      peerArchived d' call.scope.viewer q c = peerArchived d call.scope.viewer q c
  refused : call.result d = none → call.apply d = d
  again : ∀ d', call.result d = some d' →
    ∀ now, setPeerArchived call.scope now d' call.archive = some d'

/-- When a call is exact: in a conversation whose marker it expands, every other counterpart without
a row is a peer that is seeded, and one that is seeded has no message in another conversation that
no marker archives; and a target that is unarchived has no message in another archived one. -/
structure Meets (d : Db) (call : Call) : Prop where
  seeded : call.admitted d = true →
    (oldMarker d call.scope.viewer call.scope.thread).isSome = true →
    ∀ q, q ≠ call.scope.target → hasPeerRow d call.scope.viewer q = false →
      Contact d call.scope.viewer q call.scope.thread → q ∈ seededPeers call.scope d
  elsewhere : call.admitted d = true →
    (oldMarker d call.scope.viewer call.scope.thread).isSome = true →
      ∀ q, q ≠ call.scope.target → hasPeerRow d call.scope.viewer q = false →
        q ∈ seededPeers call.scope d → ∀ c, c ≠ call.scope.thread →
          Contact d call.scope.viewer q c → (oldMarker d call.scope.viewer c).isSome = true
  threads : call.admitted d = true → call.archive = false →
    ∀ c, c ≠ call.scope.thread → Contact d call.scope.viewer call.scope.target c →
      oldMarker d call.scope.viewer c = none

section batch

variable {s : Scope} {now : Text} {archive : Bool} {d d' : Db}

theorem peerArchived_eq (viewer peer conversation : Text) :
    peerArchived d viewer peer conversation =
      (hasPeerRow d viewer peer || (oldMarker d viewer conversation).isSome) := rfl

/-- The first and the last write of the batch are to the rows of peers, the one between them is to
the expansions. -/
theorem seedPeers_eq :
    seedPeers s now d = { d with peerArchived := (seedPeers s now d).peerArchived } := by
  unfold seedPeers
  cases oldMarker d s.viewer s.thread with
  | none => rfl
  | some old => rfl

theorem markExpanded_eq :
    markExpanded s now d = { d with expansions := (markExpanded s now d).expansions } := by
  unfold markExpanded
  split
  · rfl
  · rfl

theorem choosePeer_eq : choosePeer s now archive d =
    { d with peerArchived := (choosePeer s now archive d).peerArchived } := by
  unfold choosePeer
  cases archive with
  | true => rfl
  | false => rfl

theorem hasPeerRow_seedPeers (viewer peer : Text) : hasPeerRow (seedPeers s now d) viewer peer =
    (hasPeerRow d viewer peer || ((oldMarker d s.viewer s.thread).isSome && s.viewer = viewer &&
      (seededPeers s d).contains peer)) := by
  unfold seedPeers
  cases oldMarker d s.viewer s.thread with
  | none => simp
  | some old =>
    simp only [hasPeerRow]
    rw [Table.any_insertAllIgnore]
    · rw [Bool.eq_iff_iff]
      simp only [Bool.or_eq_true,List.any_map,List.any_eq_true,Function.comp_apply,
        Bool.and_eq_true,decide_eq_true_eq,List.mem_dedup,Option.isSome_some,
        List.contains_iff_mem]
      refine or_congr_right ⟨?_,?_⟩
      · rintro ⟨q,hq,hv,rfl⟩
        exact ⟨⟨trivial,hv⟩,hq⟩
      · rintro ⟨⟨_,hv⟩,hq⟩
        exact ⟨peer,hq,hv,rfl⟩
    · intro new r h
      simp only [samePeer,Bool.and_eq_true,decide_eq_true_eq] at h
      rw [h.1,h.2]

theorem oldMarker_seedPeers (viewer conversation : Text) :
    oldMarker (seedPeers s now d) viewer conversation = oldMarker d viewer conversation := by
  rw [seedPeers_eq]
  rfl

theorem expanded_markExpanded (actor conversation : Text) :
    expanded (markExpanded s now d) actor conversation = (expanded d actor conversation ||
      ((oldMarker d s.viewer s.thread).isSome && actor = s.viewer && conversation = s.thread)) := by
  unfold markExpanded
  cases hm : oldMarker d s.viewer s.thread with
  | none => simp
  | some old =>
    simp only [Option.isSome_some,if_true,expanded]
    rw [Table.any_insertIgnore_eq]
    · rw [Bool.true_and,decide_eq_decide.mpr (eq_comm (a := s.viewer) (b := actor)),
        decide_eq_decide.mpr (eq_comm (a := s.thread) (b := conversation))]
    · intro e he
      simp only [Bool.and_eq_true,decide_eq_true_eq] at he
      rw [he.1,he.2]

theorem oldMarker_eq_none_of_expanded {viewer conversation : Text}
    (h : expanded d viewer conversation = true) : oldMarker d viewer conversation = none := by
  refine List.find?_eq_none.mpr fun old _ hold => ?_
  simp only [Bool.and_eq_true,decide_eq_true_eq,Bool.not_eq_true'] at hold
  rw [hold.1.1,hold.1.2,h] at hold
  exact absurd hold.2 (by decide)

theorem oldMarker_markExpanded (viewer conversation : Text) :
    oldMarker (markExpanded s now d) viewer conversation =
      if viewer = s.viewer ∧ conversation = s.thread then none
      else oldMarker d viewer conversation := by
  split
  · rename_i h
    obtain ⟨rfl,rfl⟩ := h
    cases hm : oldMarker d s.viewer s.thread with
    | none => rw [markExpanded,hm]; exact hm
    | some old =>
      refine oldMarker_eq_none_of_expanded ?_
      rw [expanded_markExpanded,hm]
      simp
  · rename_i h
    have harchived : (markExpanded s now d).archived = d.archived := by rw [markExpanded_eq]
    unfold oldMarker
    rw [harchived]
    congr 1
    funext old
    rw [expanded_markExpanded]
    by_cases hold : old.actorApId = viewer ∧ old.conversationId = conversation
    · obtain ⟨rfl,rfl⟩ := hold
      have hne : (decide (old.actorApId = s.viewer) && decide (old.conversationId = s.thread)) =
          false := by simpa using h
      simp only [Bool.and_assoc,hne,Bool.and_false,Bool.or_false]
    · have hno : (decide (old.actorApId = viewer) && decide (old.conversationId = conversation)) =
          false := by simpa using hold
      rw [hno,Bool.false_and,Bool.false_and]

theorem hasPeerRow_markExpanded (viewer peer : Text) :
    hasPeerRow (markExpanded s now d) viewer peer = hasPeerRow d viewer peer := by
  rw [markExpanded_eq]
  rfl

theorem hasPeerRow_choosePeer (viewer peer : Text) :
    hasPeerRow (choosePeer s now archive d) viewer peer =
      if viewer = s.viewer ∧ peer = s.target then archive else hasPeerRow d viewer peer := by
  unfold choosePeer
  cases archive with
  | true =>
    simp only [if_true,hasPeerRow]
    rw [Table.any_insertIgnore_eq]
    · split
      · rename_i h
        simp [h.1,h.2]
      · rename_i h
        have hne : (decide (s.viewer = viewer) && decide (s.target = peer)) = false := by
          rw [Bool.and_eq_false_iff,decide_eq_false_iff_not,decide_eq_false_iff_not]
          exact not_and_or.mp fun ⟨hv,ht⟩ => h ⟨hv.symm,ht.symm⟩
        rw [hne,Bool.or_false]
    · intro r hr
      simp only [samePeer,Bool.and_eq_true,decide_eq_true_eq] at hr
      rw [hr.1,hr.2]
  | false =>
    rw [if_neg (by decide)]
    split
    · rename_i h
      simp only [hasPeerRow,Table.delete,h.1,h.2,List.any_eq_false,List.mem_filter]
      intro p hp heq
      rw [heq] at hp
      cases hp.2
    · rename_i h
      rw [Bool.eq_iff_iff]
      simp only [hasPeerRow,Table.delete,List.any_eq_true,List.mem_filter,Bool.and_eq_true,
        decide_eq_true_eq]
      constructor
      · rintro ⟨p,⟨hp,_⟩,heq⟩
        exact ⟨p,hp,heq⟩
      · rintro ⟨p,hp,heq⟩
        refine ⟨p,⟨hp,?_⟩,heq⟩
        rw [Bool.not_eq_true',heq.1,heq.2,Bool.and_eq_false_iff,decide_eq_false_iff_not,
          decide_eq_false_iff_not]
        exact not_and_or.mp h

theorem oldMarker_choosePeer (viewer conversation : Text) :
    oldMarker (choosePeer s now archive d) viewer conversation =
      oldMarker d viewer conversation := by
  rw [choosePeer_eq]
  rfl

structure SameMessages (d d' : Db) : Prop where
  objects : d'.objects = d.objects
  authorized : ∀ s, scopeAuthorized d' s = scopeAuthorized d s

theorem sameMessages_batch :
    SameMessages d (choosePeer s now archive (markExpanded s now (seedPeers s now d))) := by
  have hseed : SameMessages d (seedPeers s now d) := by
    rw [seedPeers_eq]
    exact ⟨rfl,fun _ => rfl⟩
  have hmark : ∀ d : Db, SameMessages d (markExpanded s now d) := by
    intro d
    rw [markExpanded_eq]
    exact ⟨rfl,fun _ => rfl⟩
  have hchoose : ∀ d : Db, SameMessages d (choosePeer s now archive d) := by
    intro d
    rw [choosePeer_eq]
    exact ⟨rfl,fun _ => rfl⟩
  have h₂ := hmark (seedPeers s now d)
  have h₃ := hchoose (markExpanded s now (seedPeers s now d))
  exact ⟨h₃.objects.trans (h₂.objects.trans hseed.objects),
    fun _ => (h₃.authorized _).trans ((h₂.authorized _).trans (hseed.authorized _))⟩

theorem setPeerArchived_eq_some : setPeerArchived s now d archive = some d' ↔
    s.kind = .user ∧ scopeAuthorized d s = true ∧
      d' = choosePeer s now archive (markExpanded s now (seedPeers s now d)) := by
  unfold setPeerArchived
  by_cases hk : s.kind = .user
  · cases ha : scopeAuthorized d s with
    | false => simp [hk]
    | true => simp [hk,sameMessages_batch.authorized,ha,eq_comm]
  · simp [hk]

theorem peerArchived_setPeerArchived (h : setPeerArchived s now d archive = some d')
    (q c : Text) : peerArchived d' s.viewer q c =
      ((if q = s.target then archive else hasPeerRow d s.viewer q ||
          ((oldMarker d s.viewer s.thread).isSome && (seededPeers s d).contains q)) ||
        (decide (c ≠ s.thread) && (oldMarker d s.viewer c).isSome)) := by
  obtain ⟨_,_,rfl⟩ := setPeerArchived_eq_some.mp h
  rw [peerArchived_eq,hasPeerRow_choosePeer,oldMarker_choosePeer,hasPeerRow_markExpanded,
    oldMarker_markExpanded,hasPeerRow_seedPeers,oldMarker_seedPeers]
  by_cases hq : q = s.target <;> by_cases hc : c = s.thread <;> simp [hq,hc]

theorem peerArchived_other (h : setPeerArchived s now d archive = some d') {viewer : Text}
    (hv : viewer ≠ s.viewer) (q c : Text) :
    peerArchived d' viewer q c = peerArchived d viewer q c := by
  obtain ⟨_,_,rfl⟩ := setPeerArchived_eq_some.mp h
  rw [peerArchived_eq,peerArchived_eq,hasPeerRow_choosePeer,oldMarker_choosePeer,hasPeerRow_markExpanded,
    oldMarker_markExpanded,hasPeerRow_seedPeers,oldMarker_seedPeers]
  simp [hv,Ne.symm hv]

theorem setPeerArchived_again (h : setPeerArchived s now d archive = some d') (now' : Text) :
    setPeerArchived s now' d' archive = some d' := by
  obtain ⟨hk,ha,heq⟩ := setPeerArchived_eq_some.mp h
  have hnone : oldMarker d' s.viewer s.thread = none := by
    rw [heq,oldMarker_choosePeer,oldMarker_markExpanded,if_pos ⟨rfl,rfl⟩]
  have hrow : hasPeerRow d' s.viewer s.target = archive := by
    rw [heq,hasPeerRow_choosePeer,if_pos ⟨rfl,rfl⟩]
  refine setPeerArchived_eq_some.mpr ⟨hk,?_,?_⟩
  · rw [heq,sameMessages_batch.authorized,ha]
  · have hseed : seedPeers s now' d' = d' := by rw [seedPeers,hnone]
    have hmark : markExpanded s now' d' = d' := by rw [markExpanded,hnone]; rfl
    rw [hseed,hmark]
    unfold choosePeer
    cases archive with
    | true =>
      have hkeep : Table.insertIgnore (samePeer ⟨s.viewer,s.target,s.thread,now'⟩)
          ⟨s.viewer,s.target,s.thread,now'⟩ d'.peerArchived = d'.peerArchived :=
        Table.insertIgnore_of_any _ hrow
      rw [if_pos rfl]
      dsimp only
      rw [hkeep]
    | false =>
      rw [if_neg (by decide)]
      have hkeep : d'.peerArchived.filter (fun p => !(p.actorApId = s.viewer &&
          p.targetApId = s.target : Bool)) = d'.peerArchived := by
        refine List.filter_eq_self.mpr fun p hp => ?_
        have hno := List.any_eq_false.mp hrow p hp
        simpa only [Bool.not_eq_true',Bool.not_eq_true] using hno
      rw [Table.delete,hkeep]

end batch

def AllMeet : Db → List Call → Prop
  | _, [] => True
  | d, call :: calls => Meets d call ∧ AllMeet (call.apply d) calls

def wanted (d : Db) (viewer peer : Text) (calls : List Call) (initial : Bool) : Bool :=
  calls.foldl (fun b call => if call.scope.viewer = viewer && call.scope.target = peer &&
    call.admitted d then call.archive else b) initial

section calls

variable {d d' : Db} {call : Call}

theorem result_eq : call.result d = setPeerArchived call.scope call.now d call.archive := rfl

theorem apply_eq : call.apply d = (call.result d).getD d := rfl

theorem admitted_eq :
    call.admitted d = (call.scope.kind = .user && scopeAuthorized d call.scope : Bool) := rfl

theorem result_eq_none : call.result d = none ↔ call.admitted d = false := by
  rw [result_eq,admitted_eq,Option.eq_none_iff_forall_ne_some]
  constructor
  · intro h
    rw [← Bool.not_eq_true,Bool.and_eq_true,decide_eq_true_eq]
    exact fun ⟨hk,ha⟩ => h _ (setPeerArchived_eq_some.mpr ⟨hk,ha,rfl⟩)
  · intro h d' hd
    obtain ⟨hk,ha,_⟩ := setPeerArchived_eq_some.mp hd
    simp [hk,ha] at h

theorem exists_result (h : call.admitted d = true) : ∃ d', call.result d = some d' := by
  refine Option.ne_none_iff_exists'.mp fun hnone => ?_
  rw [result_eq_none.mp hnone] at h
  cases h

theorem admitted_of_result (h : call.result d = some d') : call.admitted d = true := by
  rw [← Bool.not_eq_false,← result_eq_none,h]
  exact Option.some_ne_none _

theorem Meets.exact (h : Meets d call) : Exact d call := by
  refine ⟨fun d' hd c hc => ?_,fun d' hd q c hq hc => ?_,fun hd => by rw [apply_eq,hd]; rfl,
    fun d' hd now => setPeerArchived_again hd now⟩
  · have hin := admitted_of_result hd
    rw [peerArchived_setPeerArchived hd,if_pos rfl]
    cases harchive : call.archive with
    | true => rw [Bool.true_or]
    | false =>
      rw [Bool.false_or]
      by_cases hthread : c = call.scope.thread
      · simp [hthread]
      · rw [h.threads hin harchive c hthread hc]
        simp
  · have hin := admitted_of_result hd
    rw [peerArchived_setPeerArchived hd,if_neg hq,peerArchived_eq]
    cases hrow : hasPeerRow d call.scope.viewer q with
    | true => simp
    | false =>
      cases hm : (oldMarker d call.scope.viewer call.scope.thread).isSome with
      | false =>
        by_cases hthread : c = call.scope.thread
        · simp [hthread,hm]
        · simp [hthread]
      | true =>
        by_cases hthread : c = call.scope.thread
        · have hseeded := h.seeded hin hm q hq hrow (hthread ▸ hc)
          simp [hthread,hm,hseeded]
        · cases hseeded : (seededPeers call.scope d).contains q with
          | false => simp [hthread]
          | true =>
            have helse := h.elsewhere hin hm q hq hrow (List.contains_iff_mem.mp hseeded) c hthread
              hc
            simp [helse]

theorem Exact.meets (h : Exact d call) : Meets d call := by
  refine ⟨fun hin hm q hq hrow hc => ?_,fun hin hm q hq hrow hs c hthread hc => ?_,
    fun hin harchive c hthread hc => ?_⟩
  all_goals obtain ⟨d',hd⟩ := exists_result hin
  · have hsame := h.others d' hd q _ hq hc
    rw [peerArchived_setPeerArchived hd,if_neg hq,peerArchived_eq,hrow,hm] at hsame
    simpa using hsame
  · have hsame := h.others d' hd q c hq hc
    have hmem := List.contains_iff_mem.mpr hs
    rw [peerArchived_setPeerArchived hd,if_neg hq,peerArchived_eq,hrow,hm,hmem] at hsame
    simpa using hsame.symm
  · have hsame := h.target d' hd c hc
    rw [peerArchived_setPeerArchived hd,if_pos rfl,harchive] at hsame
    simpa [hthread] using hsame

theorem apply_sameMessages : SameMessages d (call.apply d) := by
  rw [apply_eq]
  cases hd : call.result d with
  | none => exact ⟨rfl,fun _ => rfl⟩
  | some d' =>
    obtain ⟨_,_,rfl⟩ := setPeerArchived_eq_some.mp hd
    exact sameMessages_batch

theorem SameMessages.admitted (h : SameMessages d d') (other : Call) :
    other.admitted d' = other.admitted d := by
  rw [admitted_eq,admitted_eq,h.authorized]

theorem SameMessages.contact (h : SameMessages d d') {viewer peer c : Text}
    (hc : Contact d viewer peer c) : Contact d' viewer peer c := by
  obtain ⟨o,ho,hrest⟩ := hc
  exact ⟨o,h.objects ▸ ho,hrest⟩

theorem peerArchived_apply (h : Meets d call) {viewer peer c : Text}
    (hc : Contact d viewer peer c) : peerArchived (call.apply d) viewer peer c =
      if call.scope.viewer = viewer && call.scope.target = peer && call.admitted d then call.archive
      else peerArchived d viewer peer c := by
  have hexact := h.exact
  cases hd : call.result d with
  | none => simp [result_eq_none.mp hd,hexact.refused hd]
  | some d' =>
    have happly : call.apply d = d' := by rw [Call.apply,hd]; rfl
    rw [happly,admitted_of_result hd,Bool.and_true]
    by_cases hv : call.scope.viewer = viewer
    · subst hv
      by_cases ht : call.scope.target = peer
      · subst ht
        simp [hexact.target d' hd c hc]
      · simp [ht,hexact.others d' hd peer c (Ne.symm ht) hc]
    · simp [hv,peerArchived_other hd (Ne.symm hv)]

theorem wanted_congr (h : SameMessages d d') (viewer peer : Text) (calls : List Call) (b : Bool) :
    wanted d' viewer peer calls b = wanted d viewer peer calls b := by
  unfold wanted
  congr 1
  funext b call
  rw [h.admitted]

theorem peerArchived_run {calls : List Call} (h : AllMeet d calls) {viewer peer c : Text}
    (hc : Contact d viewer peer c) : peerArchived (run d calls) viewer peer c =
      wanted d viewer peer calls (peerArchived d viewer peer c) := by
  induction calls generalizing d with
  | nil => rfl
  | cons call calls ih =>
    have hsame : SameMessages d (call.apply d) := apply_sameMessages
    have hrun : run d (call :: calls) = run (call.apply d) calls := rfl
    rw [hrun,ih h.2 (hsame.contact hc),wanted_congr hsame,peerArchived_apply h.1 hc]
    rfl

theorem peer_archives_exact (d : Db) (calls : List Call) :
    (∀ call, Exact (run d calls) call ↔ Meets (run d calls) call) ∧
      (AllMeet d calls → ∀ viewer peer c, Contact d viewer peer c →
        peerArchived (run d calls) viewer peer c =
          wanted d viewer peer calls (peerArchived d viewer peer c)) :=
  ⟨fun _ => ⟨Exact.meets,Meets.exact⟩,fun h _ _ _ hc => peerArchived_run h hc⟩

end calls

section legacy

/-- Bob and carol have written to alice in one old conversation, which alice has archived; carol has
written since in a conversation of her own. -/
def legacy (archived : List Archive) : Db where
  objects := [⟨"n1".toList,.note,"bob".toList,.direct,["alice".toList],some "old".toList,none,
      ["alice".toList]⟩,
    ⟨"n2".toList,.note,"carol".toList,.direct,["alice".toList],some "old".toList,none,
      ["alice".toList]⟩,
    ⟨"n3".toList,.note,"carol".toList,.direct,["alice".toList],some "new".toList,none,
      ["alice".toList]⟩]
  actors := ["alice".toList,"bob".toList,"carol".toList]
  actorCache := []
  blockedDomains := []
  blockedActors := []
  archived := archived
  peerArchived := []
  expansions := []

def archiveBob (archive : Bool) : Call :=
  ⟨⟨"alice".toList,.user,"bob".toList,"old".toList⟩,archive,"2026".toList⟩

/-- What becomes of the archives when alice archives bob, and when she takes it back. -/
theorem legacy_archives :
    ((archiveBob true).apply (legacy [])).archived = [] ∧
    ((archiveBob false).result (legacy [⟨"alice".toList,"old".toList,some "2020".toList⟩])).isSome ∧
    peerArchived (legacy [⟨"alice".toList,"old".toList,some "2020".toList⟩])
      "alice".toList "carol".toList "new".toList = false ∧
    (((archiveBob false).result (legacy [⟨"alice".toList,"old".toList,
      some "2020".toList⟩])).map fun d' =>
        peerArchived d' "alice".toList "carol".toList "new".toList) = some true := by
  decide +kernel

def shared : Db :=
  { legacy [⟨"alice".toList,"old".toList,some "2020".toList⟩] with
    objects := (legacy []).objects.take 2 }

theorem contact_shared {d : Db} {q c : Text} (hd : d.objects = shared.objects)
    (h : Contact d "alice".toList q c) : c = "old".toList ∧ q ∈ ["bob".toList,"carol".toList] := by
  obtain ⟨o,ho,_,_,hc,_,hq⟩ := h
  have hwritten : ∀ o ∈ shared.objects, o.conversation = some "old".toList ∧
      otherParticipant "alice".toList o ∈ [some "bob".toList,some "carol".toList] := by decide
  obtain ⟨hold,hother⟩ := hwritten o (hd ▸ ho)
  rw [hc,Option.some.injEq] at hold
  rw [hq] at hother
  exact ⟨hold,by simpa using hother⟩

theorem meets_shared : Meets shared (archiveBob true) where
  seeded _ _ q hne _ hq := by
    obtain ⟨_,hmem⟩ := contact_shared rfl hq
    obtain rfl | rfl := by simpa using hmem
    · exact absurd rfl hne
    · decide
  elsewhere _ _ q _ _ _ c hne hq := absurd (contact_shared rfl hq).1 hne
  threads _ h := by cases h

theorem meets_expanded : Meets ((archiveBob true).apply shared) (archiveBob false) := by
  have hnone : oldMarker ((archiveBob true).apply shared) "alice".toList "old".toList = none := by
    decide +kernel
  have hobjects : ((archiveBob true).apply shared).objects = shared.objects := by decide +kernel
  exact {
    seeded := fun _ hm => absurd (hnone ▸ hm) (by decide)
    elsewhere := fun _ hm => absurd (hnone ▸ hm) (by decide)
    threads := fun _ _ c hne hq => absurd (contact_shared hobjects hq).1 hne }

/-- Alice archives bob, which expands the marker, and takes it back. -/
theorem archived_twice :
    peerArchived (run shared [archiveBob true,archiveBob false]) "alice".toList "bob".toList
        "old".toList =
      wanted shared "alice".toList "bob".toList [archiveBob true,archiveBob false] true ∧
    peerArchived (run shared [archiveBob true,archiveBob false]) "alice".toList "carol".toList
        "old".toList =
      wanted shared "alice".toList "carol".toList [archiveBob true,archiveBob false] true := by
  have hkept := (peer_archives_exact shared [archiveBob true,archiveBob false]).2
    ⟨meets_shared,meets_expanded,trivial⟩
  have hbob : Contact shared "alice".toList "bob".toList "old".toList :=
    ⟨_,List.mem_cons_self,by decide⟩
  have hcarol : Contact shared "alice".toList "carol".toList "old".toList :=
    ⟨_,List.mem_cons_of_mem _ List.mem_cons_self,by decide⟩
  exact ⟨hkept _ _ _ hbob,hkept _ _ _ hcarol⟩

/-- Unarchiving bob archives carol's new conversation too. -/
theorem unarchive_archives_other : ¬Exact
    (legacy [⟨"alice".toList,"old".toList,some "2020".toList⟩]) (archiveBob false) := by
  intro h
  have hcontact : Contact (legacy [⟨"alice".toList,"old".toList,some "2020".toList⟩])
      "alice".toList "carol".toList "new".toList :=
    ⟨_,List.mem_cons_of_mem _ (List.mem_cons_of_mem _ List.mem_cons_self),by decide⟩
  obtain ⟨d',hd⟩ : ∃ d', (archiveBob false).result
      (legacy [⟨"alice".toList,"old".toList,some "2020".toList⟩]) = some d' :=
    Option.isSome_iff_exists.mp legacy_archives.2.1
  have hsame := h.others d' hd "carol".toList "new".toList (by decide) hcontact
  obtain ⟨_,_,hbefore,hafter⟩ := legacy_archives
  rw [hd,Option.map_some,Option.some.injEq] at hafter
  exact absurd (hafter.symm.trans (hsame.trans hbefore)) (by decide)

end legacy

end Yurucommu.TalkArchives
