import Yurucommu.TalkSurfacesAgree
import Yurucommu.JsString

/-!
The writes that the talk surfaces read, and when the numbers agree after any run of them.
-/

set_option autoImplicit false

namespace Yurucommu.TalkSurfaces

open Whatwg (Text)
open TalkArchives (Archive PeerArchive Expansion)

/-- What a request writes as a message; `resolved` is the conversation that it found between the
two, if any. -/
inductive NewNote where
  | dm (apId actor other : Text) (resolved : Option Text) (published : Text)
  | inbound (apId actor : Text) (recipients toJson : List Text) (published : Text)
  | chat (apId actor community published : Text)
  | inboundChat (apId actor community published : Text)
deriving DecidableEq, Repr

/-- `joining` are the requests that found the community open and have not written yet. -/
structure State where
  db : Db
  joining : List Member
deriving DecidableEq, Repr

/-- The archives and the receipts are whatever their writers make of them, and so are the readers
and the recipients of a message that an update narrows. -/
inductive Event where
  | storeNote (note : NewNote)
  | updateNote (apId : Text) (visibility : ObjectCounts.Visibility)
      (addressees toJson audience : List Text) (communityApId : Option Text)
  | deleteNotes (apIds : List Text)
  | setArchives (archived : List Archive) (peerArchived : List PeerArchive)
      (expansions : List Expansion)
  | readConversation (viewer conversation now : Text)
  | readCommunity (viewer community now : Text)
  | observeReads (readModes : List ReadMode) (messageReads : List MessageRead)
  | setBlocklist (blockedDomains blockedActors : List Text)
  | createCommunity (community actor now : Text)
  | openJoin (community actor now : Text)
  | insertMember (member : Member)
  | removeMember (community actor : Text)
  | retireCommunity (community actor : Text) (deleting : List Text) (now : Nat)
  | clearCommunity (community actor : Text)
deriving DecidableEq, Repr

section writes

variable (baseUrl : Text) (base64Url : Text → Text)

def ltUnits (t t' : Text) : Bool :=
  JsString.ltUnits (t.flatMap JsString.codeUnits) (t'.flatMap JsString.codeUnits)

def getConversationId (ap1 ap2 : Text) : Text :=
  let hash := base64Url (if ltUnits ap2 ap1 then ap2 ++ '\n' :: ap1 else ap1 ++ '\n' :: ap2)
  baseUrl ++ "/ap/conversations/".toList ++ hash

def NewNote.row : NewNote → Message
  | .dm apId actor other resolved published =>
    { apId
      attributedTo := actor
      visibility := .direct
      toJson := [other]
      conversation := some ((resolved.filter (· ≠ [])).getD
        (getConversationId baseUrl base64Url actor other))
      addressees := [other]
      published }
  | .inbound apId actor recipients toJson published =>
    { apId
      attributedTo := actor
      visibility := .direct
      toJson
      conversation := match recipients with
        | [recipient] => some (getConversationId baseUrl base64Url actor recipient)
        | _ => none
      addressees := recipients
      published }
  | .chat apId actor community published =>
    { apId
      attributedTo := actor
      visibility := .unlisted
      toJson := []
      conversation := none
      addressees := []
      published
      audience := [community] }
  | .inboundChat apId actor community published =>
    { apId
      attributedTo := actor
      visibility := .group
      toJson := []
      conversation := none
      addressees := []
      published
      audience := [community] }

def readAt (viewer thread now : Text) (status : List ReadStatus) : List ReadStatus :=
  if status.any fun r => r.actorApId = viewer && r.threadId = thread then
    Table.update (fun r => r.actorApId = viewer && r.threadId = thread)
      (fun r => { r with lastReadAt := some now }) status
  else status ++ [⟨viewer,thread,some now⟩]

def isMember (d : Db) (community actor : Text) : Bool :=
  d.members.any fun m => m.communityApId = community && m.actorApId = actor

def lastMember (d : Db) (community actor : Text) (deleting : List Text) : Bool :=
  (d.members.any fun m => m.communityApId = community && m.actorApId = actor && m.owner) &&
    d.members.all fun m => m.communityApId ≠ community || m.actorApId = actor ||
      deleting.contains m.actorApId

def removeMember (d : Db) (community actor : Text) : Db :=
  { d with members :=
      Table.delete (fun m => m.communityApId = community && m.actorApId = actor) d.members }

def State.write (s : State) (db : Db) : State := { s with db }

/-- Nobody has the empty text as an id, and no request reads at the empty time. -/
def work (e : Event) (s : State) : Option State :=
  let d := s.db
  match e with
  | .storeNote note =>
    let o := note.row baseUrl base64Url
    if o.attributedTo = [] || d.messages.any fun o' => o'.apId = o.apId then none
    else some (s.write { d with messages := d.messages ++ [o] })
  | .updateNote apId visibility addressees toJson audience communityApId =>
    let messages := Table.update (fun o => o.apId = apId)
      (fun o => { o with visibility, addressees, toJson, audience, communityApId }) d.messages
    some (s.write { d with messages })
  | .deleteNotes apIds =>
    let messages := Table.delete (fun o => apIds.contains o.apId) d.messages
    some (s.write { d with messages })
  | .setArchives archived peerArchived expansions =>
    some (s.write { d with archived, peerArchived, expansions })
  | .readConversation viewer conversation now =>
    let dmReadStatus := readAt viewer conversation now d.dmReadStatus
    if now = [] then none else some (s.write { d with dmReadStatus })
  | .readCommunity viewer community now =>
    let dmCommunityReadStatus := readAt viewer community now d.dmCommunityReadStatus
    if now = [] then none else some (s.write { d with dmCommunityReadStatus })
  | .observeReads readModes messageReads => some (s.write { d with readModes, messageReads })
  | .setBlocklist blockedDomains blockedActors =>
    some (s.write { d with blockedDomains, blockedActors })
  | .createCommunity community actor now =>
    let communities := d.communities ++ [⟨community,none⟩]
    let members := d.members ++ [⟨community,actor,true,some now⟩]
    if d.communities.any fun c => c.apId = community then none
    else some (s.write { d with communities, members })
  | .openJoin community actor now =>
    if d.communities.any fun c => c.apId = community && c.deletedAt.isNone then
      some { s with joining := ⟨community,actor,false,some now⟩ :: s.joining }
    else none
  | .insertMember member =>
    if s.joining.contains member && !isMember d member.communityApId member.actorApId then
      some (s.write { d with members := d.members ++ [member] })
    else none
  | .removeMember community actor => some (s.write (removeMember d community actor))
  | .retireCommunity community actor deleting now =>
    let communities := Table.update (fun c => c.apId = community && c.deletedAt.isNone)
      (fun c => { c with deletedAt := some now }) d.communities
    if lastMember d community actor deleting then some (s.write { d with communities }) else none
  | .clearCommunity community actor =>
    let dmCommunityReadStatus :=
      Table.delete (fun r => r.threadId = community) d.dmCommunityReadStatus
    some (s.write { removeMember d community actor with dmCommunityReadStatus })

def machine : Machine State Event := ⟨work baseUrl base64Url⟩

def empty : State := ⟨⟨[],[],[],[],[],[],[],[],[],[],[],[]⟩,[]⟩

end writes

/-- What the writers keep: no conversation and nobody has the empty text as an id, and nobody has
read at the empty time. -/
structure Written (d : Db) : Prop where
  named : ∀ o ∈ d.messages, o.conversation ≠ some [] ∧ o.attributedTo ≠ []
  position : ∀ r ∈ d.dmReadStatus, r.lastReadAt ≠ some []

section runs

variable {baseUrl : Text} {base64Url : Text → Text} {s s' : State} {d : Db} {viewer : Text}

theorem getConversationId_ne_nil (ap1 ap2 : Text) :
    getConversationId baseUrl base64Url ap1 ap2 ≠ [] := by
  simp [getConversationId]

theorem conversation_row (note : NewNote) :
    (note.row baseUrl base64Url).conversation ≠ some [] := by
  have hnew : ∀ ap1 ap2, some (getConversationId baseUrl base64Url ap1 ap2) ≠ some [] :=
    fun ap1 ap2 h => getConversationId_ne_nil ap1 ap2 (Option.some.inj h)
  cases note with
  | dm apId actor other resolved published =>
    simp only [NewNote.row]
    cases hfound : resolved.filter fun text => decide (text ≠ []) with
    | none => exact hnew actor other
    | some text =>
      have hne := (Option.filter_eq_some_iff.mp hfound).2
      simpa using hne
  | inbound apId actor recipients toJson published =>
    simp only [NewNote.row]
    split
    · exact hnew actor _
    · simp
  | chat apId actor community published => simp [NewNote.row]
  | inboundChat apId actor community published => simp [NewNote.row]

theorem mem_readAt {conversation now : Text} {status : List ReadStatus} {r : ReadStatus}
    (h : r ∈ readAt viewer conversation now status) : r ∈ status ∨ r.lastReadAt = some now := by
  unfold readAt at h
  split at h
  · obtain ⟨r',hr,⟨_,rfl⟩ | ⟨_,rfl⟩⟩ := Table.mem_update.mp h
    · exact .inl hr
    · exact .inr rfl
  · rw [List.mem_append,List.mem_singleton] at h
    exact h.imp_right fun heq => by rw [heq]

theorem Written.step {e : Event} (h : Written s.db)
    (hs : (machine baseUrl base64Url).step e s = some s') : Written s'.db := by
  simp only [machine,work] at hs
  cases e with
  | storeNote note =>
    simp only [Option.ite_none_left_eq_some,Option.some.injEq,Bool.or_eq_true,
      decide_eq_true_eq] at hs
    obtain ⟨hno,rfl⟩ := hs
    refine ⟨fun o ho => ?_,h.position⟩
    rcases List.mem_append.mp ho with ho | ho
    · exact h.named o ho
    · rw [List.mem_singleton.mp ho]
      exact ⟨conversation_row note,fun hnil => hno (.inl hnil)⟩
  | updateNote apId visibility addressees toJson audience communityApId =>
    cases hs
    refine ⟨fun o ho => ?_,h.position⟩
    obtain ⟨o',ho',⟨_,rfl⟩ | ⟨_,rfl⟩⟩ := Table.mem_update.mp ho
    · exact h.named o ho'
    · exact h.named o' ho'
  | deleteNotes apIds =>
    cases hs
    exact ⟨fun o ho => h.named o (List.mem_filter.mp ho).1,h.position⟩
  | readConversation reader conversation now =>
    simp only [Option.ite_none_left_eq_some,Option.some.injEq] at hs
    obtain ⟨hnow,rfl⟩ := hs
    refine ⟨h.named,fun r hr => ?_⟩
    rcases mem_readAt hr with hr | hread
    · exact h.position r hr
    · rw [hread]
      exact fun hnil => hnow (Option.some.inj hnil)
  | setArchives archived peerArchived expansions => cases hs; exact ⟨h.named,h.position⟩
  | observeReads readModes messageReads => cases hs; exact ⟨h.named,h.position⟩
  | setBlocklist blockedDomains blockedActors => cases hs; exact ⟨h.named,h.position⟩
  | removeMember community actor => cases hs; exact ⟨h.named,h.position⟩
  | clearCommunity community actor => cases hs; exact ⟨h.named,h.position⟩
  | readCommunity reader community now =>
    simp only [Option.ite_none_left_eq_some,Option.some.injEq] at hs
    obtain ⟨_,rfl⟩ := hs
    exact ⟨h.named,h.position⟩
  | createCommunity community actor now =>
    simp only [Option.ite_none_left_eq_some,Option.some.injEq] at hs
    obtain ⟨_,rfl⟩ := hs
    exact ⟨h.named,h.position⟩
  | openJoin community actor now =>
    simp only [Option.ite_none_right_eq_some,Option.some.injEq] at hs
    obtain ⟨_,rfl⟩ := hs
    exact h
  | insertMember member =>
    simp only [Option.ite_none_right_eq_some,Option.some.injEq] at hs
    obtain ⟨_,rfl⟩ := hs
    exact ⟨h.named,h.position⟩
  | retireCommunity community actor deleting now =>
    simp only [Option.ite_none_right_eq_some,Option.some.injEq] at hs
    obtain ⟨_,rfl⟩ := hs
    exact ⟨h.named,h.position⟩

theorem Written.meets (h : Written d) (hdeleted : ∀ m ∈ memberships d viewer, live d m = false →
    ∀ o ∈ d.messages, unreadChat d viewer m o = false) : Meets d viewer := by
  refine ⟨fun o ho _ => h.named o ho,fun o _ _ hpos => ?_,hdeleted⟩
  obtain ⟨r,hr,hread⟩ := Option.bind_eq_some_iff.mp hpos
  exact absurd hread (h.position r (List.mem_of_find?_eq_some hr))

/-- In every state that is reached, the surfaces agree exactly when no chat message is unread in a
community that the viewer is a member of and that is deleted. -/
theorem talk_surfaces_agree_reached
    (h : (machine baseUrl base64Url).Reaches empty s) (viewer : Text)
    (hp : (pairs s.db viewer).length ≤ contactLimit) :
    Agree s.db viewer ↔ ∀ m ∈ memberships s.db viewer, live s.db m = false →
      ∀ o ∈ s.db.messages, unreadChat s.db viewer m o = false := by
  have hwritten : Written s.db :=
    h.invariant (P := fun s => Written s.db) ⟨by simp [empty],by simp [empty]⟩
      fun _ _ _ hw hs _ => hw.step hs
  constructor
  · intro hagree
    exact ((talk_surfaces_agree_iff s.db viewer hp).mp hagree).deleted
  · intro hdeleted
    exact (talk_surfaces_agree_iff s.db viewer hp).mpr (hwritten.meets hdeleted)

/-- Bob asks to join the town, Carol says something there and leaves, Alice's account goes and the
town with it, and then Bob's row is written. -/
def deletedTown : List Event :=
  [.createCommunity "town".toList "alice".toList "2026-01".toList,
    .openJoin "town".toList "carol".toList "2026-02".toList,
    .insertMember ⟨"town".toList,"carol".toList,false,some "2026-02".toList⟩,
    .openJoin "town".toList "bob".toList "2026-03".toList,
    .storeNote (.chat "carol/1".toList "carol".toList "town".toList "2026-04".toList),
    .removeMember "town".toList "carol".toList,
    .retireCommunity "town".toList "alice".toList [] 5,
    .insertMember ⟨"town".toList,"bob".toList,false,some "2026-03".toList⟩]

def after (events : List Event) : State := ((machine [] id).run events empty).getD empty

theorem deleted_town_still_counts : (machine [] id).Reaches empty (after deletedTown) ∧
    (pairs (after deletedTown).db "bob".toList).length ≤ contactLimit ∧
      ¬Agree (after deletedTown).db "bob".toList ∧
        ((communityContacts (after deletedTown).db "bob".toList).map (·.unreadCount)).sum = 0 ∧
          (yurumeUnreadCounts (after deletedTown).db "bob".toList).community = 1 := by
  have hrun : (machine [] id).run deletedTown empty = some (after deletedTown) := by decide +kernel
  refine ⟨.of_run hrun,by decide +kernel,fun h => ?_,by decide +kernel,by decide +kernel⟩
  have hcommunity := h.community
  revert hcommunity
  decide +kernel

/-- While the town is there, Alice's numbers are one and one. -/
theorem talk_surfaces_agree_town : Agree (after (deletedTown.take 5)).db "alice".toList ∧
    (yurumeUnreadCounts (after (deletedTown.take 5)).db "alice".toList).community = 1 := by
  have hrun : (machine [] id).run (deletedTown.take 5) empty =
      some (after (deletedTown.take 5)) := by decide +kernel
  refine ⟨?_,by decide +kernel⟩
  refine (talk_surfaces_agree_reached (.of_run hrun) "alice".toList (by decide +kernel)).mpr ?_
  decide +kernel

end runs

end Yurucommu.TalkSurfaces
