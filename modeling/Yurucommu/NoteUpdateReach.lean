import Yurucommu.NoteUpdate

/-!
Whom a Note reaches after the admitted patches of a window: a group Note reaches whom it did; any
other reaches those of the last addressing that the policies accept.
-/

set_option autoImplicit false

namespace Yurucommu.NoteUpdate

/-- The patches one after another, each with the policies that hold for it; none where one of them
cannot be decoded. -/
def foldAdmittedNoteUpdates (c : Site) (actor : String) :
    List (Policy × AdmittedNotePatch) → NoteProjection → Option NoteProjection
  | [], projected => some projected
  | (p,patch) :: rest, projected =>
    if c.decodable patch then
      foldAdmittedNoteUpdates c actor rest (applyPatch c actor p projected patch)
    else none

/-- The room that a group Note may go on naming. -/
def NamesRoom (community : Community) (room : String) : Prop :=
  ∃ base id : List Char, room.toList = base ++ "/ap/rooms/".toList ++ id ∧ id ≠ [] ∧ '/' ∉ id ∧
    (String.ofList id = community.preferredUsername ∨ String.ofList id = community.apId)

/-- The policies for a patch of a group Note: the actor may still post there, and the patch leads
nobody else to it. -/
structure GroupAccepts (p : Policy) (source : NoteProjection) (patch : AdmittedNotePatch)
    (community : Community) : Prop where
  audience : ∃ audience, source.row.audienceJson.eraseDups = [audience] ∧
    p.community audience = some community
  post : p.mayPost community = true
  same : ∀ audience, patch.audience = some audience → audience = [community.apId]
  within : ∀ a, patch.addressing = some a → ∀ address ∈ a.all,
    address = community.apId ∨ address = community.followersUrl
  room : ∀ room, patch.room = some room → room ≠ "" → NamesRoom community room
  thread : ∀ parent, patch.inReplyTo = some parent → parent = source.row.inReplyTo

/-- The policies for a patch of any other Note: it names no room, and the audience it leaves the
Note with is one that the actor may address. -/
structure ScopeAccepts (p : Policy) (source : NoteProjection) (patch : AdmittedNotePatch) :
    Prop where
  room : patch.room = none
  audience : ∀ audience, patch.audience = some audience → ∃ community,
    p.scope audience = some community
  kept : patch.audience = none → ∀ community, source.row.communityApId = some community →
    community ≠ "" ∧ p.scope [community] = some (some community)

structure Accepted (c : Site) (actor : String) (p : Policy) (source : NoteProjection)
    (patch : AdmittedNotePatch) : Prop where
  note : source.row.type = "Note"
  live : source.row.deletedAt = none
  own : isSameActivityPubActor c source.row.attributedTo actor = true
  unsuppressed : p.ownerSuppresses = false
  parent : ∀ parent, patch.inReplyTo = some parent →
    parent ≠ some source.row.apId ∧ p.parentAllowed parent = true
  group : source.row.visibility = .group → ∃ community, GroupAccepts p source patch community
  scope : source.row.visibility ≠ .group → ScopeAccepts p source patch

structure KeepsGroup (source n : NoteProjection) : Prop where
  visibility : n.row.visibility = .group
  communityApId : n.row.communityApId = source.row.communityApId
  inReplyTo : n.row.inReplyTo = source.row.inReplyTo
  to_ : n.row.toJson = source.row.toJson
  cc : n.row.ccJson = source.row.ccJson
  audience : n.row.audienceJson = source.row.audienceJson
  conversation : n.row.conversation = source.row.conversation
  recipients : n.recipients = source.recipients

def directConversation (c : Site) (actor : String) (a : Addressing) : Option String :=
  match noteVisibility a, noteSpecificRecipients a with
  | .direct, [recipient] => some (c.conversationId actor recipient)
  | _, _ => none

/-- The reach that an addressing gives to a Note that is no group Note. -/
structure Addresses (c : Site) (actor : String) (a : Addressing) (source n : NoteProjection) :
    Prop where
  visibility : n.row.visibility = noteVisibility a
  to_ : n.row.toJson = a.to_
  cc : n.row.ccJson = a.cc
  conversation : n.row.conversation = directConversation c actor a
  recipients : ∀ r : Recipient, r ∈ n.recipients ↔
    (r.type = "to" ∧ r.recipientApId ∈ noteSpecificRecipients a) ∨
      (r.type ≠ "to" ∧ r ∈ source.recipients)

structure SameReach (source n : NoteProjection) : Prop where
  visibility : n.row.visibility = source.row.visibility
  to_ : n.row.toJson = source.row.toJson
  cc : n.row.ccJson = source.row.ccJson
  conversation : n.row.conversation = source.row.conversation
  recipients : n.recipients = source.recipients

def Reaches (c : Site) (actor : String) (source : NoteProjection) :
    Option Addressing → NoteProjection → Prop
  | none, n => SameReach source n
  | some a, n => Addresses c actor a source n

variable {c : Site} {actor : String} {p : Policy} {patch : AdmittedNotePatch}
  {source n m : NoteProjection} {updates : List (Policy × AdmittedNotePatch)}
  {community : Option String}

theorem roomId_iff {room id : String} : roomId room = some id ↔
    ∃ base : List Char, room.toList = base ++ "/ap/rooms/".toList ++ id.toList ∧
      id.toList ≠ [] ∧ '/' ∉ id.toList := by
  have hsplit := List.takeWhile_append_dropWhile (p := (· ≠ '/')) (l := room.toList.reverse)
  generalize hsegment : room.toList.reverse.takeWhile (· ≠ '/') = segment at hsplit
  generalize room.toList.reverse.dropWhile (· ≠ '/') = rest at hsplit
  have hroom : room.toList = rest.reverse ++ segment.reverse := by
    rw [← List.reverse_append,hsplit,List.reverse_reverse]
  have hrest : room.toList.take (room.toList.length - segment.reverse.length) = rest.reverse := by
    rw [hroom]
    simp
  unfold roomId
  rw [hsegment]
  simp only [hrest]
  constructor
  · intro h
    split at h
    · rename_i hends
      obtain rfl := Option.some.inj h
      obtain ⟨base,hbase⟩ := List.isSuffixOf_iff_suffix.mp hends.2
      refine ⟨base,?_,by simpa using hends.1,?_⟩
      · rw [hbase,hroom,String.toList_ofList]
      · rw [String.toList_ofList,← hsegment]
        intro hmem
        simpa using List.all_eq_true.mp List.all_takeWhile _ (List.mem_reverse.mp hmem)
    · cases h
  · rintro ⟨base,hbase,hid,hslash⟩
    have hlast : segment = id.toList.reverse := by
      rw [← hsegment,hbase,List.reverse_append,List.takeWhile_append_of_pos]
      · simp
      · intro a ha
        simp only [decide_eq_true_eq]
        rintro rfl
        exact hslash (List.mem_reverse.mp ha)
    have hbefore : rest.reverse = base ++ "/ap/rooms/".toList := by
      rw [hroom,hlast,List.reverse_reverse] at hbase
      exact List.append_cancel_right hbase
    have hends : "/ap/rooms/".toList.isSuffixOf rest.reverse = true :=
      List.isSuffixOf_iff_suffix.mpr ⟨base,hbefore.symm⟩
    rw [hlast,List.reverse_reverse,if_pos ⟨hid,hends⟩,String.ofList_toList]

theorem namesRoom_iff {community : Community} {room : String} :
    NamesRoom community room ↔ (roomId room).any (fun room =>
      room = community.preferredUsername || room = community.apId) = true := by
  simp only [Option.any_eq_true,Bool.or_eq_true,decide_eq_true_eq]
  constructor
  · rintro ⟨base,id,hroom,hid,hslash,hnames⟩
    exact ⟨String.ofList id,roomId_iff.mpr ⟨base,by simpa using hroom,by simpa using hid,
      by simpa using hslash⟩,hnames⟩
  · rintro ⟨id,hroom,hnames⟩
    obtain ⟨base,hbase,hid,hslash⟩ := roomId_iff.mp hroom
    exact ⟨base,id.toList,hbase,hid,hslash,by rwa [String.ofList_toList]⟩

theorem groupAllows_iff : groupAllows p source patch = true ↔
    ∃ community, GroupAccepts p source patch community := by
  unfold groupAllows
  constructor
  · intro h
    split at h
    · rename_i audience haudience
      split at h
      · cases h
      · rename_i community hcommunity
        simp only [Bool.and_eq_true,Option.all_eq_true,List.all_eq_true,Bool.or_eq_true,
          decide_eq_true_eq] at h
        obtain ⟨⟨⟨⟨hpost,hsame⟩,hwithin⟩,hroom⟩,hthread⟩ := h
        refine ⟨community,⟨audience,haudience,hcommunity⟩,hpost,hsame,hwithin,?_,hthread⟩
        intro room hr hne
        exact namesRoom_iff.mpr ((hroom room hr).resolve_left hne)
    · cases h
  · rintro ⟨community,⟨audience,haudience,hcommunity⟩,hpost,hsame,hwithin,hroom,hthread⟩
    simp only [haudience,hcommunity,Bool.and_eq_true,Option.all_eq_true,List.all_eq_true,
      Bool.or_eq_true,decide_eq_true_eq]
    refine ⟨⟨⟨⟨hpost,hsame⟩,hwithin⟩,fun room hr => ?_⟩,hthread⟩
    by_cases hne : room = ""
    · exact .inl hne
    · exact .inr (namesRoom_iff.mp (hroom room hr hne))

theorem scopeOf_isSome : (scopeOf p source patch).isSome = true ↔ ScopeAccepts p source patch := by
  unfold scopeOf
  constructor
  · intro h
    split at h
    · cases h
    · rename_i hroom
      refine ⟨by simpa using hroom,fun audience haudience => ?_,fun hnone community hc => ?_⟩
      · simp only [haudience] at h
        exact Option.isSome_iff_exists.mp h
      · simp only [hnone,hc] at h
        by_cases hne : community = ""
        · simp [hne] at h
        · by_cases hscope : p.scope [community] = some (some community)
          · exact ⟨hne,hscope⟩
          · simp [hne,hscope] at h
  · rintro ⟨hroom,haudience,hkept⟩
    rw [if_neg (by simp [hroom])]
    cases ha : patch.audience with
    | some audience => exact Option.isSome_iff_exists.mpr (haudience audience ha)
    | none =>
      cases hc : source.row.communityApId with
      | none => simp
      | some community =>
        obtain ⟨hne,hscope⟩ := hkept ha community hc
        simp [hne,hscope]

theorem communityOf_isSome : (communityOf p source patch).isSome = true ↔
    (source.row.visibility = .group → ∃ community, GroupAccepts p source patch community) ∧
      (source.row.visibility ≠ .group → ScopeAccepts p source patch) := by
  unfold communityOf
  by_cases hg : source.row.visibility = .group
  · simp only [hg,if_true,← groupAllows_iff]
    split <;> simp_all
  · simp [hg,scopeOf_isSome]

theorem parentAllows_iff : parentAllows p source patch = true ↔
    ∀ parent, patch.inReplyTo = some parent →
      parent ≠ some source.row.apId ∧ p.parentAllowed parent = true := by
  simp [parentAllows,Option.all_eq_true]

theorem accepted_iff : Accepted c actor p source patch ↔
    (projectAdmittedNotePatch c p actor source patch).isSome = true := by
  unfold projectAdmittedNotePatch
  constructor
  · rintro ⟨hnote,hlive,hown,hsuppress,hparent,hgroup,hscope⟩
    obtain ⟨community,hcommunity⟩ :=
      Option.isSome_iff_exists.mp (communityOf_isSome.mpr ⟨hgroup,hscope⟩)
    simp [hnote,hlive,hown,hsuppress,hcommunity,parentAllows_iff.mpr hparent]
  · intro h
    split at h
    · cases h
    · rename_i hblock
      simp only [not_or,not_not,Bool.not_eq_false,Bool.not_eq_true] at hblock
      obtain ⟨hnote,hlive,hown,hsuppress⟩ := hblock
      split at h
      · cases h
      · rename_i community hcommunity
        split at h
        · rename_i hparent
          obtain ⟨hgroup,hscope⟩ := communityOf_isSome.mp (by rw [hcommunity]; rfl)
          exact ⟨hnote,hlive,hown,hsuppress,parentAllows_iff.mp hparent,hgroup,hscope⟩
        · cases h

instance : Decidable (Accepted c actor p source patch) := decidable_of_iff _ accepted_iff.symm

/-- The patches that the policies accept, each of the Note that those before it left. -/
def acceptedPatches (c : Site) (actor : String) :
    List (Policy × AdmittedNotePatch) → NoteProjection → List AdmittedNotePatch
  | [], _ => []
  | (p,patch) :: rest, projected =>
    (if Accepted c actor p projected patch then [patch] else []) ++
      acceptedPatches c actor rest (applyPatch c actor p projected patch)

/-- The addressing of the last accepted patch that has one. -/
def lastAddressing (c : Site) (actor : String) (updates : List (Policy × AdmittedNotePatch))
    (source : NoteProjection) : Option Addressing :=
  ((acceptedPatches c actor updates source).filterMap (·.addressing)).getLast?

theorem projectAdmittedNotePatch_some
    (h : projectAdmittedNotePatch c p actor source patch = some n) :
    ∃ community, communityOf p source patch = some community ∧
      n = ⟨patchRow c p actor community patch source.row,patchRecipients patch source⟩ := by
  unfold projectAdmittedNotePatch at h
  split at h
  · cases h
  · split at h
    · cases h
    · rename_i community hcommunity
      split at h
      · exact ⟨community,hcommunity,(Option.some.inj h).symm⟩
      · cases h

theorem patchRecipients_group (h : source.row.visibility = .group) :
    patchRecipients patch source = source.recipients := if_pos h

theorem keepsGroup_accepted (hg : source.row.visibility = .group)
    (h : projectAdmittedNotePatch c p actor source patch = some n) : KeepsGroup source n := by
  obtain ⟨community,hcommunity,rfl⟩ := projectAdmittedNotePatch_some h
  unfold communityOf at hcommunity
  rw [if_pos hg] at hcommunity
  split at hcommunity
  · rename_i hallows
    obtain rfl := Option.some.inj hcommunity
    have hparent : patch.inReplyTo.getD source.row.inReplyTo = source.row.inReplyTo := by
      cases hreply : patch.inReplyTo with
      | none => rfl
      | some parent =>
        unfold groupAllows at hallows
        split at hallows
        · split at hallows
          · cases hallows
          · simp only [hreply,Bool.and_eq_true,Option.all_some,decide_eq_true_eq] at hallows
            exact hallows.2
        · cases hallows
    refine ⟨?_,?_,?_,?_,?_,?_,?_,patchRecipients_group hg⟩ <;> simp [patchRow,hg,hparent]
  · cases hcommunity

theorem reaches_accepted (hg : source.row.visibility ≠ .group)
    (h : projectAdmittedNotePatch c p actor source patch = some n) :
    Reaches c actor source patch.addressing n := by
  obtain ⟨community,_,rfl⟩ := projectAdmittedNotePatch_some h
  cases ha : patch.addressing with
  | none =>
    refine ⟨?_,?_,?_,?_,?_⟩
    · simp [patchRow,hg,ha]
    · simp [patchRow,hg,ha]
    · simp [patchRow,hg,ha]
    · simp [patchRow,hg,ha]
    · simp [patchRecipients,hg,ha]
  | some a =>
    refine ⟨?_,?_,?_,?_,fun r => ?_⟩
    · simp [patchRow,hg,ha]
    · simp [patchRow,hg,ha]
    · simp [patchRow,hg,ha]
    · simp only [patchRow,if_neg hg,ha]
      rfl
    · cases r
      simp only [patchRecipients,hg,if_false,ha,Finset.mem_union,Finset.mem_filter,
        Finset.mem_image,List.mem_toFinset,Recipient.mk.injEq]
      constructor
      · rintro (⟨hr,htype⟩ | ⟨_,hr,rfl,rfl⟩)
        · exact .inr ⟨htype,hr⟩
        · exact .inl ⟨rfl,hr⟩
      · rintro (⟨htype,hr⟩ | ⟨htype,hr⟩)
        · exact .inr ⟨_,hr,rfl,htype.symm⟩
        · exact .inl ⟨hr,htype⟩

theorem KeepsGroup.trans (h : KeepsGroup source n) (k : KeepsGroup n m) : KeepsGroup source m :=
  ⟨k.visibility,k.communityApId.trans h.communityApId,k.inReplyTo.trans h.inReplyTo,
    k.to_.trans h.to_,k.cc.trans h.cc,k.audience.trans h.audience,
    k.conversation.trans h.conversation,k.recipients.trans h.recipients⟩

theorem KeepsGroup.refl (hg : source.row.visibility = .group) : KeepsGroup source source :=
  ⟨hg,rfl,rfl,rfl,rfl,rfl,rfl,rfl⟩

theorem SameReach.refl (source : NoteProjection) : SameReach source source :=
  ⟨rfl,rfl,rfl,rfl,rfl⟩

theorem Reaches.trans {a b : Option Addressing} (h : Reaches c actor source a n)
    (k : Reaches c actor n b m) : Reaches c actor source (b.or a) m := by
  cases b with
  | none =>
    cases a with
    | none =>
      exact ⟨k.visibility.trans h.visibility,k.to_.trans h.to_,k.cc.trans h.cc,
        k.conversation.trans h.conversation,k.recipients.trans h.recipients⟩
    | some a =>
      refine ⟨k.visibility.trans h.visibility,k.to_.trans h.to_,k.cc.trans h.cc,
        k.conversation.trans h.conversation,fun r => ?_⟩
      rw [k.recipients]
      exact h.recipients r
  | some b =>
    refine ⟨k.visibility,k.to_,k.cc,k.conversation,fun r => ?_⟩
    rw [k.recipients r]
    have hother : r.type ≠ "to" → (r ∈ n.recipients ↔ r ∈ source.recipients) := by
      intro htype
      cases a with
      | none => rw [h.recipients]
      | some a => simp [h.recipients r,htype]
    constructor
    · rintro (hto | ⟨htype,hr⟩)
      · exact .inl hto
      · exact .inr ⟨htype,(hother htype).mp hr⟩
    · rintro (hto | ⟨htype,hr⟩)
      · exact .inl hto
      · exact .inr ⟨htype,(hother htype).mpr hr⟩

theorem lastAddressing_cons {projected : NoteProjection} :
    lastAddressing c actor ((p,patch) :: updates) projected =
      (lastAddressing c actor updates (applyPatch c actor p projected patch)).or
        (if Accepted c actor p projected patch then patch.addressing else none) := by
  unfold lastAddressing
  rw [acceptedPatches,List.filterMap_append,List.getLast?_append]
  congr 1
  split
  · cases ha : patch.addressing <;> simp [ha]
  · rfl

/-- Whatever the policies say of each patch, a group Note keeps its reach, its room and its thread,
and any other Note reaches exactly whom the last addressing that they accept names, beside the
recipients of other types. -/
theorem foldAdmittedNoteUpdates_reach
    (h : foldAdmittedNoteUpdates c actor updates source = some n) :
    (source.row.visibility = .group → KeepsGroup source n) ∧
      (source.row.visibility ≠ .group →
        n.row.visibility ≠ .group ∧
        Reaches c actor source (lastAddressing c actor updates source) n) := by
  induction updates generalizing source with
  | nil =>
    obtain rfl := Option.some.inj h
    exact ⟨fun hg => .refl hg,fun hg => ⟨hg,.refl source⟩⟩
  | cons update updates ih =>
    obtain ⟨p,patch⟩ := update
    rw [foldAdmittedNoteUpdates] at h
    split at h
    · obtain ⟨hgroup,hother⟩ := ih h
      rw [lastAddressing_cons]
      cases hproject : projectAdmittedNotePatch c p actor source patch with
      | none =>
        have hsame : applyPatch c actor p source patch = source := by
          unfold applyPatch
          rw [hproject]
          rfl
        have hreject : ¬ Accepted c actor p source patch := by
          rw [accepted_iff,hproject]
          exact Bool.false_ne_true
        rw [hsame] at hgroup hother ⊢
        rw [if_neg hreject,Option.or_none]
        exact ⟨hgroup,hother⟩
      | some next =>
        have hnext : applyPatch c actor p source patch = next := by
          unfold applyPatch
          rw [hproject]
          rfl
        have haccept : Accepted c actor p source patch := by
          rw [accepted_iff,hproject]
          rfl
        rw [hnext] at hgroup hother ⊢
        rw [if_pos haccept]
        refine ⟨fun hg => ?_,fun hg => ?_⟩
        · have hkeeps := keepsGroup_accepted hg hproject
          exact hkeeps.trans (hgroup hkeeps.visibility)
        · have hreaches := reaches_accepted hg hproject
          obtain ⟨_,_,rfl⟩ := projectAdmittedNotePatch_some hproject
          obtain ⟨hstays,hafter⟩ :=
            hother fun hno => hg ((patchRow_group_iff _ _ _ _ _ _).mp hno)
          exact ⟨hstays,hreaches.trans hafter⟩
    · cases h

section narrowed

def plainSite : Site := ⟨some,fun actor other => actor ++ other,fun _ => true⟩

def openPolicy : Policy where
  ownerSuppresses := false
  community := fun _ => none
  mayPost := fun _ => false
  scope := fun _ => some none
  parentAllowed := fun _ => true
  now := "2026-01-01T00:00:00.000Z"

def publicNote : NoteProjection where
  row := {
    apId := "https://b.example/notes/1", type := "Note", attributedTo := "https://b.example/ben"
    isLocal := 0, deletedAt := none, content := "", summary := none, attachmentsJson := "[]"
    tagsJson := "[]", inReplyTo := none, conversation := none, visibility := .public_
    toJson := ["as:Public"], ccJson := ["https://a.example/ann"], audienceJson := []
    communityApId := none, published := "2026-01-01T00:00:00.000Z", updated := none
    endTime := none }
  recipients := {⟨"https://a.example/ann","to"⟩}

def onlyCarol : AdmittedNotePatch :=
  { addressing := some ⟨["https://c.example/carol"],[],[],[]⟩ }

def ownReply : AdmittedNotePatch :=
  { addressing := some ⟨["as:Public"],[],[],[]⟩, inReplyTo := some (some publicNote.row.apId) }

def narrowing : List (Policy × AdmittedNotePatch) :=
  [(openPolicy,onlyCarol),(openPolicy,ownReply)]

/-- Of a public Note that now goes to carol alone, ann is no recipient; the patch after it is not
accepted. -/
theorem foldAdmittedNoteUpdates_reach_narrowed :
    ∃ n, foldAdmittedNoteUpdates plainSite "https://b.example/ben" narrowing publicNote = some n ∧
      acceptedPatches plainSite "https://b.example/ben" narrowing publicNote = [onlyCarol] ∧
      publicNote.row.visibility ≠ .group ∧
      Reaches plainSite "https://b.example/ben" publicNote
        (lastAddressing plainSite "https://b.example/ben" narrowing publicNote) n :=
  ⟨_,rfl,by decide +kernel,by decide,((foldAdmittedNoteUpdates_reach rfl).2 (by decide)).2⟩

end narrowed

end Yurucommu.NoteUpdate
