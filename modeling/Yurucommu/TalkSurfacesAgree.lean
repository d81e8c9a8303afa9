import Yurucommu.TalkSurfaces

/-!
When the numbers of the contact list come to those of the badge.
-/

set_option autoImplicit false

namespace Yurucommu.TalkSurfaces

open Whatwg (Text)
open TalkArchives (otherParticipant hasPeerRow oldMarker)

section promise

variable (d : Db) (viewer : Text)

def pairs : List (Text × Option Text) :=
  ((d.messages.filter (dmWhereForActor d viewer)).map (groupKey viewer)).dedup

structure Agree : Prop where
  dm : ((userContacts d viewer).map (·.unreadCount)).sum = (yurumeUnreadCounts d viewer).dm
  community :
    ((communityContacts d viewer).map (·.unreadCount)).sum = (yurumeUnreadCounts d viewer).community
  belongs : ∀ o ∈ d.messages, badgeUnread d viewer o = true →
    ((userContacts d viewer).countP fun c =>
      some c.conversationId = o.conversation && c.otherApId = o.attributedTo) = 1
  listed : ∀ c ∈ userContacts d viewer,
    peerArchivedSql d viewer (some c.otherApId) c.conversationId = false

/-- When it holds: no unread message lies in a conversation without a name or comes from nobody,
none that is from the epoch or before meets an empty read position, and no chat message is unread
in a community that the viewer is a member of and that is deleted. -/
structure Meets : Prop where
  named : ∀ o ∈ d.messages, badgeUnread d viewer o = true →
    o.conversation ≠ some [] ∧ o.attributedTo ≠ []
  position : ∀ o ∈ d.messages, badgeUnread d viewer o = true →
    lastReadAt viewer d.dmReadStatus (o.conversation.getD []) = some [] →
      d.readModes.contains ⟨viewer,.user,o.attributedTo,o.conversation.getD [],[]⟩ = true ∨
        epochStart < o.published
  deleted : ∀ m ∈ memberships d viewer, live d m = false →
    ∀ o ∈ d.messages, unreadChat d viewer m o = false

end promise

section lists

theorem mem_chunkForInClause {α : Type} {size : Nat} {items : List α} {x : α} (hs : 0 < size) :
    (∃ chunk ∈ chunkForInClause size items, x ∈ chunk) ↔ x ∈ items := by
  constructor
  · rintro ⟨chunk,hc,hx⟩
    obtain ⟨i,_,rfl⟩ := List.mem_map.mp hc
    exact List.mem_of_mem_drop (List.mem_of_mem_take hx)
  · intro hx
    obtain ⟨k,hk,rfl⟩ := List.mem_iff_getElem.mp hx
    have hdiv : k / size < (items.length + size - 1) / size := by
      rw [Nat.div_lt_iff_lt_mul hs,Nat.lt_iff_add_one_le]
      have hle : items.length ≤ (items.length + size - 1) / size * size := by
        have hmod := Nat.div_add_mod' (items.length + size - 1) size
        have hlt := Nat.mod_lt (items.length + size - 1) hs
        omega
      omega
    refine ⟨_,List.mem_map.mpr ⟨k / size,List.mem_range.mpr hdiv,rfl⟩,?_⟩
    have hmod := Nat.div_add_mod' k size
    have hlt := Nat.mod_lt k hs
    refine List.mem_iff_getElem.mpr ⟨k % size,?_,?_⟩
    · rw [List.length_take,List.length_drop]
      omega
    · rw [List.getElem_take,List.getElem_drop]
      congr 1

theorem countP_eq_iff {α : Type} {p q : α → Bool} {l : List α}
    (h : ∀ x ∈ l, p x = true → q x = true) :
    l.countP p = l.countP q ↔ ∀ x ∈ l, q x = true → p x = true := by
  induction l with
  | nil => simp
  | cons x l ih =>
    have hle := List.countP_mono_left (l := l) fun y hy => h y (List.mem_cons_of_mem _ hy)
    have hrest := ih fun y hy => h y (List.mem_cons_of_mem _ hy)
    have hx := h x List.mem_cons_self
    rw [List.countP_cons,List.countP_cons,List.forall_mem_cons,← hrest]
    cases hp : p x with
    | true => simp [hx hp]
    | false =>
      cases hq : q x with
      | false => simp
      | true =>
        simp only [Bool.false_eq_true,if_false,if_true]
        constructor
        · intro heq
          omega
        · intro hno
          exact absurd (hno.1 trivial) (by simp)

variable {rows : List Message} {o : Message}

theorem mem_of_newest (h : newest rows = some o) : o ∈ rows := by
  induction rows generalizing o with
  | nil => cases h
  | cons p rows ih =>
    unfold newest at h
    cases hn : newest rows with
    | none =>
      simp only [hn,Option.some.injEq] at h
      exact h ▸ List.mem_cons_self
    | some q =>
      simp only [hn] at h
      split at h
      · exact List.mem_cons_of_mem _ (Option.some.inj h ▸ ih hn)
      · exact Option.some.inj h ▸ List.mem_cons_self

theorem exists_newest (h : o ∈ rows) : ∃ p, newest rows = some p := by
  cases rows with
  | nil => cases h
  | cons q rows =>
    unfold newest
    cases newest rows with
    | none => exact ⟨q,rfl⟩
    | some p =>
      dsimp only
      split
      · exact ⟨p,rfl⟩
      · exact ⟨q,rfl⟩

end lists

section contacts

variable {d : Db} {viewer : Text} {o : Message} {rows : List Message} {key : Text × Text}

theorem exists_dmObjects (hp : (pairs d viewer).length ≤ contactLimit)
    {k : Text × Option Text} : (∃ o ∈ dmObjects d viewer, groupKey viewer o = k) ↔
      ∃ o ∈ contactRows d viewer, groupKey viewer o = k := by
  unfold dmObjects
  dsimp only
  have hkeys : ((contactRows d viewer).map (groupKey viewer)).dedup.length ≤ contactLimit := by
    refine (List.subperm_of_subset (List.nodup_dedup _) fun x hx => ?_).length_le.trans hp
    obtain ⟨o,ho,rfl⟩ := List.mem_map.mp (List.mem_dedup.mp hx)
    obtain ⟨hin,hrow⟩ := List.mem_filter.mp ho
    rw [Bool.and_eq_true] at hrow
    exact List.mem_dedup.mpr (List.mem_map.mpr ⟨o,List.mem_filter.mpr ⟨hin,hrow.1⟩,rfl⟩)
  rw [List.take_of_length_le]
  · simp only [List.mem_insertionSort,List.mem_filterMap,List.mem_dedup]
    constructor
    · rintro ⟨o,⟨k',_,hn⟩,hk⟩
      exact ⟨o,(List.mem_filter.mp (mem_of_newest hn)).1,hk⟩
    · rintro ⟨o,ho,hk⟩
      have hin : o ∈ (contactRows d viewer).filter fun o => groupKey viewer o = k :=
        List.mem_filter.mpr ⟨ho,decide_eq_true hk⟩
      obtain ⟨p,hn⟩ := exists_newest hin
      refine ⟨p,⟨k,List.mem_map.mpr ⟨o,ho,hk⟩,hn⟩,?_⟩
      exact of_decide_eq_true (List.mem_filter.mp (mem_of_newest hn)).2
  · rw [List.length_insertionSort]
    exact (List.length_filterMap_le _ _).trans hkeys

theorem pairKey_eq_some : pairKey viewer o = some key ↔
    groupKey viewer o = (key.1,some key.2) ∧ key.1 ≠ [] ∧ key.2 ≠ [] := by
  unfold pairKey
  obtain ⟨c,p⟩ := key
  cases hk : groupKey viewer o with
  | mk c' other =>
    cases other with
    | none => simp
    | some p' =>
      dsimp only
      split
      · rename_i hempty
        simp only [Bool.or_eq_true,decide_eq_true_eq] at hempty
        constructor
        · intro hnone
          cases hnone
        · rintro ⟨heq,hc,hp⟩
          simp only [Prod.mk.injEq,Option.some.injEq] at heq
          rcases hempty with h | h
          · exact absurd (heq.1 ▸ h) hc
          · exact absurd (heq.2 ▸ h) hp
      · rename_i hsome
        simp only [Bool.or_eq_true,decide_eq_true_eq,not_or] at hsome
        simp only [Option.some.injEq,Prod.mk.injEq]
        constructor
        · rintro ⟨rfl,rfl⟩
          exact ⟨⟨rfl,rfl⟩,hsome⟩
        · rintro ⟨⟨rfl,rfl⟩,_⟩
          exact ⟨rfl,rfl⟩

theorem mem_keys_addConversation (map : JsMap (Text × Text) Conversation) :
    key ∈ (addConversation viewer map o).entries.map Prod.fst ↔
      pairKey viewer o = some key ∨ key ∈ map.entries.map Prod.fst := by
  unfold addConversation
  cases hk : pairKey viewer o with
  | none => simp
  | some key' =>
    dsimp only
    rw [Option.some.injEq]
    split
    · rename_i hhas
      rw [JsMap.has_iff] at hhas
      exact ⟨.inr,fun h => h.elim (fun heq => heq ▸ hhas) id⟩
    · rw [JsMap.mem_keys_set]
      exact or_congr_left eq_comm

theorem mem_keys_foldl (map : JsMap (Text × Text) Conversation) :
    key ∈ (rows.foldl (addConversation viewer) map).entries.map Prod.fst ↔
      (∃ o ∈ rows, pairKey viewer o = some key) ∨ key ∈ map.entries.map Prod.fst := by
  induction rows generalizing map with
  | nil => simp
  | cons o rows ih =>
    rw [List.foldl_cons,ih,mem_keys_addConversation]
    simp only [List.mem_cons,exists_eq_or_imp]
    rw [or_left_comm,or_assoc]

def Keyed (map : JsMap (Text × Text) Conversation) : Prop :=
  ∀ k c, map.get k = some c → (c.conversation,c.otherApId) = k

theorem Keyed.addConversation {map : JsMap (Text × Text) Conversation} (h : Keyed map)
    (o : Message) : Keyed (addConversation viewer map o) := by
  unfold TalkSurfaces.addConversation
  cases pairKey viewer o with
  | none => exact h
  | some key =>
    dsimp only
    split
    · exact h
    · intro k c hc
      rw [JsMap.get_set] at hc
      split at hc
      · rename_i heq
        obtain rfl := Option.some.inj hc
        exact heq.symm
      · exact h k c hc

theorem keyed_conversationMap : Keyed (conversationMap d viewer) := by
  have hfold : ∀ (rows : List Message) (map : JsMap (Text × Text) Conversation), Keyed map →
      Keyed (rows.foldl (addConversation viewer) map) := by
    intro rows
    induction rows with
    | nil => exact fun _ h => h
    | cons o rows ih => exact fun map h => ih _ (h.addConversation o)
  exact hfold _ _ fun k c hc => by cases hc

def contactKeys (d : Db) (viewer : Text) : List (Text × Text) :=
  (conversationMap d viewer).entries.map Prod.fst

theorem map_values : ((conversationMap d viewer).values.map fun c =>
    (c.conversation,c.otherApId)) = contactKeys d viewer := by
  unfold JsMap.values contactKeys
  rw [List.map_map]
  refine List.map_congr_left fun e he => ?_
  exact keyed_conversationMap e.1 e.2 (JsMap.get_eq_some_iff.mpr he)

theorem mem_contactKeys (hp : (pairs d viewer).length ≤ contactLimit) :
    key ∈ contactKeys d viewer ↔ key.1 ≠ [] ∧ key.2 ≠ [] ∧
      ∃ o ∈ contactRows d viewer, groupKey viewer o = (key.1,some key.2) := by
  unfold contactKeys conversationMap groupConversations
  rw [mem_keys_foldl]
  simp only [pairKey_eq_some]
  have hobjects := exists_dmObjects (k := (key.1,some key.2)) hp
  rw [← hobjects]
  constructor
  · rintro (⟨o,ho,hk,hc,hs⟩ | hno)
    · exact ⟨hc,hs,o,ho,hk⟩
    · cases hno
  · rintro ⟨hc,hs,o,ho,hk⟩
    exact .inl ⟨o,ho,hk,hc,hs⟩

theorem get_foldl_addCount {f : Text × Text → Nat} (hkey : key.1 ≠ []) :
    ∀ (counted : List ((Text × Text) × Nat)) (counts : JsMap (Text × Text) Nat),
      (∀ row ∈ counted, row.2 = f row.1) →
        (counted.foldl addCount counts).get key =
          if key ∈ counted.map Prod.fst then some (f key) else counts.get key := by
  intro counted
  induction counted with
  | nil => intro counts _; simp
  | cons row counted ih =>
    intro counts h
    have hrow := h row List.mem_cons_self
    rw [List.foldl_cons,ih _ fun r hr => h r (List.mem_cons_of_mem _ hr)]
    simp only [List.map_cons,List.mem_cons]
    by_cases hin : key ∈ counted.map Prod.fst
    · rw [if_pos hin,if_pos (.inr hin)]
    · rw [if_neg hin]
      unfold addCount
      by_cases heq : key = row.1
      · have hempty : row.1.1 ≠ [] := heq ▸ hkey
        rw [if_neg hempty,JsMap.get_set,if_pos heq,if_pos (Or.inl heq),hrow,heq]
      · rw [if_neg (not_or.mpr ⟨heq,hin⟩)]
        split
        · rfl
        · rw [JsMap.get_set,if_neg heq]

def contactCounter (d : Db) (viewer : Text) : Counter UserContact (Text × Text) Message where
  id c := (c.conversationId,c.otherApId)
  count c := c.unreadCount
  set n c := { c with unreadCount := n }
  key := senderKey
  counted := unreadIncoming d viewer contactBaseline
  count_set _ _ := rfl
  id_set _ _ := rfl

theorem countP_chunk {chunk : List (Text × Text)} (h : key ∈ chunk) :
    ((d.messages.filter fun o => chunk.contains (senderKey o) &&
      unreadIncoming d viewer contactBaseline o).countP fun o => senderKey o = key) =
        (contactCounter d viewer).tally d.messages key := by
  rw [List.countP_filter]
  refine List.countP_congr fun o _ => ?_
  simp only [Counter.of,contactCounter,Bool.and_eq_true,decide_eq_true_eq,List.contains_eq_mem]
  constructor
  · rintro ⟨hk,_,hu⟩
    exact ⟨hu,decide_eq_true hk⟩
  · rintro ⟨hu,hk⟩
    have hk := of_decide_eq_true hk
    exact ⟨hk,hk ▸ h,hu⟩

theorem mem_unreadMessages {chunk : List (Text × Text)} {n : Nat} :
    (key,n) ∈ unreadMessages d viewer chunk ↔ key ∈ chunk ∧
      n = (contactCounter d viewer).tally d.messages key ∧ 0 < n := by
  unfold unreadMessages
  simp only [List.mem_map,List.mem_dedup,Prod.mk.injEq]
  constructor
  · rintro ⟨_,⟨o,ho,rfl⟩,rfl,rfl⟩
    have hin : senderKey o ∈ chunk := by
      have hrow := (List.mem_filter.mp ho).2
      rw [Bool.and_eq_true,List.contains_eq_mem,decide_eq_true_eq] at hrow
      exact hrow.1
    exact ⟨hin,countP_chunk hin,List.countP_pos_iff.mpr ⟨o,ho,decide_eq_true rfl⟩⟩
  · rintro ⟨hin,rfl,hpos⟩
    rw [← countP_chunk hin] at hpos
    obtain ⟨o,ho,hk⟩ := List.countP_pos_iff.mp hpos
    exact ⟨key,⟨o,ho,of_decide_eq_true hk⟩,rfl,countP_chunk hin⟩

theorem getD_unreadCounts {keys : List (Text × Text)} (hin : key ∈ keys) (hkey : key.1 ≠ []) :
    ((unreadCounts d viewer keys).get key).getD 0 =
      (contactCounter d viewer).tally d.messages key := by
  unfold unreadCounts
  rw [get_foldl_addCount (f := (contactCounter d viewer).tally d.messages) hkey]
  · split
    · rfl
    · rename_i hno
      by_contra hne
      have hsize : 0 < unreadChunk := by decide
      obtain ⟨chunk,hc,hk⟩ := (mem_chunkForInClause hsize).mpr hin
      have hpos : 0 < (contactCounter d viewer).tally d.messages key :=
        Nat.pos_of_ne_zero fun hzero => hne hzero.symm
      refine hno (List.mem_map.mpr ⟨(key,(contactCounter d viewer).tally d.messages key),?_,rfl⟩)
      exact List.mem_flatMap.mpr ⟨chunk,hc,mem_unreadMessages.mpr ⟨hk,rfl,hpos⟩⟩
  · intro row hrow
    obtain ⟨chunk,_,hrow⟩ := List.mem_flatMap.mp hrow
    exact (mem_unreadMessages.mp hrow).2.1

theorem map_userContacts :
    (userContacts d viewer).map (fun c => (c.conversationId,c.otherApId)) =
      contactKeys d viewer := by
  rw [← map_values]
  unfold userContacts
  dsimp only
  rw [List.map_map]
  rfl

theorem exact_contactCounter (hp : (pairs d viewer).length ≤ contactLimit) :
    (contactCounter d viewer).Exact (userContacts d viewer) d.messages := by
  intro c hc
  unfold userContacts at hc
  obtain ⟨v,hv,rfl⟩ := List.mem_map.mp hc
  have hin : (v.conversation,v.otherApId) ∈ contactKeys d viewer := by
    rw [← map_values]
    exact List.mem_map.mpr ⟨v,hv,rfl⟩
  have hkey := ((mem_contactKeys hp).mp hin).1
  rw [map_values]
  exact getD_unreadCounts hin hkey

theorem nodup_contactKeys : (contactKeys d viewer).Nodup := (conversationMap d viewer).nodup

theorem sum_userContacts (hp : (pairs d viewer).length ≤ contactLimit) :
    ((userContacts d viewer).map (·.unreadCount)).sum = d.messages.countP fun o =>
      unreadIncoming d viewer contactBaseline o && decide (senderKey o ∈ contactKeys d viewer) := by
  have hnodup : (contactKeys d viewer).Nodup := nodup_contactKeys
  rw [← (contactCounter d viewer).sum_tally_of hnodup (fun o => ?_),← map_userContacts,List.map_map]
  · exact congrArg List.sum (List.map_congr_left (exact_contactCounter hp))
  · rw [Bool.and_eq_true,decide_eq_true_iff]
    exact Iff.rfl

/-- An unread message has a contact if and only if its pair is named and not archived. -/
theorem senderKey_mem (hp : (pairs d viewer).length ≤ contactLimit) (ho : o ∈ d.messages)
    {baseline : Option Text → Text} (hu : unreadIncoming d viewer baseline o = true) :
    senderKey o ∈ contactKeys d viewer ↔ (o.conversation ≠ some [] ∧ o.attributedTo ≠ []) ∧
      peerArchivedSql d viewer (some o.attributedTo) (o.conversation.getD []) = false := by
  simp only [unreadIncoming,Bool.and_eq_true,decide_eq_true_eq] at hu
  obtain ⟨⟨⟨⟨hdirect,hother⟩,haddressed⟩,hallowed⟩,_⟩ := hu
  have hpeer : otherParticipant viewer o.toObject = some o.attributedTo := if_neg hother
  have hkey : groupKey viewer o = (o.conversation.getD [],some o.attributedTo) := by
    unfold groupKey
    rw [hpeer]
  have hconversation : o.conversation.getD [] ≠ [] ↔ o.conversation ≠ some [] := by
    have hsome := hdirect
    simp only [Message.direct,Bool.and_eq_true] at hsome
    obtain ⟨c,hc⟩ := Option.isSome_iff_exists.mp hsome.2
    simp [hc]
  rw [mem_contactKeys hp,and_assoc,← hconversation]
  refine and_congr_right fun _ => and_congr_right fun _ => ?_
  constructor
  · rintro ⟨p,hp,hpk⟩
    have hrow := (List.mem_filter.mp hp).2
    rw [Bool.and_eq_true,hpk,Bool.not_eq_true'] at hrow
    exact hrow.2
  · intro harchived
    refine ⟨o,List.mem_filter.mpr ⟨ho,?_⟩,hkey⟩
    rw [hkey,harchived]
    simp only [dmWhereForActor,hdirect,hpeer,Option.all_some,hallowed,haddressed]
    simp

theorem nil_lt_of_lt {base text : Text} (h : base < text) : [] < text := by
  cases text with
  | nil => exact absurd h (List.not_lt_nil _)
  | cons c text => exact List.nil_lt_cons c text

/-- The two baselines differ at the empty position only. -/
theorem unread_contact_iff : unreadIncoming d viewer contactBaseline o = true ↔
    unreadIncoming d viewer badgeBaseline o = true ∧
      (lastReadAt viewer d.dmReadStatus (o.conversation.getD []) = some [] →
        d.readModes.contains ⟨viewer,.user,o.attributedTo,o.conversation.getD [],[]⟩ = true ∨
          epochStart < o.published) := by
  unfold unreadIncoming
  by_cases hpos : lastReadAt viewer d.dmReadStatus (o.conversation.getD []) = some []
  · have hcontact : contactBaseline (some []) = epochStart := rfl
    have hbadge : badgeBaseline (some []) = [] := rfl
    rw [hpos,hcontact,hbadge]
    simp only [forall_const,unreadTalkObjectSql,Option.filter_some]
    cases d.readModes.contains ⟨viewer,.user,o.attributedTo,o.conversation.getD [],[]⟩ with
    | true => simp
    | false =>
      simp only [Bool.false_eq_true,if_false,false_or,Bool.and_eq_true,decide_eq_true_eq]
      constructor
      · rintro ⟨hrest,hlt⟩
        exact ⟨⟨hrest,nil_lt_of_lt hlt⟩,hlt⟩
      · rintro ⟨⟨hrest,_⟩,hlt⟩
        exact ⟨hrest,hlt⟩
  · have hsame : contactBaseline (lastReadAt viewer d.dmReadStatus (o.conversation.getD [])) =
        badgeBaseline (lastReadAt viewer d.dmReadStatus (o.conversation.getD [])) := by
      cases hread : lastReadAt viewer d.dmReadStatus (o.conversation.getD []) with
      | none => rfl
      | some time =>
        have hne : time ≠ [] := fun heq => hpos (by rw [hread,heq])
        simp only [contactBaseline,badgeBaseline,Option.filter_some]
        simp [hne]
    rw [hsame]
    simp [hpos]

theorem userContacts_not_archived (hp : (pairs d viewer).length ≤ contactLimit) {c : UserContact}
    (hc : c ∈ userContacts d viewer) :
    peerArchivedSql d viewer (some c.otherApId) c.conversationId = false := by
  have hin : (c.conversationId,c.otherApId) ∈ contactKeys d viewer := by
    rw [← map_userContacts]
    exact List.mem_map.mpr ⟨c,hc,rfl⟩
  obtain ⟨_,_,o,ho,hk⟩ := (mem_contactKeys hp).mp hin
  have hrow := (List.mem_filter.mp ho).2
  rw [Bool.and_eq_true,hk,Bool.not_eq_true'] at hrow
  exact hrow.2

theorem countP_userContacts : ((userContacts d viewer).countP fun c =>
    (c.conversationId,c.otherApId) = key) = if key ∈ contactKeys d viewer then 1 else 0 := by
  have hcount : ((userContacts d viewer).countP fun c =>
      (c.conversationId,c.otherApId) = key) = (contactKeys d viewer).count key := by
    rw [← map_userContacts,List.count,List.countP_map]
    refine List.countP_congr fun c _ => ?_
    simp
  rw [hcount]
  split
  · rename_i hin
    exact List.count_eq_one_of_mem nodup_contactKeys hin
  · rename_i hno
    exact List.count_eq_zero_of_not_mem hno

theorem sum_filter_le {α : Type} (f : α → Nat) (p : α → Bool) (l : List α) :
    ((l.filter p).map f).sum ≤ (l.map f).sum := by
  induction l with
  | nil => exact le_refl _
  | cons x l ih =>
    rw [List.filter_cons,List.map_cons,List.sum_cons]
    split
    · rw [List.map_cons,List.sum_cons]
      omega
    · omega

theorem sum_filter_eq_iff {α : Type} {f : α → Nat} {p : α → Bool} {l : List α} :
    ((l.filter p).map f).sum = (l.map f).sum ↔ ∀ x ∈ l, p x = false → f x = 0 := by
  induction l with
  | nil => simp
  | cons x l ih =>
    have hle := sum_filter_le f p l
    rw [List.filter_cons,List.map_cons,List.sum_cons,List.forall_mem_cons,← ih]
    cases p x with
    | true =>
      simp only [if_true,List.map_cons,List.sum_cons]
      simp
    | false =>
      simp only [Bool.false_eq_true,if_false,forall_const]
      omega

theorem badgeUnread_iff : badgeUnread d viewer o = true ↔
    unreadIncoming d viewer badgeBaseline o = true ∧
      peerArchivedSql d viewer (some o.attributedTo) (o.conversation.getD []) = false := by
  rw [badgeUnread,Bool.and_eq_true,Bool.not_eq_true']

theorem dm_iff (hp : (pairs d viewer).length ≤ contactLimit) :
    ((userContacts d viewer).map (·.unreadCount)).sum = (yurumeUnreadCounts d viewer).dm ↔
      ∀ o ∈ d.messages, badgeUnread d viewer o = true →
        unreadIncoming d viewer contactBaseline o = true ∧ senderKey o ∈ contactKeys d viewer := by
  rw [sum_userContacts hp]
  refine (countP_eq_iff fun o ho h => ?_).trans ?_
  · rw [Bool.and_eq_true] at h
    have hu := (unread_contact_iff.mp h.1).1
    have hk := (senderKey_mem hp ho hu).mp (of_decide_eq_true h.2)
    exact badgeUnread_iff.mpr ⟨hu,hk.2⟩
  · refine forall₂_congr fun o _ => imp_congr_right fun _ => ?_
    rw [Bool.and_eq_true]
    exact and_congr_right fun _ => decide_eq_true_iff

theorem community_iff : ((communityContacts d viewer).map (·.unreadCount)).sum =
    (yurumeUnreadCounts d viewer).community ↔ ∀ m ∈ memberships d viewer, live d m = false →
      ∀ o ∈ d.messages, unreadChat d viewer m o = false := by
  unfold communityContacts yurumeUnreadCounts
  dsimp only
  rw [List.map_map]
  refine sum_filter_eq_iff.trans (forall₂_congr fun m _ => imp_congr_right fun _ => ?_)
  refine List.countP_eq_zero.trans (forall₂_congr fun o _ => ?_)
  rw [Bool.not_eq_true]

/-- The surfaces agree exactly when these hold. -/
theorem talk_surfaces_agree_iff (d : Db) (viewer : Text)
    (hp : (pairs d viewer).length ≤ contactLimit) : Agree d viewer ↔ Meets d viewer := by
  constructor
  · intro h
    have hdm := (dm_iff hp).mp h.dm
    refine ⟨fun o ho hb => ?_,fun o ho hb => ?_,community_iff.mp h.community⟩
    · exact ((senderKey_mem hp ho (badgeUnread_iff.mp hb).1).mp (hdm o ho hb).2).1
    · exact (unread_contact_iff.mp (hdm o ho hb).1).2
  · intro h
    have hkey : ∀ o ∈ d.messages, badgeUnread d viewer o = true →
        senderKey o ∈ contactKeys d viewer := by
      intro o ho hb
      obtain ⟨hu,hopen⟩ := badgeUnread_iff.mp hb
      exact (senderKey_mem hp ho hu).mpr ⟨h.named o ho hb,hopen⟩
    refine ⟨(dm_iff hp).mpr fun o ho hb => ⟨?_,hkey o ho hb⟩,community_iff.mpr h.deleted,
      fun o ho hb => ?_,fun c hc => userContacts_not_archived hp hc⟩
    · exact unread_contact_iff.mpr ⟨(badgeUnread_iff.mp hb).1,h.position o ho hb⟩
    · have hone : ((userContacts d viewer).countP fun c =>
          (c.conversationId,c.otherApId) = senderKey o) = _ := countP_userContacts
      rw [if_pos (hkey o ho hb)] at hone
      refine Eq.trans (List.countP_congr fun c _ => ?_) hone
      have hu := (badgeUnread_iff.mp hb).1
      simp only [unreadIncoming,Message.direct,Bool.and_eq_true] at hu
      obtain ⟨conversation,hc⟩ := Option.isSome_iff_exists.mp hu.1.1.1.1.2
      simp [senderKey,hc]

end contacts

end Yurucommu.TalkSurfaces
