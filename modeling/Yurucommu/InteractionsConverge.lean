import Yurucommu.InteractionsFollow

/-!
The cuts of a Like and of an Announce, and with them when a retry converges.
-/

set_option autoImplicit false

namespace Yurucommu.Interactions

open Whatwg (Text)
open Inbox (Processed Outcome)

variable {w : Site} {a : Activity}

section edge

variable {d e : Db} {kind : InteractionKind} {actor objectId id : Text} {n : Nat}

theorem edges_interactionEdge (kind : InteractionKind) (actor objectId id : Text) (d : Db) :
    edges kind (interactionEdge kind actor objectId id d) =
      Table.insertIgnore (sameInteraction actor objectId) ⟨actor,objectId,some id⟩
        (edges kind d) := by
  cases kind <;> rfl

theorem any_interactionEdge (kind : InteractionKind) (actor objectId id : Text) (d : Db) :
    (edges kind (interactionEdge kind actor objectId id d)).any
      (sameInteraction actor objectId) = true := by
  rw [edges_interactionEdge]
  exact Table.any_insertIgnore (by simp [sameInteraction]) _

theorem insertEdge_of_any {row : InteractionRow}
    (h : (edges kind d).any (sameInteraction row.actorApId row.objectApId) = true) :
    insertEdge kind row d = d := by
  unfold insertEdge
  rw [Table.insertIgnore_of_any row h]
  cases kind <;> rfl

theorem recomputeCount_recomputeCount (kind : InteractionKind) (objectId : Text) (d : Db) :
    recomputeCount kind objectId (recomputeCount kind objectId d) =
      recomputeCount kind objectId d := by
  have hrows : ∀ n, Table.update (fun o : ObjectRow => o.apId = objectId) (setCount kind n)
      (Table.update (fun o : ObjectRow => o.apId = objectId) (setCount kind n) d.objects) =
        Table.update (fun o : ObjectRow => o.apId = objectId) (setCount kind n) d.objects := by
    intro n
    refine Table.update_update ?_ ?_ d.objects
    · intro r
      cases kind <;> rfl
    · intro r
      cases kind <;> rfl
  cases kind <;> simp only [recomputeCount,edges,hrows]

theorem interactionEdge_interactionEdge (kind : InteractionKind) (actor objectId id : Text)
    (d : Db) : interactionEdge kind actor objectId id (interactionEdge kind actor objectId id d) =
      interactionEdge kind actor objectId id d := by
  have hany := any_interactionEdge kind actor objectId id d
  have hinsert : insertEdge kind ⟨actor,objectId,some id⟩
      (interactionEdge kind actor objectId id d) = interactionEdge kind actor objectId id d :=
    insertEdge_of_any hany
  unfold interactionEdge at hinsert ⊢
  rw [hinsert,recomputeCount_recomputeCount]

theorem length_interactionEdge (h : (edges kind d).any (sameInteraction actor objectId) = false) :
    (edges kind (interactionEdge kind actor objectId id d)).length =
      (edges kind d).length + 1 := by
  rw [edges_interactionEdge,Table.insertIgnore_of_not_any _ h]
  simp

theorem objects_interactionEdge (key : Text) :
    (interactionEdge kind actor objectId id d).objects.any (fun o => o.apId = key) =
      d.objects.any (fun o => o.apId = key) := by
  cases kind with
  | like =>
    exact Table.any_update _ (fun o => o.apId = key) (setCount .like _) (fun _ => rfl) d.objects
  | announce =>
    exact Table.any_update _ (fun o => o.apId = key) (setCount .announce _) (fun _ => rfl)
      d.objects

theorem readInteraction_cases (w : Site) (a : Activity) (kind : InteractionKind) (n : Nat)
    (d : Db) : readInteraction w a kind n d = processedDone ∨ ∃ objectId,
      a.objectId = some objectId ∧ d.objects.any (fun o => o.apId = objectId) = true ∧
        readInteraction w a kind n d =
          .interactionEdge kind objectId
            ((edges kind d).any (sameInteraction a.actor objectId)) := by
  unfold readInteraction
  split
  · exact .inl rfl
  · rename_i objectId hobject
    split
    · exact .inl rfl
    · rename_i target htarget
      have hany : d.objects.any (fun o => o.apId = objectId) = true := by
        have hfound := List.find?_some htarget
        rw [Bool.and_eq_true] at hfound
        exact List.any_eq_true.mpr ⟨target,List.mem_of_find?_eq_some htarget,hfound.1⟩
      split
      · exact .inl rfl
      · split
        · exact .inr ⟨objectId,hobject,hany,rfl⟩
        · exact .inl rfl

theorem readAnnounce_of_any (ho : a.objectId = some objectId)
    (h : d.objects.any (fun o => o.apId = objectId) = true) :
    readAnnounce w a d = .interaction .announce := by
  unfold readAnnounce
  simp [ho,h]

theorem any_persist (note : ObjectRow) (d : Db) :
    (persist note d).objects.any (fun o => o.apId = note.apId) = true := by
  have hreply : ∀ (parent : Text) (d : Db),
      (recomputeReplyCount parent d).objects.any (fun o => o.apId = note.apId) =
        d.objects.any fun o => o.apId = note.apId := by
    intro parent d
    exact Table.any_update _ (fun o : ObjectRow => o.apId = note.apId)
      (fun o : ObjectRow =>
        { o with replyCount := d.objects.countP fun o => o.inReplyTo = some parent })
      (fun _ => rfl) d.objects
  unfold persist
  rw [hreply]
  cases note.inReplyTo with
  | none => simp
  | some parent =>
    rw [hreply]
    simp

theorem readAnnounce_fetch (h : readAnnounce w a d = .fetch objectId) :
    a.objectId = some objectId := by
  unfold readAnnounce at h
  grind

theorem edges_persist (kind : InteractionKind) (note : ObjectRow) (d : Db) :
    edges kind (persist note d) = edges kind d := by
  unfold persist
  cases note.inReplyTo <;> cases kind <;> rfl

end edge

section interaction

variable {p : Nat} {s₀ : Store} {d b : Db} {k : InteractionKind} {objectId : Text} {n l : Nat}

def InteractionKind.kind : InteractionKind → Kind
  | .like => .like
  | .announce => .announce

structure Settled (a : Activity) (k : InteractionKind) (objectId : Text) (d : Db) : Prop where
  object : a.objectId = some objectId
  target : d.objects.any (fun o => o.apId = objectId) = true
  edge : (edges k d).any (sameInteraction a.actor objectId) = true
  count : interactionEdge k a.actor objectId a.activityId d = d

def InteractionKept (w : Site) (a : Activity) (s₀ : Store) (k : InteractionKind) (p : Nat)
    (s : Store) : Stage → Prop
  | .announce => k = .announce ∧ Rewinds w p a s₀ s.db s.now ∧
    edges k s.db = edges k (begin_ a s₀.db)
  | .fetch objectId => k = .announce ∧ Rewinds w p a s₀ s.db s.now ∧
    edges k s.db = edges k (begin_ a s₀.db) ∧ a.objectId = some objectId
  | .persist note => k = .announce ∧ Rewinds w p a s₀ s.db s.now ∧
    edges k s.db = edges k (begin_ a s₀.db) ∧ a.objectId = some note.apId
  | .interaction k' => k' = k ∧ Rewinds w p a s₀ s.db s.now ∧
    edges k s.db = edges k (begin_ a s₀.db)
  | .interactionEdge k' objectId existing => k' = k ∧ Rewinds w p a s₀ s.db s.now ∧
    edges k s.db = edges k (begin_ a s₀.db) ∧ a.objectId = some objectId ∧
      s.db.objects.any (fun o => o.apId = objectId) = true ∧
        existing = (edges k s.db).any (sameInteraction a.actor objectId)
  | .owner k' objectId => k' = k ∧ Settled a k objectId s.db ∧
    (edges k s.db).length = (edges k (begin_ a s₀.db)).length + 1
  | .upsertActivity _ _ r respond | .insertInbox r respond => respond = false ∧
    ∃ objectId row, Settled a k objectId s.db ∧
      (edges k s.db).length = (edges k (begin_ a s₀.db)).length + 1 ∧
        s.db.objects.find? (fun o => o.apId = objectId) = some row ∧
          w.isLocal row.attributedTo = true ∧ r = row.attributedTo
  | .commit _ => Rewinds w p a s₀ s.db s.now ∧
    ((edges k s.db).length = (edges k (begin_ a s₀.db)).length ∨
      ∀ objectId, a.objectId = some objectId → owes w a s.db (.owner k objectId) = false)
  | _ => False

theorem settled_interactionEdge (ho : a.objectId = some objectId)
    (ht : d.objects.any (fun o => o.apId = objectId) = true) :
    Settled a k objectId (interactionEdge k a.actor objectId a.activityId d) :=
  ⟨ho,(objects_interactionEdge objectId).trans ht,any_interactionEdge k a.actor objectId
    a.activityId d,interactionEdge_interactionEdge k a.actor objectId a.activityId d⟩

theorem Settled.notify (h : Settled a k objectId d) (recipient id : Text) (n : Nat) :
    Settled a k objectId (notify recipient id n d) := by
  refine ⟨h.object,h.target,?_,?_⟩
  · have hedge := h.edge
    cases k <;> exact hedge
  · have hcount := congrArg (Interactions.notify recipient id n) h.count
    cases k <;> exact hcount

theorem passes_interaction (hk : a.kind = k.kind) (ho : a.objectId = some objectId)
    (ht : d.objects.any (fun o => o.apId = objectId) = true) (n : Nat) :
    Passes w a d n (.interaction k) := by
  cases k with
  | like =>
    have hentry : a.entry = .interaction .like := by
      unfold Activity.entry
      rw [hk]
      rfl
    rw [← hentry]
    exact passes_entry d n
  | announce =>
    have hentry : a.entry = .announce := by
      unfold Activity.entry
      rw [hk]
      rfl
    refine (passes_entry d n).step (by rw [hentry]; rfl) fun i k _ _ => ?_
    rw [hentry]
    simp only [handle,readAnnounce_of_any ho ht]

theorem Settled.passes (h : Settled a k objectId d) (hk : a.kind = k.kind) (n : Nat) :
    Passes w a d n processedDone := by
  intro q l m t hm hc
  obtain ⟨j,hj,hc⟩ := passes_interaction hk h.object h.target n q l m t hm hc
  obtain ⟨i,j',hj',_,hc⟩ := (completes_working rfl).mp hc
  simp only [handle] at hc
  rcases readInteraction_cases w a k j' d with hr | ⟨objectId',ho,_,hr⟩
  · rw [hr] at hc
    exact ⟨j',le_trans hj hj',hc⟩
  · rw [hr] at hc
    have heq : objectId' = objectId := Option.some.inj (ho.symm.trans h.object)
    subst heq
    obtain ⟨i',j'',hj'',_,hc⟩ := (completes_working rfl).mp hc
    simp only [handle,h.edge,h.count,if_true] at hc
    exact ⟨j'',le_trans hj (le_trans hj' hj''),hc⟩

theorem Settled.completes (h : Settled a k objectId d) (hk : a.kind = k.kind)
    (hb : d.activities.any (sameActivity a.activityId) = true) (q l m : Nat) :
    ∃ t, Completes w q a (⟨d,held q l,m⟩,a.entry) t := by
  have hcommit : Completes w q a (⟨d,held q l,m⟩,processedDone)
      ⟨setProcessed a.activityId .done d,some ⟨none,none⟩,m⟩ :=
    (completes_commit hb).mpr ⟨m,le_refl m,rfl⟩
  refine ⟨⟨setProcessed a.activityId .done d,some ⟨none,none⟩,m⟩,?_⟩
  have hinteraction : Completes w q a (⟨d,held q l,m⟩,.interaction k)
      ⟨setProcessed a.activityId .done d,some ⟨none,none⟩,m⟩ := by
    rw [completes_working rfl]
    refine ⟨{},m,le_refl m,rfl,?_⟩
    simp only [handle]
    rcases readInteraction_cases w a k m d with hr | ⟨objectId',ho,_,hr⟩
    · rw [hr]
      exact hcommit
    · have heq : objectId' = objectId := Option.some.inj (ho.symm.trans h.object)
      subst heq
      rw [hr,completes_working rfl]
      refine ⟨{},m,le_refl m,rfl,?_⟩
      simp only [handle,h.edge,h.count,if_true]
      exact hcommit
  cases k with
  | like =>
    have hentry : a.entry = .interaction .like := by
      unfold Activity.entry
      rw [hk]
      rfl
    rw [hentry]
    exact hinteraction
  | announce =>
    have hentry : a.entry = .announce := by
      unfold Activity.entry
      rw [hk]
      rfl
    rw [hentry,completes_working rfl]
    refine ⟨{},m,le_refl m,rfl,?_⟩
    simp only [handle,readAnnounce_of_any h.object h.target]
    exact hinteraction

theorem Settled.rewinds (h : Settled a k objectId d) (hk : a.kind = k.kind) (hb : Begun a d)
    (hr : Reached w p a s₀ (⟨d,held p l,n⟩,processedDone)) : Rewinds w p a s₀ d n :=
  rewinds_of_reached hb rfl (le_refl n) hr (h.passes hk n)

theorem owes_owner (k : InteractionKind) (objectId : Text) {row : ObjectRow}
    (h : d.objects.find? (fun o => o.apId = objectId) = some row)
    (hl : w.isLocal row.attributedTo = true) : owes w a d (.owner k objectId) =
      !d.inbox.any (sameInbox row.attributedTo a.activityId) := by
  simp [owes,h,hl]

theorem readOwner_cases (w : Site) (k : InteractionKind) (objectId : Text) (d : Db) :
    readOwner w k objectId d = processedDone ∧ owes w a d (.owner k objectId) = false ∨
      ∃ row, d.objects.find? (fun o => o.apId = objectId) = some row ∧
        w.isLocal row.attributedTo = true ∧ readOwner w k objectId d =
          .upsertActivity k.activityType objectId row.attributedTo false := by
  cases hrow : d.objects.find? fun o => o.apId = objectId with
  | none => exact .inl ⟨by simp [readOwner,hrow],by simp [owes,hrow]⟩
  | some row =>
    cases hl : w.isLocal row.attributedTo with
    | true => exact .inr ⟨row,rfl,hl,by simp [readOwner,hrow,hl]⟩
    | false => exact .inl ⟨by simp [readOwner,hrow,hl],by simp [owes,hrow,hl]⟩

theorem interactionKept_keeps (hk : a.kind = k.kind) (p : Nat) :
    Keeps w p a s₀ (InteractionKept w a s₀ k p) := by
  constructor
  · intro n hn hb hr
    have hhandling : a.entry.handling = true := by
      unfold Activity.entry
      cases a.kind <;> rfl
    have hrew := rewinds_of_reached hb hhandling (le_refl n) hr (passes_entry _ n)
    unfold Activity.entry
    rw [hk]
    cases k with
    | like => exact ⟨rfl,hrew,rfl⟩
    | announce => exact ⟨rfl,hrew,rfl⟩
  · intro i d l m n st _ hw hb hH hn ht hr
    have hb' := begun_working (w := w) (i := i) (n := n) hb hw
    cases st with
    | announce =>
      obtain ⟨rfl,hrew,hedges⟩ := hH
      have hlater := hrew.later hn
      simp only [handle]
      cases hread : readAnnounce w a d with
      | interaction k' =>
        have hkind : k' = .announce := by
          unfold readAnnounce at hread
          grind
        exact ⟨hkind,hlater,hedges⟩
      | fetch objectId => exact ⟨rfl,hlater,hedges,readAnnounce_fetch hread⟩
      | _ =>
        unfold readAnnounce at hread
        grind
    | fetch objectId =>
      obtain ⟨rfl,hrew,hedges,ho⟩ := hH
      have hlater := hrew.later hn
      simp only [handle]
      cases i.fetched with
      | none => exact ⟨rfl,hlater,hedges⟩
      | some note => exact ⟨rfl,hlater,hedges,ho⟩
    | persist note =>
      obtain ⟨rfl,_,hedges,ho⟩ := hH
      simp only [handle] at hr hb' ⊢
      have hpasses := passes_interaction (w := w) (k := .announce) hk ho (any_persist note d) n
      exact ⟨rfl,rewinds_of_reached hb' rfl (le_refl n) hr hpasses,
        (edges_persist _ note d).trans hedges⟩
    | interaction k' =>
      obtain ⟨rfl,hrew,hedges⟩ := hH
      have hlater := hrew.later hn
      simp only [handle]
      rcases readInteraction_cases w a k' n d with hread | ⟨objectId,ho,ht,hread⟩
      · rw [hread]
        exact ⟨hlater,.inl (congrArg List.length hedges)⟩
      · rw [hread]
        exact ⟨rfl,hlater,hedges,ho,ht,rfl⟩
    | interactionEdge k' objectId existing =>
      obtain ⟨rfl,_,hedges,ho,ht,hexisting⟩ := hH
      have hsettled : Settled a k' objectId (interactionEdge k' a.actor objectId a.activityId d) :=
        settled_interactionEdge ho ht
      simp only at hedges hexisting
      simp only [handle] at hr hb' ⊢
      cases existing with
      | true =>
        refine ⟨hsettled.rewinds hk hb' hr,.inl ?_⟩
        simp only
        rw [edges_interactionEdge,Table.insertIgnore_of_any _ hexisting.symm,hedges]
      | false =>
        refine ⟨rfl,hsettled,?_⟩
        simp only
        rw [length_interactionEdge hexisting.symm,hedges]
    | owner k' objectId =>
      obtain ⟨rfl,hsettled,hlength⟩ := hH
      simp only [handle] at hr ⊢
      rcases readOwner_cases (a := a) w k' objectId d with ⟨hread,howes⟩ | ⟨row,hrow,hl,hread⟩
      · rw [hread] at hr ⊢
        refine ⟨hsettled.rewinds hk hb hr,.inr fun objectId' ho => ?_⟩
        have heq : objectId' = objectId := Option.some.inj (ho.symm.trans hsettled.object)
        subst heq
        exact howes
      · rw [hread]
        exact ⟨rfl,objectId,row,hsettled,hlength,hrow,hl,rfl⟩
    | upsertActivity type o r respond =>
      have hup : upsertActivity ⟨a.activityId,type,a.actor,some o,none,.unprocessed⟩ d = d :=
        upsertActivity_of_any hb.1
      simp only [handle,hup]
      exact hH
    | insertInbox r respond =>
      obtain ⟨rfl,objectId,row,hsettled,_,hrow,hl,rfl⟩ := hH
      have hsettled' := hsettled.notify row.attributedTo a.activityId n
      refine ⟨hsettled'.rewinds hk hb' hr,.inr fun objectId' ho => ?_⟩
      have heq : objectId' = objectId := Option.some.inj (ho.symm.trans hsettled.object)
      subst heq
      have hrow' : (notify row.attributedTo a.activityId n d).objects.find?
          (fun o => o.apId = objectId') = some row := hrow
      simp only [handle]
      rw [owes_owner k objectId' hrow' hl,any_notify]
      rfl
    | gate | insertActivity | insertClaim | readProcessed | claim => cases hw
    | retain id | commit state | clear | done | thrown at_ => cases hw
    | _ => exact hH.elim

theorem interactionKept_rewinds (hk : a.kind = k.kind) {st : Stage}
    (h : InteractionKept w a s₀ k p ⟨d,held p l,n⟩ st) (hb : Begun a d)
    (hr : Reached w p a s₀ (⟨d,held p l,n⟩,st)) (howes : owes w a d st = false) :
    Rewinds w p a s₀ d n := by
  cases st with
  | announce => exact h.2.1
  | fetch objectId => exact h.2.1
  | persist note => exact h.2.1
  | interaction k' => exact h.2.1
  | interactionEdge k' objectId existing => exact h.2.1
  | owner k' objectId =>
    obtain ⟨rfl,hsettled,_⟩ := h
    have hnext := hr.next { now := n }
    rw [next_working rfl rfl] at hnext
    simp only [handle,max_self] at hnext
    rcases readOwner_cases (a := a) w k' objectId d with ⟨hread,_⟩ | ⟨row,hrow,hl,hread⟩
    · rw [hread] at hnext
      exact hsettled.rewinds hk hb hnext
    · rw [owes_owner k' objectId hrow hl,Bool.not_eq_false'] at howes
      rw [hread] at hnext
      exact hsettled.rewinds hk hb (reached_upserted hb.1 howes hnext)
  | upsertActivity type o r respond =>
    obtain ⟨rfl,objectId,row,hsettled,_⟩ := h
    simp only [owes,Bool.false_or,Bool.not_eq_false'] at howes
    exact hsettled.rewinds hk hb (reached_upserted hb.1 howes hr)
  | insertInbox r respond =>
    obtain ⟨rfl,objectId,row,hsettled,_⟩ := h
    simp only [owes,Bool.false_or,Bool.not_eq_false'] at howes
    exact hsettled.rewinds hk hb (reached_notified howes hr)
  | commit state => exact h.1
  | _ => exact h.elim

theorem edges_sameRows {e : Db} (h : SameRows e d) (k : InteractionKind) :
    edges k e = edges k d := by
  cases k with
  | like => exact h.likes
  | announce => exact h.announces

theorem Settled.stuck (hk : a.kind = k.kind) (h : Settled a k objectId d) (hb : Begun a d)
    (hlength : (edges k d).length = (edges k (begin_ a s₀.db)).length + 1)
    (howes : owes w a d (.owner k objectId) = true) :
    Stuck w a (InteractionKept w a s₀ k) d n := by
  refine ⟨h.passes hk n,fun q l m _ => h.completes hk hb.1 q l m,?_⟩
  rintro r s state _ ⟨_,hwhole⟩ heq
  have hsame := sameRows heq
  rcases hwhole with hwhole | hwhole
  · rw [edges_sameRows hsame,hlength] at hwhole
    omega
  · have hno := hwhole objectId h.object
    simp only [owes,hsame.objects,hsame.inbox] at hno howes
    rw [hno] at howes
    cases howes

theorem interactionKept_stuck (hk : a.kind = k.kind) {st : Stage}
    (h : InteractionKept w a s₀ k p ⟨d,held p l,n⟩ st) (hb : Begun a d)
    (howes : owes w a d st = true) : Stuck w a (InteractionKept w a s₀ k) d n := by
  cases st with
  | owner k' objectId =>
    obtain ⟨rfl,hsettled,hlength⟩ := h
    exact hsettled.stuck hk hb hlength howes
  | upsertActivity type o r respond | insertInbox r respond =>
    obtain ⟨rfl,objectId,row,hsettled,hlength,hrow,hl,rfl⟩ := h
    refine hsettled.stuck hk hb hlength ?_
    rw [owes_owner k objectId hrow hl]
    simpa only [owes,Bool.false_or] using howes
  | announce | fetch objectId | persist note | interaction k' => cases howes
  | interactionEdge k' objectId existing | commit state => cases howes
  | _ => exact h.elim

theorem interactionKept_cuts (hk : a.kind = k.kind) :
    Cuts w a s₀ (InteractionKept w a s₀ k) := by
  have hkind : ∀ group joinPolicy, a.kind ≠ .groupFollow group joinPolicy := by
    intro group joinPolicy heq
    rw [hk] at heq
    cases k <;> cases heq
  refine ⟨interactionKept_keeps hk,?_,?_⟩
  · intro p d l n st hH hb hr hstranded
    refine interactionKept_rewinds hk hH hb hr ?_
    rw [← Bool.not_eq_true]
    exact fun howes => hstranded ⟨hkind,howes⟩
  · rintro p d l n st hH hb ⟨_,howes⟩
    exact interactionKept_stuck hk hH hb howes

end interaction

theorem retried_iff {p : Nat} {s₀ s : Store} {st : Stage} (hr : Reached w p a s₀ (s,st)) :
    Retried w a s₀ s ↔ ¬Stranded w a (s,st) := by
  cases hk : a.kind with
  | follow recipient => exact (followKept_cuts hk).retried_iff hr
  | groupFollow group joinPolicy => exact (groupKept_cuts hk).retried_iff hr
  | like => exact (interactionKept_cuts (k := .like) hk).retried_iff hr
  | announce => exact (interactionKept_cuts (k := .announce) hk).retried_iff hr

theorem not_converges {p : Nat} {stopped : List Answer} {s₀ : Store}
    (h : Stranded w a (run w p a stopped (freed s₀,.gate))) : ¬Converges w p a stopped s₀ := by
  intro hconverges
  exact (retried_iff ⟨stopped,rfl⟩).mp hconverges h

/-- A dispatch that is cut and done again converges exactly when no row was owed at the cut. -/
theorem converges_iff (w : Site) (p : Nat) (a : Activity) (stopped : List Answer) (s₀ : Store) :
    Converges w p a stopped s₀ ↔ ¬Stranded w a (run w p a stopped (freed s₀,.gate)) :=
  retried_iff ⟨stopped,rfl⟩

section stopped

def bob : Text := "https://here.example/ap/users/bob".toList

def carol : Text := "https://there.example/users/carol".toList

def here : Site :=
  ⟨ActorIdentity.plainHosts,fun id => id = bob,false,[],[],[],[],[],fun _ _ _ _ => true⟩

def followBob : Activity :=
  ⟨"https://there.example/follows/1".toList,[],carol,some bob,.follow bob⟩

def bobStored : Store := ⟨⟨[⟨bob,false,false,0⟩],[],[],[],[],[],[],[]⟩,none,0⟩

/-- Stopped behind the edge, the dispatch is never answered: the retry finds the edge, and neither
notifies nor accepts. -/
theorem not_converges_follow : ¬∀ (w : Site) (p : Nat) (a : Activity) (stopped : List Answer)
    (s₀ : Store), Converges w p a stopped s₀ := by
  intro h
  refine not_converges ?_ (h here 0 followBob (List.replicate 7 {}) bobStored)
  refine ⟨?_,?_⟩
  · intro group joinPolicy heq
    cases heq
  · decide +kernel

end stopped

end Yurucommu.Interactions
