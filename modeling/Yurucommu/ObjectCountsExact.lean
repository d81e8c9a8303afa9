import Yurucommu.ObjectCounts

/-!
Which writes keep the reply counts of all objects and the post counts of all local actors equal to
the numbers of the objects that they count.
-/

set_option autoImplicit false

namespace Yurucommu.ObjectCounts

open Whatwg (Text)
open ActorIdentity (isSameActivityPubActor)

section replies

variable {d : Db} {stale : Option Text → Prop}

/-- The reply counts are exact but for the objects whose id is stale. -/
def But (stale : Option Text → Prop) (d : Db) : Prop := replies.ExactBut stale d.objects d.objects

theorem of_replies {k : Option Text} {o : ObjectRow} : replies.of k o = true ↔ o.inReplyTo = k :=
  decide_eq_true_iff

theorem replies_tally_update {cond : ObjectRow → Bool} {set : ObjectRow → ObjectRow}
    (h : ∀ o, (set o).inReplyTo = o.inReplyTo) (objects : List ObjectRow) (k : Option Text) :
    replies.tally (Table.update cond set objects) k = replies.tally objects k := by
  have hcounted : ∀ o, replies.counted (set o) = replies.counted o := fun _ => rfl
  exact replies.tally_update_same hcounted h cond objects k

theorem But.exact (h : But stale d) (hstale : ∀ o ∈ d.objects, ¬stale (some o.apId)) :
    replies.Exact d.objects d.objects := Counter.ExactBut.exact h hstale

theorem But.mono {stale' : Option Text → Prop} (h : But stale d)
    (hstale : ∀ o ∈ d.objects, stale (some o.apId) → stale' (some o.apId)) : But stale' d :=
  fun o ho hnot => h o ho fun htrue => hnot (hstale o ho htrue)

theorem But.recompute (h : But stale d) (parent : Text) :
    But (fun k => stale k ∧ k ≠ some parent) (recomputeObjectReplyCount parent d) := by
  intro o ho hnot
  have hexact := Counter.ExactBut.recompute h (some parent) o ho hnot
  have hset : ∀ o : ObjectRow,
      (replies.set (replies.tally d.objects (some parent)) o).inReplyTo = o.inReplyTo :=
    fun _ => rfl
  rw [hexact]
  exact (replies_tally_update hset _ _).symm

theorem But.recomputeAll (parents : List Text) : ∀ {d : Db} {stale : Option Text → Prop},
    But stale d → But (fun k => stale k ∧ ∀ parent ∈ parents, k ≠ some parent)
      (recomputeAll parents d) := by
  induction parents with
  | nil =>
    intro d stale h
    exact h.mono fun o _ htrue => ⟨htrue,by simp⟩
  | cons parent parents ih =>
    intro d stale h
    refine (ih (h.recompute parent)).mono ?_
    intro o _ htrue
    refine ⟨htrue.1.1,?_⟩
    intro p hp
    rcases List.mem_cons.mp hp with rfl | hp
    · exact htrue.1.2
    · exact htrue.2 p hp

theorem But.recomputed (h : But stale d) {parents : List Text}
    (hall : ∀ x, stale (some x) → x ∈ parents) :
    replies.Exact (ObjectCounts.recomputeAll parents d).objects
      (ObjectCounts.recomputeAll parents d).objects := by
  refine (h.recomputeAll parents).exact ?_
  intro o _ hstale
  exact hstale.2 o.apId (hall o.apId hstale.1) rfl

theorem But.insert (h : But stale d) (o : ObjectRow) :
    But (fun k => stale k ∨ k = some o.apId ∨ o.inReplyTo = k) (insertObject o d) := by
  intro p hp hnot
  rcases List.mem_append.mp hp with hold | hnew
  · refine Counter.ExactBut.append h o p hold ?_
    rintro (hstale | hof)
    · exact hnot (.inl hstale)
    · exact hnot (.inr (.inr (of_replies.mp hof)))
  · rw [List.mem_singleton.mp hnew] at hnot
    exact (hnot (.inr (.inl rfl))).elim

theorem But.insertNew (h : But stale d) {o : ObjectRow} (hcount : o.replyCount = 0)
    (hnone : ∀ o' ∈ d.objects, o'.inReplyTo ≠ some o.apId) :
    But (fun k => stale k ∨ o.inReplyTo = k) (insertObject o d) := by
  intro p hp hnot
  rcases List.mem_append.mp hp with hold | hnew
  · refine Counter.ExactBut.append h o p hold ?_
    rintro (hstale | hof)
    · exact hnot (.inl hstale)
    · exact hnot (.inr (of_replies.mp hof))
  · rw [List.mem_singleton.mp hnew] at hnot ⊢
    have hself : replies.of (replies.id o) o = false := by
      by_contra hof
      exact hnot (.inr (of_replies.mp (by simpa using hof)))
    have hzero : replies.tally d.objects (replies.id o) = 0 := replies.tally_eq_zero hnone
    change o.replyCount = replies.tally (d.objects ++ [o]) (replies.id o)
    rw [Counter.tally_append,Counter.tally_singleton,hself,hzero,hcount]
    rfl

theorem But.delete (h : But stale d) (cond : ObjectRow → Bool) :
    But (fun k => stale k ∨ ∃ o ∈ d.objects, cond o = true ∧ o.inReplyTo = k)
      (deleteObjects cond d) := by
  intro p hp hnot
  refine Counter.ExactBut.delete h cond p (List.mem_of_mem_filter hp) ?_
  rintro (hstale | ⟨o,ho,hc,hof⟩)
  · exact hnot (.inl hstale)
  · exact hnot (.inr ⟨o,ho,hc,of_replies.mp hof⟩)

theorem But.delete_noReplies (h : But (fun _ => False) d) {cond : ObjectRow → Bool}
    (hno : NoReplies cond d) :
    replies.Exact (deleteObjects cond d).objects (deleteObjects cond d).objects := by
  refine (h.delete cond).exact ?_
  rintro parent hparent (hfalse | ⟨o,ho,hc,hto⟩)
  · exact hfalse
  · obtain ⟨hmem,hkept⟩ := List.mem_filter.mp hparent
    exact hno o ho hc parent hmem (by simpa using hkept) hto

theorem But.values (h : But stale d) (after : ObjectRow) :
    But (fun k => stale k ∨ after.inReplyTo = k ∨
        ∃ o ∈ d.objects, o.apId = after.apId ∧ o.inReplyTo = k)
      { d with
        objects := Table.update (fun o => o.apId = after.apId) (values after) d.objects } := by
  intro p' hp' hnot
  obtain ⟨p,hp,hcases⟩ := Table.mem_update.mp hp'
  have hsame : p'.apId = p.apId ∧ p'.replyCount = p.replyCount := by
    rcases hcases with ⟨_,rfl⟩ | ⟨hid,rfl⟩
    · exact ⟨rfl,rfl⟩
    · exact ⟨(of_decide_eq_true hid).symm,rfl⟩
  have hcount : p.replyCount = replies.tally d.objects (some p.apId) := by
    refine h p hp ?_
    intro hstale
    refine hnot (.inl ?_)
    change stale (some p'.apId)
    rw [hsame.1]
    exact hstale
  change p'.replyCount = replies.tally (Table.update _ _ d.objects) (some p'.apId)
  rw [hsame.2,hcount,hsame.1]
  unfold Counter.tally Table.update
  rw [List.countP_map]
  refine List.countP_congr fun o ho => ?_
  simp only [Function.comp_apply]
  split
  · rename_i hid
    have hold : o.inReplyTo ≠ some p'.apId :=
      fun heq => hnot (.inr (.inr ⟨o,ho,of_decide_eq_true hid,heq⟩))
    have hnew : after.inReplyTo ≠ some p'.apId := fun heq => hnot (.inr (.inl heq))
    rw [of_replies,of_replies,← hsame.1]
    exact ⟨fun heq => (hold heq).elim,fun heq => (hnew heq).elim⟩
  · rfl

end replies

section posts

variable {d : Db} {actors : List ActorRow} {objects : List ObjectRow} {actor apId : Text}

theorem of_posts {k : Text} {o : ObjectRow} :
    posts.of k o = true ↔ o.counted = true ∧ o.attributedTo = k := by
  unfold Counter.of
  rw [Bool.and_eq_true]
  exact and_congr Iff.rfl decide_eq_true_iff

theorem posts_tally_update {cond : ObjectRow → Bool} {set : ObjectRow → ObjectRow}
    (hcounted : ∀ o, (set o).counted = o.counted)
    (hkey : ∀ o, (set o).attributedTo = o.attributedTo) (objects : List ObjectRow) (k : Text) :
    posts.tally (Table.update cond set objects) k = posts.tally objects k :=
  posts.tally_update_same hcounted hkey cond objects k

def Uncounted (actors : List ActorRow) (o : ObjectRow) : Prop :=
  o.counted = true → ∀ a ∈ actors, a.apId ≠ o.attributedTo

theorem Uncounted.of {o : ObjectRow} {a : ActorRow} (h : Uncounted actors o) (ha : a ∈ actors) :
    posts.of a.apId o = false := by
  by_contra hof
  obtain ⟨hcounted,hkey⟩ := of_posts.mp (by simpa using hof)
  exact h hcounted a ha hkey.symm

theorem posts_append (h : posts.Exact actors objects) {o : ObjectRow} (ho : Uncounted actors o) :
    posts.Exact actors (objects ++ [o]) := by
  refine h.of_tally fun a ha => ?_
  have hof : posts.of (posts.id a) o = false := ho.of ha
  rw [Counter.tally_append,Counter.tally_singleton,hof]
  rfl

theorem posts_delete (h : posts.Exact actors objects) {cond : ObjectRow → Bool}
    (hcond : ∀ o ∈ objects, cond o = true → Uncounted actors o) :
    posts.Exact actors (Table.delete cond objects) := by
  refine h.of_tally fun a ha => ?_
  exact posts.tally_delete_of_none fun o ho hc => (hcond o ho hc).of ha

theorem adjust_none {cond : ActorRow → Bool} {n : ActorRow → Nat}
    (h : ∀ a ∈ actors, cond a = false) : posts.adjust cond n actors = actors :=
  Table.update_of_none _ h

theorem posts_dec (h : posts.Exact d.actors d.objects) (hkeys : (d.objects.map (·.apId)).Nodup)
    (hactor : ∀ o ∈ d.objects, o.apId = apId → o.attributedTo = actor)
    (hdec : Decrements apId d) :
    posts.Exact (decPostCount actor (present apId d) d).actors
      (Table.delete (fun o => o.apId = apId) d.objects) := by
  refine h.adjust ?_
  intro a ha hcount
  have htally := posts.tally_delete (fun o => o.apId = apId) d.objects a.apId
  have hone : (d.objects.countP fun o => posts.of a.apId o && decide (o.apId = apId)) =
      if d.objects.any fun o => posts.of a.apId o && decide (o.apId = apId) then 1 else 0 := by
    refine Counter.countP_eq_any hkeys ?_
    intro o _ o' _ ho ho'
    simp only [Bool.and_eq_true,decide_eq_true_eq] at ho ho'
    rw [ho.2,ho'.2]
  rw [hone] at htally
  have hcount : a.postCount = posts.tally d.objects a.apId := hcount
  cases hany : d.objects.any fun o => posts.of a.apId o && decide (o.apId = apId) with
  | true =>
    rw [hany,if_pos rfl] at htally
    obtain ⟨o,ho,htrue⟩ := List.any_eq_true.mp hany
    simp only [Bool.and_eq_true,decide_eq_true_eq] at htrue
    have hname : a.apId = actor := (of_posts.mp htrue.1).2.symm.trans (hactor o ho htrue.2)
    have hpresent : present apId d = true :=
      List.any_eq_true.mpr ⟨o,ho,by simpa using htrue.2⟩
    have hpos : 0 < a.postCount := by omega
    rw [if_pos (by simp [hname,hpos,hpresent])]
    change a.postCount - 1 = posts.tally _ a.apId
    omega
  | false =>
    rw [hany,if_neg (by simp)] at htally
    rw [if_neg]
    · change a.postCount = posts.tally _ a.apId
      omega
    · intro htrue
      simp only [Bool.and_eq_true,decide_eq_true_eq] at htrue
      obtain ⟨⟨hname,hpos⟩,hpresent⟩ := htrue
      obtain ⟨o,ho,hid⟩ := List.any_eq_true.mp hpresent
      have hid : o.apId = apId := of_decide_eq_true hid
      have hto := hactor o ho hid
      rcases hdec o ho hid with hcounted | hzero
      · have hof := of_posts.mpr ⟨hcounted,hto.trans hname.symm⟩
        have hnot := List.any_eq_false.mp hany o ho
        simp [hof,hid] at hnot
      · have hz := hzero a ha (hname.trans hto.symm)
        omega

end posts

section tables

variable {w : Site} {d d' : Db}

/-- A row as another is, but for its content and its reply count. -/
structure SameRow (o o' : ObjectRow) : Prop where
  apId : o'.apId = o.apId
  type : o'.type = o.type
  attributedTo : o'.attributedTo = o.attributedTo
  visibility : o'.visibility = o.visibility
  inReplyTo : o'.inReplyTo = o.inReplyTo
  recipients : o'.recipients = o.recipients
  writer : o'.writer = o.writer

theorem SameRow.refl (o : ObjectRow) : SameRow o o := ⟨rfl,rfl,rfl,rfl,rfl,rfl,rfl⟩

theorem sameRow_setReplyCount (n : Nat) (o : ObjectRow) : SameRow o (replies.set n o) :=
  ⟨rfl,rfl,rfl,rfl,rfl,rfl,rfl⟩

theorem sameRow_setContent (content : Text) (o : ObjectRow) :
    SameRow o { o with content := content } := ⟨rfl,rfl,rfl,rfl,rfl,rfl,rfl⟩

theorem SameRow.counted {o o' : ObjectRow} (h : SameRow o o') : o'.counted = o.counted := by
  unfold ObjectRow.counted
  rw [h.writer,h.visibility]

theorem SameRow.isLocal {o o' : ObjectRow} (h : SameRow o o') : o'.isLocal = o.isLocal := by
  unfold ObjectRow.isLocal
  rw [h.writer]

/-- What a step leaves: the actors, the ids that were given out, and the rows that have one. -/
structure Evolves (d d' : Db) : Prop where
  actors : d'.actors.map (·.apId) = d.actors.map (·.apId)
  generated : d.generated ⊆ d'.generated
  rows : ∀ o' ∈ d'.objects, (∃ o ∈ d.objects, SameRow o o') ∨ o'.apId ∉ d.generated

theorem here_iff {apId : Text} : Here d apId ↔ apId ∈ d.actors.map (·.apId) := by
  simp [Here]

theorem Evolves.here (h : Evolves d d') {apId : Text} : Here d' apId ↔ Here d apId := by
  rw [here_iff,here_iff,h.actors]

theorem Evolves.refl (d : Db) : Evolves d d :=
  ⟨rfl,fun _ h => h,fun o ho => .inl ⟨o,ho,.refl o⟩⟩

structure Sound (w : Site) (d : Db) : Prop where
  keys : (d.objects.map (·.apId)).Nodup
  rows : ∀ o ∈ d.objects, Proper w d o
  generated : ∀ apId ∈ d.generated, w.isLocal apId = true

theorem Proper.of_same {o o' : ObjectRow} (h : Proper w d o) (hsame : SameRow o o')
    (hgenerated : d.generated ⊆ d'.generated)
    (hactors : d'.actors.map (·.apId) = d.actors.map (·.apId)) : Proper w d' o' where
  site := by
    rw [hsame.isLocal,hsame.apId]
    exact h.site
  generated hlocal := by
    rw [hsame.isLocal] at hlocal
    rw [hsame.apId]
    exact hgenerated (h.generated hlocal)
  here := by
    rw [hsame.isLocal,hsame.attributedTo,here_iff,hactors,← here_iff]
    exact h.here
  audience r hr hr' := by
    rw [hsame.recipients] at hr
    rw [hsame.counted]
    exact h.audience r hr hr'
  story hwriter := by
    rw [hsame.writer] at hwriter
    rw [hsame.type,hsame.visibility]
    exact h.story hwriter

structure Rewrites (d d' : Db) : Prop where
  actors : d'.actors.map (·.apId) = d.actors.map (·.apId)
  generated : d'.generated = d.generated
  keys : (d'.objects.map (·.apId)).Sublist (d.objects.map (·.apId))
  rows : ∀ o' ∈ d'.objects, ∃ o ∈ d.objects, SameRow o o'

theorem Rewrites.refl (d : Db) : Rewrites d d :=
  ⟨rfl,rfl,.refl _,fun o ho => ⟨o,ho,.refl o⟩⟩

theorem SameRow.trans {a b c : ObjectRow} (h : SameRow a b) (h' : SameRow b c) : SameRow a c :=
  ⟨h'.apId.trans h.apId,h'.type.trans h.type,h'.attributedTo.trans h.attributedTo,
    h'.visibility.trans h.visibility,h'.inReplyTo.trans h.inReplyTo,
    h'.recipients.trans h.recipients,h'.writer.trans h.writer⟩

theorem Rewrites.trans {d'' : Db} (h : Rewrites d d') (h' : Rewrites d' d'') : Rewrites d d'' where
  actors := h'.actors.trans h.actors
  generated := h'.generated.trans h.generated
  keys := h'.keys.trans h.keys
  rows o'' ho'' := by
    obtain ⟨o',ho',hsame'⟩ := h'.rows o'' ho''
    obtain ⟨o,ho,hsame⟩ := h.rows o' ho'
    exact ⟨o,ho,hsame.trans hsame'⟩

theorem Rewrites.evolves (h : Rewrites d d') : Evolves d d' :=
  ⟨h.actors,fun _ hmem => h.generated ▸ hmem,fun o' ho' => .inl (h.rows o' ho')⟩

theorem Rewrites.sound (h : Rewrites d d') (hs : Sound w d) : Sound w d' where
  keys := hs.keys.sublist h.keys
  rows o' ho' := by
    obtain ⟨o,ho,hsame⟩ := h.rows o' ho'
    exact (hs.rows o ho).of_same hsame (fun _ hmem => h.generated ▸ hmem) h.actors
  generated apId hmem := by
    rw [h.generated] at hmem
    exact hs.generated apId hmem

theorem Rewrites.before (h : Evolves d d') {d'' : Db} (h' : Rewrites d' d'') : Evolves d d'' where
  actors := h'.actors.trans h.actors
  generated apId hmem := h'.generated ▸ h.generated hmem
  rows o'' ho'' := by
    obtain ⟨o',ho',hsame'⟩ := h'.rows o'' ho''
    rcases h.rows o' ho' with ⟨o,ho,hsame⟩ | hnot
    · exact .inl ⟨o,ho,hsame.trans hsame'⟩
    · refine .inr ?_
      rw [hsame'.apId]
      exact hnot

theorem rewrites_actors (cond : ActorRow → Bool) (n : ActorRow → Nat) (d : Db) :
    Rewrites d { d with actors := posts.adjust cond n d.actors } := by
  have hset : ∀ a : ActorRow, (posts.set (n a) a).apId = a.apId := fun _ => rfl
  exact ⟨Table.map_update hset _,rfl,.refl _,fun o ho => ⟨o,ho,.refl o⟩⟩

theorem rewrites_delete (cond : ObjectRow → Bool) (d : Db) : Rewrites d (deleteObjects cond d) :=
  ⟨rfl,rfl,List.Sublist.map _ List.filter_sublist,
    fun o ho => ⟨o,List.mem_of_mem_filter ho,.refl o⟩⟩

theorem rewrites_update {cond : ObjectRow → Bool} {set : ObjectRow → ObjectRow}
    (h : ∀ o, SameRow o (set o)) (d : Db) :
    Rewrites d { d with objects := Table.update cond set d.objects } := by
  refine ⟨rfl,rfl,?_,?_⟩
  · rw [Table.map_update fun o => (h o).apId]
  · intro o' ho'
    obtain ⟨o,ho,⟨_,rfl⟩ | ⟨_,rfl⟩⟩ := Table.mem_update.mp ho'
    · exact ⟨o',ho,.refl o'⟩
    · exact ⟨o,ho,h o⟩

theorem rewrites_recompute (parent : Text) (d : Db) :
    Rewrites d (recomputeObjectReplyCount parent d) :=
  rewrites_update (sameRow_setReplyCount _) d

theorem rewrites_recomputeAll (parents : List Text) : ∀ d : Db,
    Rewrites d (recomputeAll parents d) := by
  induction parents with
  | nil => exact .refl
  | cons parent parents ih => exact fun d => (rewrites_recompute parent d).trans (ih _)

theorem rewrites_setContent (apId content : Text) (d : Db) :
    Rewrites d (setContent apId content d) := rewrites_update (sameRow_setContent content) d

theorem sound_generate (h : Sound w d) {apId : Text} (hlocal : w.isLocal apId = true) :
    Sound w (generate apId d) where
  keys := h.keys
  rows o ho := (h.rows o ho).of_same (.refl o) (fun _ hmem => List.mem_cons_of_mem _ hmem) rfl
  generated id hid := by
    rcases List.mem_cons.mp hid with rfl | hold
    · exact hlocal
    · exact h.generated id hold

theorem evolves_generate (apId : Text) (d : Db) : Evolves d (generate apId d) :=
  ⟨rfl,fun _ hmem => List.mem_cons_of_mem _ hmem,fun o ho => .inl ⟨o,ho,.refl o⟩⟩

theorem sound_insert (h : Sound w d) {o : ObjectRow} (ho : Proper w d o)
    (habsent : present o.apId d = false) : Sound w (insertObject o d) where
  keys := by
    unfold insertObject
    rw [List.map_append,List.nodup_append]
    refine ⟨h.keys,by simp,?_⟩
    intro x hx y hy heq
    obtain ⟨o',ho',rfl⟩ := List.mem_map.mp hx
    rw [List.map_singleton,List.mem_singleton] at hy
    subst hy
    exact List.any_eq_false.mp habsent o' ho' (by simpa using heq)
  rows o' ho' := by
    rcases List.mem_append.mp ho' with hold | hnew
    · exact (h.rows o' hold).of_same (.refl o') (fun _ hmem => hmem) rfl
    · rw [List.mem_singleton.mp hnew]
      exact ho.of_same (.refl o) (fun _ hmem => hmem) rfl
  generated := h.generated

theorem evolves_insert (d₀ : Db) {o : ObjectRow} (h : Evolves d₀ d) (ho : o.apId ∉ d₀.generated) :
    Evolves d₀ (insertObject o d) where
  actors := h.actors
  generated := h.generated
  rows o' ho' := by
    rcases List.mem_append.mp ho' with hold | hnew
    · exact h.rows o' hold
    · rw [List.mem_singleton.mp hnew]
      exact .inr ho

theorem Sound.unique (h : Sound w d) {o o' : ObjectRow} (ho : o ∈ d.objects) (ho' : o' ∈ d.objects)
    (hid : o.apId = o'.apId) : o = o' := List.inj_on_of_nodup_map h.keys ho ho' hid

theorem unchanged_iff {o : ObjectRow} : unchanged o d = true ↔
    ∃ o' ∈ d.objects, { o' with replyCount := o.replyCount } = o := by
  simp [unchanged]

theorem Sound.same_of_unchanged (h : Sound w d) {o : ObjectRow} (hun : unchanged o d = true)
    {o' : ObjectRow} (ho' : o' ∈ d.objects) (hid : o'.apId = o.apId) : SameRow o o' := by
  obtain ⟨r,hr,heq⟩ := unchanged_iff.mp hun
  have hsame : SameRow o r := by
    rw [← heq]
    exact ⟨rfl,rfl,rfl,rfl,rfl,rfl,rfl⟩
  rw [h.unique ho' hr (hid.trans hsame.apId.symm)]
  exact hsame

theorem posts_of_objects {objects : List ObjectRow} {actors : List ActorRow}
    {set : ObjectRow → ObjectRow} {cond : ObjectRow → Bool} (h : posts.Exact actors objects)
    (hset : ∀ o, SameRow o (set o)) : posts.Exact actors (Table.update cond set objects) :=
  h.of_tally fun _ _ =>
    posts_tally_update (fun o => (hset o).counted) (fun o => (hset o).attributedTo) _ _

theorem posts_recomputeAll (parents : List Text) : ∀ {d : Db}, posts.Exact d.actors d.objects →
    posts.Exact (recomputeAll parents d).actors (recomputeAll parents d).objects := by
  induction parents with
  | nil => exact fun h => h
  | cons parent parents ih =>
    intro d h
    exact ih (posts_of_objects h (sameRow_setReplyCount _))

end tables

structure Kept (w : Site) (d : Db) : Prop where
  sound : Sound w d
  exact : Exact d

/-- A row that a delete by id reads is still the row of its id, if it is there. -/
structure Still (d : Db) (o : ObjectRow) : Prop where
  generated : o.apId ∈ d.generated
  row : ∀ o' ∈ d.objects, o'.apId = o.apId →
    o'.attributedTo = o.attributedTo ∧ o'.visibility = o.visibility ∧ o'.inReplyTo = o.inReplyTo

theorem Still.evolves {d d' : Db} {o : ObjectRow} (h : Still d o) (he : Evolves d d') :
    Still d' o where
  generated := he.generated h.generated
  row o' ho' hid := by
    rcases he.rows o' ho' with ⟨o₀,ho₀,hsame⟩ | hnot
    · obtain ⟨hto,hvisibility,hreply⟩ := h.row o₀ ho₀ (hsame.apId.symm.trans hid)
      exact ⟨hsame.attributedTo.trans hto,hsame.visibility.trans hvisibility,
        hsame.inReplyTo.trans hreply⟩
    · rw [hid] at hnot
      exact (hnot h.generated).elim

section batches

variable {w : Site} {d : Db} {o : ObjectRow} {actor : Text}

theorem Kept.but (h : Kept w d) : But (fun _ => False) d := Counter.Exact.but h.exact.1 _

theorem Proper.counted_of_direct (h : Proper w d o) (hdirect : o.visibility = .direct) :
    o.counted = false := by
  have hstory := h.story
  unfold ObjectRow.counted
  cases hwriter : o.writer with
  | post => simp [hdirect]
  | story =>
    have hpub := (hstory hwriter).2
    rw [hdirect] at hpub
    cases hpub
  | dm | chat | inbound => rfl

theorem uncounted_of_false {actors : List ActorRow} (h : o.counted = false) :
    Uncounted actors o := by
  intro htrue
  rw [h] at htrue
  cases htrue

theorem uncounted_of_elsewhere (h : ¬Here d o.attributedTo) : Uncounted d.actors o :=
  fun _ a ha hid => h ⟨a,ha,hid⟩

theorem actors_elsewhere {cond : ActorRow → Bool} {n : ActorRow → Nat}
    (h : ¬Here d actor) (hcond : ∀ a, cond a = true → a.apId = actor) :
    posts.adjust cond n d.actors = d.actors := by
  refine adjust_none fun a ha => ?_
  by_contra htrue
  exact h ⟨a,ha,hcond a (by simpa using htrue)⟩

theorem bumpPostCount_elsewhere (h : ¬Here d actor) (guard : Bool) :
    bumpPostCount actor guard d = d := by
  have hsame : posts.adjust (fun a => a.apId = actor && guard) (fun a => a.postCount + 1) d.actors =
      d.actors := actors_elsewhere h fun a htrue => by
    simp only [Bool.and_eq_true,decide_eq_true_eq] at htrue
    exact htrue.1
  unfold bumpPostCount
  rw [hsame]

theorem decPostCount_elsewhere (h : ¬Here d actor) (guard : Bool) :
    decPostCount actor guard d = d := by
  have hsame : posts.adjust (fun a => a.apId = actor && decide (0 < a.postCount) && guard)
      (fun a => a.postCount - 1) d.actors = d.actors := actors_elsewhere h fun a htrue => by
    simp only [Bool.and_eq_true,decide_eq_true_eq] at htrue
    exact htrue.1.1
  unfold decPostCount
  rw [hsame]

theorem subtractPostCount_elsewhere (h : ¬Here d actor) (n : Nat) :
    subtractPostCount actor n d = d := by
  have hsame : posts.adjust (fun a => a.apId = actor) (fun a => a.postCount - n) d.actors =
      d.actors := actors_elsewhere h fun a htrue => by simpa using htrue
  unfold subtractPostCount
  rw [hsame]

theorem posts_bump {actors : List ActorRow} {objects : List ObjectRow}
    (h : posts.Exact actors objects) (hcounted : o.counted = true) :
    posts.Exact (posts.adjust (fun a => a.apId = o.attributedTo && true) (fun a => a.postCount + 1)
      actors) (objects ++ [o]) := by
  have hbump := h.increment (r := o) hcounted
  simp only [Bool.and_true]
  exact hbump

theorem kept_generate (h : Kept w d) {apId : Text} (hlocal : w.isLocal apId = true) :
    Kept w (generate apId d) := ⟨sound_generate h.sound hlocal,h.exact⟩

structure Made (w : Site) (d : Db) (o : ObjectRow) : Prop where
  writer : o.isLocal = true
  site : w.isLocal o.apId = true
  generated : o.apId ∈ d.generated
  here : Here d o.attributedTo
  replyCount : o.replyCount = 0
  noReplies : ∀ o' ∈ d.objects, o'.inReplyTo ≠ some o.apId
  audience : ∀ r ∈ o.recipients, r.type = .audience → o.counted = false
  story : o.writer = .story → o.type = .story ∧ o.visibility = .pub

theorem Made.proper (h : Made w d o) : Proper w d o where
  site := h.writer.trans h.site.symm
  generated _ := h.generated
  here := ⟨fun _ => h.here,fun _ => h.writer⟩
  audience := h.audience
  story := h.story

theorem Kept.createPost (h : Kept w d) (hmade : Made w d o) (hwriter : o.writer = .post) :
    Kept w (createPost w o d) := by
  unfold ObjectCounts.createPost
  split
  · exact h
  · rename_i hguard
    simp only [Bool.or_eq_true,not_or,Bool.not_eq_true] at hguard
    have hbump : Rewrites d (if o.visibility = .direct then d
        else bumpPostCount o.attributedTo (!present o.apId d) d) := by
      split
      · exact .refl d
      · exact rewrites_actors _ _ d
    have hobjects : (if o.visibility = .direct then d
        else bumpPostCount o.attributedTo (!present o.apId d) d).objects = d.objects := by
      split <;> rfl
    have hbut : But (fun _ => False) (if o.visibility = .direct then d
        else bumpPostCount o.attributedTo (!present o.apId d) d) := by
      unfold But
      rw [hobjects]
      exact h.but
    refine ⟨?_,?_,?_⟩
    · refine (rewrites_recomputeAll _ _).sound (sound_insert (hbump.sound h.sound) ?_ ?_)
      · exact hmade.proper.of_same (.refl o) (fun _ hmem => hbump.generated ▸ hmem) hbump.actors
      · change List.any _ _ = false
        rw [hobjects]
        exact hguard.1
    · refine (hbut.insertNew hmade.replyCount ?_).recomputed ?_
      · rw [hobjects]
        exact hmade.noReplies
      · rintro x (hfalse | hto)
        · exact hfalse.elim
        · exact Option.mem_toList.mpr hto
    · refine posts_recomputeAll _ ?_
      unfold insertObject
      by_cases hdirect : o.visibility = .direct
      · simp only [hdirect,if_true]
        exact posts_append h.exact.2 (uncounted_of_false (hmade.proper.counted_of_direct hdirect))
      · simp only [hdirect,if_false,bumpPostCount,hguard.1,Bool.not_false]
        exact posts_bump h.exact.2 (by simp [ObjectRow.counted,hwriter,hdirect])

theorem Kept.createMessage (h : Kept w d) (hmade : Made w d o) (hcounted : o.counted = false)
    (hreply : o.inReplyTo = none) : Kept w (createMessage o d) := by
  unfold ObjectCounts.createMessage
  split
  · exact h
  · rename_i habsent
    refine ⟨sound_insert h.sound hmade.proper (by simpa using habsent),?_,?_⟩
    · refine (h.but.insertNew hmade.replyCount hmade.noReplies).exact ?_
      rintro parent _ (hfalse | hto)
      · exact hfalse
      · rw [hreply] at hto
        cases hto
    · exact posts_append h.exact.2 (uncounted_of_false hcounted)

theorem Kept.createStory (h : Kept w d) (hmade : Made w d o) (hwriter : o.writer = .story)
    (hreply : o.inReplyTo = none) : Kept w (createStory o d) := by
  unfold ObjectCounts.createStory
  split
  · exact h
  · rename_i habsent
    refine ⟨?_,?_,?_⟩
    · exact (rewrites_actors _ _ _).sound
        (sound_insert h.sound hmade.proper (by simpa using habsent))
    · refine (h.but.insertNew hmade.replyCount hmade.noReplies).exact ?_
      rintro parent _ (hfalse | hto)
      · exact hfalse
      · rw [hreply] at hto
        cases hto
    · exact posts_bump h.exact.2 (by simp [ObjectRow.counted,hwriter])

theorem exact_setContent (h : Exact d) (apId content : Text) :
    Exact (setContent apId content d) := by
  refine ⟨?_,posts_of_objects h.2 (sameRow_setContent content)⟩
  intro o' ho'
  obtain ⟨o,ho,hcases⟩ := Table.mem_update.mp ho'
  have hsame : o'.replyCount = o.replyCount ∧ o'.apId = o.apId := by
    rcases hcases with ⟨_,rfl⟩ | ⟨_,rfl⟩ <;> exact ⟨rfl,rfl⟩
  have hset : ∀ o : ObjectRow, ({ o with content := content } : ObjectRow).inReplyTo =
    o.inReplyTo := fun _ => rfl
  change o'.replyCount = replies.tally (Table.update _ _ d.objects) (some o'.apId)
  rw [replies_tally_update hset,hsame.1,hsame.2]
  exact h.1 o ho

theorem Kept.setContent (h : Kept w d) (apId content : Text) : Kept w (setContent apId content d) :=
  ⟨(rewrites_setContent apId content d).sound h.sound,exact_setContent h.exact apId content⟩

theorem Kept.deletePost (h : Kept w d) (hstill : Still d o)
    (hdec : o.visibility = .direct ∨ Decrements o.apId d) : Kept w (deletePost o d) := by
  have hactor : ∀ o' ∈ d.objects, o'.apId = o.apId → o'.attributedTo = o.attributedTo :=
    fun o' ho' hid => (hstill.row o' ho' hid).1
  have hdrop : Rewrites d (if o.visibility = .direct then d
      else decPostCount o.attributedTo (present o.apId d) d) := by
    split
    · exact .refl d
    · exact rewrites_actors _ _ d
  have hobjects : (if o.visibility = .direct then d
      else decPostCount o.attributedTo (present o.apId d) d).objects = d.objects := by
    split <;> rfl
  have hbut : But (fun _ => False) (if o.visibility = .direct then d
      else decPostCount o.attributedTo (present o.apId d) d) := by
    unfold But
    rw [hobjects]
    exact h.but
  unfold ObjectCounts.deletePost
  refine ⟨?_,?_,?_⟩
  · exact (rewrites_recomputeAll _ _).sound ((rewrites_delete _ _).sound (hdrop.sound h.sound))
  · refine (hbut.delete _).recomputed ?_
    rintro x (hfalse | ⟨o',ho',hid,hto⟩)
    · exact hfalse.elim
    · rw [hobjects] at ho'
      rw [(hstill.row o' ho' (by simpa using hid)).2.2] at hto
      exact Option.mem_toList.mpr hto
  · refine posts_recomputeAll _ ?_
    unfold deleteObjects
    by_cases hdirect : o.visibility = .direct
    · simp only [hdirect,if_true]
      refine posts_delete h.exact.2 fun o' ho' hid => uncounted_of_false ?_
      refine (h.sound.rows o' ho').counted_of_direct ?_
      rw [(hstill.row o' ho' (by simpa using hid)).2.1,hdirect]
    · simp only [hdirect,if_false]
      exact posts_dec h.exact.2 h.sound.keys hactor (hdec.resolve_left hdirect)

theorem Kept.deleteStory (h : Kept w d) (hstill : Still d o) (hdec : Decrements o.apId d)
    (hno : NoReplies (fun o' => o'.apId = o.apId) d) : Kept w (deleteStory o d) := by
  have hactor : ∀ o' ∈ d.objects, o'.apId = o.apId → o'.attributedTo = o.attributedTo :=
    fun o' ho' hid => (hstill.row o' ho' hid).1
  refine ⟨?_,?_,?_⟩
  · exact (rewrites_delete _ _).sound ((rewrites_actors _ _ d).sound h.sound)
  · exact h.but.delete_noReplies hno
  · exact posts_dec h.exact.2 h.sound.keys hactor hdec

theorem Kept.delete (h : Kept w d) {cond : ObjectRow → Bool} (hno : NoReplies cond d)
    (hcond : ∀ o ∈ d.objects, cond o = true → Uncounted d.actors o) :
    Kept w (deleteObjects cond d) :=
  ⟨(rewrites_delete cond d).sound h.sound,h.but.delete_noReplies hno,posts_delete h.exact.2 hcond⟩

theorem Kept.deleteMessage (h : Kept w d) (hcounted : o.counted = false)
    (hno : unchanged o d = true → NoReplies (fun o' => o'.apId = o.apId) d) :
    Kept w (deleteMessage o d) := by
  unfold ObjectCounts.deleteMessage
  split
  · rename_i hun
    refine h.delete (hno hun) fun o' ho' hid => uncounted_of_false ?_
    have hsame := h.sound.same_of_unchanged hun ho' (by simpa using hid)
    rw [hsame.counted,hcounted]
  · exact h

theorem Kept.editMessage (h : Kept w d) (content : Text) : Kept w (editMessage o content d) := by
  unfold ObjectCounts.editMessage
  split
  · exact h.setContent _ _
  · exact h

theorem sender_of_pageUnchanged (h : Sound w d) {conversation sender viewer : Text}
    {page : List Text} (hpage : pageUnchanged conversation sender viewer page d = true)
    (ho : o ∈ d.objects) (hid : o.apId ∈ page) :
    senderMessage conversation sender viewer o = true := by
  simp only [pageUnchanged,Bool.and_eq_true,decide_eq_true_eq] at hpage
  have hcount := hpage.2
  rw [← List.countP_filter] at hcount
  have hnodup : ((d.objects.filter fun o => o.apId ∈ page).map (·.apId)).Nodup :=
    h.keys.sublist (List.Sublist.map _ List.filter_sublist)
  have hsub : ((d.objects.filter fun o => o.apId ∈ page).map (·.apId)) ⊆ page := by
    intro x hx
    obtain ⟨o',ho',rfl⟩ := List.mem_map.mp hx
    simpa using (List.mem_filter.mp ho').2
  have hle := (hnodup.subperm hsub).length_le
  rw [List.length_map] at hle
  have hall : (d.objects.filter fun o => o.apId ∈ page).countP
      (senderMessage conversation sender viewer) =
        (d.objects.filter fun o => o.apId ∈ page).length :=
    Nat.le_antisymm List.countP_le_length (by omega)
  exact List.countP_eq_length.mp hall o (List.mem_filter.mpr ⟨ho,by simpa using hid⟩)

theorem Kept.deletePage (h : Kept w d) {conversation sender viewer : Text} {page : List Text}
    (hno : pageUnchanged conversation sender viewer page d = true →
      NoReplies (fun o => o.apId ∈ page) d) :
    Kept w (deletePage conversation sender viewer page d).1 := by
  unfold ObjectCounts.deletePage
  split
  · rename_i hpage
    refine h.delete (hno hpage) fun o ho hid => uncounted_of_false ?_
    have hsender := sender_of_pageUnchanged h.sound hpage ho (by simpa using hid)
    simp only [senderMessage,Bool.and_eq_true,decide_eq_true_eq] at hsender
    exact (h.sound.rows o ho).counted_of_direct hsender.1.1.1.2
  · exact h

theorem Kept.recompute (h : Kept w d) (parent : Text) :
    Kept w (recomputeObjectReplyCount parent d) :=
  ⟨(rewrites_recompute parent d).sound h.sound,
    (h.but.recompute parent).exact fun _ _ hstale => hstale.1,
    posts_of_objects h.exact.2 (sameRow_setReplyCount _)⟩

structure Remote (w : Site) (d : Db) (o : ObjectRow) : Prop where
  writer : o.writer = .inbound
  site : w.isLocal o.apId = false
  elsewhere : ¬Here d o.attributedTo

theorem Remote.isLocal (h : Remote w d o) : o.isLocal = false := by
  simp [ObjectRow.isLocal,h.writer]

theorem Remote.counted (h : Remote w d o) : o.counted = false := by
  simp [ObjectRow.counted,h.writer]

theorem Remote.proper (h : Remote w d o) : Proper w d o where
  site := h.isLocal.trans h.site.symm
  generated hlocal := by
    rw [h.isLocal] at hlocal
    cases hlocal
  here := by
    rw [h.isLocal]
    exact ⟨fun hfalse => (Bool.noConfusion hfalse),fun hhere => (h.elsewhere hhere).elim⟩
  audience _ _ _ := h.counted
  story hwriter := by
    rw [h.writer] at hwriter
    cases hwriter

theorem Kept.commitCreate (h : Kept w d) (hremote : Remote w d o) (countPost : Bool) :
    Kept w (commitNoteProjection none o countPost d) := by
  simp only [commitNoteProjection]
  have hbump : (if countPost then bumpPostCount o.attributedTo true d else d) = d := by
    split
    · exact bumpPostCount_elsewhere hremote.elsewhere true
    · rfl
  simp only [hbump]
  split
  · exact h
  · rename_i habsent
    refine ⟨?_,?_,?_⟩
    · exact (rewrites_recomputeAll _ _).sound
        (sound_insert h.sound hremote.proper (by simpa using habsent))
    · refine (h.but.insert o).recomputed ?_
      rintro x (hfalse | hself | hto)
      · exact hfalse.elim
      · exact List.mem_append_right _ (List.mem_singleton.mpr (Option.some.inj hself))
      · exact List.mem_append_left _ (Option.mem_toList.mpr hto)
    · exact posts_recomputeAll _ (posts_append h.exact.2 (uncounted_of_false hremote.counted))

theorem Kept.commitUpdate (h : Kept w d) {before : ObjectRow} (hremote : Remote w d o)
    (hbefore : before.writer = .inbound) (hid : before.apId = o.apId) (countPost : Bool) :
    Kept w (commitNoteProjection (some before) o countPost d) := by
  simp only [commitNoteProjection]
  split
  · rename_i hun
    have hrow : ∀ o' ∈ d.objects, o'.apId = o.apId → SameRow before o' :=
      fun o' ho' hid' => h.sound.same_of_unchanged hun ho' (hid'.trans hid.symm)
    have hsound : Sound w { d with
        objects := Table.update (fun o' => o'.apId = o.apId) (values o) d.objects } := by
      refine ⟨?_,?_,h.sound.generated⟩
      · have hkeys : (Table.update (fun o' => decide (o'.apId = o.apId)) (values o) d.objects).map
            (·.apId) = d.objects.map (·.apId) := by
          unfold Table.update
          rw [List.map_map]
          refine List.map_congr_left fun o' _ => ?_
          simp only [Function.comp_apply]
          split
          · rename_i hid'
            exact (of_decide_eq_true hid').symm
          · rfl
        change ((Table.update _ _ d.objects).map (·.apId)).Nodup
        rw [hkeys]
        exact h.sound.keys
      · intro o'' ho''
        obtain ⟨o',ho',⟨_,rfl⟩ | ⟨_,rfl⟩⟩ := Table.mem_update.mp ho''
        · exact (h.sound.rows o'' ho').of_same (.refl o'') (fun _ hmem => hmem) rfl
        · exact (Remote.proper ⟨hremote.writer,hremote.site,hremote.elsewhere⟩)
    refine ⟨(rewrites_recomputeAll _ _).sound hsound,?_,?_⟩
    · refine (h.but.values o).recomputed ?_
      rintro x (hfalse | hnew | ⟨o',ho',hid',hto⟩)
      · exact hfalse.elim
      · exact List.mem_append_left _ (List.mem_append_right _ (Option.mem_toList.mpr hnew))
      · rw [(hrow o' ho' hid').inReplyTo] at hto
        exact List.mem_append_left _ (List.mem_append_left _ (Option.mem_toList.mpr hto))
    · refine posts_recomputeAll _ ?_
      refine h.exact.2.of_tally fun a _ => ?_
      unfold Counter.tally Table.update
      rw [List.countP_map]
      refine List.countP_congr fun o' ho' => ?_
      simp only [Function.comp_apply]
      split
      · rename_i hid'
        have hold : o'.counted = false := by
          rw [(hrow o' ho' (of_decide_eq_true hid')).counted]
          simp [ObjectRow.counted,hbefore]
        have hnew : (values o o').counted = false := hremote.counted
        rw [of_posts,of_posts,hold,hnew]
        simp
      · rfl
  · exact h

theorem Kept.createInboundStory (h : Kept w d) (hremote : Remote w d o)
    (hreply : o.inReplyTo = none) : Kept w (createInboundStory o d) := by
  unfold ObjectCounts.createInboundStory
  cases hany : d.objects.any fun o' => o'.apId = o.apId with
  | true =>
    rw [Table.insertIgnore_of_any _ hany]
    exact h
  | false =>
    rw [Table.insertIgnore_of_not_any _ hany]
    let new : ObjectRow := { o with replyCount := replies.tally d.objects (some o.apId) }
    have hnew : Remote w d new := ⟨hremote.writer,hremote.site,hremote.elsewhere⟩
    have htally : ∀ x, replies.tally (d.objects ++ [new]) (some x) =
        replies.tally d.objects (some x) := by
      intro x
      have hof : replies.of (some x) new = false := by
        by_contra htrue
        have hto : new.inReplyTo = some x := of_replies.mp (Bool.not_eq_false _ ▸ htrue)
        have hnone : new.inReplyTo = none := hreply
        rw [hnone] at hto
        cases hto
      rw [Counter.tally_append,Counter.tally_singleton,hof]
      rfl
    refine ⟨sound_insert h.sound hnew.proper hany,?_,?_⟩
    · intro p hp
      have hgoal := htally p.apId
      rcases List.mem_append.mp hp with hold | hlast
      · exact (h.exact.1 p hold).trans hgoal.symm
      · rw [List.mem_singleton.mp hlast]
        exact (htally o.apId).symm
    · exact posts_append h.exact.2 (uncounted_of_false hnew.counted)

theorem Kept.deleteInbound (h : Kept w d) (helsewhere : ¬Here d o.attributedTo) :
    Kept w (deleteInbound o d) := by
  unfold ObjectCounts.deleteInbound
  split
  · rename_i hun
    rw [decPostCount_elsewhere helsewhere]
    have hrow : ∀ o' ∈ d.objects, o'.apId = o.apId → SameRow o o' :=
      fun o' ho' hid => h.sound.same_of_unchanged hun ho' hid
    refine ⟨?_,?_,?_⟩
    · exact (rewrites_recomputeAll _ _).sound ((rewrites_delete _ _).sound h.sound)
    · refine (h.but.delete _).recomputed ?_
      rintro x (hfalse | ⟨o',ho',hid,hto⟩)
      · exact hfalse.elim
      · rw [(hrow o' ho' (by simpa using hid)).inReplyTo] at hto
        exact Option.mem_toList.mpr hto
    · refine posts_recomputeAll _ (posts_delete h.exact.2 fun o' ho' hid => ?_)
      refine uncounted_of_elsewhere ?_
      rw [(hrow o' ho' (by simpa using hid)).attributedTo]
      exact helsewhere
  · exact h

end batches

end Yurucommu.ObjectCounts
