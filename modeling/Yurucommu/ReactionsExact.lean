import Yurucommu.Reactions

/-!
Which batches keep the counts equal to the numbers of their rows.
-/

set_option autoImplicit false

namespace Yurucommu.Reactions

open Whatwg (Text)

section columns

theorem edges_setEdges (kind : Kind) (rows : List Edge) (d : Db) :
    edges kind (setEdges kind rows d) = rows := by
  cases kind <;> rfl

theorem edges_setEdges_of_ne {kind kind' : Kind} (h : kind' ≠ kind) (rows : List Edge) (d : Db) :
    edges kind' (setEdges kind rows d) = edges kind' d := by
  cases kind <;> cases kind' <;> first | rfl | exact absurd rfl h

theorem objects_setEdges (kind : Kind) (rows : List Edge) (d : Db) :
    (setEdges kind rows d).objects = d.objects := by
  cases kind <;> rfl

theorem edges_setCounts (kind kind' : Kind) (cond : ObjectRow → Bool) (n : ObjectRow → Nat)
    (d : Db) : edges kind' (setCounts kind cond n d) = edges kind' d := by
  cases kind' <;> rfl

theorem count_setCount_of_ne {kind kind' : Kind} (h : kind' ≠ kind) (n : Nat) (o : ObjectRow) :
    (o.setCount kind n).count kind' = o.count kind' := by
  cases kind <;> cases kind' <;> first | rfl | exact absurd rfl h

theorem tally_eq (kind : Kind) (rows : List Edge) (k : Text) :
    (counter kind).tally rows k = rows.countP fun e => e.objectApId = k := by
  unfold Counter.tally
  congr 1

def write (kind : Kind) (rows : List Edge) (cond : ObjectRow → Bool) (n : ObjectRow → Nat) (d : Db) :
    Db := setEdges kind rows (setCounts kind cond n d)

variable {kind : Kind} {rows : List Edge} {cond : ObjectRow → Bool} {n : ObjectRow → Nat} {d : Db}

theorem setCounts_setEdges : setCounts kind cond n (setEdges kind rows d) =
    write kind rows cond n d := by
  cases kind <;> rfl

theorem objects_write : (write kind rows cond n d).objects =
    (counter kind).adjust cond n d.objects := objects_setEdges kind rows _

theorem exact_write (h : Exact d)
    (hn : ∀ o ∈ d.objects, o.count kind = (counter kind).tally (edges kind d) o.apId →
      (if cond o then n o else o.count kind) = (counter kind).tally rows o.apId) :
    Exact (write kind rows cond n d) := by
  intro kind'
  rw [objects_write]
  by_cases hkind : kind' = kind
  · subst hkind
    rw [write,edges_setEdges]
    exact (h kind').adjust hn
  · rw [write,edges_setEdges_of_ne hkind,edges_setCounts]
    exact (h kind').update (fun o => count_setCount_of_ne hkind _ o) (fun o => apId_setCount kind _ o)

end columns

def keys (rows : List Edge) : List (Text × Text) := rows.map fun e => (e.actorApId,e.objectApId)

structure Kept (d : Db) : Prop where
  keys : ∀ kind, (keys (edges kind d)).Nodup
  ids : (d.objects.map (·.apId)).Nodup
  exact : Exact d

section keys

variable {kind : Kind} {rows : List Edge} {cond : ObjectRow → Bool} {n : ObjectRow → Nat} {d : Db}

theorem sameEdge_iff {actor objectId : Text} {e : Edge} :
    sameEdge actor objectId e = true ↔ e.actorApId = actor ∧ e.objectApId = objectId := by
  simp [sameEdge]

theorem keys_append {e : Edge} (h : (keys rows).Nodup)
    (he : rows.any (sameEdge e.actorApId e.objectApId) = false) : (keys (rows ++ [e])).Nodup := by
  unfold keys at h ⊢
  rw [List.map_append,List.nodup_append]
  refine ⟨h,by simp,?_⟩
  intro k hk k' hk' heq
  obtain ⟨e',he',rfl⟩ := List.mem_map.mp hk
  rw [List.map_singleton,List.mem_singleton] at hk'
  subst hk'
  obtain ⟨hactor,hobject⟩ := Prod.mk.inj heq
  have hsame := List.any_eq_false.mp he e' he'
  exact hsame (sameEdge_iff.mpr ⟨hactor,hobject⟩)

theorem keys_delete (cond : Edge → Bool) (h : (keys rows).Nodup) :
    (keys (Table.delete cond rows)).Nodup :=
  h.sublist (List.Sublist.map _ List.filter_sublist)

theorem ids_adjust (h : (d.objects.map (·.apId)).Nodup) :
    (((counter kind).adjust cond n d.objects).map (·.apId)).Nodup := by
  have hsame : ((counter kind).adjust cond n d.objects).map (·.apId) = d.objects.map (·.apId) := by
    unfold Counter.adjust Table.update
    rw [List.map_map]
    refine List.map_congr_left fun o _ => ?_
    simp only [Function.comp_apply]
    split
    · exact apId_setCount kind _ o
    · rfl
  rw [hsame]
  exact h

theorem Kept.write (h : Kept d) (hkeys : (Reactions.keys rows).Nodup)
    (hn : ∀ o ∈ d.objects, o.count kind = (counter kind).tally (edges kind d) o.apId →
      (if cond o then n o else o.count kind) = (counter kind).tally rows o.apId) :
    Kept (write kind rows cond n d) := by
  refine ⟨?_,?_,exact_write h.exact hn⟩
  · intro kind'
    by_cases hkind : kind' = kind
    · subst hkind
      rw [Reactions.write,edges_setEdges]
      exact hkeys
    · rw [Reactions.write,edges_setEdges_of_ne hkind,edges_setCounts]
      exact h.keys kind'
  · rw [objects_write]
    exact ids_adjust h.ids

end keys

section batches

variable {kind : Kind} {d : Db} {actor id objectId : Text}

theorem Kept.recount {rows : List Edge} (h : Kept d) (hkeys : (Reactions.keys rows).Nodup)
    (hrows : ∀ k, k ≠ objectId →
      (counter kind).tally rows k = (counter kind).tally (edges kind d) k) :
    Kept (recomputeCount kind objectId (setEdges kind rows d)) := by
  unfold recomputeCount
  rw [setCounts_setEdges,edges_setEdges]
  refine h.write hkeys ?_
  intro o _ ho
  by_cases hid : o.apId = objectId
  · simp only [hid,decide_true,if_true]
    rw [tally_eq]
  · simp only [hid,decide_false,Bool.false_eq_true,if_false]
    rw [ho,hrows _ hid]

theorem tally_append_of_ne {e : Edge} {rows : List Edge} {k : Text} (h : k ≠ e.objectApId) :
    (counter kind).tally (rows ++ [e]) k = (counter kind).tally rows k := by
  rw [Counter.tally_append,Counter.tally_singleton]
  simp [Counter.of,counter,Ne.symm h]

theorem tally_append_self (e : Edge) (rows : List Edge) :
    (counter kind).tally (rows ++ [e]) e.objectApId =
      (counter kind).tally rows e.objectApId + 1 := by
  rw [Counter.tally_append,Counter.tally_singleton]
  simp [Counter.of,counter]

theorem tally_delete_of_ne {cond : Edge → Bool} {rows : List Edge} {k : Text}
    (h : ∀ e, cond e = true → e.objectApId = objectId) (hk : k ≠ objectId) :
    (counter kind).tally (Table.delete cond rows) k = (counter kind).tally rows k := by
  refine Counter.tally_delete_of_none _ ?_
  intro e _ he
  simp [Counter.of,counter,h e he,Ne.symm hk]

theorem Kept.insertEdge {e : Edge} {rest : Db → Db} (h : Kept d)
    (hrest : (edges kind d).any (sameEdge e.actorApId e.objectApId) = false →
      Kept (rest (setEdges kind (edges kind d ++ [e]) d))) :
    Kept (insertEdge kind e rest d) := by
  unfold Reactions.insertEdge
  split
  · exact h
  · rename_i hany
    exact hrest (by simpa using hany)

theorem Kept.insert_recompute {e : Edge} (h : Kept d) :
    Kept (Reactions.insertEdge kind e (recomputeCount kind e.objectApId) d) :=
  h.insertEdge fun hany =>
    h.recount (keys_append (h.keys kind) hany) fun _ hk => tally_append_of_ne hk

theorem Kept.insert_increment {e : Edge} (h : Kept d) :
    Kept (Reactions.insertEdge kind e (incrementCount kind e.objectApId) d) := by
  refine h.insertEdge fun hany => ?_
  unfold incrementCount
  rw [setCounts_setEdges]
  refine h.write (keys_append (h.keys kind) hany) ?_
  intro o _ ho
  by_cases hid : o.apId = e.objectApId
  · simp only [hid,decide_true,if_true]
    rw [tally_append_self,← hid,ho]
  · simp only [hid,decide_false,Bool.false_eq_true,if_false]
    rw [tally_append_of_ne hid,ho]

theorem Kept.guard {post : ObjectRow} {batch : Db → Db} (h : Kept d) (hb : Kept (batch d)) :
    Kept (guardObjectWrites post batch d) := by
  unfold guardObjectWrites
  split
  · exact hb
  · exact h

theorem Kept.interact (h : Kept d) : Kept (interact kind actor objectId id d) := by
  unfold Reactions.interact insertEdgeIgnore Table.insertIgnore
  simp only
  split
  · exact h.recount (h.keys kind) fun _ _ => rfl
  · rename_i hany
    refine h.recount (keys_append (h.keys kind) (by simpa using hany)) ?_
    intro k hk
    exact tally_append_of_ne hk

theorem Kept.delete_recompute {cond : Edge → Bool} (h : Kept d)
    (hcond : ∀ e, cond e = true → e.objectApId = objectId) :
    Kept (recomputeCount kind objectId (deleteEdges kind cond d)) :=
  h.recount (keys_delete cond (h.keys kind)) fun _ hk => tally_delete_of_ne hcond hk

theorem Kept.undo (h : Kept d) : Kept (undo kind actor objectId d) := by
  refine h.delete_recompute ?_
  intro e he
  simp only [retainedOn,Bool.and_eq_true,decide_eq_true_eq] at he
  exact he.1

theorem tally_delete_sameEdge (kind : Kind) (actor objectId : Text) {rows : List Edge}
    (h : (keys rows).Nodup) :
    (counter kind).tally rows objectId =
      (counter kind).tally (Table.delete (sameEdge actor objectId) rows) objectId +
        if rows.any (sameEdge actor objectId) then 1 else 0 := by
  rw [Counter.tally_delete _ (sameEdge actor objectId) rows objectId]
  congr 1
  have hle : (rows.countP fun e =>
      (counter kind).of objectId e && sameEdge actor objectId e) ≤ 1 := by
    refine Counter.countP_le_one h ?_
    intro e _ e' _ he he'
    obtain ⟨ha,ho⟩ := sameEdge_iff.mp (Bool.and_eq_true_iff.mp he).2
    obtain ⟨ha',ho'⟩ := sameEdge_iff.mp (Bool.and_eq_true_iff.mp he').2
    rw [ha,ho,ha',ho']
  have hof : ∀ e, sameEdge actor objectId e = true → (counter kind).of objectId e = true := by
    intro e he
    simp [Counter.of,counter,(sameEdge_iff.mp he).2]
  cases hany : rows.any (sameEdge actor objectId) with
  | true =>
    obtain ⟨e,he,hsame⟩ := List.any_eq_true.mp hany
    have hpos : 0 < rows.countP fun e =>
        (counter kind).of objectId e && sameEdge actor objectId e := by
      rw [List.countP_pos_iff]
      exact ⟨e,he,by rw [hof e hsame,hsame]; rfl⟩
    rw [if_pos rfl]
    omega
  | false =>
    rw [if_neg (by simp),List.countP_eq_zero]
    intro e he htrue
    exact List.any_eq_false.mp hany e he (Bool.and_eq_true_iff.mp htrue).2

/-- A delete by the key beside a decrement is right where the row is there, or nothing is counted. -/
theorem exact_decrement_iff (kind : Kind) (h : Kept d) :
    Exact (decrementCount kind objectId (deleteEdges kind (sameEdge actor objectId) d)) ↔
      ∀ o ∈ d.objects, o.apId = objectId → 0 < o.count kind →
        (edges kind d).any (sameEdge actor objectId) = true := by
  unfold decrementCount deleteEdges
  rw [setCounts_setEdges]
  have htake := tally_delete_sameEdge kind actor objectId (h.keys kind)
  constructor
  · intro hexact o ho hid hpos
    have hmem : o.setCount kind (o.count kind - 1) ∈ (write kind
        (Table.delete (sameEdge actor objectId) (edges kind d))
        (fun o => o.apId = objectId && decide (0 < o.count kind))
        (fun o => o.count kind - 1) d).objects := by
      rw [objects_write]
      refine List.mem_map.mpr ⟨o,ho,?_⟩
      simp only [hid,hpos,decide_true,Bool.and_self,if_true]
      rfl
    have hafter := hexact kind _ hmem
    have hbefore := h.exact kind o ho
    rw [write,edges_setEdges] at hafter
    simp only [counter,count_setCount,apId_setCount,hid] at hafter hbefore htake
    by_contra hnone
    rw [if_neg hnone] at htake
    omega
  · intro hfound
    refine exact_write h.exact ?_
    intro o hmem ho
    by_cases hid : o.apId = objectId
    · subst hid
      simp only [decide_true,Bool.true_and]
      by_cases hpos : 0 < o.count kind
      · have hany := hfound o hmem rfl hpos
        rw [hany,if_pos rfl] at htake
        rw [if_pos (by simpa using hpos)]
        omega
      · rw [if_neg (by simpa using hpos)]
        omega
    · simp only [hid,decide_false,Bool.false_and,Bool.false_eq_true,if_false]
      rw [ho]
      exact (tally_delete_of_ne (fun e he => (sameEdge_iff.mp he).2) hid).symm

theorem Kept.of_exact {cond : ObjectRow → Bool} {n : ObjectRow → Nat} {rows : List Edge}
    (h : Kept d) (hkeys : (Reactions.keys rows).Nodup)
    (hexact : Exact (Reactions.write kind rows cond n d)) : Kept (Reactions.write kind rows cond n d) := by
  refine ⟨?_,?_,hexact⟩
  · intro kind'
    by_cases hkind : kind' = kind
    · subst hkind
      rw [Reactions.write,edges_setEdges]
      exact hkeys
    · rw [Reactions.write,edges_setEdges_of_ne hkind,edges_setCounts]
      exact h.keys kind'
  · rw [objects_write]
    exact ids_adjust h.ids

theorem Kept.decrement (h : Kept d)
    (hfound : ∀ o ∈ d.objects, o.apId = objectId → 0 < o.count kind →
      (edges kind d).any (sameEdge actor objectId) = true) :
    Kept (decrementCount kind objectId (deleteEdges kind (sameEdge actor objectId) d)) := by
  have hexact := (exact_decrement_iff _ h).mpr hfound
  unfold decrementCount deleteEdges at hexact ⊢
  rw [setCounts_setEdges] at hexact ⊢
  exact h.of_exact (keys_delete _ (h.keys kind)) hexact

theorem decrement_deleteEdges (kind : Kind) (cond : Edge → Bool) (d : Db) :
    deleteEdges kind cond (decrementCount kind objectId d) =
      decrementCount kind objectId (deleteEdges kind cond d) := by
  cases kind <;> rfl

end batches

section persist

variable {d : Db} {note : ObjectRow}

theorem exact_persist_iff (h : Exact d) : Exact (persist note d) ↔
    ((d.objects.any fun o => o.apId = note.apId) = false →
      ∀ kind, ∀ e ∈ edges kind d, e.objectApId ≠ note.apId) := by
  unfold persist
  cases hany : d.objects.any fun o => o.apId = note.apId with
  | true =>
    rw [if_pos rfl]
    exact ⟨fun _ hfalse => (by cases hfalse),fun _ => h⟩
  | false =>
    rw [if_neg (by simp)]
    constructor
    · intro hexact _ kind e he heq
      have hnew := hexact kind _ (List.mem_append_right _ List.mem_cons_self)
      have hcount : 0 = (counter kind).tally (edges kind d) note.apId := by
        cases kind <;> exact hnew
      have hpos := (counter kind).tally_pos he rfl
      have hkey : (counter kind).key e = note.apId := heq
      rw [hkey] at hpos
      omega
    · intro hnone kind o ho
      rcases List.mem_append.mp ho with hold | hnew
      · have hcount := h kind o hold
        cases kind <;> exact hcount
      · rw [List.mem_singleton] at hnew
        have hzero : (counter kind).tally (edges kind d) note.apId = 0 :=
          (counter kind).tally_eq_zero (hnone rfl kind)
        subst hnew
        cases kind <;> exact hzero.symm

theorem Kept.persist (h : Kept d) (hnone : (d.objects.any fun o => o.apId = note.apId) = false →
    ∀ kind, ∀ e ∈ edges kind d, e.objectApId ≠ note.apId) : Kept (persist note d) := by
  refine ⟨?_,?_,(exact_persist_iff h.exact).mpr hnone⟩
  · intro kind
    have hkeys := h.keys kind
    unfold Reactions.persist
    split
    · exact hkeys
    · cases kind <;> exact hkeys
  · unfold Reactions.persist
    split
    · exact h.ids
    · rename_i hany
      rw [List.map_append,List.nodup_append]
      refine ⟨h.ids,by simp,?_⟩
      intro a ha b hb heq
      obtain ⟨o,ho,rfl⟩ := List.mem_map.mp ha
      rw [List.map_singleton,List.mem_singleton] at hb
      refine hany (List.any_eq_true.mpr ⟨o,ho,?_⟩)
      rw [decide_eq_true_eq,heq,hb]

end persist

section deleted

variable {kind kind' : Kind} {d : Db} {actor : Text}

theorem subtract_exact (kind : Kind) (actor : Text)
    (h : (counter kind).Exact d.objects (edges kind d)) :
    (counter kind).Exact (subtractCounts kind actor d).objects
      (Table.delete (retainedEdge actor (edges kind d)) (edges kind d)) := by
  refine h.adjust ?_
  intro o _ ho
  have htake := (counter kind).tally_delete (retainedEdge actor (edges kind d)) (edges kind d) o.apId
  have hsame : ((edges kind d).countP fun e =>
      (counter kind).of o.apId e && retainedEdge actor (edges kind d) e) =
        (edges kind d).countP fun e =>
          e.objectApId = o.apId && retainedEdge actor (edges kind d) e := by
    congr 1
  rw [hsame] at htake
  change o.count kind = (counter kind).tally (edges kind d) o.apId at ho
  change (if _ then _ else o.count kind) = (counter kind).tally _ o.apId
  cases hany : (edges kind d).any fun e =>
      e.objectApId = o.apId && retainedEdge actor (edges kind d) e with
  | true =>
    by_cases hpos : 0 < o.count kind
    · rw [if_pos (by simpa using hpos)]
      omega
    · rw [if_neg (by simpa using hpos)]
      omega
  | false =>
    have hzero : ((edges kind d).countP fun e =>
        e.objectApId = o.apId && retainedEdge actor (edges kind d) e) = 0 := by
      rw [List.countP_eq_zero]
      exact List.any_eq_false.mp hany
    rw [if_neg (by simp)]
    omega

theorem subtract_other (kind : Kind) (actor : Text) {rows : List Edge} (hkind : kind' ≠ kind)
    (h : (counter kind').Exact d.objects rows) :
    (counter kind').Exact (subtractCounts kind actor d).objects rows :=
  h.update (fun o => count_setCount_of_ne hkind _ o) (fun o => apId_setCount kind _ o)

theorem subtractions_exact (actor : Text) (h : Exact d) (kind : Kind) :
    (counter kind).Exact
      (subtractCounts .share actor (subtractCounts .announce actor
        (subtractCounts .like actor d))).objects
      (Table.delete (retainedEdge actor (edges kind d)) (edges kind d)) := by
  cases kind with
  | like =>
    have h₁ := subtract_exact .like actor (h .like)
    exact subtract_other _ _ (by decide) (subtract_other _ _ (by decide) h₁)
  | announce =>
    have h₁ := subtract_other .like actor (by decide) (h .announce)
    exact subtract_other _ _ (by decide) (subtract_exact .announce actor h₁)
  | share =>
    have h₁ := subtract_other .like actor (by decide) (h .share)
    exact subtract_exact .share actor (subtract_other _ _ (by decide) h₁)

theorem ids_subtract (h : (d.objects.map (·.apId)).Nodup) :
    ((subtractCounts kind actor d).objects.map (·.apId)).Nodup := ids_adjust h

theorem Kept.deleteOwn (h : Kept d) :
    Kept (deleteOwnEdges .share actor (deleteOwnEdges .announce actor (deleteOwnEdges .like actor
      (subtractCounts .share actor (subtractCounts .announce actor
        (subtractCounts .like actor d)))))) := by
  refine ⟨?_,ids_subtract (ids_subtract (ids_subtract h.ids)),?_⟩
  · intro kind
    have hkeys := keys_delete (retainedEdge actor (edges kind d)) (h.keys kind)
    cases kind <;> exact hkeys
  · intro kind
    have hexact := subtractions_exact actor h.exact kind
    cases kind <;> exact hexact

theorem Kept.deleteObjects (h : Kept d) :
    Kept { deleteObjectEdges .share actor
        (deleteObjectEdges .announce actor (deleteObjectEdges .like actor d)) with
      objects := Table.delete (retainedObject actor d.objects) d.objects } := by
  refine ⟨?_,?_,?_⟩
  · intro kind
    have hkeys := keys_delete (fun e => d.objects.any fun o =>
      retainedObject actor d.objects o && o.apId = e.objectApId) (h.keys kind)
    cases kind <;> exact hkeys
  · exact h.ids.sublist (List.Sublist.map _ List.filter_sublist)
  · intro kind
    have hexact : (counter kind).Exact (Table.delete (retainedObject actor d.objects) d.objects)
        (Table.delete (fun e => d.objects.any fun o =>
          retainedObject actor d.objects o && o.apId = e.objectApId) (edges kind d)) := by
      intro o ho
      obtain ⟨hmem,hother⟩ := List.mem_filter.mp ho
      rw [h.exact kind o hmem]
      symm
      refine Counter.tally_delete_of_none _ ?_
      intro e _ he
      obtain ⟨o',hmem',htrue⟩ := List.any_eq_true.mp he
      rw [Bool.and_eq_true,decide_eq_true_eq] at htrue
      change decide (e.objectApId = o.apId) = false
      rw [decide_eq_false_iff_not]
      intro hid
      have heq : o' = o := List.inj_on_of_nodup_map h.ids hmem' hmem (htrue.2.trans hid)
      rw [← heq,htrue.1] at hother
      cases hother
    cases kind <;> exact hexact

theorem Kept.deleteRemoteActor (h : Kept d) : Kept (deleteRemoteActor actor d) :=
  h.deleteOwn.deleteObjects

end deleted

section run

variable {w : Site} {s t : Pool} {l : Label} {s₀ : Pool}

theorem step_call {p : Nat} {i : Answer} : (machine w).step (.act p i) s = some t ↔
    allowed i s.store (s.thread p) = true ∧
      t = ⟨(work w i p s.store (s.thread p)).1,
        Function.update s.thread p (work w i p s.store (s.thread p)).2⟩ := by
  rw [machine,threads,Threads.guarded_step_act]

theorem Kept.step (h : Kept s.store) (hl : (machine w).step l s = some t) (hm : Matched s l) :
    Kept t.store := by
  cases l with
  | env e => cases e
  | act p i =>
    obtain ⟨_,rfl⟩ := step_call.mp hl
    have hmatched := hm p i rfl
    generalize hcall : s.thread p = c at hmatched
    simp only [work]
    cases hfails : i.fails with
    | true => exact h
    | false =>
      have hmatched := hmatched hfails
      simp only [Bool.false_eq_true,if_false]
      unfold advance
      cases hstage : c.stage with
      | start | existing | fetch | target | done => exact h
      | interact kind objectId => exact h.interact
      | undo kind objectId => exact h.undo
      | deleteRemoteActor => exact h.deleteRemoteActor
      | persist note =>
        rw [hstage] at hmatched
        exact h.persist hmatched
      | commit target =>
        rw [hstage] at hmatched
        obtain ⟨hunrepost,hunlike⟩ := hmatched
        cases hrequest : c.request with
        | like postId => exact h.guard h.insert_recompute
        | repost postId => exact h.guard h.insert_increment
        | likeStory storyId => exact h.insert_increment
        | shareStory storyId => exact h.insert_increment
        | unlike postId => exact h.delete_recompute fun e he => (sameEdge_iff.mp he).2
        | unrepost postId => exact h.decrement (hunrepost postId hrequest)
        | unlikeStory storyId =>
          simp only [commit,unlikeStory,decrement_deleteEdges]
          exact h.decrement (hunlike storyId hrequest)
        | handleLike | handleAnnounce | undoLike | undoAnnounce | deleteActor => exact h

theorem Start.kept (h : Start s₀) : Kept s₀.store := ⟨h.keys,h.ids,h.exact⟩

/-- In every run whose steps are matched every count is the number of its rows. -/
theorem reaction_counts_exact (h : Start s₀)
    (hr : (machine w).ReachesBy (fun s l _ => Matched s l) s₀ s) :
    Exact s.store := by
  have hkept := hr.invariant (P := fun s => Kept s.store) h.kept
    fun a l b ha hl hm => ha.step hl hm
  exact hkept.exact

/-- A step that is not matched leaves a count that is not the number of its rows. -/
theorem exact_step_iff (h : Kept s.store) (hl : (machine w).step l s = some t) :
    Exact t.store ↔ Matched s l := by
  constructor
  · intro hexact p i hact hfails
    subst hact
    obtain ⟨_,rfl⟩ := step_call.mp hl
    generalize hcall : s.thread p = c at hexact ⊢
    simp only [work,hfails,Bool.false_eq_true,if_false,advance] at hexact
    cases hstage : c.stage with
    | persist note =>
      rw [hstage] at hexact
      exact (exact_persist_iff h.exact).mp hexact
    | commit target =>
      rw [hstage] at hexact
      refine ⟨?_,?_⟩
      · intro postId hrequest
        rw [hrequest] at hexact
        exact (exact_decrement_iff .announce h).mp hexact
      · intro storyId hrequest
        rw [hrequest] at hexact
        simp only [commit,unlikeStory,decrement_deleteEdges] at hexact
        exact (exact_decrement_iff .like h).mp hexact
    | _ => trivial
  · intro hm
    exact (h.step hl hm).exact

end run

section unrepost

def here : Site where
  platform := ActorIdentity.hostless
  isLocal _ := true
  objectApId id := id
  resolveStoryApId id := id

def alice : Text := "alice".toList
def bob : Text := "bob".toList
def post : ObjectRow := ⟨"post".toList,"Note".toList,bob,false,0,2,0⟩
def boosted : Db := ⟨[post],[],[⟨alice,post.apId,none⟩,⟨bob,post.apId,none⟩],[]⟩

def twice : Pool := ⟨boosted,fun _ => ⟨alice,.unrepost post.apId,.start⟩⟩

theorem start_twice : Start twice where
  keys kind := by cases kind <;> decide
  ids := by decide
  exact kind := by
    intro o ho
    rw [List.mem_singleton.mp ho]
    cases kind <;> decide
  start _ := rfl

theorem reaction_counts_exact_twice : Exact
    ⟨[{ post with announceCount := 1 }],[],[⟨bob,post.apId,none⟩],[]⟩ := by
  let c : Call := ⟨alice,.unrepost post.apId,.start⟩
  let at_ : Stage → Pool := fun stage =>
    ⟨boosted,Function.update twice.thread 0 { c with stage := stage }⟩
  have hstart : (machine here).step (.act 0 {}) twice = some (at_ (.existing post)) := rfl
  have hexisting : (machine here).step (.act 0 {}) (at_ (.existing post)) =
      some ⟨boosted,Function.update (at_ (.existing post)).thread 0
        { c with stage := .commit post }⟩ := rfl
  have hcommit : (machine here).step (.act 0 {}) ⟨boosted,Function.update
      (at_ (.existing post)).thread 0 { c with stage := .commit post }⟩ =
        some ⟨⟨[{ post with announceCount := 1 }],[],[⟨bob,post.apId,none⟩],[]⟩,
          Function.update (Function.update (at_ (.existing post)).thread 0
            { c with stage := .commit post }) 0 { c with stage := .done }⟩ := rfl
  have hreach := (((Machine.ReachesBy.refl (C := fun s l _ => Matched s l) twice).snoc hstart ?_).snoc
    hexisting ?_).snoc hcommit ?_
  · exact reaction_counts_exact start_twice hreach
  · intro p i hact _
    cases hact
    trivial
  · intro p i hact _
    cases hact
    trivial
  · intro p i hact _
    cases hact
    refine ⟨fun _ _ _ _ _ _ => rfl,?_⟩
    intro storyId hrequest
    cases hrequest

/-- The second request takes bob's repost off the count. -/
theorem unrepost_twice : ¬∀ (w : Site) (s₀ s : Pool), Start s₀ → (machine w).Reaches s₀ s →
    Exact s.store := by
  intro h
  have hrun : ((machine here).run
      [.act 0 {},.act 1 {},.act 0 {},.act 1 {},.act 0 {},.act 1 {}] twice).map (·.store) =
        some ⟨[{ post with announceCount := 0 }],[],[⟨bob,post.apId,none⟩],[]⟩ := rfl
  obtain ⟨s,hs,hstore⟩ := Option.map_eq_some_iff.mp hrun
  have hexact := h here twice s start_twice (.of_run hs) .announce
  rw [hstore] at hexact
  have hcount := hexact _ List.mem_cons_self
  revert hcount
  decide

end unrepost

end Yurucommu.Reactions
