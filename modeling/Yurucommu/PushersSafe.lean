import Yurucommu.MachineTrace
import Yurucommu.Pushers

/-!
Who can take a browser's registration over. An id that has been generated stays with its actor and
its key, so what a quota deletes is its own actor's; and the rows of a key are one.
-/

set_option autoImplicit false

namespace Yurucommu.Pushers

variable {hash : String → String}

section table

variable {c : Call} {id : String} {sameActor : Bool} {pushers : List Pusher} {r : Pusher}

theorem key_newPusher (hash : String → String) (c : Call) (id : String) :
    (newPusher hash c id).key = c.key hash := rfl

theorem mem_upsert (h : r ∈ upsert hash c id sameActor pushers) : r ∈ pushers ∨
    r = newPusher hash c id ∨ ∃ r₀ ∈ pushers, r₀.key = c.key hash ∧
      r = setPusher hash c id sameActor r₀ := by
  unfold upsert at h
  split at h
  · unfold Table.update at h
    obtain ⟨r₀,hr₀,rfl⟩ := List.mem_map.mp h
    split
    · rename_i hcond
      rw [Bool.and_eq_true,decide_eq_true_eq] at hcond
      exact .inr (.inr ⟨r₀,hr₀,hcond.1,rfl⟩)
    · exact .inl hr₀
  · rcases List.mem_append.mp h with h | h
    · exact .inl h
    · exact .inr (.inl (List.mem_singleton.mp h))

theorem mem_upsert_of_mem (h : r ∈ pushers) (hkeep : r.key = c.key hash → c.mayTake r = false) :
    r ∈ upsert hash c id sameActor pushers := by
  unfold upsert
  split
  · refine List.mem_map.mpr ⟨r,h,?_⟩
    refine if_neg ?_
    rw [Bool.and_eq_true,decide_eq_true_eq]
    rintro ⟨hkey,htake⟩
    rw [hkeep hkey] at htake
    cases htake
  · exact List.mem_append_left _ h

theorem keys_upsert (h : (pushers.map Pusher.key).Nodup) :
    ((upsert hash c id sameActor pushers).map Pusher.key).Nodup := by
  unfold upsert
  split
  · have hkeys : (Table.update (fun r => r.key = c.key hash && c.mayTake r)
        (setPusher hash c id sameActor) pushers).map Pusher.key = pushers.map Pusher.key := by
      unfold Table.update
      rw [List.map_map]
      refine List.map_congr_left fun r _ => ?_
      simp only [Function.comp_apply]
      split <;> rfl
    rwa [hkeys]
  · rename_i hany
    rw [List.map_append,List.nodup_append]
    refine ⟨h,by simp,?_⟩
    intro k hk k' hk' heq
    simp only [List.map_cons,List.map_nil,List.mem_singleton,key_newPusher] at hk'
    obtain ⟨r,hr,rfl⟩ := List.mem_map.mp hk
    refine hany (List.any_eq_true.mpr ⟨r,hr,?_⟩)
    rw [heq,hk']
    simp

theorem mem_idsByAge {owned : Pusher → Bool} (h : id ∈ idsByAge owned pushers) :
    ∃ r ∈ pushers, owned r = true ∧ r.id = id := by
  unfold idsByAge at h
  obtain ⟨r,hr,rfl⟩ := List.mem_map.mp h
  rw [List.mem_insertionSort,List.mem_filter] at hr
  exact ⟨r,hr.1,hr.2,rfl⟩

theorem mem_evicted {app product : List String} (h : id ∈ evicted app product) :
    id ∈ app ∨ id ∈ product := by
  unfold evicted at h
  rcases List.mem_append.mp h with h | h
  · exact .inl (List.mem_of_mem_take h)
  · exact .inr (List.mem_filter.mp (List.mem_of_mem_take h)).1

end table

section decide

variable {c : Call} {pushers : List Pusher}

theorem decide_cases (hash : String → String) (c : Call) (pushers : List Pusher) :
    (∃ why, c.decide hash pushers = .refused why) ∨ c.decide hash pushers = .selectSameApp ∨
      ∃ r ∈ pushers, r.key = c.key hash ∧ r.actorApId = c.actor ∧
        c.decide hash pushers = .upsert (some r.id) := by
  have hfound : ∀ r, (pushers.find? fun r => r.key = c.key hash) = some r →
      r ∈ pushers ∧ r.key = c.key hash := by
    intro r hr
    exact ⟨List.mem_of_find?_eq_some hr,by simpa using List.find?_some hr⟩
  unfold Call.decide
  cases hf : pushers.find? fun r => r.key = c.key hash with
  | none =>
    simp only
    split
    · exact .inl ⟨_,rfl⟩
    · split
      · exact .inl ⟨_,rfl⟩
      · exact .inr (.inl rfl)
    · exact .inr (.inl rfl)
  | some r =>
    obtain ⟨hr,hkey⟩ := hfound r hf
    have hgo : (if r.actorApId = c.actor then Stage.upsert (some r.id) else .selectSameApp) =
        .selectSameApp ∨ ∃ q ∈ pushers, q.key = c.key hash ∧ q.actorApId = c.actor ∧
          (if r.actorApId = c.actor then Stage.upsert (some r.id) else .selectSameApp) =
            .upsert (some q.id) := by
      by_cases hactor : r.actorApId = c.actor
      · exact .inr ⟨r,hr,hkey,hactor,if_pos hactor⟩
      · exact .inl (if_neg hactor)
    simp only
    split
    · exact .inl ⟨_,rfl⟩
    · split
      · exact .inl ⟨_,rfl⟩
      · exact .inr hgo
    · exact .inr hgo

theorem conclude_cases (hash : String → String) (c : Call) (pushers : List Pusher) :
    (∃ response, c.conclude hash pushers = .registered response) ∨
      (∃ why, c.conclude hash pushers = .refused why) ∧
        ∀ r ∈ pushers, r.actorApId = c.actor → r.key ≠ c.key hash := by
  unfold Call.conclude
  split
  · exact .inl ⟨_,rfl⟩
  · rename_i hnone
    refine .inr ⟨⟨_,rfl⟩,fun r hr hactor hkey => ?_⟩
    have hno := List.find?_eq_none.mp hnone r hr
    simp [hactor,hkey] at hno

end decide

section invariant

structure Ordered (hash : String → String) (s : Store) : Prop where
  keys : (s.pushers.map Pusher.key).Nodup
  hashed : ∀ r ∈ s.pushers, r.pushkeyHash = hash r.pushkey
  issued : ∀ r ∈ s.pushers, r.issue ∈ s.issued
  ids : (s.issued.map (·.id)).Nodup

def OwnIds (s : Store) (c : Call) (ids : List String) : Prop :=
  ∀ id ∈ ids, ∃ e ∈ s.issued, e.id = id ∧ e.actor = c.actor

def Knows (hash : String → String) (s : Store) (c : Call) : Stage → Prop
  | .selectExisting | .selectSameApp => c.changed = false
  | .selectSameProduct ids => c.changed = false ∧ OwnIds s c ids
  | .evict ids => OwnIds s c ids
  | .upsert (some id) => ⟨id,c.actor,c.key hash⟩ ∈ s.issued
  | _ => True

theorem issue_unique {s : Store} (h : Ordered hash s) {e e' : Issue} (he : e ∈ s.issued)
    (he' : e' ∈ s.issued) (hid : e.id = e'.id) : e = e' :=
  List.inj_on_of_nodup_map h.ids he he' hid

theorem OwnIds.issued {s t : Store} {c : Call} {ids : List String} (h : OwnIds s c ids)
    (hsub : ∀ e ∈ s.issued, e ∈ t.issued) : OwnIds t c ids := by
  intro id hid
  obtain ⟨e,he,heq⟩ := h id hid
  exact ⟨e,hsub e he,heq⟩

theorem Knows.issued {s t : Store} {c : Call} {stage : Stage} (h : Knows hash s c stage)
    (hsub : ∀ e ∈ s.issued, e ∈ t.issued) : Knows hash t c stage := by
  cases stage with
  | selectSameProduct ids => exact ⟨h.1,h.2.issued hsub⟩
  | evict ids => exact OwnIds.issued h hsub
  | upsert existing =>
    cases existing with
    | none => trivial
    | some id => exact hsub _ h
  | _ => exact h

theorem issued_work (i : Answer) (p : Nat) (s : Store) (c : Call) :
    ∀ e ∈ s.issued, e ∈ (work hash i p s c).1.issued := by
  intro e he
  simp only [work]
  split
  · exact List.mem_cons_of_mem _ he
  · exact he

theorem ownIds_idsByAge {s : Store} (h : Ordered hash s) {c : Call} {owned : Pusher → Bool}
    (hown : ∀ r, owned r = true → r.actorApId = c.actor) :
    OwnIds s c (idsByAge owned s.pushers) := by
  intro id hid
  obtain ⟨r,hr,howned,rfl⟩ := mem_idsByAge hid
  exact ⟨r.issue,h.issued r hr,rfl,hown r howned⟩

theorem OwnIds.evicted {s : Store} {c : Call} {app product : List String} (ha : OwnIds s c app)
    (hp : OwnIds s c product) : OwnIds s c (evicted app product) := by
  intro id hid
  rcases mem_evicted hid with hid | hid
  · exact ha id hid
  · exact hp id hid

/-- Rows that are written to the table for the id and the key of one issue. -/
theorem Ordered.upsert {s : Store} (h : Ordered hash s) {c : Call} {id : String}
    {sameActor : Bool} {issued : List Issue} (hsub : ∀ e ∈ s.issued, e ∈ issued)
    (hid : ⟨id,c.actor,c.key hash⟩ ∈ issued) (hnodup : (issued.map (·.id)).Nodup) :
    Ordered hash ⟨upsert hash c id sameActor s.pushers,issued⟩ := by
  refine ⟨keys_upsert h.keys,?_,?_,hnodup⟩
  · intro r hr
    rcases mem_upsert hr with hr | rfl | ⟨r₀,_,hkey,rfl⟩
    · exact h.hashed r hr
    · rfl
    · exact congrArg Key.pushkeyHash hkey
  · intro r hr
    rcases mem_upsert hr with hr | rfl | ⟨r₀,_,hkey,rfl⟩
    · exact hsub _ (h.issued r hr)
    · exact hid
    · have hissue : (setPusher hash c id sameActor r₀).issue = ⟨id,c.actor,c.key hash⟩ := by
        rw [← hkey]
        rfl
      rw [hissue]
      exact hid

theorem Ordered.delete {s : Store} (h : Ordered hash s) (cond : Pusher → Bool) :
    Ordered hash ⟨Table.delete cond s.pushers,s.issued⟩ := by
  have hsub : (Table.delete cond s.pushers).Sublist s.pushers := List.filter_sublist
  refine ⟨h.keys.sublist (hsub.map _),?_,?_,h.ids⟩
  · exact fun r hr => h.hashed r (hsub.subset hr)
  · exact fun r hr => h.issued r (hsub.subset hr)

theorem knows_decide {s : Store} (h : Ordered hash s) {c : Call} (hc : c.changed = false) :
    Knows hash s c (c.decide hash s.pushers) := by
  rcases decide_cases hash c s.pushers with ⟨why,hd⟩ | hd | ⟨r,hr,hkey,hactor,hd⟩
  · rw [hd]
    trivial
  · rw [hd]
    exact hc
  · rw [hd]
    have hissue := h.issued r hr
    unfold Pusher.issue at hissue
    rwa [hkey,hactor] at hissue

theorem fresh_ids {s : Store} (h : Ordered hash s) {i : Answer} {e : Issue} (he : e.id = i.id)
    (hfresh : (s.issued.all fun e => e.id ≠ i.id) = true) :
    ((e :: s.issued).map (·.id)).Nodup := by
  rw [List.map_cons,List.nodup_cons]
  refine ⟨?_,h.ids⟩
  intro hmem
  obtain ⟨e',he',heq⟩ := List.mem_map.mp hmem
  have hne := List.all_eq_true.mp hfresh e' he'
  simp [heq,he] at hne

theorem no_id_elsewhere {s : Store} (h : Ordered hash s) {c : Call} {id : String}
    (hid : ⟨id,c.actor,c.key hash⟩ ∈ s.issued) :
    (s.pushers.any fun r => r.key ≠ c.key hash && r.id = id) = false := by
  rw [List.any_eq_false]
  intro r hr hcond
  rw [Bool.and_eq_true,decide_eq_true_eq,decide_eq_true_eq] at hcond
  have heq := issue_unique h (h.issued r hr) hid hcond.2
  exact hcond.1 (congrArg Issue.key heq)

theorem work_read {i : Answer} {p : Nat} {s : Store} {c : Call} {stage : Stage}
    (h : (c.clocked i).advance hash i s.pushers = (s.pushers,stage))
    (hne : c.stage ≠ .upsert none) :
    work hash i p s c = (s,{ c.clocked i with stage := stage }) := by
  have hstage : (c.clocked i).stage ≠ .upsert none := hne
  simp only [work,h,if_neg hstage]
  simp

theorem own_read {i : Answer} {p : Nat} {s : Store} {c : Call} {stage : Stage}
    (hI : Ordered hash s) (h : (c.clocked i).advance hash i s.pushers = (s.pushers,stage))
    (hne : c.stage ≠ .upsert none) (hk : Knows hash s (c.clocked i) stage) :
    Ordered hash (work hash i p s c).1 ∧
      Knows hash (work hash i p s c).1 (work hash i p s c).2 (work hash i p s c).2.stage := by
  rw [work_read h hne]
  refine ⟨hI,?_⟩
  cases stage <;> exact hk

theorem conclude_knows (s : Store) (c d : Call) (pushers : List Pusher) :
    Knows hash s d (c.conclude hash pushers) := by
  rcases conclude_cases hash c pushers with ⟨response,h⟩ | ⟨⟨why,h⟩,_⟩ <;> rw [h] <;> trivial

theorem upsert_own {i : Answer} {p : Nat} {s : Store} {c : Call} {existing : Option String}
    (hI : Ordered hash s) (hstage : c.stage = .upsert existing)
    (hJ : Knows hash s c (.upsert existing)) (hallowed : allowed i s c = true) :
    Ordered hash (work hash i p s c).1 ∧ (work hash i p s c).1.pushers =
        upsert hash (c.clocked i) (existing.getD i.id) existing.isSome s.pushers ∧
      (work hash i p s c).2.stage = .selectRegistered := by
  have hclocked : (c.clocked i).stage = .upsert existing := hstage
  cases existing with
  | some id =>
    have hid : ⟨id,(c.clocked i).actor,(c.clocked i).key hash⟩ ∈ s.issued := hJ
    have hnone := no_id_elsewhere hI hid
    have hne : (Stage.upsert (some id) = .upsert none) = False := by simp
    simp only [work,Call.advance,hclocked,Option.getD_some,hnone,hne,if_false,
      Bool.false_eq_true]
    exact ⟨hI.upsert (fun _ h => h) hid hI.ids,trivial,trivial⟩
  | none =>
    have hfresh : (s.issued.all fun e => e.id ≠ i.id) = true := by
      simpa [allowed,hstage] using hallowed
    have hids := fresh_ids (e := ⟨i.id,(c.clocked i).actor,(c.clocked i).key hash⟩) hI rfl hfresh
    have hnone : (s.pushers.any fun r =>
        r.key ≠ (c.clocked i).key hash && r.id = i.id) = false := by
      rw [List.any_eq_false]
      intro r hr hcond
      have hne := List.all_eq_true.mp hfresh r.issue (hI.issued r hr)
      rw [Bool.and_eq_true,decide_eq_true_eq,decide_eq_true_eq] at hcond
      simp [Pusher.issue,hcond.2] at hne
    simp only [work,Call.advance,hclocked,Option.getD_none,hnone,if_true,if_false,
      Bool.false_eq_true]
    exact ⟨hI.upsert (fun _ h => List.mem_cons_of_mem _ h) List.mem_cons_self hids,trivial,trivial⟩

theorem stable (hash : String → String) : (threads hash).Stable (Ordered hash)
    fun _ s c => Knows hash s c c.stage := by
  constructor
  · intro i p s c t c' hI hJ hnext
    obtain ⟨hallowed,hwork⟩ := Threads.guarded_next.mp hnext
    obtain rfl : (work hash i p s c).1 = t := by rw [hwork]
    obtain rfl : (work hash i p s c).2 = c' := by rw [hwork]
    have hclocked : (c.clocked i).stage = c.stage := rfl
    cases hstage : c.stage with
    | selectExisting =>
      rw [hstage] at hJ hclocked
      have hadvance : (c.clocked i).advance hash i s.pushers =
          (s.pushers,(c.clocked i).decide hash s.pushers) := by
        simp only [Call.advance,hclocked]
      exact own_read hI hadvance (by simp [hstage]) (knows_decide hI hJ)
    | selectSameApp =>
      rw [hstage] at hJ hclocked
      have hadvance : (c.clocked i).advance hash i s.pushers =
          (s.pushers,.selectSameProduct (idsByAge (sameApp (c.clocked i)) s.pushers)) := by
        simp only [Call.advance,hclocked]
      refine own_read hI hadvance (by simp [hstage]) ⟨hJ,?_⟩
      refine ownIds_idsByAge hI fun r hr => ?_
      simp only [sameApp,sameProduct,Bool.and_eq_true,decide_eq_true_eq] at hr
      exact hr.1.1
    | selectSameProduct app =>
      rw [hstage] at hJ hclocked
      have hproduct : OwnIds s (c.clocked i) (idsByAge (sameProduct (c.clocked i)) s.pushers) := by
        refine ownIds_idsByAge hI fun r hr => ?_
        simp only [sameProduct,Bool.and_eq_true,decide_eq_true_eq] at hr
        exact hr.1
      have hevicted := OwnIds.evicted (c := c.clocked i) hJ.2 hproduct
      cases hids : evicted app (idsByAge (sameProduct (c.clocked i)) s.pushers) with
      | nil =>
        have hadvance : (c.clocked i).advance hash i s.pushers = (s.pushers,.upsert none) := by
          simp only [Call.advance,hclocked,hids]
        exact own_read hI hadvance (by simp [hstage]) trivial
      | cons id ids =>
        have hadvance : (c.clocked i).advance hash i s.pushers =
            (s.pushers,.evict (id :: ids)) := by
          simp only [Call.advance,hclocked,hids]
        rw [hids] at hevicted
        exact own_read hI hadvance (by simp [hstage]) hevicted
    | evict ids =>
      rw [hstage] at hclocked
      have hne : (Stage.evict ids = .upsert none) = False := by simp
      simp only [work,Call.advance,hclocked,hne,if_false]
      exact ⟨hI.delete _,trivial⟩
    | upsert existing =>
      rw [hstage] at hJ
      obtain ⟨hordered,_,hnext⟩ := upsert_own (p := p) hI hstage hJ hallowed
      refine ⟨hordered,?_⟩
      rw [hnext]
      trivial
    | selectRegistered =>
      rw [hstage] at hclocked
      have hadvance : (c.clocked i).advance hash i s.pushers =
          (s.pushers,(c.clocked i).conclude hash s.pushers) := by
        simp only [Call.advance,hclocked]
      exact own_read hI hadvance (by simp [hstage]) (conclude_knows _ _ _ _)
    | registered response =>
      rw [hstage] at hclocked
      have hadvance : (c.clocked i).advance hash i s.pushers =
          (s.pushers,.registered response) := by
        simp only [Call.advance,hclocked]
      exact own_read hI hadvance (by simp [hstage]) trivial
    | refused why =>
      rw [hstage] at hclocked
      have hadvance : (c.clocked i).advance hash i s.pushers = (s.pushers,.refused why) := by
        simp only [Call.advance,hclocked]
      exact own_read hI hadvance (by simp [hstage]) trivial
  · intro i p q s c t c' z _ _ hz _ hnext
    obtain ⟨_,hwork⟩ := Threads.guarded_next.mp hnext
    obtain rfl : (work hash i p s c).1 = t := by rw [hwork]
    exact hz.issued (issued_work i p s c)
  · intro e
    cases e

end invariant

section safe

def Presents (c : Call) (r : Pusher) : Prop :=
  ∃ auth, c.input.data = .webpush auth ∧ r.gatewayUrl = c.input.gatewayUrl ∧ r.auth = some auth

structure Safe (hash : String → String) (s : Pool) (l : Label) (t : Pool) : Prop where
  /-- Another actor's call leaves a browser's row, or presents it. -/
  taken : ∀ p i r, l = .act p i → r ∈ s.store.pushers → r.kind = .webpush →
    r.actorApId ≠ (s.thread p).actor → r ∈ t.store.pushers ∨
      r.key = (s.thread p).key hash ∧ Presents (s.thread p) r
  refused : ∀ p why, (t.thread p).stage = .refused why → (t.thread p).changed = false
  owner : ∀ r r', r ∈ t.store.pushers → r' ∈ t.store.pushers → r.product = r'.product →
    r.appId = r'.appId → r.pushkey = r'.pushkey → r.actorApId = r'.actorApId

def takeable (hash : String → String) (pushers : List Pusher) (c : Call) : Bool :=
  pushers.all fun r => r.key ≠ c.key hash || c.mayTake r

/-- The next statement of `c` does not take the row of `d`'s key from `d`, which has changed the
table, before `d` has read it back. -/
def leaves (hash : String → String) (pushers : List Pusher) (c d : Call) : Bool :=
  match c.stage,d.stage with
  | .upsert _,.selectRegistered =>
    c.key hash ≠ d.key hash || c.actor = d.actor || !takeable hash pushers c
  | .upsert _,.upsert _ =>
    c.key hash ≠ d.key hash || d.mayTake (newPusher hash c "") || !takeable hash pushers c
  | .evict ids,.selectRegistered =>
    pushers.all fun r => r.key ≠ d.key hash || r.actorApId ≠ d.actor || r.id ∉ ids
  | _,_ => true

structure Meets (hash : String → String) (s : Pool) (l : Label) (_ : Pool) : Prop where
  /-- A gateway is not registered with the key of another actor's browser. -/
  http : ∀ p i existing r, l = .act p i → (s.thread p).stage = .upsert existing →
    (s.thread p).input.data.kind = .http → r ∈ s.store.pushers → r.key = (s.thread p).key hash →
      r.kind = .webpush → r.actorApId = (s.thread p).actor
  /-- A quota deletes rows only where the row of the key has not been taken since it was read. -/
  evict : ∀ p i ids r, l = .act p i → (s.thread p).stage = .evict ids → r ∈ s.store.pushers →
    r.id ∈ ids → takeable hash s.store.pushers (s.thread p) = true
  /-- The other calls leave a call its row until it has read it back. -/
  left : ∀ p i q, l = .act p i → q ≠ p → (s.thread q).changed = true →
    leaves hash s.store.pushers (s.thread p) (s.thread q) = true

variable {s₀ s t : Pool} {l : Label}

abbrev Kept (hash : String → String) (s : Pool) : Prop :=
  Threads.Holds (Ordered hash) (fun _ s c => Knows hash s c c.stage) s

def Sound (hash : String → String) (pushers : List Pusher) (c : Call) : Prop :=
  c.changed = true →
    match c.stage with
    | .evict _ | .refused _ => False
    | .upsert _ => takeable hash pushers c = true
    | .selectRegistered => ∃ r ∈ pushers, r.actorApId = c.actor ∧ r.key = c.key hash
    | _ => True

/-- A call that has been refused has changed nothing, and no call that has changed the table
will be. -/
def Unchanged (hash : String → String) (s : Pool) : Prop :=
  ∀ p, Sound hash s.store.pushers (s.thread p)

theorem Start.kept (h : Start hash s₀) : Kept hash s₀ := by
  refine ⟨⟨h.keys,h.hashed,?_,?_⟩,?_⟩
  · intro r hr
    rw [h.issued]
    exact List.mem_map_of_mem hr
  · have hids : s₀.store.issued.map (·.id) = s₀.store.pushers.map (·.id) := by
      rw [h.issued,List.map_map]
      rfl
    rw [hids]
    exact h.ids
  · intro p
    obtain ⟨hstage,hchanged⟩ := h.calls p
    simp only [hstage]
    exact hchanged

theorem Start.unchanged (h : Start hash s₀) : Unchanged hash s₀ := by
  intro p hchanged
  rw [(h.calls p).2] at hchanged
  cases hchanged

theorem Unchanged.refused (h : Unchanged hash s) (p : Nat) (why : Refusal)
    (hstage : (s.thread p).stage = .refused why) : (s.thread p).changed = false := by
  rw [← Bool.not_eq_true]
  intro hchanged
  have hfalse := h p hchanged
  rw [hstage] at hfalse
  exact hfalse

theorem takeable_iff {pushers : List Pusher} {c : Call} : takeable hash pushers c = true ↔
    ∀ r ∈ pushers, r.key = c.key hash → c.mayTake r = true := by
  simp only [takeable,List.all_eq_true,Bool.or_eq_true,decide_eq_true_eq]
  exact forall₂_congr fun r _ => by rw [← imp_iff_not_or]

theorem takeable_sub {pushers pushers' : List Pusher} {c : Call}
    (hsub : pushers' ⊆ pushers) (h : takeable hash pushers c = true) :
    takeable hash pushers' c = true :=
  takeable_iff.mpr fun r hr => takeable_iff.mp h r (hsub hr)

theorem upsert_cases {pushers : List Pusher} (hkeys : (pushers.map Pusher.key).Nodup) (c : Call)
    (id : String) (sameActor : Bool) :
    (takeable hash pushers c = true ∧
        ∃ r ∈ upsert hash c id sameActor pushers, r.actorApId = c.actor ∧ r.key = c.key hash) ∨
      takeable hash pushers c = false ∧ upsert hash c id sameActor pushers = pushers := by
  cases htake : takeable hash pushers c with
  | true =>
    refine .inl ⟨rfl,?_⟩
    rw [takeable_iff] at htake
    unfold upsert
    split
    · rename_i hany
      obtain ⟨r,hr,hkey⟩ := List.any_eq_true.mp hany
      rw [decide_eq_true_eq] at hkey
      refine ⟨setPusher hash c id sameActor r,List.mem_map.mpr ⟨r,hr,if_pos ?_⟩,rfl,hkey⟩
      simp [hkey,htake r hr hkey]
    · exact ⟨_,List.mem_append_right _ (List.mem_singleton.mpr rfl),rfl,key_newPusher hash c id⟩
  | false =>
    refine .inr ⟨rfl,?_⟩
    obtain ⟨r,hr,hno⟩ := List.all_eq_false.mp htake
    simp only [Bool.or_eq_true,decide_eq_true_eq,not_or,not_not,Bool.not_eq_true] at hno
    have hany : (pushers.any fun r => r.key = c.key hash) = true :=
      List.any_eq_true.mpr ⟨r,hr,decide_eq_true hno.1⟩
    unfold upsert
    rw [if_pos hany]
    refine (List.map_congr_left fun r' hr' => if_neg ?_).trans (List.map_id _)
    rw [Bool.and_eq_true,decide_eq_true_eq]
    rintro ⟨hkey,hmay⟩
    rw [List.inj_on_of_nodup_map hkeys hr' hr (hkey.trans hno.1.symm),hno.2] at hmay
    cases hmay

theorem sound_work {i : Answer} {p : Nat} {s : Store} {c : Call} (hI : Ordered hash s)
    (hJ : Knows hash s c c.stage) (hallowed : allowed i s c = true)
    (hs : Sound hash s.pushers c)
    (hevict : ∀ ids r, c.stage = .evict ids → r ∈ s.pushers → r.id ∈ ids →
      takeable hash s.pushers c = true) :
    Sound hash (work hash i p s c).1.pushers (work hash i p s c).2 := by
  have hclocked : (c.clocked i).stage = c.stage := rfl
  have hread (hrows : ((c.clocked i).advance hash i s.pushers).1 = s.pushers) :
      (work hash i p s c).2.changed = c.changed := by
    simp only [work,hrows]
    simp [Call.clocked]
  cases hstage : c.stage with
  | selectExisting =>
    rw [hstage] at hJ hclocked
    intro hchanged
    rw [hread (by simp only [Call.advance,hclocked]),show c.changed = false from hJ] at hchanged
    cases hchanged
  | selectSameApp =>
    rw [hstage] at hJ hclocked
    intro hchanged
    rw [hread (by simp only [Call.advance,hclocked]),show c.changed = false from hJ] at hchanged
    cases hchanged
  | selectSameProduct app =>
    rw [hstage] at hJ hclocked
    intro hchanged
    rw [hread (by simp only [Call.advance,hclocked]),hJ.1] at hchanged
    cases hchanged
  | evict ids =>
    rw [hstage] at hclocked
    have hfresh : c.changed = false := by
      rw [← Bool.not_eq_true]
      intro hchanged
      have hfalse := hs hchanged
      simp only [hstage] at hfalse
    simp only [work,Call.advance,hclocked]
    intro hchanged
    simp only [Call.clocked,hfresh,Bool.false_or,decide_eq_true_eq] at hchanged
    have hgone : ∃ r ∈ s.pushers, r.id ∈ ids := by
      by_contra hnone
      push Not at hnone
      exact hchanged (List.filter_eq_self.mpr fun r hr => by simp [hnone r hr])
    obtain ⟨r,hr,hid⟩ := hgone
    exact takeable_sub List.filter_sublist.subset (hevict ids r hstage hr hid)
  | upsert existing =>
    rw [hstage] at hJ
    obtain ⟨_,hrows,hnext⟩ := upsert_own (p := p) hI hstage hJ hallowed
    have hchanged : (work hash i p s c).2.changed =
        (c.changed || (work hash i p s c).1.pushers ≠ s.pushers) := rfl
    intro hch
    simp only [hnext]
    rw [hrows]
    rcases upsert_cases hI.keys (c.clocked i) (existing.getD i.id) existing.isSome with
      ⟨_,hrow⟩ | ⟨htake,hsame⟩
    · exact hrow
    · rw [hchanged,hrows,hsame] at hch
      have htaken := hs (by simpa using hch)
      simp only [hstage] at htaken
      exact absurd (htake.symm.trans htaken) (by simp)
  | selectRegistered =>
    rw [hstage] at hclocked
    have hadvance : (c.clocked i).advance hash i s.pushers =
        (s.pushers,(c.clocked i).conclude hash s.pushers) := by
      simp only [Call.advance,hclocked]
    intro hchanged
    rw [hread (by rw [hadvance])] at hchanged
    have hkept := hs hchanged
    simp only [hstage] at hkept
    obtain ⟨r,hr,hactor,hkey⟩ := hkept
    rcases conclude_cases hash (c.clocked i) s.pushers with ⟨response,hc⟩ | ⟨_,hno⟩
    · simp only [work,hadvance,hc]
    · exact absurd hkey (hno r hr hactor)
  | registered response =>
    rw [hstage] at hclocked
    intro _
    simp only [work,Call.advance,hclocked]
  | refused why =>
    rw [hstage] at hclocked
    intro hchanged
    rw [hread (by simp only [Call.advance,hclocked])] at hchanged
    have hfalse := hs hchanged
    simp only [hstage] at hfalse

/-- What may be taken of a row that a call writes does not depend on its id and its times. -/
theorem mayTake_written {i : Answer} {c d : Call} {id : String} {sameActor : Bool}
    {pushers : List Pusher} {r : Pusher} (h : r ∈ upsert hash (c.clocked i) id sameActor pushers) :
    r ∈ pushers ∨ r.key = c.key hash ∧ d.mayTake r = d.mayTake (newPusher hash c "") := by
  rcases mem_upsert h with hr | rfl | ⟨r₀,_,hkey,rfl⟩
  · exact .inl hr
  · exact .inr ⟨rfl,rfl⟩
  · exact .inr ⟨hkey,rfl⟩

theorem sound_other {i : Answer} {p : Nat} {s : Store} {c d : Call} (hI : Ordered hash s)
    (hJ : Knows hash s c c.stage) (hallowed : allowed i s c = true) (hs : Sound hash s.pushers d)
    (hleft : d.changed = true → leaves hash s.pushers c d = true) :
    Sound hash (work hash i p s c).1.pushers d := by
  intro hchanged
  have hd := hs hchanged
  replace hleft := hleft hchanged
  have hclocked : (c.clocked i).stage = c.stage := rfl
  cases hstage : c.stage with
  | evict ids =>
    rw [hstage] at hclocked
    simp only [work,Call.advance,hclocked]
    cases hd' : d.stage with
    | upsert existing =>
      rw [hd'] at hd
      exact takeable_sub List.filter_sublist.subset hd
    | selectRegistered =>
      rw [hd'] at hd
      obtain ⟨r,hr,hactor,hkey⟩ := hd
      simp only [leaves,hstage,hd',List.all_eq_true] at hleft
      have hid := hleft r hr
      simp only [hkey,hactor,ne_eq,not_true_eq_false,decide_false,Bool.false_or] at hid
      exact ⟨r,List.mem_filter.mpr ⟨hr,by simpa using hid⟩,hactor,hkey⟩
    | _ =>
      rw [hd'] at hd
      exact hd
  | upsert existing =>
    rw [hstage] at hJ
    obtain ⟨_,hrows,_⟩ := upsert_own (p := p) hI hstage hJ hallowed
    rw [hrows]
    rcases upsert_cases hI.keys (c.clocked i) (existing.getD i.id) existing.isSome with
      ⟨htake,own,hown,hactor',hkey'⟩ | ⟨_,hsame⟩
    · replace htake : takeable hash s.pushers c = true := htake
      cases hd' : d.stage with
      | upsert existing' =>
        rw [hd'] at hd
        simp only [leaves,hstage,hd',htake,Bool.not_true,Bool.or_false,Bool.or_eq_true,
          decide_eq_true_eq] at hleft
        refine takeable_iff.mpr fun r hr hkey => ?_
        rcases mayTake_written (d := d) hr with hr | ⟨hrkey,hmay⟩
        · exact takeable_iff.mp hd r hr hkey
        · rw [hmay]
          exact hleft.resolve_left (not_not.mpr (hrkey.symm.trans hkey))
      | selectRegistered =>
        rw [hd'] at hd
        obtain ⟨r,hr,hactor,hkey⟩ := hd
        simp only [leaves,hstage,hd',htake,Bool.not_true,Bool.or_false,Bool.or_eq_true,
          decide_eq_true_eq] at hleft
        rcases hleft with hne | heq
        · exact ⟨r,mem_upsert_of_mem hr fun h => absurd (h.symm.trans hkey) hne,hactor,hkey⟩
        · by_cases hsame : c.key hash = d.key hash
          · exact ⟨own,hown,hactor'.trans heq,hkey'.trans hsame⟩
          · exact ⟨r,mem_upsert_of_mem hr fun h => absurd (h.symm.trans hkey) hsame,hactor,hkey⟩
      | _ =>
        rw [hd'] at hd
        exact hd
    · rw [hsame]
      exact hd
  | _ =>
    rw [hstage] at hclocked
    simp only [work,Call.advance,hclocked]
    exact hd

theorem unchanged_step (hk : Kept hash s) (hu : Unchanged hash s)
    (hl : (machine hash).step l s = some t) (hc : Meets hash s l t) : Unchanged hash t := by
  cases l with
  | env e => cases e
  | act p i =>
    obtain ⟨hallowed,rfl⟩ := step_call.mp hl
    intro q
    by_cases hq : q = p
    · subst hq
      simp only [Function.update_self]
      exact sound_work hk.1 (hk.2 q) hallowed (hu q) fun ids r => hc.evict q i ids r rfl
    · simp only [Function.update_of_ne hq]
      exact sound_other hk.1 (hk.2 p) hallowed (hu q) (hc.left p i q rfl hq)

theorem taken_work {i : Answer} {p : Nat} {s : Store} {c : Call} {r : Pusher}
    (hI : Ordered hash s) (hJ : Knows hash s c c.stage) (hallowed : allowed i s c = true)
    (hhttp : ∀ existing, c.stage = .upsert existing → c.input.data.kind = .http →
      r.key = c.key hash → r.actorApId = c.actor)
    (hr : r ∈ s.pushers) (hother : r.actorApId ≠ c.actor) :
    r ∈ (work hash i p s c).1.pushers ∨ r.key = c.key hash ∧ Presents c r := by
  have hclocked : (c.clocked i).stage = c.stage := rfl
  cases hstage : c.stage with
  | evict ids =>
    rw [hstage] at hJ hclocked
    left
    simp only [work,Call.advance,hclocked]
    refine List.mem_filter.mpr ⟨hr,?_⟩
    rw [Bool.not_eq_true',decide_eq_false_iff_not]
    intro hid
    obtain ⟨e,he,heq,hactor⟩ := hJ r.id hid
    have hissue := issue_unique hI (hI.issued r hr) he heq.symm
    exact hother ((congrArg Issue.actor hissue).trans hactor)
  | upsert existing =>
    rw [hstage] at hJ
    obtain ⟨_,hrows,_⟩ := upsert_own (p := p) hI hstage hJ hallowed
    rw [hrows]
    by_cases hkey : r.key = c.key hash
    · cases htake : c.mayTake r with
      | false => exact .inl (mem_upsert_of_mem hr fun _ => htake)
      | true =>
        right
        refine ⟨hkey,?_⟩
        unfold Call.mayTake at htake
        cases hdata : c.input.data with
        | http data =>
          have hkind : c.input.data.kind = .http := by
            rw [hdata]
            rfl
          exact absurd (hhttp existing hstage hkind hkey) hother
        | webpush auth =>
          simp only [hdata,presents,Bool.or_eq_true,Bool.and_eq_true,decide_eq_true_eq] at htake
          rcases htake with hactor | ⟨⟨_,hurl⟩,hauth⟩
          · exact absurd hactor hother
          · exact ⟨auth,hdata,hurl,hauth⟩
    · exact .inl (mem_upsert_of_mem hr fun h => absurd h hkey)
  | _ =>
    left
    rw [hstage] at hclocked
    simp only [work,Call.advance,hclocked]
    exact hr

theorem owner_of_ordered {s : Store} (h : Ordered hash s) {r r' : Pusher} (hr : r ∈ s.pushers)
    (hr' : r' ∈ s.pushers) (hproduct : r.product = r'.product) (happ : r.appId = r'.appId)
    (hkey : r.pushkey = r'.pushkey) : r = r' := by
  refine List.inj_on_of_nodup_map h.keys hr hr' ?_
  unfold Pusher.key
  rw [hproduct,happ,h.hashed r hr,h.hashed r' hr',hkey]

theorem Meets.reaches (h₀ : Start hash s₀) (hr : (machine hash).ReachesBy (Meets hash) s₀ s) :
    Kept hash s ∧ Unchanged hash s := by
  refine hr.invariant (P := fun s => Kept hash s ∧ Unchanged hash s) ⟨h₀.kept,h₀.unchanged⟩ ?_
  intro a l b ⟨hk,hu⟩ hl hc
  exact ⟨(stable hash).step hk hl,unchanged_step hk hu hl hc⟩

/-- In a run whose steps all meet the condition, a browser's registration stays with its owner
unless its secret is presented, and a refusal changes nothing. -/
theorem registrations_safe (h₀ : Start hash s₀)
    (hr : (machine hash).ReachesBy (Meets hash) s₀ s) (hl : (machine hash).step l s = some t)
    (hc : Meets hash s l t) : Safe hash s l t := by
  obtain ⟨hk,hu⟩ := Meets.reaches h₀ hr
  have hk' := (stable hash).step hk hl
  refine ⟨?_,(unchanged_step hk hu hl hc).refused,?_⟩
  · intro p i r hact hrow hkind hother
    subst hact
    obtain ⟨hallowed,rfl⟩ := step_call.mp hl
    refine taken_work (p := p) hk.1 (hk.2 p) hallowed ?_ hrow hother
    intro existing hstage hdata hkey
    exact hc.http p i existing r rfl hstage hdata hrow hkey hkind
  · intro r r' hrow hrow' hproduct happ hkey
    rw [owner_of_ordered hk'.1 hrow hrow' hproduct happ hkey]

end safe

section among

variable {s t : Pool} {l : Label}

def Among (hash : String → String) (ps : List Nat) (s : Pool) (l : Label) (_ : Pool) : Prop :=
  match l with
  | .act p _ =>
    p ∈ ps ∧ takeable hash s.store.pushers (s.thread p) = true ∧
      ((s.thread p).input.data.kind = .http → ∀ r ∈ s.store.pushers,
        r.key = (s.thread p).key hash → r.kind = .webpush → r.actorApId = (s.thread p).actor) ∧
      ∀ q ∈ ps, q ≠ p → leaves hash s.store.pushers (s.thread p) (s.thread q) = true
  | .env _ => True

instance (ps : List Nat) (s : Pool) (l : Label) (t : Pool) : Decidable (Among hash ps s l t) :=
  match l with
  | .act _ _ => inferInstanceAs (Decidable (_ ∧ _ ∧ _ ∧ _))
  | .env _ => isTrue trivial

theorem Among.meets {ps : List Nat} (h : Among hash ps s l t)
    (hidle : ∀ q ∉ ps, (s.thread q).changed = false) : Meets hash s l t := by
  refine ⟨?_,?_,?_⟩
  · intro p i _ r hact _ hkind hr hkey hweb
    subst hact
    exact h.2.2.1 hkind r hr hkey hweb
  · intro p i _ _ hact _ _ _
    subst hact
    exact h.2.1
  · intro p i q hact hq hchanged
    subst hact
    by_cases hmem : q ∈ ps
    · exact h.2.2.2 q hmem hq
    · rw [hidle q hmem] at hchanged
      cases hchanged

theorem Among.reaches {ps : List Nat} (hidle : ∀ q ∉ ps, (s.thread q).changed = false)
    (h : (machine hash).ReachesBy (Among hash ps) s t) :
    (machine hash).ReachesBy (Meets hash) s t ∧ ∀ q ∉ ps, (t.thread q).changed = false := by
  refine h.invariant (P := fun u => (machine hash).ReachesBy (Meets hash) s u ∧
    ∀ q ∉ ps, (u.thread q).changed = false) ⟨.refl s,hidle⟩ ?_
  rintro u l v ⟨hr,hu⟩ hl hc
  refine ⟨hr.snoc hl (hc.meets hu),fun q hq => ?_⟩
  cases l with
  | env e => cases e
  | act p i =>
    obtain ⟨_,rfl⟩ := step_call.mp hl
    simp only [Function.update_of_ne fun heq : q = p => hq (heq ▸ hc.1)]
    exact hu q hq

end among

section takeover

def alice : String := "https://here.example/ap/users/alice"
def bob : String := "https://here.example/ap/users/bob"

def browser : Pusher :=
  ⟨"1",alice,.yurucommu,none,.webpush,"web","p256dh","p256dh",none,none,none,none,
    [("auth",.string "secret"),("session",.string "s")],"https://push.example/1",0,0,0⟩

def gateway : Request :=
  ⟨.yurucommu,none,"web","p256dh",none,none,none,none,.http [],"https://gateway.example/notify"⟩

def gatewayCalls : Pool :=
  ⟨⟨[browser],[browser.issue]⟩,fun _ => ⟨bob,gateway,none,0,.selectExisting,false⟩⟩

theorem start_gatewayCalls : Start (fun key => key) gatewayCalls where
  ids := by decide
  keys := by decide
  hashed := by decide
  issued := rfl
  calls _ := ⟨rfl,rfl⟩

/-- alice's browser signs in to bob's account, while alice registers a gateway. -/
def signIns : Pool where
  store := ⟨[browser],[browser.issue]⟩
  thread p :=
    if p = 0 then ⟨bob,{ gateway with data := .webpush "secret", gatewayUrl := browser.gatewayUrl },
      some "t",0,.selectExisting,false⟩
    else ⟨alice,{ gateway with pushkey := "token" },none,0,.selectExisting,false⟩

theorem start_signIns : Start (fun key => key) signIns where
  ids := by decide
  keys := by decide
  hashed := by decide
  issued := rfl
  calls p := by
    simp only [signIns]
    split <;> exact ⟨rfl,rfl⟩

def signInRun : List Label :=
  let first : Label := .act 0 ⟨1,"2"⟩
  let second : Label := .act 1 ⟨1,"3"⟩
  [first,second,first,second,first,second,second,first,second]

def signedIn (n : Nat) : Pool :=
  ((machine fun key => key).runBy (Among (fun key => key) [0,1]) (signInRun.take n) signIns).getD
    signIns

theorem signedIn_reached (n : Nat)
    (h : ((machine fun key => key).runBy (Among (fun key => key) [0,1]) (signInRun.take n)
      signIns).isSome = true) :
    (machine fun key => key).ReachesBy (Meets fun key => key) signIns (signedIn n) ∧
      ∀ q ∉ [0,1], ((signedIn n).thread q).changed = false :=
  Among.reaches (fun q _ => (start_signIns.calls q).2) (Machine.reachesBy_runBy h)

/-- bob's upsert takes the row of the browser, and the call reads it back. -/
theorem registrations_safe_signedIn :
    (∃ t, t.store.pushers.map (·.actorApId) = [bob,alice] ∧
      Safe (fun key => key) (signedIn 7) (.act 0 ⟨1,"2"⟩) t) ∧
    ∃ t, ((signedIn 8).thread 0).changed = true ∧ (t.thread 0).stage ≠ .selectRegistered ∧
      Safe (fun key => key) (signedIn 8) (.act 0 ⟨1,"2"⟩) t := by
  constructor
  · obtain ⟨hr,hidle⟩ := signedIn_reached 7 (by decide)
    refine ⟨_,?_,registrations_safe start_signIns hr (step_call.mpr ⟨?_,rfl⟩)
      (Among.meets ?_ hidle)⟩ <;> decide
  · obtain ⟨hr,hidle⟩ := signedIn_reached 8 (by decide)
    refine ⟨_,?_,?_,registrations_safe start_signIns hr (step_call.mpr ⟨?_,rfl⟩)
      (Among.meets ?_ hidle)⟩ <;> decide

/-- The row of alice's browser becomes bob's. -/
theorem browser_taken : ¬∀ (hash : String → String) (s₀ s t : Pool) (l : Label), Start hash s₀ →
    (machine hash).Reaches s₀ s → (machine hash).step l s = some t → Safe hash s l t := by
  intro h
  let i : Answer := ⟨1,"2"⟩
  have hrun : ((machine fun key => key).run (List.replicate 3 (.act 0 i)) gatewayCalls).map
      (fun s => (s.store,s.thread 0)) =
        some (gatewayCalls.store,⟨bob,gateway,none,1,.upsert none,false⟩) := by
    decide
  obtain ⟨s,hs,hx⟩ := Option.map_eq_some_iff.mp hrun
  obtain ⟨hstore,hthread⟩ := Prod.mk.inj hx
  have hsafe := h _ gatewayCalls s _ (.act 0 i) start_gatewayCalls (.of_run hs)
    (step_call.mpr ⟨by rw [hstore,hthread]; decide,rfl⟩)
  rcases hsafe.taken 0 i browser rfl (by rw [hstore]; exact List.mem_singleton.mpr rfl) rfl
    (by rw [hthread]; decide) with hmem | ⟨_,auth,hdata,_⟩
  · have hgone : browser ∉ (work (fun key => key) i 0 gatewayCalls.store
        ⟨bob,gateway,none,1,.upsert none,false⟩).1.pushers := by decide
    rw [hstore,hthread] at hmem
    exact hgone hmem
  · rw [hthread] at hdata
    cases hdata

end takeover

end Yurucommu.Pushers
