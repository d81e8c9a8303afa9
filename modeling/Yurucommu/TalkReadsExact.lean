import Mathlib.Data.List.Perm.Subperm
import Yurucommu.TalkReads

/-!
Exact read receipts: in exact mode a message is read exactly when the history says so, in every
run in which no thread that was initialized before is seeded with new receipts.
-/

set_option autoImplicit false

namespace Yurucommu.TalkReads

variable {c : Chat} {k : Thread} {s t : Store} {forgets : Bool}

theorem mem_addNew {α : Type} [DecidableEq α] {old new : List α} {x : α} :
    x ∈ addNew old new ↔ x ∈ old ∨ x ∈ new := by
  simp only [addNew,List.mem_append,List.mem_filter,Bool.not_eq_true',List.contains_eq_mem,
    decide_eq_false_iff_not]
  by_cases hx : x ∈ old <;> simp [hx]

theorem addNew_of_subset {α : Type} [DecidableEq α] {old new : List α} (h : new ⊆ old) :
    addNew old new = old := by
  have hnil : (new.filter fun x => !old.contains x) = [] := by
    rw [List.filter_eq_nil_iff]
    intro x hx
    simpa using h hx
  rw [addNew,hnil,List.append_nil]

theorem mem_receipts {objects : List TalkObject} {x : Thread × String} :
    x ∈ receipts k objects ↔ ∃ o ∈ objects, x = (k,o.apId) := by
  simp only [receipts,List.mem_map]
  constructor
  · rintro ⟨o,ho,rfl⟩
    exact ⟨o,ho,rfl⟩
  · rintro ⟨o,ho,rfl⟩
    exact ⟨o,ho,rfl⟩

def passed (c : Chat) (k : Thread) (s : Store) : List TalkObject :=
  (readable c k s).filter fun o => o.published ≤ legacyBaseline c k s

theorem upsertMode_eq (k : Thread) (mode : Option Thread) : upsertMode k mode = k := by
  cases mode with
  | none => rfl
  | some m =>
    simp only [upsertMode]
    split
    · rfl
    · rename_i h
      rw [not_or,not_not,not_not] at h
      cases m
      cases k
      simp_all

section batches

@[simp] theorem checkedBatch_nil : checkedBatch [] s = some s := rfl

@[simp] theorem checkedBatch_cons (f : Write) (fs : List Write) :
    checkedBatch (f :: fs) s = (f s).bind (checkedBatch fs) := rfl

theorem assertion_pos {condition : Store → Bool} (h : condition s = true) :
    assertion condition s = some s := if_pos h

theorem assertion_neg {condition : Store → Bool} (h : condition s = false) :
    assertion condition s = none := by simp [assertion,h]

theorem scopeAuthorized_set (mode : Option Thread) (reads : List (Thread × String)) :
    scopeAuthorized c k { s with mode := mode, reads := reads } = scopeAuthorized c k s := rfl

theorem insertReads_seed (when : Store → Bool) :
    insertReads c k (fun s (o : TalkObject) =>
        when s && !observedModeExists k s && o.published ≤ legacyBaseline c k s) s =
      some { s with
        reads := if when s = true ∧ s.mode ≠ some k then addNew s.reads (receipts k (passed c k s))
          else s.reads } := by
  simp only [insertReads,observedModeExists]
  by_cases h : when s = true ∧ s.mode ≠ some k
  · simp [h.1,h.2,passed]
  · have hnone : ∀ o : TalkObject, (when s && !decide (s.mode = some k) &&
        decide (o.published ≤ legacyBaseline c k s)) = false := by
      intro o
      by_cases hw : when s = true
      · have hm : s.mode = some k := by
          by_contra hne
          exact h ⟨hw,hne⟩
        simp [hm]
      · simp [hw]
    simp [hnone,h,addNew,receipts]

theorem initialize_eq : initializeObservedReads c k s =
    if scopeAuthorized c k s then
      some { s with
        reads := if s.mode = some k then s.reads else addNew s.reads (receipts k (passed c k s))
        mode := some k }
    else none := by
  cases ha : scopeAuthorized c k s with
  | false => simp [initializeObservedReads,assertion_neg ha]
  | true =>
    have hafter : ∀ reads, assertion (fun s => scopeAuthorized c k s && observedModeExists k s)
        { s with mode := some k, reads := reads } = some { s with mode := some k, reads := reads } :=
      fun reads => assertion_pos (by rw [scopeAuthorized_set,ha]; simp [observedModeExists])
    simp only [initializeObservedReads,observedInitialization,List.cons_append,List.nil_append,
      checkedBatch_cons,assertion_pos ha,insertReads_seed,Option.bind_some,upsertMode_eq,if_true,
      hafter,checkedBatch_nil,true_and,ite_not,ne_eq]

theorem acknowledge_eq (ids : List String) : acknowledgeObservedReads c k ids s =
    if acknowledged c k ids s then
      some { s with
        reads := addNew s.reads
          (receipts k ((readable c k s).filter fun o => ids.contains o.apId)) }
    else none := by
  cases ha : acknowledged c k ids s with
  | false => simp [acknowledgeObservedReads,assertion_neg ha]
  | true =>
    have hafter : ∀ reads, assertion (acknowledged c k ids) { s with reads := reads } =
        some { s with reads := reads } := fun reads => assertion_pos ha
    simp only [acknowledgeObservedReads,checkedBatch_cons,assertion_pos ha,Option.bind_some,
      insertReads,hafter,checkedBatch_nil,if_true]

def legacyMode (c : Chat) (k : Thread) (s : Store) : Option Thread :=
  if ambiguousLegacyThread c k s then some k else s.mode

def legacyReads (c : Chat) (k : Thread) (s : Store) : List (Thread × String) :=
  let seeded :=
    if ambiguousLegacyThread c k s = true ∧ s.mode ≠ some k then
      addNew s.reads (receipts k (passed c k s))
    else s.reads
  if legacyMode c k s = some k then addNew seeded (receipts k (readable c k s)) else seeded

/-- What a write leaves of the store but for the mode, the receipts and the timestamps. -/
structure SameHistory (s t : Store) : Prop where
  objects : t.objects = s.objects
  blocked : t.blocked = s.blocked
  initialized : t.initialized = s.initialized
  marked : t.marked = s.marked

theorem insertReads_legacy (ha : scopeAuthorized c k s = true) :
    legacyObservedReadWrite c k s =
      some { s with
        reads := if s.mode = some k then addNew s.reads (receipts k (readable c k s)) else s.reads } := by
  have hall : (readable c k s).filter (fun _ => true) = readable c k s :=
    List.filter_eq_self.mpr fun _ _ => rfl
  by_cases hm : s.mode = some k
  · simp [legacyObservedReadWrite,insertReads,ha,observedModeExists,hm,hall]
  · simp [legacyObservedReadWrite,insertReads,observedModeExists,hm,receipts,addNew]

theorem statusWrite_some {now : String} (h : statusWrite c k now s = some t) :
    SameHistory s t ∧ t.mode = s.mode ∧ t.reads = s.reads := by
  simp only [statusWrite,Option.some.injEq] at h
  subst h
  cases c.kind with
  | user =>
    simp only
    split <;> exact ⟨⟨rfl,rfl,rfl,rfl⟩,rfl,rfl⟩
  | community => exact ⟨⟨rfl,rfl,rfl,rfl⟩,rfl,rfl⟩

theorem assertion_some {condition : Store → Bool} (h : assertion condition s = some t) : s = t := by
  simp only [assertion,Option.ite_none_right_eq_some,Option.some.injEq] at h
  exact h.2

theorem legacy_some {now : String} (h : applyLegacyTalkRead c k now s = some t) :
    SameHistory s t ∧ t.mode = legacyMode c k s ∧ t.reads = legacyReads c k s := by
  cases ha : scopeAuthorized c k s with
  | false => simp [applyLegacyTalkRead,assertion_neg ha] at h
  | true =>
    let seeded : Store :=
      { s with
        mode := legacyMode c k s
        reads := if ambiguousLegacyThread c k s = true ∧ s.mode ≠ some k then
          addNew s.reads (receipts k (passed c k s)) else s.reads }
    have hlegacy := insertReads_legacy (c := c) (k := k) (s := seeded) ha
    have hseeded : (insertReads c k fun s (o : TalkObject) =>
        ambiguousLegacyThread c k s && !observedModeExists k s &&
          o.published ≤ legacyBaseline c k s) s = some { seeded with mode := s.mode } :=
      insertReads_seed (ambiguousLegacyThread c k)
    have hmode : (if ambiguousLegacyThread c k { seeded with mode := s.mode } then
        { seeded with mode := some k } else { seeded with mode := s.mode }) = seeded := by
      change (if ambiguousLegacyThread c k s then _ else _) = _
      cases hamb : ambiguousLegacyThread c k s <;> simp [seeded,legacyMode,hamb]
    simp only [applyLegacyTalkRead,observedInitialization,List.cons_append,List.nil_append,
      checkedBatch_cons,assertion_pos ha,hseeded,Option.bind_some,upsertMode_eq,hmode,hlegacy] at h
    obtain ⟨u,hu,h⟩ := Option.bind_eq_some_iff.mp h
    obtain ⟨v,hv,h⟩ := Option.bind_eq_some_iff.mp h
    obtain rfl := assertion_some hv
    cases h
    obtain ⟨hsame,hm,hr⟩ := statusWrite_some hu
    exact ⟨⟨hsame.objects,hsame.blocked,hsame.initialized,hsame.marked⟩,hm,hr⟩

end batches

/-- In exact mode a readable message is read exactly when the history has marked it. -/
def Exact (c : Chat) (s : Store) : Prop :=
  ∀ k o baseline, s.mode = some k → o ∈ readable c k s →
    (unreadTalkObject k o.published o.apId baseline s = false ↔ (k,o.apId) ∈ s.marked)

/-- An initialization of a thread that was initialized before and has lost the mode row since
gives a receipt to a message that has none. -/
def Reseeds (c : Chat) (k : Thread) (s : Store) : Prop :=
  scopeAuthorized c k s = true ∧ k ∈ s.initialized ∧ s.mode ≠ some k ∧
    ∃ o ∈ passed c k s, (k,o.apId) ∉ s.reads

structure Traced (s : Store) : Prop where
  ids : (s.objects.map TalkObject.apId).Nodup
  mode : ∀ k, s.mode = some k → k ∈ s.initialized
  marked : s.marked ⊆ s.reads

theorem readable_nodup (h : (s.objects.map TalkObject.apId).Nodup)
    (keep : TalkObject → Bool) :
    (((readable c k s).filter keep).map TalkObject.apId).Nodup := by
  refine h.sublist (List.Sublist.map _ ?_)
  exact List.filter_sublist.trans List.filter_sublist

theorem acknowledged_ids {ids : List String} (h : (s.objects.map TalkObject.apId).Nodup)
    (ha : acknowledged c k ids s = true) :
    ∀ id ∈ ids, ∃ o ∈ readable c k s, ids.contains o.apId = true ∧ o.apId = id := by
  simp only [acknowledged,Bool.and_eq_true,decide_eq_true_eq] at ha
  let named := (readable c k s).filter fun o => ids.contains o.apId
  have hsub : named.map TalkObject.apId ⊆ ids := by
    intro id hid
    obtain ⟨o,ho,rfl⟩ := List.mem_map.mp hid
    simpa using (List.mem_filter.mp ho).2
  have hperm : (named.map TalkObject.apId).Perm ids :=
    ((readable_nodup h _).subperm hsub).perm_of_length_le (by rw [List.length_map]; exact Nat.le_of_eq ha.2.symm)
  intro id hid
  obtain ⟨o,ho,rfl⟩ := List.mem_map.mp (hperm.symm.subset hid)
  obtain ⟨hr,hc⟩ := List.mem_filter.mp ho
  exact ⟨o,hr,hc,rfl⟩

theorem mem_receipts_ids {ids : List String} (h : (s.objects.map TalkObject.apId).Nodup)
    (ha : acknowledged c k ids s = true) {x : Thread × String} :
    x ∈ receipts k ((readable c k s).filter fun o => ids.contains o.apId) ↔
      x ∈ ids.map fun id => (k,id) := by
  rw [mem_receipts,List.mem_map]
  constructor
  · rintro ⟨o,ho,rfl⟩
    exact ⟨o.apId,by simpa using (List.mem_filter.mp ho).2,rfl⟩
  · rintro ⟨id,hid,rfl⟩
    obtain ⟨o,hr,hc,rfl⟩ := acknowledged_ids h ha id hid
    exact ⟨o,List.mem_filter.mpr ⟨hr,hc⟩,rfl⟩

theorem committed_keeps {P : Store → Prop} {commits : Bool} {batch : Store → Option Store}
    {remember : Store → Store → Store} (hs : P s)
    (h : ∀ t, commits = true → batch s = some t → P (remember s t)) :
    P (committed commits batch remember s) := by
  unfold committed
  split
  · rename_i t ht
    cases commits with
    | false => cases ht
    | true => exact h t rfl ht
  · exact hs

/-- What a batch adds to the receipts and what the history adds to its marks. -/
structure Effect (s t : Store) (R M : List (Thread × String)) : Prop where
  objects : t.objects = s.objects
  mode : ∀ k, t.mode = some k → k ∈ t.initialized
  reads : ∀ x, x ∈ t.reads ↔ x ∈ s.reads ∨ x ∈ R
  marked : ∀ x, x ∈ t.marked ↔ x ∈ s.marked ∨ x ∈ M
  backed : M ⊆ R

section effects

variable {R M : List (Thread × String)}

theorem Effect.traced (h : Effect s t R M) (hs : Traced s) : Traced t where
  ids := by
    rw [h.objects]
    exact hs.ids
  mode := h.mode
  marked x hx := by
    rw [h.reads]
    rcases (h.marked x).mp hx with hx | hx
    · exact .inl (hs.marked hx)
    · exact .inr (h.backed hx)

theorem Effect.reads_sub (h : Effect s t R M) (hs : s.reads ⊆ s.marked)
    (hR : ∀ x ∈ R, x ∈ s.marked ∨ x ∈ M) : t.reads ⊆ t.marked := by
  intro x hx
  rw [h.marked]
  rcases (h.reads x).mp hx with hx | hx
  · exact .inl (hs hx)
  · exact hR x hx

theorem Traced.initialization (h : Traced s) (hs : initializeObservedReads c k s = some t) :
    scopeAuthorized c k s = true ∧ (rememberInit c k s t).mode = some k ∧
      Effect s (rememberInit c k s t)
        (if s.mode = some k then [] else receipts k (passed c k s))
        (if k ∈ s.initialized then [] else receipts k (passed c k s)) := by
  rw [initialize_eq] at hs
  split at hs
  · rename_i ha
    cases hs
    refine ⟨ha,?_,?_⟩
    · unfold rememberInit
      split <;> rfl
    · by_cases hk : k ∈ s.initialized
      · simp only [rememberInit,hk,if_true]
        refine ⟨rfl,fun k' hm => ?_,fun x => ?_,fun x => ?_,List.nil_subset _⟩
        · cases hm
          exact hk
        · by_cases hm : s.mode = some k
          · simp only [hm,if_true,List.not_mem_nil,or_false]
          · simp only [hm,if_false,mem_addNew]
        · simp only [List.not_mem_nil,or_false]
      · have hm : s.mode ≠ some k := fun hm => hk (h.mode k hm)
        simp only [rememberInit,hk,hm,if_false]
        refine ⟨rfl,fun k' hm => ?_,fun x => mem_addNew,fun x => mem_addNew,fun _ h => h⟩
        cases hm
        exact List.mem_cons_self
  · cases hs

theorem Traced.acknowledge (h : Traced s) {ids : List String}
    (hs : acknowledgeObservedReads c k ids s = some t) :
    acknowledged c k ids s = true ∧
      Effect s (rememberIds k ids t) (ids.map fun id => (k,id)) (ids.map fun id => (k,id)) := by
  rw [acknowledge_eq] at hs
  split at hs
  · rename_i ha
    cases hs
    refine ⟨ha,rfl,h.mode,fun x => ?_,fun x => mem_addNew,fun _ h => h⟩
    simp only [rememberIds,mem_addNew,mem_receipts_ids h.ids ha]
  · cases hs

theorem passed_sub {x : Thread × String} (hx : x ∈ receipts k (passed c k s)) :
    x ∈ receipts k (readable c k s) := by
  obtain ⟨o,ho,rfl⟩ := mem_receipts.mp hx
  exact mem_receipts.mpr ⟨o,(List.mem_filter.mp ho).1,rfl⟩

theorem mem_legacyReads (h : legacyMode c k s = some k) (x : Thread × String) :
    x ∈ legacyReads c k s ↔ x ∈ s.reads ∨ x ∈ receipts k (readable c k s) := by
  simp only [legacyReads,h,if_true,mem_addNew]
  split
  · rw [mem_addNew,or_assoc]
    refine or_congr_right ⟨fun hx => hx.elim passed_sub id,.inr⟩
  · exact Iff.rfl

theorem mem_rememberInit (x : Thread × String) :
    x ∈ (rememberInit c k s t).marked ↔
      x ∈ t.marked ∨ k ∉ s.initialized ∧ x ∈ receipts k (passed c k s) := by
  unfold rememberInit
  split
  · rename_i hk
    simp [hk]
  · rename_i hk
    simp only [mem_addNew,hk,not_false_iff,true_and,passed]

theorem rememberInit_fields : (rememberInit c k s t).objects = t.objects ∧
    (rememberInit c k s t).mode = t.mode ∧ (rememberInit c k s t).reads = t.reads := by
  unfold rememberInit
  split <;> exact ⟨rfl,rfl,rfl⟩

theorem mem_initialized (h : t.initialized = s.initialized) :
    k ∈ (rememberInit c k s t).initialized := by
  unfold rememberInit
  split
  · rename_i hk
    rw [h]
    exact hk
  · exact List.mem_cons_self

theorem Traced.legacy (h : Traced s) {now : String}
    (hs : applyLegacyTalkRead c k now s = some t) :
    ∃ R, Effect s (rememberLegacy c k s t) R R := by
  obtain ⟨hsame,hm,hr⟩ := legacy_some hs
  cases hamb : ambiguousLegacyThread c k s with
  | true =>
    have hmode : legacyMode c k s = some k := by simp [legacyMode,hamb]
    obtain ⟨hobj,hm',hr'⟩ := rememberInit_fields (c := c) (k := k) (s := s) (t := t)
    rw [hmode] at hm
    refine ⟨receipts k (readable c k s),?_⟩
    simp only [rememberLegacy,hamb,if_true,hm',hm]
    refine ⟨hobj.trans hsame.objects,fun k' hk' => ?_,fun x => ?_,fun x => ?_,fun _ h => h⟩
    · cases hk'
      exact mem_initialized hsame.initialized
    · simp only [hr',hr]
      exact mem_legacyReads hmode x
    · simp only [mem_addNew,mem_rememberInit,hsame.marked,or_assoc]
      exact or_congr_right ⟨fun hx => hx.elim (fun hx => passed_sub hx.2) id,.inr⟩
  | false =>
    have hmode : legacyMode c k s = s.mode := by simp [legacyMode,hamb]
    by_cases hk : s.mode = some k
    · refine ⟨receipts k (readable c k s),?_⟩
      simp only [rememberLegacy,hamb,Bool.false_eq_true,if_false,hm,hmode,hk,if_true]
      refine ⟨hsame.objects,fun k' hk' => ?_,fun x => ?_,fun x => ?_,fun _ h => h⟩
      · cases hk'
        rw [hsame.initialized]
        exact h.mode k hk
      · simp only [hr]
        exact mem_legacyReads (hmode.trans hk) x
      · simp only [mem_addNew,hsame.marked]
    · refine ⟨[],?_⟩
      simp only [rememberLegacy,hamb,Bool.false_eq_true,if_false,hm,hmode,hk]
      refine ⟨hsame.objects,fun k' hk' => ?_,fun x => ?_,fun x => ?_,fun _ h => h⟩
      · rw [hsame.initialized]
        exact h.mode k' (hmode ▸ hm ▸ hk')
      · simp [hr,legacyReads,hmode,hk,hamb]
      · simp [hsame.marked]

theorem Traced.join (h : Traced s) (joinedAt : Option String) :
    Traced (TalkReads.join c true joinedAt s) := by
  unfold TalkReads.join
  split
  · exact ⟨h.ids,fun k hk => (by cases hk),List.nil_subset _⟩
  · exact ⟨h.ids,h.mode,h.marked⟩

theorem Traced.step (h : Traced s) (l : Label) : Traced (apply c true l s) := by
  cases l with
  | initializeObservedReads k commits =>
    exact committed_keeps h fun t _ ht => (h.initialization ht).2.2.traced h
  | acknowledgeObservedReads k ids commits =>
    simp only [apply]
    refine committed_keeps h fun t _ ht => ?_
    exact (h.acknowledge ht).2.traced h
  | applyLegacyTalkRead k now commits =>
    refine committed_keeps h fun t _ ht => ?_
    obtain ⟨R,he⟩ := h.legacy ht
    exact he.traced h
  | arrive o =>
    simp only [apply]
    split
    · exact h
    · rename_i ho
      exact ⟨List.nodup_cons.mpr ⟨ho,h.ids⟩,h.mode,h.marked⟩
  | join joinedAt => exact h.join joinedAt
  | moderate => exact ⟨h.ids,h.mode,h.marked⟩

theorem Traced.reads_sub (h : Traced s) (hs : s.reads ⊆ s.marked) (l : Label)
    (hno : ∀ k, l = .initializeObservedReads k true → ¬Reseeds c k s) :
    (apply c true l s).reads ⊆ (apply c true l s).marked := by
  cases l with
  | initializeObservedReads k commits =>
    refine committed_keeps (P := fun s => s.reads ⊆ s.marked) hs fun t hc ht => ?_
    subst hc
    obtain ⟨ha,_,he⟩ := h.initialization ht
    refine he.reads_sub hs fun x hx => ?_
    by_cases hm : s.mode = some k
    · rw [if_pos hm] at hx
      cases hx
    · rw [if_neg hm] at hx
      by_cases hk : k ∈ s.initialized
      · left
        by_contra hne
        obtain ⟨o,ho,rfl⟩ := mem_receipts.mp hx
        exact hno k rfl ⟨ha,hk,hm,o,ho,fun hr => hne (hs hr)⟩
      · rw [if_neg hk]
        exact .inr hx
  | acknowledgeObservedReads k ids commits =>
    refine committed_keeps (P := fun s => s.reads ⊆ s.marked) hs fun t _ ht => ?_
    exact (h.acknowledge ht).2.reads_sub hs fun x hx => .inr hx
  | applyLegacyTalkRead k now commits =>
    refine committed_keeps (P := fun s => s.reads ⊆ s.marked) hs fun t _ ht => ?_
    obtain ⟨R,he⟩ := h.legacy ht
    exact he.reads_sub hs fun x hx => .inr hx
  | arrive o =>
    simp only [apply]
    split <;> exact hs
  | join joinedAt =>
    simp only [apply,TalkReads.join]
    split
    · exact List.nil_subset _
    · exact hs
  | moderate => exact hs

end effects

theorem exact_of_reads_sub (h : Traced s) (hs : s.reads ⊆ s.marked) : Exact c s := by
  intro k o baseline hm _
  simp only [unreadTalkObject,hm,if_true,Bool.not_eq_false',List.contains_eq_mem,
    decide_eq_true_eq]
  exact ⟨fun hr => hs hr,fun hr => h.marked hr⟩

theorem Start.traced (h : Start s) : Traced s where
  ids := h.ids
  mode k hk := by
    rw [h.mode] at hk
    cases hk
  marked := by
    rw [h.history.2]
    exact List.nil_subset _

def ExactReads (c : Chat) (forgets : Bool) (s₀ : Store) (ls : List Label) : Prop :=
  ∀ as bs s, ls = as ++ bs → (machine c forgets).run as s₀ = some s → Exact c s

def Reseeded (c : Chat) (s₀ : Store) (ls : List Label) : Prop :=
  ∃ as k bs s, ls = as ++ .initializeObservedReads k true :: bs ∧
    (machine c true).run as s₀ = some s ∧ Reseeds c k s

theorem run_traced {s₀ : Store} (h : Start s₀) {ls : List Label}
    (hr : (machine c true).run ls s₀ = some s) : Traced s := by
  refine Machine.run_invariant h.traced (fun a l b ha hl => ?_) hr
  cases hl
  exact ha.step l

theorem Reseeded.append {s₀ : Store} {ls : List Label} (h : Reseeded c s₀ ls)
    (cs : List Label) : Reseeded c s₀ (ls ++ cs) := by
  obtain ⟨as,k,bs,s,rfl,hs,hr⟩ := h
  exact ⟨as,k,bs ++ cs,s,by simp,hs,hr⟩

theorem run_reads_sub {s₀ : Store} (h : Start s₀) {ls : List Label}
    (hr : (machine c true).run ls s₀ = some s) : ¬Reseeded c s₀ ls → s.reads ⊆ s.marked := by
  refine Machine.run_history (P := fun ls s => ¬Reseeded c s₀ ls → s.reads ⊆ s.marked)
    (fun _ => ?_) (fun as l u v hu ih hl hno => ?_) hr
  · rw [h.reads]
    exact List.nil_subset _
  · cases hl
    refine (run_traced h hu).reads_sub (ih fun hr => hno (hr.append _)) l fun k hk hr => ?_
    exact hno ⟨as,k,[],u,by rw [hk],hu,hr⟩

/-- A new receipt for a message that the history has not marked. -/
theorem Reseeds.not_exact (h : Traced s) (hr : Reseeds c k s) :
    ¬Exact c (apply c true (.initializeObservedReads k true) s) := by
  obtain ⟨ha,hk,hm,o,ho,hnot⟩ := hr
  intro hexact
  have happly : apply c true (.initializeObservedReads k true) s =
      { s with reads := addNew s.reads (receipts k (passed c k s)), mode := some k } := by
    simp only [apply,committed,if_true,initialize_eq,ha,hm,if_false,rememberInit,hk]
  have hread : o ∈ readable c k s := (List.mem_filter.mp ho).1
  rw [happly] at hexact
  have hunread := hexact k o "" rfl hread
  simp only [unreadTalkObject,if_true,Bool.not_eq_false',List.contains_eq_mem,decide_eq_true_eq,
    mem_addNew] at hunread
  exact hnot (h.marked (hunread.mp (.inr (mem_receipts.mpr ⟨o,ho,rfl⟩))))

theorem exact_iff {s₀ : Store} (h : Start s₀) (ls : List Label) :
    ExactReads c true s₀ ls ↔ ¬Reseeded c s₀ ls := by
  constructor
  · rintro hk ⟨as,k,bs,s,rfl,hs,hr⟩
    refine hr.not_exact (run_traced h hs) (hk (as ++ [.initializeObservedReads k true]) bs _ ?_ ?_)
    · simp
    · exact Machine.run_snoc hs rfl
  · intro hno as bs s hls hs
    refine exact_of_reads_sub (run_traced h hs) (run_reads_sub h hs fun hr => hno ?_)
    exact hls ▸ hr.append bs

def Rejected (c : Chat) (s : Store) : Label → Prop
  | .initializeObservedReads k commits =>
    commits = false ∨ initializeObservedReads c k s = none
  | .acknowledgeObservedReads k ids commits =>
    commits = false ∨ acknowledgeObservedReads c k ids s = none
  | .applyLegacyTalkRead k now commits => commits = false ∨ applyLegacyTalkRead c k now s = none
  | _ => False

theorem committed_rejected {commits : Bool} {batch : Store → Option Store}
    {remember : Store → Store → Store} (h : commits = false ∨ batch s = none) :
    committed commits batch remember s = s := by
  rcases h with rfl | h
  · rfl
  · cases commits with
    | false => rfl
    | true => simp [committed,h]

theorem Rejected.apply_eq {l : Label} (h : Rejected c s l) : apply c forgets l s = s := by
  cases l with
  | initializeObservedReads | acknowledgeObservedReads | applyLegacyTalkRead =>
    simp only [apply]
    exact committed_rejected h
  | arrive | join | moderate => cases h

def Label.isJoin : Label → Bool
  | .join _ => true
  | _ => false

theorem marked_grows (h : Traced s) {l : Label} (hl : l.isJoin = false) :
    s.marked ⊆ (apply c true l s).marked := by
  cases l with
  | initializeObservedReads k commits =>
    refine committed_keeps (P := fun t => s.marked ⊆ t.marked) (fun _ h => h) fun t _ ht x hx => ?_
    exact ((h.initialization ht).2.2.marked x).mpr (.inl hx)
  | acknowledgeObservedReads k ids commits =>
    refine committed_keeps (P := fun t => s.marked ⊆ t.marked) (fun _ h => h) fun t _ ht x hx => ?_
    exact ((h.acknowledge ht).2.marked x).mpr (.inl hx)
  | applyLegacyTalkRead k now commits =>
    refine committed_keeps (P := fun t => s.marked ⊆ t.marked) (fun _ h => h) fun t _ ht x hx => ?_
    obtain ⟨R,he⟩ := h.legacy ht
    exact (he.marked x).mpr (.inl hx)
  | arrive o =>
    simp only [apply]
    split <;> exact fun _ h => h
  | join => cases hl
  | moderate => exact fun _ h => h

theorem acknowledge_marked (h : Traced s) {ids : List String} {commits : Bool}
    (hm : ∀ id ∈ ids, (k,id) ∈ s.marked) :
    apply c true (.acknowledgeObservedReads k ids commits) s = s := by
  simp only [apply]
  refine committed_keeps (P := fun t => t = s) rfl fun t _ ht => ?_
  have hmarked : (ids.map fun id => (k,id)) ⊆ s.marked := by
    intro x hx
    obtain ⟨id,hid,rfl⟩ := List.mem_map.mp hx
    exact hm id hid
  rw [acknowledge_eq] at ht
  split at ht
  · rename_i ha
    cases ht
    have hreads : receipts k ((readable c k s).filter fun o => ids.contains o.apId) ⊆ s.reads :=
      fun x hx => h.marked (hmarked ((mem_receipts_ids h.ids ha).mp hx))
    simp only [rememberIds,addNew_of_subset hmarked,addNew_of_subset hreads]
  · cases ht

/-- A rejected write changes nothing, and neither does an acknowledgement that was accepted
before, until the membership changes. -/
structure Idempotent (c : Chat) (s₀ : Store) : Prop where
  rejected : ∀ as s l, (machine c true).run as s₀ = some s → Rejected c s l → apply c true l s = s
  repeated : ∀ as k ids s bs u commits, (machine c true).run as s₀ = some s →
    acknowledgeObservedReads c k ids s ≠ none →
      (machine c true).run bs (apply c true (.acknowledgeObservedReads k ids true) s) = some u →
        (∀ l ∈ bs, l.isJoin = false) →
          apply c true (.acknowledgeObservedReads k ids commits) u = u

theorem run_marked {u : Store} {M : List (Thread × String)} (h : Traced s) (hm : M ⊆ s.marked)
    {bs : List Label} (hr : (machine c true).run bs s = some u)
    (hj : ∀ l ∈ bs, l.isJoin = false) : Traced u ∧ M ⊆ u.marked := by
  have hby : (machine c true).ReachesBy (fun _ l _ => l.isJoin = false) s u := by
    refine Machine.run_reachesBy (fun cs l ds v w he _ _ => hj l ?_) hr
    rw [he]
    simp
  refine hby.invariant (P := fun u => Traced u ∧ M ⊆ u.marked) ⟨h,hm⟩ fun a l b ha hl hj => ?_
  cases hl
  exact ⟨ha.1.step l,fun x hx => marked_grows ha.1 hj (ha.2 hx)⟩

/-- The receipts are exact in exactly the runs in which no thread is seeded again. -/
theorem exact_reads {s₀ : Store} (h : Start s₀) (ls : List Label) :
    (ExactReads c true s₀ ls ↔ ¬Reseeded c s₀ ls) ∧ Idempotent c s₀ := by
  refine ⟨exact_iff h ls,fun as s l _ hr => hr.apply_eq,?_⟩
  intro as k ids s bs u commits hs hacc hu hj
  have htraced := run_traced h hs
  obtain ⟨t,ht⟩ := Option.ne_none_iff_exists'.mp hacc
  have happly : apply c true (.acknowledgeObservedReads k ids true) s = rememberIds k ids t := by
    simp [apply,committed,ht]
  rw [happly] at hu
  have heffect := (htraced.acknowledge ht).2
  obtain ⟨hu',hmarked⟩ := run_marked (heffect.traced htraced)
    (fun x hx => (heffect.marked x).mpr (.inr hx)) hu hj
  exact acknowledge_marked hu' fun id hid => hmarked (List.mem_map.mpr ⟨id,hid,rfl⟩)

def groupChat : Chat := ⟨"https://a.example/me",.community,"https://a.example/group"⟩

def emptyStore : Store :=
  ⟨[],[],true,true,true,none,fun _ => none,none,none,[],[],[]⟩

theorem start_emptyStore : Start emptyStore := ⟨List.nodup_nil,rfl,rfl,rfl,rfl⟩

def epoch (joinedAt : String) : Thread := ⟨"https://a.example/group",joinedAt⟩

def message : TalkObject :=
  ⟨"https://a.example/o/1","Note",none,"https://a.example/you","unlisted",none,none,
    "2026-01-02T00:00:00Z",[("https://a.example/group","audience")]⟩

/-- The viewer reads a message, leaves, and comes back with the epoch of before. -/
def rejoinRun : List Label :=
  [.join (some "2026-01-01T00:00:00Z"),.arrive message,
    .initializeObservedReads (epoch "2026-01-01T00:00:00Z") true,
    .acknowledgeObservedReads (epoch "2026-01-01T00:00:00Z") [message.apId] true,.join none,
    .join (some "2026-01-01T00:00:00Z"),
    .initializeObservedReads (epoch "2026-01-01T00:00:00Z") true]

theorem exact_reads_rejoin : (ExactReads groupChat true emptyStore rejoinRun ↔
    ¬Reseeded groupChat emptyStore rejoinRun) ∧ Idempotent groupChat emptyStore :=
  exact_reads start_emptyStore rejoinRun

/-- The acknowledgement of the first membership is not one of the second. -/
theorem rejoin_unread : ¬∀ c s₀ ls, Start s₀ → ExactReads c false s₀ ls := by
  intro h
  have hrun : ((machine groupChat false).run rejoinRun emptyStore).any (fun s =>
      s.mode = some (epoch "2026-01-01T00:00:00Z") && s.reads = [] &&
        s.marked = [(epoch "2026-01-01T00:00:00Z",message.apId)] && s.objects = [message] &&
          s.blocked = []) = true := by
    decide
  obtain ⟨s,hs,hx⟩ := (Option.any_eq_true ..).mp hrun
  simp only [Bool.and_eq_true,decide_eq_true_eq] at hx
  obtain ⟨⟨⟨⟨hmode,hreads⟩,hmarked⟩,hobjects⟩,hblocked⟩ := hx
  have hexact := h groupChat emptyStore rejoinRun start_emptyStore rejoinRun [] s
    (List.append_nil _).symm hs
  have hread : message ∈ readable groupChat (epoch "2026-01-01T00:00:00Z") s := by
    rw [readable,hobjects,hblocked]
    decide
  have hiff := hexact _ message "" hmode hread
  simp [unreadTalkObject,hmode,hreads,hmarked] at hiff

end Yurucommu.TalkReads
