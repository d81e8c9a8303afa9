import Yurucommu.RequestRejects

/-!
A rejection deletes the messages of its request and no other row, writes nothing while there is an
answer, and takes a bounded number of statements; when it succeeds, no message that it found is left
that has been one ever since.
-/

set_option autoImplicit false

namespace Yurucommu.RequestRejects

section stores

variable {r : Request} {conversationId : String} {apIds : List String} {jobs : List Media}
  {s t : Store} {o : Object}

theorem mem_messages :
    o ∈ messages r conversationId s ↔ o ∈ s.objects ∧ senderMessage r conversationId s o = true :=
  List.mem_filter

theorem mem_messageIds {apId : String} : apId ∈ messageIds r conversationId s ↔
    ∃ o ∈ s.objects, senderMessage r conversationId s o = true ∧ o.apId = apId := by
  simp only [messageIds,List.mem_map,mem_messages,and_assoc]

theorem nodup_messageIds (h : s.valid = true) : (messageIds r conversationId s).Nodup :=
  (of_decide_eq_true h).sublist (List.filter_sublist.map _)

theorem Store.eq_of_apId {o p : Object} (h : s.valid = true) (ho : o ∈ s.objects)
    (hp : p ∈ s.objects) (heq : o.apId = p.apId) : o = p :=
  List.inj_on_of_nodup_map (of_decide_eq_true h) ho hp heq

theorem addressed_deletePage {apId recipientApId : String} (h : apId ∉ apIds) :
    (deletePage apIds jobs s).addressed apId recipientApId = s.addressed apId recipientApId := by
  simp only [Store.addressed,deletePage,Table.delete,List.any_filter]
  congr 1
  funext x
  by_cases hx : x.objectApId = apId
  · subst hx
    simp [h]
  · simp [hx]

theorem messages_deletePage : messages r conversationId (deletePage apIds jobs s) =
    (messages r conversationId s).filter fun o => !apIds.contains o.apId := by
  simp only [messages,List.filter_filter]
  simp only [deletePage,Table.delete,List.filter_filter]
  refine List.filter_congr fun o _ => ?_
  by_cases ho : o.apId ∈ apIds
  · simp [ho]
  · have haddr : (deletePage apIds jobs s).addressed o.apId r.viewer = _ := addressed_deletePage ho
    simp only [deletePage,Table.delete] at haddr
    simp only [senderMessage,haddr]
    simp [ho]

theorem messageIds_deletePage : messageIds r conversationId (deletePage apIds jobs s) =
    (messageIds r conversationId s).filter fun apId => !apIds.contains apId := by
  rw [messageIds,messages_deletePage,messageIds,List.filter_map]
  rfl

theorem mem_targets {activityApId : String} : activityApId ∈ s.targets apIds ↔
    ∃ a ∈ s.activities, (∃ apId ∈ apIds, a.objectApId = some apId) ∧ a.apId = activityApId := by
  simp only [Store.targets,List.mem_map,List.mem_filter,Option.any_eq_true,List.contains_eq_mem,
    decide_eq_true_eq,and_assoc]
  refine exists_congr fun a => and_congr_right fun _ => and_congr_left fun _ => ?_
  exact ⟨fun ⟨x,hx,hin⟩ => ⟨x,hin,hx⟩,fun ⟨x,hin,hx⟩ => ⟨x,hx,hin⟩⟩

end stores

section promise

variable (attachedKeys : String → List String) (r : Request)

/-- One batch deletes a page of messages with what hangs on them, and no row of anything else. -/
structure Deletes (conversationId : String) (apIds : List String) (jobs : List Media)
    (s t : Store) : Prop where
  pending : pending r conversationId s = true
  messages : ∀ apId ∈ apIds, apId ∈ messageIds r conversationId s
  spared : ∀ o ∈ s.objects, senderMessage r conversationId s o = false → o.apId ∉ apIds
  objects : ∀ o, o ∈ t.objects ↔ o ∈ s.objects ∧ o.apId ∉ apIds
  recipients : ∀ x, x ∈ t.recipients ↔ x ∈ s.recipients ∧ x.objectApId ∉ apIds
  children : ∀ c, c ∈ t.children ↔ c ∈ s.children ∧ c.objectApId ∉ apIds
  activities : ∀ a, a ∈ t.activities ↔
    a ∈ s.activities ∧ ∀ apId ∈ apIds, a.objectApId ≠ some apId
  projections : ∀ p, p ∈ t.projections ↔ p ∈ s.projections ∧
    ∀ a ∈ s.activities, (∃ apId ∈ apIds, a.objectApId = some apId) →
      a.apId ≠ p.activityApId ∧ p.announceActivityApId ≠ some a.apId
  media : ∀ job ∈ jobs, t.mediaBlobDeletionJobs.any (·.r2Key = job.r2Key) = true
  uploads : t.mediaUploads = s.mediaUploads
  blocks : t.blocks = s.blocks

inductive Writes (s : State) : Store → Prop where
  | nothing : Writes s s.store
  | page {conversationId : String} {apIds : List String} {jobs : List Media} {t : Store}
      (hc : s.conversation = some conversationId)
      (h : Deletes r conversationId apIds jobs s.store t) : Writes s t
  | block {conversationId : String} (hc : s.conversation = some conversationId)
      (h : pending r conversationId s.store = true) : Writes s (insertBlock r s.store)

structure Exact (s : State) : Prop where
  bounded : s.steps ≤ 47 + 44 * ((s.first.length + s.arrived) / rejectPageSize)
  progress : (∀ success, s.stage ≠ .done success) →
    ∃ existing t, (machine attachedKeys r).step (.request existing) s = some t
  gone : s.stage = .done true → s.present = []
  writes : ∀ existing t, (machine attachedKeys r).step (.request existing) s = some t →
    Writes r s t.store ∧
      (t.stage = .done true → r.block = true → ⟨r.viewer,r.sender⟩ ∈ t.store.blocks)

def Covers (present : List String) : Stage → Prop
  | .page _ cursor => ∀ x ∈ present, Keyset.Ahead cursor x
  | .objects _ apIds | .authors _ apIds _ | .media _ apIds _ _ _ | .commit _ apIds _ _ =>
    apIds.Nodup ∧ apIds.length ≤ rejectPageSize ∧
      ∀ x ∈ present, x ∈ apIds ∨
        (apIds.length = rejectPageSize ∧ Keyset.Ahead apIds.getLast? x)
  | .block _ | .done true => present = []
  | .resolve | .available _ | .done false => True

def Plans : Stage → Prop
  | .authors _ apIds plan | .commit _ apIds plan _ =>
    plan.length ≤ rejectPageSize ∧ ∀ o ∈ plan, o.apId ∈ apIds
  | .media _ apIds plan todo _ =>
    (plan.length ≤ rejectPageSize ∧ ∀ o ∈ plan, o.apId ∈ apIds) ∧ todo ≠ [] ∧
      todo.length ≤ plan.length
  | _ => True

def Stage.offset : Stage → Nat
  | .resolve => 0
  | .available _ => 1
  | .page _ _ => 2
  | .objects _ _ => 3
  | .authors _ _ _ => 4
  | .media _ _ _ todo _ => 45 - todo.length
  | .commit _ _ _ _ => 45
  | .block _ => 46
  | .done _ => 47

structure Sound (s : State) : Prop where
  valid : s.store.valid = true
  resolve : s.stage = .resolve → s.conversation = none ∧ s.first = []
  conversation : ∀ c, s.stage.conversationId = some c → s.conversation = some c
  held : ∀ x ∈ s.present, x ∈ heldIds r s.conversation s.store
  covers : Covers s.present s.stage
  plans : Plans s.stage
  pages : ∃ pages, rejectPageSize * pages + (heldIds r s.conversation s.store).length ≤
    s.first.length + s.arrived ∧ s.steps ≤ s.stage.offset + 44 * pages

end promise

section batches

variable {r : Request} {conversationId : String} {apIds : List String} {jobs : List Media}
  {plan : List Object} {s : Store}

theorem messages_of_unchanged (hv : s.valid = true) (hplan : ∀ o ∈ plan, o.apId ∈ apIds)
    (h : unchanged r conversationId plan s = apIds.length) :
    ∀ apId ∈ apIds, apId ∈ messageIds r conversationId s := by
  let same := (messages r conversationId s).filter fun o =>
    plan.any fun p => p.apId = o.apId && p.attachmentsJson = o.attachmentsJson
  have hnodup : (same.map (·.apId)).Nodup :=
    (nodup_messageIds hv).sublist (List.filter_sublist.map _)
  have hsub : same.map (·.apId) ⊆ apIds := by
    intro x hx
    obtain ⟨o,ho,rfl⟩ := List.mem_map.mp hx
    obtain ⟨p,hp,hsame⟩ := List.any_eq_true.mp (List.mem_filter.mp ho).2
    rw [Bool.and_eq_true,decide_eq_true_eq] at hsame
    exact hsame.1 ▸ hplan p hp
  have hlen : apIds.length ≤ (same.map (·.apId)).length := by
    rw [List.length_map,← h,unchanged,List.countP_eq_length_filter]
  have hperm := (List.subperm_of_subset hnodup hsub).perm_of_length_le hlen
  intro apId hin
  obtain ⟨o,ho,hid⟩ := List.mem_map.mp (hperm.mem_iff.mpr hin)
  exact List.mem_map.mpr ⟨o,(List.mem_filter.mp ho).1,hid⟩

theorem deletes_deletePage (hv : s.valid = true) (hp : pending r conversationId s = true)
    (hm : ∀ apId ∈ apIds, apId ∈ messageIds r conversationId s) :
    Deletes r conversationId apIds jobs s (deletePage apIds jobs s) := by
  refine ⟨hp,hm,fun o ho hno hin => ?_,?_,?_,?_,?_,fun p => ?_,fun job hjob => ?_,rfl,rfl⟩
  · obtain ⟨m,hmem,hmessage,hid⟩ := mem_messageIds.mp (hm _ hin)
    rw [Store.eq_of_apId hv hmem ho hid,hno] at hmessage
    cases hmessage
  · intro o
    simp [deletePage,Table.delete]
  · intro x
    simp [deletePage,Table.delete]
  · intro c
    simp [deletePage,Table.delete]
  · intro a
    refine List.mem_filter.trans (and_congr_right fun _ => ?_)
    cases hobject : a.objectApId with
    | none => simp [hobject]
    | some x =>
      simp only [hobject,Option.any_some,List.contains_eq_mem,Bool.not_eq_true',
        decide_eq_false_iff_not,ne_eq,Option.some.injEq]
      exact ⟨fun hx apId hin heq => hx (heq ▸ hin),fun hall hin => hall x hin rfl⟩
  · refine List.mem_filter.trans (and_congr_right fun _ => ?_)
    simp only [Bool.not_eq_true',Bool.or_eq_false_iff,List.contains_eq_mem,decide_eq_false_iff_not]
    constructor
    · rintro ⟨hfirst,hsecond⟩ a ha hobject
      have htarget := mem_targets.mpr ⟨a,ha,hobject,rfl⟩
      refine ⟨fun heq => hfirst (heq ▸ htarget),fun hannounce => ?_⟩
      rw [hannounce] at hsecond
      exact of_decide_eq_false hsecond htarget
    · intro hall
      refine ⟨fun htarget => ?_,?_⟩
      · obtain ⟨a,ha,hobject,hid⟩ := mem_targets.mp htarget
        exact (hall a ha hobject).1 hid
      · cases hannounce : p.announceActivityApId with
        | none => rfl
        | some announce =>
          refine decide_eq_false fun htarget => ?_
          obtain ⟨a,ha,hobject,hid⟩ := mem_targets.mp htarget
          exact (hall a ha hobject).2 (hannounce.trans (congrArg some hid.symm))
  · have hkey : ∀ new other : Media, decide (other.r2Key = new.r2Key) = true →
        decide (other.r2Key = job.r2Key) = decide (new.r2Key = job.r2Key) := by
      intro new other h
      rw [of_decide_eq_true h]
    refine (Table.any_insertAllIgnore hkey jobs s.mediaBlobDeletionJobs).trans ?_
    rw [Bool.or_eq_true]
    exact .inr (List.any_eq_true.mpr ⟨job,hjob,decide_eq_true rfl⟩)

end batches

section steps

variable {attachedKeys : String → List String} {r : Request} {s : State} {t : Store}
  {existing : Option Object}

theorem filter_present (h : ∀ x ∈ s.present, x ∈ heldIds r s.conversation s.store) :
    s.present.filter ((heldIds r s.conversation s.store).contains ·) = s.present :=
  List.filter_eq_self.mpr fun x hx => by simpa using h x hx

theorem record_of_ne (hs : s.stage ≠ .resolve) (after : Store × Stage) :
    record r existing s after =
      { s with
        store := after.1
        stage := after.2
        present := s.present.filter ((heldIds r s.conversation after.1).contains ·)
        steps := s.steps + 1 } := by
  simp [record,hs]

theorem Sound.move (h : Sound r s) (hs : s.stage ≠ .resolve) {stage : Stage}
    (hv : t.valid = true) (ht : heldIds r s.conversation t = heldIds r s.conversation s.store)
    (hstage : stage ≠ .resolve) (hc : ∀ c, stage.conversationId = some c → s.conversation = some c)
    (hcov : Covers s.present stage) (hplans : Plans stage)
    (hoff : s.stage.offset + 1 ≤ stage.offset) : Sound r (record r existing s (t,stage)) := by
  obtain ⟨pages,hpages,hsteps⟩ := h.pages
  rw [record_of_ne hs]
  refine ⟨hv,fun hno => absurd hno hstage,hc,?_,?_,hplans,pages,?_,?_⟩
  · dsimp only
    rw [ht,filter_present h.held]
    exact h.held
  · dsimp only
    rw [ht,filter_present h.held]
    exact hcov
  · dsimp only
    rw [ht]
    exact hpages
  · dsimp only
    omega

theorem conversation_finish {conversationId c : String}
    (h : (finish r conversationId).conversationId = some c) : c = conversationId := by
  unfold finish at h
  split at h
  · exact (Option.some.inj h).symm
  · cases h

theorem covers_finish {present : List String} {conversationId : String} (h : present = []) :
    Covers present (finish r conversationId) := by
  unfold finish
  split
  · exact h
  · exact h

theorem plans_finish {conversationId : String} : Plans (finish r conversationId) := by
  unfold finish
  split
  · trivial
  · trivial

theorem offset_finish {conversationId : String} : 46 ≤ (finish r conversationId).offset := by
  unfold finish
  split
  · exact le_refl _
  · exact Nat.le_succ _

theorem finish_ne_resolve {conversationId : String} : finish r conversationId ≠ .resolve := by
  unfold finish
  split
  · simp
  · simp

theorem Sound.resolve_step (h : Sound r s) (hs : s.stage = .resolve) :
    Sound r (record r existing s (s.store,.available (resolveConversationId r existing))) := by
  obtain ⟨hconv,hfirst⟩ := h.resolve hs
  obtain ⟨pages,hpages,hsteps⟩ := h.pages
  rw [hconv,hfirst] at hpages
  refine ⟨h.valid,by simp [record],fun c hc => ?_,?_,trivial,trivial,pages,?_,?_⟩
  · simp only [record,hs,if_true]
    exact hc
  · simp only [record,hs,if_true]
    exact fun x hx => hx
  · simp only [record,hs,if_true]
    simp only [heldIds,List.length_nil] at hpages ⊢
    omega
  · simp only [record]
    rw [hs] at hsteps
    simp only [Stage.offset] at hsteps ⊢
    omega

theorem covers_page {conversationId : String} {cursor : Option String} (h : Sound r s)
    (hs : s.stage = .page conversationId cursor) :
    ∀ x ∈ s.present,
      x ∈ Keyset.page rejectPageSize cursor (messageIds r conversationId s.store) ∨
        ((Keyset.page rejectPageSize cursor (messageIds r conversationId s.store)).length =
          rejectPageSize ∧ Keyset.Ahead (Keyset.page rejectPageSize cursor
            (messageIds r conversationId s.store)).getLast? x) := by
  intro x hx
  have hc := h.conversation conversationId (by rw [hs]; rfl)
  have hheld := h.held x hx
  rw [hc] at hheld
  have hahead : Keyset.Ahead cursor x := by
    have hcov := h.covers
    rw [hs] at hcov
    exact hcov x hx
  rcases Nat.lt_or_ge (Keyset.page rejectPageSize cursor
    (messageIds r conversationId s.store)).length rejectPageSize with hlt | hge
  · exact .inl (Keyset.mem_page_of_short hlt hheld hahead)
  · rcases Keyset.behind_or_ahead (Keyset.page rejectPageSize cursor
      (messageIds r conversationId s.store)).getLast? x with hb | ha
    · exact .inl (Keyset.mem_page_of_behind hb hheld hahead)
    · exact .inr ⟨le_antisymm Keyset.length_page_le hge,ha⟩

theorem length_deletePage {conversationId : String} {apIds : List String} {jobs : List Media}
    (hn : apIds.Nodup) (hm : ∀ apId ∈ apIds, apId ∈ messageIds r conversationId t) :
    apIds.length + (messageIds r conversationId (deletePage apIds jobs t)).length ≤
      (messageIds r conversationId t).length := by
  rw [messageIds_deletePage]
  have hsplit := List.length_eq_length_filter_add (l := messageIds r conversationId t)
    (apIds.contains ·)
  have hle : apIds.length ≤ ((messageIds r conversationId t).filter (apIds.contains ·)).length := by
    refine (List.subperm_of_subset hn fun x hx => ?_).length_le
    exact List.mem_filter.mpr ⟨hm x hx,by simpa using hx⟩
  omega

theorem valid_deletePage {apIds : List String} {jobs : List Media} (hv : t.valid = true) :
    (deletePage apIds jobs t).valid = true :=
  decide_eq_true ((of_decide_eq_true hv).sublist (List.filter_sublist.map _))

theorem Sound.commit {conversationId : String} {apIds : List String} {plan : List Object}
    {jobs : JsMap String Media} (h : Sound r s)
    (hs : s.stage = .commit conversationId apIds plan jobs)
    (hm : ∀ apId ∈ apIds, apId ∈ messageIds r conversationId s.store) :
    Sound r (record r existing s (deletePage apIds jobs.values s.store,
      if apIds.length < rejectPageSize then finish r conversationId
      else .page conversationId apIds.getLast?)) := by
  have hne : s.stage ≠ .resolve := by
    simp [hs]
  have hconv := h.conversation conversationId (by rw [hs]; rfl)
  have hcov := h.covers
  rw [hs] at hcov
  obtain ⟨hnodup,hsize,hcover⟩ := hcov
  obtain ⟨pages,hpages,hsteps⟩ := h.pages
  rw [hs] at hsteps
  have hheld : heldIds r s.conversation s.store = messageIds r conversationId s.store := by
    rw [hconv]
    rfl
  have hafter : heldIds r s.conversation (deletePage apIds jobs.values s.store) =
      messageIds r conversationId (deletePage apIds jobs.values s.store) := by
    rw [hconv]
    rfl
  have hlen : apIds.length +
      (messageIds r conversationId (deletePage apIds jobs.values s.store)).length ≤
        (messageIds r conversationId s.store).length := length_deletePage hnodup hm
  have hleft : ∀ x ∈ s.present.filter
      ((messageIds r conversationId (deletePage apIds jobs.values s.store)).contains ·),
      apIds.length = rejectPageSize ∧ Keyset.Ahead apIds.getLast? x := by
    intro x hx
    obtain ⟨hpresent,hin⟩ := List.mem_filter.mp hx
    rw [List.contains_eq_mem,decide_eq_true_eq,messageIds_deletePage,List.mem_filter] at hin
    rcases hcover x hpresent with hpage | hahead
    · simp [hpage] at hin
    · exact hahead
  rw [hheld] at hpages
  simp only [Stage.offset] at hsteps
  rw [record_of_ne hne]
  by_cases hshort : apIds.length < rejectPageSize
  · rw [if_pos hshort]
    have hnone : s.present.filter ((heldIds r s.conversation
        (deletePage apIds jobs.values s.store)).contains ·) = [] := by
      rw [hafter]
      refine List.eq_nil_iff_forall_not_mem.mpr fun x hx => ?_
      exact absurd (hleft x hx).1 (Nat.ne_of_lt hshort)
    refine ⟨valid_deletePage h.valid,fun hno => absurd hno finish_ne_resolve,fun c hc => ?_,?_,?_,
      plans_finish,pages,?_,?_⟩
    · rw [conversation_finish hc]
      exact hconv
    · rw [hnone]
      simp
    · rw [hnone]
      exact covers_finish rfl
    · dsimp only
      rw [hafter]
      omega
    · have hoffset := @offset_finish r conversationId
      dsimp only
      omega
  · rw [if_neg hshort]
    have hfull : apIds.length = rejectPageSize := le_antisymm hsize (not_lt.mp hshort)
    refine ⟨valid_deletePage h.valid,(by simp),fun c hc => ?_,fun x hx => ?_,fun x hx => ?_,trivial,
      pages + 1,?_,?_⟩
    · exact hconv.trans hc
    · simpa using (List.mem_filter.mp hx).2
    · dsimp only at hx
      rw [hafter] at hx
      exact (hleft x hx).2
    · dsimp only
      rw [hafter]
      rw [hfull] at hlen
      rw [Nat.mul_add]
      omega
    · simp only [Stage.offset]
      omega

theorem heldIds_insertBlock (conversation : Option String) :
    heldIds r conversation (insertBlock r t) = heldIds r conversation t := by
  cases conversation with
  | none => rfl
  | some conversationId => rfl

theorem Sound.fail (h : Sound r s) (hs : s.stage ≠ .resolve) (hoff : s.stage.offset ≤ 46) :
    Sound r (record r existing s (s.store,.done false)) :=
  h.move hs h.valid rfl (by simp) (by simp [Stage.conversationId]) trivial trivial (Nat.succ_le_succ hoff)

theorem Sound.page (h : Sound r s) {conversationId : String} {cursor : Option String}
    (hs : s.stage = .page conversationId cursor) :
    Sound r (record r existing s
      (work attachedKeys r existing s.store (.page conversationId cursor))) := by
  have hne : s.stage ≠ .resolve := by
    simp [hs]
  have hconv := h.conversation conversationId (by rw [hs]; rfl)
  have hcovers := covers_page h hs
  have hnodup : (Keyset.page rejectPageSize cursor (messageIds r conversationId s.store)).Nodup :=
    Keyset.nodup_page (nodup_messageIds h.valid)
  have hsize : (Keyset.page rejectPageSize cursor
    (messageIds r conversationId s.store)).length ≤ rejectPageSize := Keyset.length_page_le
  simp only [work]
  generalize Keyset.page rejectPageSize cursor (messageIds r conversationId s.store) = apIds
    at hcovers hnodup hsize
  by_cases hempty : apIds = []
  · rw [if_pos hempty]
    have hnone : s.present = [] := by
      refine List.eq_nil_iff_forall_not_mem.mpr fun x hx => ?_
      rcases hcovers x hx with hin | ⟨hlen,_⟩
      · rw [hempty] at hin
        cases hin
      · rw [hempty] at hlen
        cases hlen
    refine h.move hne h.valid rfl finish_ne_resolve (fun c hc => ?_) (covers_finish hnone)
      plans_finish ?_
    · rw [conversation_finish hc]
      exact hconv
    · have hoffset := @offset_finish r conversationId
      rw [hs]
      simp only [Stage.offset] at hoffset ⊢
      omega
  · rw [if_neg hempty]
    refine h.move hne h.valid rfl (by simp) (fun c hc => hconv.trans hc) ⟨hnodup,hsize,hcovers⟩
      trivial ?_
    rw [hs]
    exact le_refl _

theorem Sound.planned (h : Sound r s) {conversationId : String} {apIds : List String}
    {plan todo : List Object} {jobs : JsMap String Media} (hne : s.stage ≠ .resolve)
    (hconv : s.conversation = some conversationId)
    (hcov : Covers s.present (.commit conversationId apIds plan jobs))
    (hplan : Plans (.commit conversationId apIds plan jobs)) (hlen : todo.length ≤ plan.length)
    (hoff : s.stage.offset + 1 ≤ 45 - todo.length) :
    Sound r (record r existing s (s.store,planned conversationId apIds plan todo jobs)) := by
  unfold RequestRejects.planned
  split
  · refine h.move hne h.valid rfl (by simp) (fun c hc => hconv.trans hc) hcov hplan ?_
    exact hoff.trans (Nat.sub_le _ _)
  · rename_i htodo
    exact h.move hne h.valid rfl (by simp) (fun c hc => hconv.trans hc) hcov ⟨hplan,htodo,hlen⟩ hoff

theorem Sound.request (h : Sound r s) (hok : allowed r existing s = true) :
    Sound r (record r existing s (work attachedKeys r existing s.store s.stage)) := by
  have hconv := h.conversation
  have hcov := h.covers
  have hplans := h.plans
  cases hs : s.stage with
  | resolve => exact h.resolve_step hs
  | available conversationId =>
    rw [hs] at hconv
    have hne : s.stage ≠ .resolve := by simp [hs]
    simp only [work]
    split
    · refine h.move hne h.valid rfl (by simp) hconv (fun x _ => ?_) trivial ?_
      · simp [Keyset.Ahead]
      · rw [hs]
        exact le_refl _
    · exact h.fail hne (by simp [hs,Stage.offset])
  | page conversationId cursor => exact h.page hs
  | objects conversationId apIds =>
    rw [hs] at hconv hcov
    have hne : s.stage ≠ .resolve := by simp [hs]
    have hids : ∀ o ∈ s.store.objects.filter (fun o => apIds.contains o.apId), o.apId ∈ apIds :=
      fun o ho => by simpa using (List.mem_filter.mp ho).2
    have hlen : (s.store.objects.filter fun o => apIds.contains o.apId).length ≤
        rejectPageSize := by
      rw [← List.length_map (·.apId)]
      refine (List.subperm_of_subset ?_ fun x hx => ?_).length_le.trans hcov.2.1
      · exact (of_decide_eq_true h.valid).sublist (List.filter_sublist.map _)
      · obtain ⟨o,ho,rfl⟩ := List.mem_map.mp hx
        exact hids o ho
    simp only [work]
    split
    · refine h.move hne h.valid rfl (by simp) hconv hcov ⟨hlen,hids⟩ ?_
      rw [hs]
      exact le_refl _
    · refine h.move hne h.valid rfl (by simp) hconv hcov ⟨hlen,hids⟩ ?_
      simp [hs,Stage.offset]
  | authors conversationId apIds plan =>
    rw [hs] at hconv hcov hplans
    have hne : s.stage ≠ .resolve := by simp [hs]
    refine h.planned hne (hconv _ rfl) hcov hplans (List.length_filter_le _ _) ?_
    have hle := List.length_filter_le (fun o : Object => o.hasAttachments &&
      s.store.mediaUploads.any fun upload => upload.uploaderApId = o.attributedTo) plan
    have hsize := hplans.1
    rw [hs]
    simp only [Stage.offset,rejectPageSize] at hsize ⊢
    omega
  | media conversationId apIds plan todo jobs =>
    rw [hs] at hconv hcov hplans
    have hne : s.stage ≠ .resolve := by simp [hs]
    obtain ⟨hplan,hsome,hlen⟩ := hplans
    cases todo with
    | nil => exact absurd rfl hsome
    | cons o todo =>
      rw [List.length_cons] at hlen
      refine h.planned hne (hconv _ rfl) hcov hplan (Nat.le_of_succ_le hlen) ?_
      have hsize := hplan.1
      rw [hs]
      simp only [Stage.offset,rejectPageSize,List.length_cons] at hsize ⊢
      omega
  | commit conversationId apIds plan jobs =>
    rw [hs] at hplans
    have hne : s.stage ≠ .resolve := by simp [hs]
    simp only [work]
    split
    · rename_i hguard
      simp only [Bool.and_eq_true,decide_eq_true_eq] at hguard
      exact h.commit hs (messages_of_unchanged h.valid hplans.2 hguard.2)
    · exact h.fail hne (by simp [hs,Stage.offset])
  | block conversationId =>
    rw [hs] at hcov
    have hne : s.stage ≠ .resolve := by simp [hs]
    simp only [work]
    split
    · refine h.move hne h.valid (heldIds_insertBlock _) (by simp) (by simp [Stage.conversationId]) hcov trivial ?_
      rw [hs]
      exact le_refl _
    · exact h.fail hne (by simp [hs,Stage.offset])
  | done success =>
    simp only [allowed,hs] at hok
    cases hok

theorem Covers.subset {present present' : List String} {stage : Stage} (h : Covers present stage)
    (hsub : present' ⊆ present) : Covers present' stage := by
  cases stage with
  | resolve => trivial
  | available _ => trivial
  | page _ _ => exact fun x hx => h x (hsub hx)
  | objects _ _ => exact ⟨h.1,h.2.1,fun x hx => h.2.2 x (hsub hx)⟩
  | authors _ _ _ => exact ⟨h.1,h.2.1,fun x hx => h.2.2 x (hsub hx)⟩
  | media _ _ _ _ _ => exact ⟨h.1,h.2.1,fun x hx => h.2.2 x (hsub hx)⟩
  | commit _ _ _ _ => exact ⟨h.1,h.2.1,fun x hx => h.2.2 x (hsub hx)⟩
  | block _ => exact List.subset_nil.mp (h ▸ hsub)
  | done success =>
    cases success with
    | true => exact List.subset_nil.mp (h ▸ hsub)
    | false => trivial

theorem length_le_new (held : List String) {held' : List String} (h : held'.Nodup) :
    held'.length ≤ held.length + (held'.filter fun x => !held.contains x).length := by
  have hsplit := List.length_eq_length_filter_add (l := held') (held.contains ·)
  have hle : (held'.filter (held.contains ·)).length ≤ held.length := by
    refine (List.subperm_of_subset (h.sublist List.filter_sublist) fun x hx => ?_).length_le
    simpa using (List.mem_filter.mp hx).2
  omega

theorem nodup_heldIds (conversation : Option String) (h : t.valid = true) :
    (heldIds r conversation t).Nodup := by
  cases conversation with
  | none => exact List.nodup_nil
  | some conversationId => exact nodup_messageIds h

theorem Sound.other (h : Sound r s) (hv : t.valid = true) : Sound r (interfere r t s) := by
  obtain ⟨pages,hpages,hsteps⟩ := h.pages
  have hsub : (interfere r t s).present ⊆ s.present := List.filter_subset_self _
  refine ⟨hv,h.resolve,h.conversation,fun x hx => ?_,h.covers.subset hsub,h.plans,pages,?_,hsteps⟩
  · have hin := (List.mem_filter.mp hx).2
    rw [List.contains_eq_mem,decide_eq_true_eq] at hin
    exact hin
  · have hnew := length_le_new (heldIds r s.conversation s.store)
      (nodup_heldIds (r := r) s.conversation hv)
    simp only [interfere]
    omega

theorem step_request {u : State} : (machine attachedKeys r).step (.request existing) s = some u ↔
    allowed r existing s = true ∧
      record r existing s (work attachedKeys r existing s.store s.stage) = u := by
  simp [machine]

end steps

section exact_

variable {attachedKeys : String → List String} {r : Request} {s : State} {t : Store}

theorem planned_ne_done {conversationId : String} {apIds : List String} {plan todo : List Object}
    {jobs : JsMap String Media} {success : Bool} :
    planned conversationId apIds plan todo jobs ≠ .done success := by
  unfold planned
  split
  · simp
  · simp

theorem Sound.writes (h : Sound r s) {existing : Option Object} {u : State}
    (hstep : (machine attachedKeys r).step (.request existing) s = some u) :
    Writes r s u.store ∧
      (u.stage = .done true → r.block = true → ⟨r.viewer,r.sender⟩ ∈ u.store.blocks) := by
  obtain ⟨hok,rfl⟩ := step_request.mp hstep
  have hconv := h.conversation
  have hplans := h.plans
  have hread : ∀ stage : Stage, (stage = .done true → r.block = false) → Writes r s s.store ∧
      (stage = .done true → r.block = true → ⟨r.viewer,r.sender⟩ ∈ s.store.blocks) :=
    fun stage hno => ⟨.nothing,fun hdone hblock => absurd hblock (by simp [hno hdone])⟩
  have hfinish : ∀ c, finish r c = .done true → r.block = false := by
    intro c hdone
    unfold finish at hdone
    split at hdone
    · cases hdone
    · rename_i hno
      simpa using hno
  cases hs : s.stage with
  | resolve => exact hread _ (by simp [work,record])
  | available conversationId =>
    simp only [work,record]
    split
    · exact hread _ (by simp)
    · exact hread _ (by simp)
  | page conversationId cursor =>
    simp only [work,record]
    split
    · exact hread _ (hfinish conversationId)
    · exact hread _ (by simp)
  | objects conversationId apIds =>
    simp only [work,record]
    split
    · exact hread _ (by simp)
    · exact hread _ (by simp)
  | authors conversationId apIds plan => exact hread _ fun hdone => absurd hdone planned_ne_done
  | media conversationId apIds plan todo jobs =>
    cases todo with
    | nil => exact hread _ (by simp [work,record])
    | cons o todo => exact hread _ fun hdone => absurd hdone planned_ne_done
  | commit conversationId apIds plan jobs =>
    rw [hs] at hplans hconv
    simp only [work,record]
    split
    · rename_i hguard
      simp only [Bool.and_eq_true,decide_eq_true_eq] at hguard
      have hm := messages_of_unchanged h.valid hplans.2 hguard.2
      refine ⟨.page (hconv _ rfl) (deletes_deletePage h.valid hguard.1.2 hm),fun hdone hblock => ?_⟩
      dsimp only at hdone
      split at hdone
      · exact absurd hblock (by simp [hfinish _ hdone])
      · cases hdone
    · exact hread _ (by simp)
  | block conversationId =>
    rw [hs] at hconv
    simp only [work,record]
    split
    · rename_i hpending
      refine ⟨.block (hconv _ rfl) hpending,fun _ _ => ?_⟩
      have hany : (insertBlock r s.store).blocks.any (· = ⟨r.viewer,r.sender⟩) = true := by
        refine Table.any_insertIgnore ?_ s.store.blocks
        simp
      obtain ⟨block,hin,heq⟩ := List.any_eq_true.mp hany
      exact of_decide_eq_true heq ▸ hin
    · exact hread _ (by simp)
  | done success =>
    simp only [allowed,hs] at hok
    cases hok

def greeting : Object := ⟨"bob/1",.note,"bob",.direct,some "c","[]","2026"⟩

def answer : Object := ⟨"alice/1",.note,"alice",.direct,some "c","[]","2027"⟩

def greeted : Store where
  objects := [greeting]
  recipients := [⟨"bob/1","alice",.addressee⟩]
  activities := [⟨"create/1",some "bob/1"⟩]
  projections := [⟨.inbox,"create/1",none⟩]
  children := []
  mediaUploads := []
  mediaBlobDeletionJobs := []
  blocks := []

def answered : Store :=
  { greeted with
    objects := [greeting,answer]
    recipients := [⟨"bob/1","alice",.addressee⟩,⟨"alice/1","bob",.addressee⟩] }

def published : Store := { greeted with objects := [{ greeting with visibility := .followers }] }

end exact_

end Yurucommu.RequestRejects
