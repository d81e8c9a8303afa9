import Yurucommu.NoteUpdateOrder

/-!
Every admitted patch is applied once and in order, and no commit skips one.
-/

set_option autoImplicit false

namespace Yurucommu.NoteUpdate

open NumberedLog

variable {c : Subject} {s t : Store}

def Subject.edited (c : Subject) (edits : List Edit) (n : NoteProjection) : NoteProjection :=
  edits.foldl (Edit.apply c) n

theorem Subject.edited_append (c : Subject) (edits more : List Edit) (n : NoteProjection) :
    c.edited (edits ++ more) n = c.edited more (c.edited edits n) := List.foldl_append ..

/-- The stored Note is what it was materialized with and the edits that the workers committed, whose
patches are those up to the applied sequence, each once and in order. -/
def Projected (c : Subject) (s : Store) : Prop :=
  match s.projection with
  | none => s.initial = none ∧ s.log = [] ∧ s.applied = 0
  | some n => ∃ base, s.initial = some base ∧ c.edited s.log base = n ∧
      s.log.filterMap Edit.admitted = upTo s.applied s.admitted

/-- The events of the Note are the admitted patches, kept until they are applied. -/
structure Ordered (c : Subject) (s : Store) : Prop where
  own : (s.own c).map (fun e => (e.sequence,e.patchJson)) =
    s.admitted.map fun a => (a.1,if a.1 ≤ s.applied then none else some a.2)
  increasing : Increasing s.admitted
  minted : ∀ a ∈ s.admitted, 0 < a.1 ∧ a.1 ≤ s.sequence
  applied : s.applied ≤ s.sequence
  projected : Projected c s
  addressed : ∀ n, s.projection = some n → n.Addressed

structure Grows (s t : Store) : Prop where
  applied : s.applied ≤ t.applied
  admitted : ∃ new, t.admitted = s.admitted ++ new

def shown (a : Nat × AdmittedNotePatch) : Nat × Option AdmittedNotePatch := (a.1,some a.2)

/-- While nothing has been applied since, the window is a first part of what is pending. -/
structure Seen (w : NoteUpdateWindow) (s : Store) : Prop where
  applied : w.applied ≤ s.applied
  events : s.applied = w.applied →
    ∃ later, (after w.applied s.admitted).map shown = w.events ++ later
  latest : w.latest = lastSequence w.applied w.events

/-- The worker has folded the first events of its window over the projection it read. -/
structure Folded (c : Subject) (before : Option NoteProjection) (source : NoteProjection)
    (w : NoteUpdateWindow) (rest : List (Nat × Option AdmittedNotePatch))
    (projected : NoteProjection) (edits : List Edit) (s : Store) : Prop where
  seen : Seen w s
  created : before = none → source.Addressed
  made : c.edited edits (before.getD source) = projected
  addressed : (before.getD source).Addressed → projected.Addressed
  events : w.events = (edits.filterMap Edit.admitted).map shown ++ rest

def CreationOk (creation : Option Creation) : Prop :=
  ∀ create, creation = some create → create.base.Addressed

def WorkerOk (c : Subject) (_ : Nat) (s : Store) : Worker → Prop
  | .admitUpdate _ _ | .done => True
  | .start creation => CreationOk creation
  | .events creation applied _ => CreationOk creation ∧ applied ≤ s.applied
  | .row creation window | .recipients creation window _ => CreationOk creation ∧ Seen window s
  | .folding before source _ window rest projected edits =>
    Folded c before source window rest projected edits s

theorem Grows.refl (s : Store) : Grows s s := ⟨Nat.le_refl _,[],by simp⟩

theorem Seen.mono {w : NoteUpdateWindow} (h : Seen w s) (hg : Grows s t) : Seen w t where
  applied := Nat.le_trans h.applied hg.applied
  events he := by
    have hsame : s.applied = w.applied := by
      have h₁ := h.applied
      have h₂ := hg.applied
      omega
    obtain ⟨later,hl⟩ := h.events hsame
    obtain ⟨new,hnew⟩ := hg.admitted
    refine ⟨later ++ (after w.applied new).map shown,?_⟩
    rw [hnew,after_append,List.map_append,hl,List.append_assoc]
  latest := h.latest

theorem WorkerOk.mono {p : Nat} {x : Worker} (h : WorkerOk c p s x) (hg : Grows s t) :
    WorkerOk c p t x := by
  cases x with
  | admitUpdate | done | start => exact h
  | events creation applied creationActivityId =>
    exact ⟨h.1,Nat.le_trans h.2 hg.applied⟩
  | row | recipients => exact ⟨h.1,h.2.mono hg⟩
  | folding => exact { h with seen := h.seen.mono hg }

section Admission

variable {activityId : String} {patch : AdmittedNotePatch} {notDeleted : Bool}

theorem applied_insertHead : (insertHead s).applied = s.applied := by
  unfold Store.applied insertHead
  cases s.head <;> rfl

theorem Ordered.insertHead (h : Ordered c s) : Ordered c (insertHead s) where
  own := by
    rw [applied_insertHead]
    exact h.own
  increasing := h.increasing
  minted := h.minted
  applied := by
    rw [applied_insertHead]
    exact h.applied
  projected := by
    have hp := h.projected
    unfold Projected at hp ⊢
    rw [applied_insertHead]
    exact hp
  addressed := h.addressed

theorem Ordered.insertEvent (h : Ordered c s) : Ordered c (insertEvent c activityId patch s) := by
  unfold NoteUpdate.insertEvent
  split
  · exact h
  · have hnew : ¬s.sequence + 1 ≤ s.applied := by
      have hle := h.applied
      omega
    constructor
    case own =>
      have hown : c.owns ⟨s.sequence + 1,activityId,c.actor,c.objectId,some patch⟩ = true := by
        simp [Subject.owns]
      have happ : (s.events.filter c.owns).map (fun e => (e.sequence,e.patchJson)) =
          s.admitted.map fun a => (a.1,if a.1 ≤ s.applied then none else some a.2) := h.own
      change ((s.events ++ [_]).filter c.owns).map
          (fun e : UpdateEvent => (e.sequence,e.patchJson)) =
        (s.admitted ++ [_]).map fun a : Nat × AdmittedNotePatch =>
          (a.1,if a.1 ≤ s.applied then none else some a.2)
      rw [List.filter_append,List.map_append,List.map_append,happ]
      simp only [List.filter_cons,hown,if_true,List.filter_nil,List.map_cons,List.map_nil]
      rw [if_neg hnew]
    case increasing =>
      refine h.increasing.snoc fun a ha => ?_
      have hle := (h.minted a ha).2
      simp only
      omega
    case minted =>
      intro a ha
      rcases List.mem_append.mp ha with ha | ha
      · exact ⟨(h.minted a ha).1,Nat.le_succ_of_le (h.minted a ha).2⟩
      · rw [List.mem_singleton.mp ha]
        exact ⟨Nat.succ_pos _,Nat.le_refl _⟩
    case applied => exact Nat.le_succ_of_le h.applied
    case projected =>
      have hp := h.projected
      have hsame : upTo s.applied (s.admitted ++ [(s.sequence + 1,patch)]) =
          upTo s.applied s.admitted := by
        rw [upTo_append]
        simp [upTo,hnew]
      simp only [Projected,Store.projection,Store.applied] at hp hsame ⊢
      rw [hsame]
      exact hp
    case addressed => exact h.addressed

theorem ordered_admitUpdate (h : Ordered c s) :
    Ordered c (admitInboundNoteUpdate c activityId patch notDeleted s) := by
  unfold admitInboundNoteUpdate
  split
  · exact h.insertHead.insertEvent
  · exact h

theorem grows_admitUpdate : Grows s (admitInboundNoteUpdate c activityId patch notDeleted s) := by
  unfold admitInboundNoteUpdate insertEvent
  split
  · split
    · exact ⟨Nat.le_of_eq applied_insertHead.symm,[],by simp [insertHead]⟩
    · exact ⟨Nat.le_of_eq applied_insertHead.symm,_,rfl⟩
  · exact .refl s

end Admission

section window

variable {applied : Nat} {creationActivityId : Option String}

theorem Ordered.pending_eq (h : Ordered c s) (ha : s.applied = applied) :
    s.pending c applied = (after applied s.admitted).map shown := by
  subst ha
  unfold Store.pending
  rw [h.own]
  unfold after
  rw [List.filter_map]
  refine List.map_congr_left fun a hmem => ?_
  have hlt := (List.mem_filter.mp hmem).2
  simp only [Function.comp,decide_eq_true_eq] at hlt
  have hn : ¬a.1 ≤ s.applied := by omega
  simp [shown,hn]

theorem seen_window (h : Ordered c s) (ha : applied ≤ s.applied) {w : NoteUpdateWindow}
    (hw : windowOf applied creationActivityId
      ((s.pending c applied).take (maxPendingNoteUpdates + 1)) = some w) : Seen w s := by
  unfold windowOf at hw
  split at hw
  · cases hw
  · rename_i hlen
    cases hw
    have hall : (s.pending c applied).take (maxPendingNoteUpdates + 1) = s.pending c applied := by
      refine List.take_of_length_le ?_
      rw [List.length_take] at hlen
      omega
    rw [hall]
    exact ⟨ha,fun he => ⟨[],by rw [h.pending_eq he,List.append_nil]⟩,rfl⟩

end window

section commit

variable {before : Option NoteProjection} {source projected : NoteProjection}
  {activityId : Option String} {w : NoteUpdateWindow} {admission : Bool} {edits : List Edit}

theorem foldl_max_le {es : List UpdateEvent} {n : Nat} :
    n ≤ es.foldl (fun n e => max n e.sequence) n ∧
      ∀ e ∈ es, e.sequence ≤ es.foldl (fun n e => max n e.sequence) n := by
  induction es generalizing n with
  | nil => exact ⟨Nat.le_refl n,fun _ he => by cases he⟩
  | cons e es ih =>
    obtain ⟨hn,hes⟩ := ih (n := max n e.sequence)
    rw [List.foldl_cons]
    refine ⟨by omega,fun e' he' => ?_⟩
    rcases List.mem_cons.mp he' with rfl | he'
    · omega
    · exact hes e' he'

theorem le_foldl_max {es : List UpdateEvent} {n k : Nat} (hn : n ≤ k)
    (h : ∀ e ∈ es, e.sequence ≤ k) : es.foldl (fun n e => max n e.sequence) n ≤ k := by
  induction es generalizing n with
  | nil => exact hn
  | cons e es ih =>
    have he := h e List.mem_cons_self
    rw [List.foldl_cons]
    exact ih (by omega) fun e' he' => h e' (List.mem_cons_of_mem e he')

theorem Ordered.sequences (h : Ordered c s) :
    (s.own c).map (·.sequence) = s.admitted.map fun a => a.1 := by
  have hseq := congrArg (List.map Prod.fst) h.own
  rw [List.map_map,List.map_map] at hseq
  exact hseq

theorem Ordered.le_latest (h : Ordered c s) : ∀ a ∈ s.admitted, a.1 ≤ s.latest c := by
  intro a ha
  have hmem : a.1 ∈ (s.own c).map (·.sequence) := by
    rw [h.sequences]
    exact List.mem_map_of_mem (f := fun a : Nat × AdmittedNotePatch => a.1) ha
  obtain ⟨e,he,heq⟩ := List.mem_map.mp hmem
  rw [← heq]
  exact (foldl_max_le (n := 0)).2 e he

theorem Ordered.latest_minted (h : Ordered c s) : s.latest c ≤ s.sequence := by
  refine le_foldl_max (Nat.zero_le _) fun e he => ?_
  have hmem := List.mem_map_of_mem (f := fun e : UpdateEvent => e.sequence) he
  rw [h.sequences] at hmem
  obtain ⟨a,ha,heq⟩ := List.mem_map.mp hmem
  rw [← heq]
  exact (h.minted a ha).2

theorem lastSequence_lt {applied n : Nat} {events : List (Nat × Option AdmittedNotePatch)}
    (ha : applied < n) (he : ∀ e ∈ events, e.1 < n) : lastSequence applied events < n := by
  unfold lastSequence
  cases hl : events.getLast? with
  | none => exact ha
  | some e => exact he e (List.mem_of_getLast? hl)

theorem le_lastSequence {applied : Nat} {events : List (Nat × Option AdmittedNotePatch)}
    (he : ∀ e ∈ events, applied < e.1) : applied ≤ lastSequence applied events := by
  unfold lastSequence
  cases hl : events.getLast? with
  | none => exact Nat.le_refl _
  | some e => exact Nat.le_of_lt (he e (List.mem_of_getLast? hl))

/-- What the guard establishes. -/
theorem mayCommit_iff : mayCommit c before w admission s = true ↔
    (match before with
      | none => s.row = none
      | some b => s.row = some b.row ∧ s.recipients = b.recipients) ∧
    admission = true ∧ s.applied = w.applied ∧ s.latest c = w.latest ∧
      s.creation = w.creationActivityId := by
  unfold mayCommit
  cases before <;> simp [and_assoc]

/-- Under the guard the window is all that is pending. -/
theorem folded_eq (h : Ordered c s) (hf : Folded c before source w [] projected edits s)
    (ha : s.applied = w.applied) (hl : s.latest c = w.latest) :
    edits.filterMap Edit.admitted = after w.applied s.admitted := by
  have he := hf.events
  obtain ⟨later,hlater⟩ := hf.seen.events ha
  rw [List.append_nil] at he
  rw [he] at hlater
  obtain ⟨as,bs,hab,has,hbs⟩ := List.map_eq_append_iff.mp hlater
  have hshown : Function.Injective shown := by
    intro a b hs
    simp only [shown,Prod.mk.injEq,Option.some.injEq] at hs
    exact Prod.ext hs.1 hs.2
  have hfolded : as = edits.filterMap Edit.admitted := List.map_injective_iff.mpr hshown has
  have hnone : bs = [] := by
    cases bs with
    | nil => rfl
    | cons z bs =>
      have hz : z ∈ after w.applied s.admitted := by
        rw [hab]
        exact List.mem_append_right as List.mem_cons_self
      obtain ⟨hmem,hpast⟩ := List.mem_filter.mp hz
      have hbefore : ∀ a ∈ as, a.1 < z.1 := by
        have hinc := h.increasing.after w.applied
        unfold Increasing at hinc
        rw [hab,List.map_append,List.pairwise_append] at hinc
        exact fun a ha => hinc.2.2 a.1 (List.mem_map_of_mem ha) z.1
          (List.mem_map_of_mem List.mem_cons_self)
      have hlt : w.latest < z.1 := by
        rw [hf.seen.latest,he]
        refine lastSequence_lt (by simpa using hpast) fun e hee => ?_
        obtain ⟨a,ha',rfl⟩ := List.mem_map.mp hee
        exact hbefore a (hfolded ▸ ha')
      have hle := h.le_latest z hmem
      omega
  rw [hnone,List.append_nil,hfolded] at hab
  exact hab.symm

theorem own_releaseEvent (es : List UpdateEvent) :
    (es.map (releaseEvent c w)).filter c.owns = (es.filter c.owns).map (releaseEvent c w) := by
  have howns : ∀ e, c.owns (releaseEvent c w e) = c.owns e := by
    intro e
    unfold releaseEvent
    split <;> rfl
  rw [List.filter_map]
  simp only [Function.comp_def,howns]

theorem applied_commit (before : Option NoteProjection) (source projected : NoteProjection)
    (activityId : Option String) (ha : s.applied = w.applied) :
    (commitBatch c before source projected activityId w s).applied = w.latest := by
  unfold Store.applied commitBatch commitHead
  unfold Store.applied at ha
  cases hh : s.head with
  | none =>
    rw [hh] at ha
    simp only [Option.map_some,Option.getD_some,Option.getD_none]
    exact if_pos ha
  | some head =>
    rw [hh] at ha
    simp only [Option.map_some,Option.getD_some] at ha ⊢
    exact if_pos ha

theorem writeRecipients_eq {stored recipients : Finset Recipient}
    (h : ∀ r ∈ recipients, ∀ r' ∈ recipients, r.recipientApId = r'.recipientApId → r = r') :
    writeRecipients stored recipients = recipients := by
  ext r
  unfold writeRecipients
  simp only [Finset.mem_union,Finset.mem_inter,Finset.mem_filter]
  constructor
  · rintro (⟨_,hr⟩ | ⟨hr,_⟩) <;> exact hr
  · intro hr
    by_cases hk : ∃ k ∈ stored ∩ recipients, k.recipientApId = r.recipientApId
    · obtain ⟨k,hk,hid⟩ := hk
      obtain ⟨hks,hkr⟩ := Finset.mem_inter.mp hk
      rw [h k hkr r hr hid] at hks
      exact .inl ⟨hks,hr⟩
    · refine .inr ⟨hr,fun k hk' hid => hk ⟨k,?_,hid⟩⟩
      exact Finset.mem_inter.mpr hk'

theorem read_addressed (h : Ordered c s) (hf : Folded c before source w [] projected edits s)
    (hm : mayCommit c before w admission s = true) : projected.Addressed := by
  obtain ⟨hrow,_⟩ := mayCommit_iff.mp hm
  refine hf.addressed ?_
  cases before with
  | none => exact hf.created rfl
  | some b =>
    refine h.addressed b ?_
    simp only [Store.projection,hrow.1,Option.map_some,hrow.2]

theorem ordered_commit (h : Ordered c s) (hf : Folded c before source w [] projected edits s)
    (hm : mayCommit c before w admission s = true) :
    Ordered c { commitBatch c before source projected activityId w s with log := s.log ++ edits } := by
  obtain ⟨hrow,_,ha,hl,_⟩ := mayCommit_iff.mp hm
  have hfolds := folded_eq h hf ha hl
  have hle := h.le_latest
  have happ : Store.applied { commitBatch c before source projected activityId w s with
      log := s.log ++ edits } = w.latest := applied_commit (c := c) before source projected _ ha
  have hafter := read_addressed h hf hm
  have hprojection : Store.projection { commitBatch c before source projected activityId w s with
      log := s.log ++ edits } = some projected := by
    simp only [Store.projection,commitBatch,Option.map_some]
    rw [writeRecipients_eq hafter.distinct]
  constructor
  case own =>
    have hown := h.own
    rw [happ]
    simp only [Store.own,commitBatch] at hown ⊢
    rw [own_releaseEvent,List.map_map]
    have hall : ∀ a ∈ s.admitted, (a.1,if a.1 ≤ w.latest then none else some a.2) =
        ((a.1,none) : Nat × Option AdmittedNotePatch) := by
      intro a hmem
      rw [if_pos (hl ▸ hle a hmem)]
    rw [List.map_congr_left hall]
    have hseq := congrArg (List.map fun x : Nat × Option AdmittedNotePatch =>
      ((x.1,none) : Nat × Option AdmittedNotePatch)) hown
    rw [List.map_map,List.map_map] at hseq
    refine Eq.trans (List.map_congr_left fun e he => ?_) hseq
    -- a released event had no patch, the others are in the window
    have howns := (List.mem_filter.mp he).2
    have hpair : (e.sequence,e.patchJson) ∈ s.admitted.map
        fun a => (a.1,if a.1 ≤ s.applied then none else some a.2) := by
      rw [← h.own]
      exact List.mem_map_of_mem he
    obtain ⟨a,hmem,heq⟩ := List.mem_map.mp hpair
    simp only [Prod.mk.injEq] at heq
    simp only [Function.comp,releaseEvent]
    by_cases hpast : w.applied < e.sequence
    · rw [if_pos ⟨howns,hpast,by rw [← heq.1,← hl]; exact hle a hmem⟩]
    · rw [if_neg fun hx => hpast hx.2.1,← heq.2,if_pos]
      rw [heq.1,ha]
      omega
  case increasing => exact h.increasing
  case minted => exact h.minted
  case applied =>
    rw [happ,← hl]
    exact h.latest_minted
  case projected =>
    unfold Projected
    rw [hprojection,happ,← hl]
    have hall : upTo (s.latest c) s.admitted = s.admitted := upTo_of_le hle
    have hcut := h.increasing.upTo_append_after (n := w.applied)
    simp only [commitBatch]
    rw [hall,← hcut,List.filterMap_append,hfolds]
    simp only [c.edited_append]
    have hp := h.projected
    have hmade := hf.made
    unfold Projected at hp
    cases before with
    | some b =>
      have hstored : s.projection = some b := by
        simp only [Store.projection,hrow.1,Option.map_some,hrow.2]
      rw [hstored,ha] at hp
      obtain ⟨base,hbase,hfirst,hlog⟩ := hp
      refine ⟨base,hbase,?_,by rw [hlog]⟩
      rw [hfirst]
      exact hmade
    | none =>
      have hstored : s.projection = none := by
        simp only [Store.projection,hrow,Option.map_none]
      rw [hstored] at hp
      have hnone : upTo w.applied s.admitted = [] := by
        refine List.filter_eq_nil_iff.mpr fun a hmem => ?_
        have hpos := (h.minted a hmem).1
        simp only [← ha,hp.2.2,decide_eq_true_eq]
        omega
      refine ⟨source,rfl,?_,?_⟩
      · rw [hp.2.1]
        exact hmade
      · rw [hp.2.1,hnone]
        rfl
  case addressed =>
    intro n hn
    rw [hprojection] at hn
    cases hn
    exact hafter

end commit

section step

variable {i : Answer} {p : Nat}

theorem grows_commit {before : Option NoteProjection} {source projected : NoteProjection}
    {activityId : Option String} {w : NoteUpdateWindow} {edits : List Edit} (h : Ordered c s)
    (hf : Folded c before source w [] projected edits s) (ha : s.applied = w.applied)
    (hl : s.latest c = w.latest) :
    Grows s { commitBatch c before source projected activityId w s with log := s.log ++ edits } := by
  have happ : Store.applied { commitBatch c before source projected activityId w s with
      log := s.log ++ edits } = w.latest := applied_commit (c := c) before source projected _ ha
  refine ⟨?_,[],by simp [commitBatch]⟩
  rw [happ,ha,hf.seen.latest]
  refine le_lastSequence fun e he => ?_
  rw [hf.events,List.append_nil,folded_eq h hf ha hl] at he
  obtain ⟨a,hmem,rfl⟩ := List.mem_map.mp he
  have hlt : w.applied < a.1 := by simpa using (List.mem_filter.mp hmem).2
  exact hlt

theorem repair_row (canView : Bool) (b : NoteProjection) (e : Entrance) :
    (e.repair canView b).row = b.row := by
  cases e with
  | createInboundObject recipient direct =>
    simp only [Entrance.repair]
    split <;> rfl
  | handleGroupCreate community => rfl
  | fetchAndPersistAnnouncedNote => rfl

theorem edited_repairs (canView : Bool) (b : NoteProjection) (e : Entrance) :
    c.edited (repairs b (e.repair canView b)) b = e.repair canView b := by
  have hrow := repair_row canView b e
  generalize e.repair canView b = source at hrow ⊢
  obtain ⟨row,recipients⟩ := source
  obtain rfl : row = b.row := hrow
  unfold repairs
  split
  · rename_i hsame
    obtain rfl : recipients = b.recipients := hsame
    rfl
  · rfl

theorem admitted_repairs (b source : NoteProjection) :
    (repairs b source).filterMap Edit.admitted = [] := by
  unfold repairs
  split <;> rfl

theorem addressed_repair {canView : Bool} {b : NoteProjection} {e : Entrance}
    (hadmits : e.admits b = true) (h : b.Addressed) : (e.repair canView b).Addressed := by
  cases e with
  | fetchAndPersistAnnouncedNote => exact h
  | handleGroupCreate community =>
    simp only [Entrance.admits,Bool.and_eq_true,decide_eq_true_eq] at hadmits
    refine ⟨fun r hr r' hr' _ => ?_,fun hne => absurd hadmits.1.1 hne⟩
    rw [Finset.mem_singleton.mp hr,Finset.mem_singleton.mp hr']
  | createInboundObject recipient direct =>
    simp only [Entrance.repair]
    split
    · rename_i hcond
      simp only [Bool.and_eq_true,decide_eq_true_eq] at hcond
      have hne : b.row.visibility ≠ .group := by
        rw [hcond.1.1.2]
        decide
      have hto : ∀ r ∈ insert ⟨recipient,"to"⟩ b.recipients, r.type = "to" := by
        intro r hr
        rcases Finset.mem_insert.mp hr with rfl | hr
        · rfl
        · exact h.addressed hne r hr
      refine ⟨fun r hr r' hr' hid => ?_,fun _ => hto⟩
      cases r
      cases r'
      simp only [Recipient.mk.injEq]
      exact ⟨hid,(hto _ hr).trans (hto _ hr').symm⟩
    · exact h

theorem folded_plan {creation : Option Creation} {canView : Bool} {w : NoteUpdateWindow}
    {before : Option NoteProjection} (hc : CreationOk creation) (hw : Seen w s) :
    WorkerOk c p s (plan c canView creation w before) := by
  unfold plan
  split
  · trivial
  · rename_i create
    split
    · trivial
    · exact ⟨hw,fun _ => hc create rfl,rfl,id,rfl⟩
  · split
    · trivial
    · exact ⟨hw,fun hb => (by cases hb),rfl,id,rfl⟩
  · split
    · trivial
    · rename_i b create hcond
      simp only [not_or] at hcond
      have hadmits := Bool.eq_true_of_not_eq_false hcond.2.2.2.2
      exact ⟨hw,fun hb => (by cases hb),edited_repairs canView b create.entrance,
        addressed_repair hadmits,by rw [admitted_repairs]; rfl⟩

/-- What one statement of a worker does. -/
theorem work_ok {x : Worker} (h : Ordered c s) (hx : WorkerOk c p s x) :
    Ordered c (work c i p s x).1 ∧ Grows s (work c i p s x).1 ∧
      WorkerOk c p (work c i p s x).1 (work c i p s x).2 := by
  cases x with
  | admitUpdate activityId patch => exact ⟨ordered_admitUpdate h,grows_admitUpdate,trivial⟩
  | start creation => exact ⟨h,.refl s,hx,Nat.le_refl _⟩
  | events creation applied creationActivityId =>
    obtain ⟨hc,ha⟩ := hx
    simp only [work]
    split
    · exact ⟨h,.refl s,trivial⟩
    · rename_i w hw
      exact ⟨h,.refl s,hc,seen_window h ha hw⟩
  | row creation window =>
    simp only [work]
    split
    · exact ⟨h,.refl s,folded_plan hx.1 hx.2⟩
    · exact ⟨h,.refl s,hx⟩
  | recipients creation window row => exact ⟨h,.refl s,folded_plan hx.1 hx.2⟩
  | folding before source creation window rest projected edits =>
    cases rest with
    | nil =>
      simp only [work]
      split
      · rename_i hm
        obtain ⟨_,_,ha,hl,_⟩ := mayCommit_iff.mp hm.2.2
        exact ⟨ordered_commit h hx hm.2.2,grows_commit h hx ha hl,trivial⟩
      · exact ⟨h,.refl s,trivial⟩
    | cons event rest =>
      simp only [work,decodeNoteUpdatePatch]
      split
      · exact ⟨h,.refl s,trivial⟩
      · rename_i patch hp
        have hpatch : event.2 = some patch := (Option.filter_eq_some_iff.mp hp).1
        refine ⟨h,.refl s,hx.seen,hx.created,?_,fun ha => addressed_applyPatch (hx.addressed ha),?_⟩
        · rw [c.edited_append,hx.made]
          rfl
        · rw [hx.events,List.filterMap_append,List.map_append,List.append_assoc]
          simp [shown,Edit.admitted,← hpatch]
  | done => exact ⟨h,.refl s,trivial⟩

end step

theorem Start.holds {s : Pool} (h : Start c s) :
    Threads.Holds (Ordered c) (WorkerOk c) s := by
  have hzero : s.store.applied = 0 := by
    rw [Store.applied,h.head]
    rfl
  refine ⟨?_,fun p => ?_⟩
  · constructor
    case own =>
      rw [h.own,h.admitted]
      rfl
    case increasing =>
      rw [h.admitted]
      exact .nil
    case minted =>
      rw [h.admitted]
      exact fun _ ha => by cases ha
    case applied =>
      rw [hzero]
      exact Nat.zero_le _
    case projected =>
      unfold Projected
      rw [h.initial,h.admitted,h.log,hzero]
      cases s.store.projection with
      | none => exact ⟨rfl,rfl,rfl⟩
      | some n => exact ⟨n,rfl,rfl,rfl⟩
    case addressed => exact h.addressed
  · have hp := h.entry p
    cases hth : s.thread p with
    | admitUpdate | done => trivial
    | start creation =>
      rw [hth] at hp
      cases hp with
      | update => exact fun _ hc => by cases hc
      | create create ha =>
        intro create' hc
        cases hc
        exact ha
    | events | row | recipients | folding =>
      rw [hth] at hp
      cases hp

/-- The thread is at its commit, and the batch goes through. -/
def Commits (c : Subject) (i : Answer) (s : Store) (w : NoteUpdateWindow) : Worker → Prop
  | .folding before _ creation window [] projected _ =>
    window = w ∧ creation.all (·.entrance.commits projected) = true ∧ sameIdentity c before projected = true ∧
      mayCommit c before window i.admission s = true
  | _ => False

/-- The batch applies every event between the applied and the latest of its window. -/
def Complete (c : Subject) (s : Store) (w : NoteUpdateWindow) : Prop :=
  ∀ e ∈ s.own c, w.applied < e.sequence → e.sequence ≤ w.latest →
    (e.sequence,e.patchJson) ∈ w.events

def subject : Subject where
  site := ⟨some,fun _ _ => "",fun _ => true⟩
  actor := "https://b.example/users/b"
  objectId := "https://b.example/notes/1"

def note : NoteProjection where
  row :=
    { apId := subject.objectId, type := "Note", attributedTo := subject.actor, isLocal := 0
      deletedAt := none, content := "one", summary := none, attachmentsJson := "[]"
      tagsJson := "[]", inReplyTo := none, conversation := none, visibility := .public_
      toJson := ["as:Public"], ccJson := [], audienceJson := [], communityApId := none
      published := "2026-01-01T00:00:00.000Z", updated := none, endTime := none }
  recipients := ∅

def waiting : Pool where
  store := ⟨[],0,none,some note.row,∅,[],some note,[]⟩
  thread p :=
    if p = 0 then .admitUpdate "https://b.example/updates/1" { content := some "two" }
    else .start none

end Yurucommu.NoteUpdate
