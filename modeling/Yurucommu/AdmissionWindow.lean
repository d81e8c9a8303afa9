import Yurucommu.MachineTrace
import Yurucommu.NoteUpdateOnce

/-!
The queue of admitted Updates of one Note by its actor, as admissions, commits, deletions and other
Notes' Updates follow one another: its bound, its receipts, and its order.
-/

set_option autoImplicit false

namespace Yurucommu.NoteUpdate

/-- The tables, with the rows of `inbound_object_deletions`: an actor and an object. -/
structure Queue where
  store : Store
  deletions : List (String × String)

def Subject.identity (c : Subject) : String := (c.site.normalize c.actor).getD c.actor

def Queue.deleted (c : Subject) (q : Queue) : Bool := q.deletions.contains (c.identity,c.objectId)

inductive Admission where
  | event (e : UpdateEvent)
  /-- It returns null. -/
  | deleted
  /-- It throws. -/
  | conflict
deriving DecidableEq, Repr

def readBack (c : Subject) (activityId : String) (s : Store) : Admission :=
  match s.events.find? fun e => e.activityApId = activityId with
  | some e => if c.owns e then .event e else .conflict
  | none => .conflict

def admission (c : Subject) (activityId : String) (patch : AdmittedNotePatch) (q : Queue) :
    Queue × Admission :=
  if activityId = "" then (q,.conflict)
  else if mayAdmit c activityId (!q.deleted c) q.store then
    ({ q with store := admitInboundNoteUpdate c activityId patch (!q.deleted c) q.store },
      readBack c activityId (admitInboundNoteUpdate c activityId patch (!q.deleted c) q.store))
  else (q,if q.deleted c ∧ (c.site.normalize c.actor).isSome then .deleted else .conflict)

inductive QueueEvent where
  | arrive (activityId : String) (patch : AdmittedNotePatch)
  /-- The batch of `commitNoteProjection`; `policies` are those it checks again. -/
  | commit (before : Option NoteProjection) (source after : NoteProjection)
      (activityId : Option String) (window : NoteUpdateWindow) (policies : Bool)
  | delete (actor objectId : String)
  | elsewhere (e : UpdateEvent)

/-- A call that throws changes nothing. -/
def queueMachine (c : Subject) : Machine Queue QueueEvent where
  step
    | .arrive activityId patch, q => some (admission c activityId patch q).1
    | .commit before source after activityId window policies, q =>
      if mayCommit c before window (policies && !q.deleted c) q.store then
        some { q with store := commitBatch c before source after activityId window q.store }
      else some q
    | .delete actor objectId, q => some { q with deletions := (actor,objectId) :: q.deletions }
    | .elsewhere e, q =>
      if elsewhere c e q.store then
        some { q with store := { q.store with
          events := q.store.events ++ [e]
          sequence := e.sequence } }
      else none

structure QueueStart (q : Queue) : Prop where
  events : q.store.events = []
  head : q.store.head = none

def Store.unapplied (c : Subject) (s : Store) : Nat :=
  (s.own c).countP fun e => s.applied < e.sequence

/-- What stays of an event once its patch is released. -/
def UpdateEvent.receipt (e : UpdateEvent) : Nat × String × String × String :=
  (e.sequence,e.activityApId,e.actorApId,e.objectApId)

/-- Events in the order of their sequences, each with an activity of its own, a head beside those
of the Note, no more of these pending than fit, and none applied that is not there. -/
structure Queued (c : Subject) (s : Store) : Prop where
  sorted : s.events.Pairwise fun e f => e.sequence < f.sequence
  minted : ∀ e ∈ s.events, e.sequence ≤ s.sequence
  activities : (s.events.map (·.activityApId)).Nodup
  named : ∀ e ∈ s.own c, e.activityApId ≠ ""
  head : ∀ e ∈ s.own c, s.head.isSome = true
  bounded : s.unapplied c ≤ maxPendingNoteUpdates
  reached : s.applied ≤ s.latest c

/-- What a step does to the queue: it is left as it is, one event more comes in, or all that is
pending is applied and released. -/
inductive Turn (c : Subject) (s : Store) : Store → Prop where
  | stays {t : Store} (events : t.events = s.events) (sequence : t.sequence = s.sequence)
      (applied : t.applied = s.applied) (head : s.head.isSome = true → t.head.isSome = true) :
      Turn c s t
  | arrives {t : Store} (e : UpdateEvent) (events : t.events = s.events ++ [e])
      (minted : s.sequence < e.sequence) (sequence : t.sequence = e.sequence)
      (fresh : ∀ f ∈ s.events, f.activityApId ≠ e.activityApId) (applied : t.applied = s.applied)
      (head : s.head.isSome = true → t.head.isSome = true)
      (own : c.owns e = true →
        e.activityApId ≠ "" ∧ t.head.isSome = true ∧ s.unapplied c < maxPendingNoteUpdates) :
      Turn c s t
  | applies {t : Store} (w : NoteUpdateWindow) (events : t.events = s.events.map (releaseEvent c w))
      (sequence : t.sequence = s.sequence) (before : s.applied = w.applied)
      (latest : w.latest = s.latest c) (applied : t.applied = w.latest)
      (head : t.head.isSome = true) : Turn c s t

section steps

variable {c : Subject} {q r : Queue} {s t : Store} {e : UpdateEvent} {activityId : String}
  {patch : AdmittedNotePatch}

theorem Store.mem_own : e ∈ s.own c ↔ e ∈ s.events ∧ c.owns e = true := List.mem_filter

theorem le_latest (he : e ∈ s.own c) : e.sequence ≤ s.latest c := (foldl_max_le (n := 0)).2 e he

theorem owns_admitted (n : Nat) :
    c.owns ⟨n,activityId,c.actor,c.objectId,some patch⟩ = true := by
  simp [Subject.owns]

theorem mayAdmit_iff {notDeleted : Bool} : mayAdmit c activityId notDeleted s = true ↔
    (∀ e ∈ s.events, e.activityApId = activityId → c.owns e = true) ∧
      ((∃ e ∈ s.events, e.activityApId = activityId) ∨
        s.unapplied c < maxPendingNoteUpdates) ∧ notDeleted = true := by
  have himp (e : UpdateEvent) : (e.activityApId = activityId → c.owns e = true) ↔
      (e.activityApId ≠ activityId ∨ c.owns e = true) := by
    rw [imp_iff_not_or]
  unfold mayAdmit Store.unapplied
  simp only [himp]
  simp [and_assoc]

theorem turn_admitted (hid : activityId ≠ "") {notDeleted : Bool} :
    Turn c s (admitInboundNoteUpdate c activityId patch notDeleted s) := by
  unfold admitInboundNoteUpdate
  split
  · rename_i hmay
    obtain ⟨_,hroom,_⟩ := mayAdmit_iff.mp hmay
    unfold insertEvent
    split
    · exact .stays rfl rfl applied_insertHead fun _ => rfl
    · rename_i hno
      have hfresh : ∀ f ∈ s.events, f.activityApId ≠ activityId := by
        intro f hf hsame
        exact hno (List.any_eq_true.mpr ⟨f,hf,by simpa using hsame⟩)
      refine .arrives _ rfl (Nat.lt_succ_self s.sequence) rfl hfresh applied_insertHead
        (fun _ => rfl) fun _ => ⟨hid,rfl,?_⟩
      obtain ⟨f,hf,hsame⟩ | hroom := hroom
      · exact absurd hsame (hfresh f hf)
      · exact hroom
  · exact .stays rfl rfl rfl id

theorem turn_step {l : QueueEvent} (h : (queueMachine c).step l q = some r) :
    Turn c q.store r.store := by
  cases l with
  | arrive activityId patch =>
    obtain rfl := Option.some.inj h
    unfold admission
    split
    · exact .stays rfl rfl rfl id
    · rename_i hid
      split
      · exact turn_admitted hid
      · exact .stays rfl rfl rfl id
  | commit before source after activityId window policies =>
    simp only [queueMachine] at h
    split at h
    · rename_i hmay
      obtain rfl := Option.some.inj h
      obtain ⟨_,_,happlied,hlatest,_⟩ := mayCommit_iff.mp hmay
      exact .applies window rfl rfl happlied hlatest.symm
        (applied_commit before source after activityId happlied) rfl
    · obtain rfl := Option.some.inj h
      exact .stays rfl rfl rfl id
  | delete actor objectId =>
    obtain rfl := Option.some.inj h
    exact .stays rfl rfl rfl id
  | elsewhere e =>
    simp only [queueMachine] at h
    split at h
    · rename_i hother
      obtain rfl := Option.some.inj h
      simp only [elsewhere,Bool.and_eq_true,Bool.not_eq_true',decide_eq_true_eq,
        List.all_eq_true] at hother
      obtain ⟨⟨hforeign,hsequence⟩,hfresh⟩ := hother
      refine .arrives e rfl (by omega) rfl hfresh rfl id fun howns => ?_
      rw [hforeign] at howns
      cases howns
    · cases h

theorem latest_mono (h : ∀ e ∈ s.own c, ∃ f ∈ t.own c, f.sequence = e.sequence) :
    s.latest c ≤ t.latest c := by
  refine le_foldl_max (Nat.zero_le _) fun e he => ?_
  obtain ⟨f,hf,hsame⟩ := h e he
  rw [← hsame]
  exact le_latest hf

theorem own_append (he : t.events = s.events ++ [e]) : t.own c = s.own c ++ [e].filter c.owns := by
  unfold Store.own
  rw [he,List.filter_append]

theorem own_release {w : NoteUpdateWindow} (he : t.events = s.events.map (releaseEvent c w)) :
    t.own c = (s.own c).map (releaseEvent c w) := by
  unfold Store.own
  rw [he,own_releaseEvent]

theorem receipt_releaseEvent (w : NoteUpdateWindow) (e : UpdateEvent) :
    (releaseEvent c w e).receipt = e.receipt := by
  unfold releaseEvent
  split <;> rfl

theorem receipt_eq {f : UpdateEvent} (h : f.receipt = e.receipt) : f.sequence = e.sequence ∧
    f.activityApId = e.activityApId ∧ c.owns f = c.owns e := by
  simp only [UpdateEvent.receipt,Prod.mk.injEq] at h
  obtain ⟨hsequence,hactivity,hactor,hobject⟩ := h
  exact ⟨hsequence,hactivity,by unfold Subject.owns; rw [hactor,hobject]⟩

theorem Queued.stays (h : Queued c s) (events : t.events = s.events)
    (sequence : t.sequence = s.sequence) (applied : t.applied = s.applied)
    (head : s.head.isSome = true → t.head.isSome = true) : Queued c t where
  sorted := events ▸ h.sorted
  minted e he := by
    rw [sequence]
    exact h.minted e (events ▸ he)
  activities := events ▸ h.activities
  named e he := by
    unfold Store.own at he
    rw [events] at he
    exact h.named e he
  head e he := by
    unfold Store.own at he
    rw [events] at he
    exact head (h.head e he)
  bounded := by
    unfold Store.unapplied Store.own
    rw [events,applied]
    exact h.bounded
  reached := by
    unfold Store.latest Store.own
    rw [events,applied]
    exact h.reached

theorem Queued.arrives (h : Queued c s) (events : t.events = s.events ++ [e])
    (minted : s.sequence < e.sequence) (sequence : t.sequence = e.sequence)
    (fresh : ∀ f ∈ s.events, f.activityApId ≠ e.activityApId) (applied : t.applied = s.applied)
    (head : s.head.isSome = true → t.head.isSome = true)
    (own : c.owns e = true →
      e.activityApId ≠ "" ∧ t.head.isSome = true ∧ s.unapplied c < maxPendingNoteUpdates) :
    Queued c t := by
  have hown := own_append (c := c) events
  have hcases (f : UpdateEvent) (hf : f ∈ t.own c) : f ∈ s.own c ∨ f = e ∧ c.owns e = true := by
    rw [hown,List.mem_append] at hf
    refine hf.imp_right fun hf => ?_
    obtain ⟨hmem,howns⟩ := List.mem_filter.mp hf
    obtain rfl := List.mem_singleton.mp hmem
    exact ⟨rfl,howns⟩
  constructor
  case sorted =>
    rw [events,List.pairwise_append]
    refine ⟨h.sorted,List.pairwise_singleton _ _,fun f hf g hg => ?_⟩
    rw [List.mem_singleton.mp hg]
    exact (h.minted f hf).trans_lt minted
  case minted =>
    intro f hf
    rw [events,List.mem_append,List.mem_singleton] at hf
    rw [sequence]
    obtain hf | rfl := hf
    · exact ((h.minted f hf).trans_lt minted).le
    · exact le_rfl
  case activities =>
    rw [events,List.map_append,List.nodup_append]
    refine ⟨h.activities,List.nodup_singleton _,fun a ha b hb => ?_⟩
    obtain ⟨f,hf,rfl⟩ := List.mem_map.mp ha
    rw [List.map_singleton,List.mem_singleton] at hb
    exact hb ▸ fresh f hf
  case named =>
    intro f hf
    obtain hf | ⟨rfl,howns⟩ := hcases f hf
    · exact h.named f hf
    · exact (own howns).1
  case head =>
    intro f hf
    obtain hf | ⟨rfl,howns⟩ := hcases f hf
    · exact head (h.head f hf)
    · exact (own howns).2.1
  case bounded =>
    have hold := h.bounded
    unfold Store.unapplied at hold own ⊢
    rw [hown,applied,List.countP_append]
    cases howns : c.owns e with
    | true =>
      have hroom := (own howns).2.2
      have hone := List.countP_le_length (p := fun e => s.applied < e.sequence)
        (l := [e].filter c.owns)
      have hlength := List.length_filter_le c.owns [e]
      simp only [List.length_singleton] at hlength
      omega
    | false => simpa [howns] using hold
  case reached =>
    have hmono : s.latest c ≤ t.latest c :=
      latest_mono fun f hf => ⟨f,hown ▸ List.mem_append_left _ hf,rfl⟩
    have hold := h.reached
    omega

theorem Queued.applies (h : Queued c s) {w : NoteUpdateWindow}
    (events : t.events = s.events.map (releaseEvent c w)) (sequence : t.sequence = s.sequence)
    (latest : w.latest = s.latest c) (applied : t.applied = w.latest)
    (head : t.head.isSome = true) : Queued c t := by
  have hown := own_release events
  have hback (f : UpdateEvent) (hf : f ∈ t.own c) : ∃ e ∈ s.own c, f.receipt = e.receipt := by
    rw [hown] at hf
    obtain ⟨e,he,rfl⟩ := List.mem_map.mp hf
    exact ⟨e,he,receipt_releaseEvent w e⟩
  constructor
  case sorted =>
    rw [events,List.pairwise_map]
    refine h.sorted.imp fun {e f} hlt => ?_
    rw [(receipt_eq (c := c) (receipt_releaseEvent w e)).1,
      (receipt_eq (c := c) (receipt_releaseEvent w f)).1]
    exact hlt
  case minted =>
    intro f hf
    rw [events] at hf
    obtain ⟨e,he,rfl⟩ := List.mem_map.mp hf
    rw [sequence,(receipt_eq (c := c) (receipt_releaseEvent w e)).1]
    exact h.minted e he
  case activities =>
    have hsame : (t.events.map (·.activityApId)) = s.events.map (·.activityApId) := by
      rw [events,List.map_map]
      exact List.map_congr_left fun e _ =>
        (receipt_eq (c := c) (receipt_releaseEvent w e)).2.1
    rw [hsame]
    exact h.activities
  case named =>
    intro f hf
    obtain ⟨e,he,hreceipt⟩ := hback f hf
    rw [(receipt_eq (c := c) hreceipt).2.1]
    exact h.named e he
  case head => exact fun _ _ => head
  case bounded =>
    have hnone : t.unapplied c = 0 := by
      refine List.countP_eq_zero.mpr fun f hf => ?_
      obtain ⟨e,he,hreceipt⟩ := hback f hf
      have hle := le_latest he
      have hsequence := (receipt_eq (c := c) hreceipt).1
      rw [decide_eq_true_eq]
      omega
    rw [hnone]
    exact Nat.zero_le _
  case reached =>
    rw [applied,latest]
    refine latest_mono fun e he => ⟨releaseEvent c w e,?_,?_⟩
    · rw [hown]
      exact List.mem_map_of_mem he
    · exact (receipt_eq (c := c) (receipt_releaseEvent w e)).1

theorem Turn.queued (h : Turn c s t) (hs : Queued c s) : Queued c t := by
  cases h with
  | stays events sequence applied head => exact hs.stays events sequence applied head
  | arrives e events minted sequence fresh applied head own =>
    exact hs.arrives events minted sequence fresh applied head own
  | applies w events sequence before latest applied head =>
    exact hs.applies events sequence latest applied head

end steps

section runs

variable {c : Subject} {q₀ q r : Queue} {s t u : Store}

/-- Nothing that was recorded changes, but that the patches of applied events are released; what
comes in later comes in behind it. -/
structure KeepsEvents (c : Subject) (s t : Store) : Prop where
  receipts : ∃ later, t.events.map (·.receipt) = s.events.map (·.receipt) ++ later
  applied : s.applied ≤ t.applied
  patches : ∀ e ∈ s.own c, ∃ f ∈ t.own c, f.receipt = e.receipt ∧
    (t.applied < e.sequence → f.patchJson = e.patchJson)

theorem KeepsEvents.refl (s : Store) : KeepsEvents c s s :=
  ⟨⟨[],(List.append_nil _).symm⟩,le_rfl,fun e he => ⟨e,he,rfl,fun _ => rfl⟩⟩

theorem KeepsEvents.trans (h : KeepsEvents c s t) (k : KeepsEvents c t u) :
    KeepsEvents c s u where
  receipts := by
    obtain ⟨first,hfirst⟩ := h.receipts
    obtain ⟨later,hlater⟩ := k.receipts
    exact ⟨first ++ later,by rw [hlater,hfirst,List.append_assoc]⟩
  applied := h.applied.trans k.applied
  patches e he := by
    obtain ⟨f,hf,hreceipt,hpatch⟩ := h.patches e he
    obtain ⟨g,hg,hsame,hkept⟩ := k.patches f hf
    refine ⟨g,hg,hsame.trans hreceipt,fun hlt => ?_⟩
    have hsequence := (receipt_eq (c := c) hreceipt).1
    have happlied := k.applied
    rw [hkept (by omega),hpatch (by omega)]

theorem Turn.keeps (h : Turn c s t) (hs : Queued c s) : KeepsEvents c s t := by
  cases h with
  | stays events sequence applied head =>
    refine ⟨⟨[],by rw [events,List.append_nil]⟩,applied.ge,fun e he => ⟨e,?_,rfl,fun _ => rfl⟩⟩
    unfold Store.own at he ⊢
    rwa [events]
  | arrives e events minted sequence fresh applied head own =>
    refine ⟨⟨[e.receipt],by rw [events,List.map_append,List.map_singleton]⟩,applied.ge,
      fun f hf => ⟨f,?_,rfl,fun _ => rfl⟩⟩
    rw [own_append events]
    exact List.mem_append_left _ hf
  | applies w events sequence before latest applied head =>
    refine ⟨⟨[],?_⟩,?_,fun e he => ⟨releaseEvent c w e,?_,receipt_releaseEvent w e,fun hlt => ?_⟩⟩
    · rw [events,List.map_map,List.append_nil]
      exact List.map_congr_left fun e _ => receipt_releaseEvent w e
    · have hreached := hs.reached
      omega
    · rw [own_release events]
      exact List.mem_map_of_mem he
    · have hle := le_latest he
      omega

theorem QueueStart.queued (h : QueueStart q) : Queued c q.store := by
  have hown : q.store.own c = [] := by
    unfold Store.own
    rw [h.events,List.filter_nil]
  refine ⟨?_,?_,?_,?_,?_,?_,?_⟩
  · rw [h.events]
    exact .nil
  · rw [h.events]
    exact fun _ he => absurd he List.not_mem_nil
  · rw [h.events]
    exact List.nodup_nil
  · rw [hown]
    exact fun _ he => absurd he List.not_mem_nil
  · rw [hown]
    exact fun _ he => absurd he List.not_mem_nil
  · unfold Store.unapplied
    rw [hown]
    exact Nat.zero_le _
  · unfold Store.applied
    rw [h.head]
    exact Nat.zero_le _

theorem queued_reaches (h : Queued c q.store) (hr : (queueMachine c).Reaches q r) :
    Queued c r.store ∧ KeepsEvents c q.store r.store := by
  refine Machine.ReachesBy.invariant
    (P := fun b => Queued c b.store ∧ KeepsEvents c q.store b.store)
    hr ⟨h,.refl _⟩ fun a l b hold hstep _ => ?_
  obtain ⟨hqueued,hkeeps⟩ := hold
  have hturn := turn_step hstep
  exact ⟨hturn.queued hqueued,hkeeps.trans (hturn.keeps hqueued)⟩

end runs

/-- What a call of `admitInboundNoteUpdate` does to a queue, and what the queue is like. -/
structure Disciplined (c : Subject) (q : Queue) : Prop where
  bounded : q.store.unapplied c ≤ maxPendingNoteUpdates
  increasing : (q.store.events.map (·.sequence)).Pairwise (· < ·)
  /-- However full the window is. -/
  repeated : q.deleted c = false → ∀ e ∈ q.store.own c, ∀ patch,
    admission c e.activityApId patch q = (q,.event e)
  fresh : q.deleted c = false → ∀ activityId, activityId ≠ "" →
    (∀ e ∈ q.store.events, e.activityApId ≠ activityId) → ∀ patch,
    if q.store.unapplied c < maxPendingNoteUpdates then
      ∃ e r, admission c activityId patch q = (r,.event e) ∧ c.owns e = true ∧
        e.activityApId = activityId ∧ e.patchJson = some patch ∧
        (∀ f ∈ q.store.events, f.sequence < e.sequence) ∧
        r.store.events = q.store.events ++ [e] ∧ r.store.applied = q.store.applied
    else admission c activityId patch q = (q,.conflict)
  foreign : ∀ e ∈ q.store.events, c.owns e = false → ∀ patch,
    ∃ result, admission c e.activityApId patch q = (q,result) ∧ ∀ f, result ≠ .event f
  /-- A terminal deletion is answered with null, also to what is recorded. -/
  terminal : c.site.normalize c.actor = some c.actor → (c.actor,c.objectId) ∈ q.deletions →
    ∀ activityId, activityId ≠ "" → ∀ patch, admission c activityId patch q = (q,.deleted)

section calls

variable {c : Subject} {q : Queue} {e : UpdateEvent} {activityId : String}
  {patch : AdmittedNotePatch}

theorem Queued.event_unique {s : Store} (h : Queued c s) {f : UpdateEvent} (he : e ∈ s.events)
    (hf : f ∈ s.events) (hsame : f.activityApId = e.activityApId) : f = e :=
  List.inj_on_of_nodup_map h.activities hf he hsame

theorem admission_refused (h : mayAdmit c activityId (!q.deleted c) q.store = false) :
    ∃ result, admission c activityId patch q = (q,result) ∧ ∀ f, result ≠ .event f := by
  unfold admission
  rw [h]
  split
  · exact ⟨_,rfl,fun _ hf => by cases hf⟩
  · refine ⟨_,rfl,fun _ hf => ?_⟩
    split at hf <;> cases hf

theorem admission_repeated (h : Queued c q.store) (hd : q.deleted c = false)
    (he : e ∈ q.store.own c) : admission c e.activityApId patch q = (q,.event e) := by
  obtain ⟨hmem,howns⟩ := Store.mem_own.mp he
  have hmay : mayAdmit c e.activityApId (!q.deleted c) q.store = true :=
    mayAdmit_iff.mpr ⟨fun f hf hsame => h.event_unique hmem hf hsame ▸ howns,
      .inl ⟨e,hmem,rfl⟩,by rw [hd]; rfl⟩
  have hany : (q.store.events.any fun f => f.activityApId = e.activityApId) = true :=
    List.any_eq_true.mpr ⟨e,hmem,decide_eq_true rfl⟩
  obtain ⟨head,hhead⟩ := Option.isSome_iff_exists.mp (h.head e he)
  have hkept : insertHead q.store = q.store := by
    unfold insertHead
    rw [hhead,Option.getD_some,← hhead]
  have hsame : admitInboundNoteUpdate c e.activityApId patch (!q.deleted c) q.store = q.store := by
    unfold admitInboundNoteUpdate insertEvent
    rw [if_pos hmay,hkept,if_pos hany]
  have hread : readBack c e.activityApId q.store = .event e := by
    unfold readBack
    cases hfind : q.store.events.find? fun f => f.activityApId = e.activityApId with
    | none => exact absurd (List.find?_eq_none.mp hfind e hmem) (by simp)
    | some f =>
      obtain rfl := h.event_unique hmem (List.mem_of_find?_eq_some hfind)
        (by simpa using List.find?_some hfind)
      exact if_pos howns
  unfold admission
  rw [if_neg (h.named e he),if_pos hmay,hsame,hread]

theorem admission_fresh (h : Queued c q.store) (hd : q.deleted c = false) (hid : activityId ≠ "")
    (hnew : ∀ e ∈ q.store.events, e.activityApId ≠ activityId)
    (hroom : q.store.unapplied c < maxPendingNoteUpdates) :
    ∃ e r, admission c activityId patch q = (r,.event e) ∧ c.owns e = true ∧
      e.activityApId = activityId ∧ e.patchJson = some patch ∧
      (∀ f ∈ q.store.events, f.sequence < e.sequence) ∧
      r.store.events = q.store.events ++ [e] ∧ r.store.applied = q.store.applied := by
  have hmay : mayAdmit c activityId (!q.deleted c) q.store = true :=
    mayAdmit_iff.mpr ⟨fun f hf hsame => absurd hsame (hnew f hf),.inr hroom,by rw [hd]; rfl⟩
  have hany : ¬(q.store.events.any fun f => f.activityApId = activityId) = true := by
    intro hany
    obtain ⟨f,hf,hsame⟩ := List.any_eq_true.mp hany
    exact hnew f hf (of_decide_eq_true hsame)
  have hnone : (q.store.events.find? fun f => f.activityApId = activityId) = none :=
    List.find?_eq_none.mpr fun f hf => by simpa using hnew f hf
  have hmissing : ¬((insertHead q.store).events.any fun f => f.activityApId = activityId) = true :=
    hany
  have hstore : admitInboundNoteUpdate c activityId patch (!q.deleted c) q.store =
      { insertHead q.store with
        events := q.store.events ++
          [⟨q.store.sequence + 1,activityId,c.actor,c.objectId,some patch⟩]
        sequence := q.store.sequence + 1
        admitted := q.store.admitted ++ [(q.store.sequence + 1,patch)] } := by
    unfold admitInboundNoteUpdate insertEvent
    rw [if_pos hmay,if_neg hmissing]
    rfl
  refine ⟨⟨q.store.sequence + 1,activityId,c.actor,c.objectId,some patch⟩,
    { q with store := { insertHead q.store with
        events := q.store.events ++
          [⟨q.store.sequence + 1,activityId,c.actor,c.objectId,some patch⟩]
        sequence := q.store.sequence + 1
        admitted := q.store.admitted ++ [(q.store.sequence + 1,patch)] } },?_,
    owns_admitted _,rfl,rfl,fun f hf => Nat.lt_succ_of_le (h.minted f hf),rfl,
    applied_insertHead⟩
  unfold admission
  rw [if_neg hid,if_pos hmay,hstore]
  refine Prod.ext rfl ?_
  simp only [readBack,List.find?_append,hnone,Option.none_or]
  simp [Subject.owns]

theorem admission_full (hd : q.deleted c = false) (hid : activityId ≠ "")
    (hnew : ∀ e ∈ q.store.events, e.activityApId ≠ activityId)
    (hfull : ¬q.store.unapplied c < maxPendingNoteUpdates) :
    admission c activityId patch q = (q,.conflict) := by
  have hmay : ¬mayAdmit c activityId (!q.deleted c) q.store = true := by
    intro hmay
    obtain ⟨_,⟨f,hf,hsame⟩ | hroom,_⟩ := mayAdmit_iff.mp hmay
    · exact hnew f hf hsame
    · exact hfull hroom
  unfold admission
  rw [if_neg hid,if_neg hmay,hd]
  rfl

theorem admission_foreign (he : e ∈ q.store.events) (hother : c.owns e = false) :
    ∃ result, admission c e.activityApId patch q = (q,result) ∧ ∀ f, result ≠ .event f := by
  refine admission_refused (Bool.eq_false_iff.mpr fun hmay => ?_)
  have howns := (mayAdmit_iff.mp hmay).1 e he rfl
  rw [hother] at howns
  cases howns

theorem admission_terminal (hkey : c.site.normalize c.actor = some c.actor)
    (hd : (c.actor,c.objectId) ∈ q.deletions) (hid : activityId ≠ "") :
    admission c activityId patch q = (q,.deleted) := by
  have hdeleted : q.deleted c = true := by
    unfold Queue.deleted Subject.identity
    rw [hkey]
    exact List.contains_iff_mem.mpr hd
  have hmay : ¬mayAdmit c activityId (!q.deleted c) q.store = true := by
    intro hmay
    have hlive := (mayAdmit_iff.mp hmay).2.2
    rw [hdeleted] at hlive
    cases hlive
  unfold admission
  rw [if_neg hid,if_neg hmay,hdeleted,hkey]
  rfl

theorem Queued.disciplined (h : Queued c q.store) : Disciplined c q where
  bounded := h.bounded
  increasing := List.pairwise_map.mpr h.sorted
  repeated hd _ he _ := admission_repeated h hd he
  fresh hd _ hid hnew _ := by
    split
    · rename_i hroom
      exact admission_fresh h hd hid hnew hroom
    · rename_i hfull
      exact admission_full hd hid hnew hfull
  foreign _ he hother _ := admission_foreign he hother
  terminal hkey hd _ hid _ := admission_terminal hkey hd hid

end calls

/-- Whatever was admitted and committed before, the queue is disciplined, and every later queue
keeps its events. -/
theorem admission_disciplined {c : Subject} {q₀ q : Queue} (h : QueueStart q₀)
    (hr : (queueMachine c).Reaches q₀ q) : Disciplined c q ∧
      ∀ r, (queueMachine c).Reaches q r → KeepsEvents c q.store r.store := by
  have hqueued := (queued_reaches h.queued hr).1
  exact ⟨hqueued.disciplined,fun r hlater => (queued_reaches hqueued hlater).2⟩

section recorded

def emptyQueue : Queue := ⟨⟨[],0,none,none,∅,[],none,[]⟩,[]⟩

def firstUpdate : QueueEvent :=
  .arrive "https://b.example/updates/1" { content := some "two" }

theorem admission_disciplined_first : ∃ q, (queueMachine subject).Reaches emptyQueue q ∧
    Disciplined subject q ∧ q.store.unapplied subject = 1 := by
  have hr : (queueMachine subject).Reaches emptyQueue
      (((queueMachine subject).run [firstUpdate] emptyQueue).getD emptyQueue) :=
    Machine.reaches_run rfl
  exact ⟨_,hr,(admission_disciplined ⟨rfl,rfl⟩ hr).1,by decide⟩

/-- The Update is recorded, but once the Note is deleted its admission comes to nothing. -/
theorem recorded_update_deleted : ∃ q e, (queueMachine subject).Reaches emptyQueue q ∧
    e ∈ q.store.own subject ∧ ∀ patch,
      (admission subject e.activityApId patch q).2 = .deleted := by
  have hr : (queueMachine subject).Reaches emptyQueue (((queueMachine subject).run
      [firstUpdate,.delete subject.actor subject.objectId] emptyQueue).getD emptyQueue) :=
    Machine.reaches_run rfl
  refine ⟨_,⟨1,"https://b.example/updates/1",subject.actor,subject.objectId,
    some { content := some "two" }⟩,hr,by decide,fun patch => ?_⟩
  rw [admission_terminal rfl (by decide) (by decide)]

end recorded

end Yurucommu.NoteUpdate
