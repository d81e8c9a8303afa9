import Yurucommu.Defederation
import Yurucommu.MachineTrace
import Yurucommu.Recovery

/-!
When nothing is delivered to a blocked recipient: in the runs in which no block, no late
materialisation and no deletion of a recipient leaves a job that can still be delivered with
blocked recipients alone.
-/

set_option autoImplicit false

namespace Yurucommu.Defederation

section delivery

open Delivery

def Deliverable (r : DeliveryRow) : Prop :=
  r.status.terminal = false ∨ r.status = .deadLetter ∧ r.dlqPending = true

def Underway : Delivery.Task → Prop
  | .checkCircuit _ | .claim _ | .loadActivity _ | .resolveSigningActor _ | .post _ => True
  | _ => False

variable {clock p : Nat} {i : Delivery.Answer} {s : Delivery.Store} {task : Delivery.Task}
  {r r' : DeliveryRow}

theorem deliverable_of_write (h : WorkerWrite clock p task r r') : Deliverable r := by
  cases h with
  | failInvalid now unchanged => exact .inl (unchangedSince_not_terminal unchanged)
  | claim stale started due order free => exact .inl (claimable_not_terminal free)
  | markDelivered now owner => exact .inl (ownership_not_terminal owner)
  | failJob now owner => exact .inl (ownership_not_terminal owner)
  | incrementAttempts owner => exact .inl (ownership_not_terminal owner)
  | deadLetter now due owner => exact .inl (ownership_not_terminal owner)
  | retryWait now next owner => exact .inl (ownership_not_terminal owner)
  | revive due =>
    obtain ⟨hs,hp,_,_⟩ := revivable_iff.mp due
    exact .inr ⟨hs,hp⟩

theorem attribution_of_write (h : WorkerWrite clock p task r r') :
    r'.recipientAttributionComplete = r.recipientAttributionComplete := by
  cases h <;> rfl

theorem work_recipients (i : Delivery.Answer) (p : Nat) (s : Delivery.Store)
    (task : Delivery.Task) : (Delivery.work i p s task).1.recipients = s.recipients := by
  cases task with
  | checkCircuit job =>
    simp only [Delivery.work]
    split <;> rfl
  | shadowProbe job =>
    simp only [Delivery.work]
    split <;> rfl
  | _ => rfl

theorem afterSelect_underway {row : Option DeliveryRow} (h : Underway (afterSelect i row)) :
    ∃ r, row = some r ∧ r.status.terminal = false := by
  unfold afterSelect at h
  split at h
  · cases h
  · split at h
    · exact ⟨_,rfl,‹_›⟩
    · split at h <;> cases h

theorem work_underway (h : Underway (Delivery.work i p s task).2) :
    Underway task ∨ task = .select ∧ ∃ r, s.row = some r ∧ r.status.terminal = false := by
  cases task with
  | checkCircuit | claim | loadActivity | resolveSigningActor | post => exact .inl trivial
  | select =>
    simp only [Delivery.work] at h
    split at h
    · exact .inr ⟨rfl,afterSelect_underway h⟩
    · cases h
  | markDelivered job =>
    simp only [Delivery.work] at h
    split at h <;> cases h
  | shadowProbe job =>
    simp only [Delivery.work] at h
    split at h <;> cases h
  | invalidateEndpoint job code error =>
    simp only [Delivery.work,afterRejection] at h
    split at h <;> cases h
  | incrementAttempts job error =>
    simp only [Delivery.work,afterIncrement] at h
    split at h
    · cases h
    · split at h
      · split at h <;> cases h
      · cases h
  | deadLetter job error n =>
    simp only [Delivery.work] at h
    split at h <;> cases h
  | selectReconcile attempt =>
    simp only [Delivery.work] at h
    split at h
    · split at h
      · unfold afterSelectReconcile at h
        split at h
        · cases h
        · split at h
          · split at h <;> cases h
          · cases h
      · cases h
    · cases h
  | revive attempt now =>
    simp only [Delivery.work] at h
    split at h <;> cases h
  | resendDlq | requeue | failInvalid | failJob | sendDlq | retryWait | sendRetry
  | requeueReconcile | sendRevived | done => cases h

end delivery

section jobs

open Delivery

variable {s : Delivery.Store} {cond : DeliveryRow → Bool}

theorem deleteRow_some {r : DeliveryRow} (h : (deleteRow cond s).row = some r) :
    s.row = some r ∧ cond r = false ∧ (deleteRow cond s).recipients = s.recipients := by
  have hrow : Statement.deleteWhere cond s.row = some r := h
  have hrec : (deleteRow cond s).recipients = s.recipients := by
    simp only [deleteRow,hrow,Option.isSome_some,if_true]
  obtain ⟨hr,hc⟩ := Option.filter_eq_some_iff.mp hrow
  exact ⟨hr,by simpa using hc,hrec⟩

theorem deleteRow_none (h : (deleteRow cond s).row = none) : (deleteRow cond s).recipients = [] := by
  have hrow : Statement.deleteWhere cond s.row = none := h
  simp only [deleteRow,hrow,Option.isSome_none,Bool.false_eq_true,if_false]

/-- A job is attributed to recipients as long as it is there. -/
def Attributed (s : Delivery.Store) : Prop :=
  ∀ r, s.row = some r → r.recipientAttributionComplete = true ∧ s.recipients ≠ []

theorem sendForRow_recipients (cond : DeliveryRow → Bool) (body : DeliveryRow → QueueMessage)
    (s : Delivery.Store) : (sendForRow cond body s).recipients = s.recipients := by
  unfold sendForRow
  split
  · split <;> rfl
  · rfl

variable (activityId endpoint : String) (recipients : List String) (now : Nat)

theorem insertRecipients_sub (tombstones kept new : List String) :
    kept ⊆ insertRecipients tombstones kept new := List.subset_append_left _ _

theorem upsertDeliveryJob_some (h : Attributed s) {r : DeliveryRow} (hr : s.row = some r) :
    s.recipients ⊆ (upsertDeliveryJob activityId endpoint recipients now s).recipients ∧
      ∃ r', (upsertDeliveryJob activityId endpoint recipients now s).row = some r' ∧
        r'.recipientAttributionComplete = true := by
  obtain ⟨hattr,hne⟩ := h r hr
  by_cases hrec : recipients = []
  · simp only [upsertDeliveryJob,hrec,if_true]
    exact ⟨List.Subset.refl _,r,hr,hattr⟩
  · have hsub := insertRecipients_sub s.tombstones s.recipients recipients
    have hkept : (insertRecipients s.tombstones s.recipients recipients).isEmpty = false := by
      rw [List.isEmpty_eq_false_iff]
      exact fun hnil => hne (List.subset_nil.mp (hnil ▸ hsub))
    have hrow : ∃ r', upsertRow true activityId endpoint now s.row = some r' ∧
        r'.recipientAttributionComplete = true := by
      rw [hr]
      simp only [upsertRow,Statement.insertIgnore_some,Statement.update_some,
        Statement.deleteWhere,abandoned,Bool.not_true,Bool.and_false,Bool.not_false,
        Option.filter_some,if_true]
      split
      · exact ⟨_,rfl,hattr⟩
      · exact ⟨_,rfl,hattr⟩
    obtain ⟨r',hr',hattr'⟩ := hrow
    simp only [upsertDeliveryJob,hrec,if_false,hkept,Bool.not_false,hr',Option.isSome_some,if_true]
    exact ⟨hsub,r',rfl,hattr'⟩

theorem upsertDeliveryJob_none (hr : s.row = none) :
    upsertDeliveryJob activityId endpoint recipients now s = s ∨
      ((upsertDeliveryJob activityId endpoint recipients now s).row = none ∧
        (upsertDeliveryJob activityId endpoint recipients now s).recipients = []) ∨
      ((upsertDeliveryJob activityId endpoint recipients now s).row =
          some (newJob activityId endpoint now) ∧
        (upsertDeliveryJob activityId endpoint recipients now s).recipients ≠ []) := by
  by_cases hrec : recipients = []
  · left
    simp only [upsertDeliveryJob,hrec,if_true]
  · right
    cases hkept : (insertRecipients s.tombstones s.recipients recipients).isEmpty with
    | true =>
      left
      have hrow : upsertRow false activityId endpoint now none = none := rfl
      simp [upsertDeliveryJob,hrec,hkept,hr,hrow]
    | false =>
      right
      have hrow : upsertRow true activityId endpoint now none =
          some (newJob activityId endpoint now) := rfl
      have hne := List.isEmpty_eq_false_iff.mp hkept
      simp [upsertDeliveryJob,hrec,hkept,hr,hrow,hne]

end jobs

variable (covers : Block → String → Bool)

/-- There are recipients, and they are all blocked. -/
def OnlyBlocked (blocks : List Block) (recipients : List String) : Prop :=
  recipients ≠ [] ∧ ∀ x ∈ recipients, isBlocked covers blocks x = true

def DeliverableRow (s : Pool) : Prop := ∃ r, s.store.delivery.row = some r ∧ Deliverable r

def SomeUnderway (s : Pool) : Prop :=
  ∃ p known task, s.thread p = .endpoint known task ∧ Underway task

/-- A job that can still be delivered has blocked recipients alone. -/
def Stranded (s : Pool) : Prop :=
  DeliverableRow s ∧ OnlyBlocked covers s.store.blocks s.store.delivery.recipients

def ProbesBlocked (s : Pool) : Prop :=
  s.store.probing = true ∧
    ∃ x, s.store.sharing.head? = some x ∧ isBlocked covers s.store.blocks x = true

/-- The steps that decide who the recipients of a job are do not leave blocked ones alone, and
those that decide whom a shadow probe picks do not leave it a blocked one. -/
def Careful (s : Pool) (l : Label) (t : Pool) : Prop :=
  match l with
  | .env (.block _) => ¬Stranded covers t ∧ ¬ProbesBlocked covers t
  | .env (.cacheActors _) => ¬ProbesBlocked covers t
  | .env (.delivery (.deleteRemoteActor _)) =>
    ¬((DeliverableRow t ∨ SomeUnderway t) ∧
      OnlyBlocked covers t.store.blocks t.store.delivery.recipients)
  | .env _ => True
  | .act p _ =>
    match s.thread p with
    | .upsertDeliveryJob _ => ¬Stranded covers t
    | _ => True

/-- No request of a run goes to recipients that are all covered by blocks committed before the
run started. -/
def SparesBlocked (s : Pool) (l : Label) : Prop :=
  ∀ p i known task, l = .act p i → s.thread p = .endpoint known task →
    ¬OnlyBlocked covers known (posted i s.store task)

variable {covers}

theorem isBlocked_mono {blocks blocks' : List Block} (h : blocks ⊆ blocks') {actor : String}
    (hb : isBlocked covers blocks actor = true) : isBlocked covers blocks' actor = true := by
  simp only [isBlocked,List.any_eq_true] at hb ⊢
  obtain ⟨b,hm,hc⟩ := hb
  exact ⟨b,h hm,hc⟩

theorem OnlyBlocked.mono {blocks blocks' : List Block} (h : blocks ⊆ blocks')
    {recipients : List String} (ho : OnlyBlocked covers blocks recipients) :
    OnlyBlocked covers blocks' recipients :=
  ⟨ho.1,fun x hx => isBlocked_mono h (ho.2 x hx)⟩

theorem OnlyBlocked.sub {blocks : List Block} {recipients recipients' : List String}
    (h : recipients ⊆ recipients') (hne : recipients ≠ [])
    (ho : OnlyBlocked covers blocks recipients') : OnlyBlocked covers blocks recipients :=
  ⟨hne,fun x hx => ho.2 x (h hx)⟩

structure Spared (covers : Block → String → Bool) (s : Pool) : Prop where
  attributed : Attributed s.store.delivery
  safe : ¬Stranded covers s
  probes : ¬ProbesBlocked covers s
  known : ∀ p known task, s.thread p = .endpoint known task → known ⊆ s.store.blocks
  underway : ∀ p known task, s.thread p = .endpoint known task → Underway task →
    ¬OnlyBlocked covers known s.store.delivery.recipients

theorem probesBlocked_congr {s t : Pool} (hblocks : t.store.blocks = s.store.blocks)
    (hsharing : t.store.sharing = s.store.sharing) (hprobing : t.store.probing = s.store.probing) :
    ProbesBlocked covers t ↔ ProbesBlocked covers s := by
  simp only [ProbesBlocked,hblocks,hsharing,hprobing]

theorem Start.spared {s : Pool} (h : Start s) : Spared covers s where
  attributed r hr := by
    rw [h.row] at hr
    cases hr
  safe hs := by
    obtain ⟨⟨r,hr,_⟩,_⟩ := hs
    rw [h.row] at hr
    cases hr
  probes hb := by
    obtain ⟨_,x,hx,_⟩ := hb
    rw [h.sharing] at hx
    cases hx
  known p known task hp := by
    have he := h.entry p
    rw [hp] at he
    cases he <;> exact List.nil_subset _
  underway p known task hp hu := by
    have he := h.entry p
    rw [hp] at he
    cases he <;> cases hu

section steps

variable {s t : Pool} {p : Nat} {i : Answer}

theorem Spared.next (h : Spared covers s) (hattr : Attributed t.store.delivery)
    (hsafe : ¬Stranded covers t) (hprobes : ¬ProbesBlocked covers t)
    (hblocks : s.store.blocks ⊆ t.store.blocks)
    (hthread : ∀ q known task, t.thread q = .endpoint known task →
      s.thread q = .endpoint known task ∨
        known ⊆ s.store.blocks ∧ (Underway task → ¬OnlyBlocked covers known
          s.store.delivery.recipients))
    (hrec : ∀ known, known ⊆ s.store.blocks → SomeUnderway t →
      ¬OnlyBlocked covers known s.store.delivery.recipients →
        ¬OnlyBlocked covers known t.store.delivery.recipients) : Spared covers t where
  attributed := hattr
  safe := hsafe
  probes := hprobes
  known q known task hq := by
    rcases hthread q known task hq with hq' | ⟨hk,_⟩
    · exact List.Subset.trans (h.known q known task hq') hblocks
    · exact List.Subset.trans hk hblocks
  underway q known task hq hu := by
    rcases hthread q known task hq with hq' | ⟨hk,ho⟩
    · exact hrec known (h.known q known task hq') ⟨q,known,task,hq,hu⟩
        (h.underway q known task hq' hu)
    · exact hrec known hk ⟨q,known,task,hq,hu⟩ (ho hu)

theorem thread_of_update {y : Task} (hy : ∀ known task, y ≠ .endpoint known task) (q : Nat)
    (known : List Block) (task : Delivery.Task)
    (hq : Function.update s.thread p y q = .endpoint known task) :
    s.thread q = .endpoint known task := by
  by_cases hp : q = p
  · subst hp
    rw [Function.update_self] at hq
    exact absurd hq (hy known task)
  · rwa [Function.update_of_ne hp] at hq

theorem Spared.same (h : Spared covers s) {store : Store} {y : Task}
    (hblocks : store.blocks = s.store.blocks)
    (hrow : store.delivery.row = s.store.delivery.row)
    (hrec : store.delivery.recipients = s.store.delivery.recipients)
    (hsharing : store.sharing = s.store.sharing) (hprobing : store.probing = s.store.probing)
    (hy : ∀ known task, y ≠ .endpoint known task) :
    Spared covers ⟨store,Function.update s.thread p y⟩ := by
  refine h.next (fun r hr => ?_) (fun hs => h.safe ?_)
    (fun hb => h.probes ((probesBlocked_congr hblocks hsharing hprobing).mp hb))
    (by rw [hblocks]; exact fun _ h => h)
    (fun q known task hq => .inl (thread_of_update hy q known task hq)) fun known _ _ ho => ?_
  · rw [hrec]
    exact h.attributed r (hrow.symm.trans hr)
  · simpa only [Stranded,DeliverableRow,hrow,hrec,hblocks] using hs
  · rw [hrec]
    exact ho

theorem begins_of_underway {task : Delivery.Task} (h : Underway task) : begins task = false := by
  cases task <;> first | rfl | cases h

theorem Spared.endpoint (h : Spared covers s) {known : List Block}
    {task : Delivery.Task} (hx : s.thread p = .endpoint known task)
    (hi : i.delivery.admissible s.store.delivery.now = true) :
    Spared covers
      ⟨(work covers i p s.store (.endpoint known task)).1,
        Function.update s.thread p (work covers i p s.store (.endpoint known task)).2⟩ := by
  have hrec := work_recipients i.delivery p s.store.delivery task
  have hrow := Delivery.work_row i.delivery p s.store.delivery task hi
  refine h.next (fun r' hr' => ?_) (fun hs => ?_)
    (fun hb => h.probes ((probesBlocked_congr rfl rfl rfl).mp hb)) (List.Subset.refl _)
    (fun q known' task' hq => ?_) fun known _ _ ho => ?_
  · simp only [work,hrec]
    rcases hrow with heq | ⟨r,r₁,hr,hr₁,hw⟩
    · exact h.attributed r' (heq.symm.trans hr')
    · cases hr₁.symm.trans hr'
      rw [attribution_of_write hw]
      exact h.attributed r hr
  · obtain ⟨⟨r',hr',hd⟩,ho⟩ := hs
    simp only [work,hrec] at ho
    refine h.safe ⟨?_,ho⟩
    rcases hrow with heq | ⟨r,r₁,hr,hr₁,hw⟩
    · exact ⟨r',heq.symm.trans hr',hd⟩
    · exact ⟨r,hr,deliverable_of_write hw⟩
  · by_cases hp : q = p
    · subst hp
      right
      simp only [work,Function.update_self,Task.endpoint.injEq] at hq
      obtain ⟨rfl,rfl⟩ := hq
      refine ⟨?_,fun hu => ?_⟩
      · split
        · exact List.Subset.refl _
        · exact h.known q known task hx
      · rcases work_underway hu with hu | ⟨rfl,r,hr,hlive⟩
        · rw [begins_of_underway hu]
          exact h.underway q known task hx hu
        · exact fun ho => h.safe ⟨⟨r,hr,.inl hlive⟩,ho⟩
    · left
      simpa only [Function.update_of_ne hp] using hq
  · simpa only [work,hrec] using ho

theorem Spared.upsert (h : Spared covers s) (recipients : List String)
    (activityId : String) {endpoint : String} {now : Nat}
    (hd : t.store.delivery =
      Delivery.upsertDeliveryJob activityId endpoint recipients now s.store.delivery)
    (hblocks : t.store.blocks = s.store.blocks) (hsharing : t.store.sharing = s.store.sharing)
    (hprobing : t.store.probing = s.store.probing)
    (hthread : t.thread = Function.update s.thread p .selectJob)
    (hsafe : ¬Stranded covers t) : Spared covers t := by
  have hprobes : ¬ProbesBlocked covers t := fun hb =>
    h.probes ((probesBlocked_congr hblocks hsharing hprobing).mp hb)
  have hnext := h.next (t := t)
  simp only [hthread] at hnext
  cases hr : s.store.delivery.row with
  | some r =>
    obtain ⟨hsub,r',hr',hattr⟩ := upsertDeliveryJob_some activityId endpoint recipients
      now h.attributed hr
    have hne := (h.attributed r hr).2
    rw [← hd] at hsub hr'
    refine hnext (fun r₁ hr₁ => ?_) hsafe hprobes (by rw [hblocks]; exact fun _ h => h)
      (fun q known task hq => .inl (thread_of_update (fun _ _ h => by cases h) q known task hq))
      fun known _ _ ho ho' => ho (ho'.sub hsub hne)
    cases hr'.symm.trans hr₁
    exact ⟨hattr,fun hnil => hne (List.subset_nil.mp (hnil ▸ hsub))⟩
  | none =>
    refine hnext (fun r₁ hr₁ => ?_) hsafe hprobes (by rw [hblocks]; exact fun _ h => h)
      (fun q known task hq => .inl (thread_of_update (fun _ _ h => by cases h) q known task hq))
      fun known hk _ ho ho' => ?_
    · rw [hd] at hr₁ ⊢
      rcases upsertDeliveryJob_none activityId endpoint recipients now hr with heq | ⟨hnone,_⟩ | ⟨hnew,hne⟩
      · rw [heq] at hr₁ ⊢
        exact h.attributed r₁ hr₁
      · cases hnone.symm.trans hr₁
      · cases hnew.symm.trans hr₁
        exact ⟨rfl,hne⟩
    · rw [hd] at ho'
      rcases upsertDeliveryJob_none activityId endpoint recipients now hr with heq | ⟨_,hnil⟩ | ⟨hnew,_⟩
      · exact ho (heq ▸ ho')
      · exact ho'.1 hnil
      · refine hsafe ⟨⟨_,hd ▸ hnew,.inl rfl⟩,?_⟩
        rw [hd,hblocks]
        exact ho'.mono hk

theorem Spared.deleteRow (h : Spared covers s) {cond : Delivery.DeliveryRow → Bool}
    (hd : t.store.delivery = Delivery.deleteRow cond s.store.delivery)
    (hblocks : t.store.blocks = s.store.blocks) (hsharing : t.store.sharing = s.store.sharing)
    (hprobing : t.store.probing = s.store.probing) (hthread : t.thread = s.thread) :
    Spared covers t := by
  refine h.next (fun r hr => ?_) (fun hs => ?_)
    (fun hb => h.probes ((probesBlocked_congr hblocks hsharing hprobing).mp hb))
    (by rw [hblocks]; exact fun _ h => h)
    (fun q known task hq => .inl (hthread ▸ hq)) fun known _ _ ho ho' => ?_
  · rw [hd] at hr ⊢
    obtain ⟨hr₀,_,hrec⟩ := deleteRow_some hr
    rw [hrec]
    exact h.attributed r hr₀
  · obtain ⟨⟨r,hr,hdel⟩,ho⟩ := hs
    rw [hd] at hr ho
    obtain ⟨hr₀,_,hrec⟩ := deleteRow_some hr
    rw [hrec,hblocks] at ho
    exact h.safe ⟨⟨r,hr₀,hdel⟩,ho⟩
  · rw [hd] at ho'
    cases hrow : (Delivery.deleteRow cond s.store.delivery).row with
    | none => exact ho'.1 (deleteRow_none hrow)
    | some r =>
      rw [(deleteRow_some hrow).2.2] at ho'
      exact ho ho'

theorem Spared.deleteRemoteActor (h : Spared covers s) {actor : String}
    (hd : t.store.delivery = Delivery.deleteRemoteActor actor s.store.delivery)
    (hblocks : t.store.blocks = s.store.blocks) (hsharing : t.store.sharing = s.store.sharing)
    (hprobing : t.store.probing = s.store.probing) (hthread : t.thread = s.thread)
    (hcareful : ¬((DeliverableRow t ∨ SomeUnderway t) ∧
      OnlyBlocked covers t.store.blocks t.store.delivery.recipients)) :
    Spared covers t := by
  refine h.next (fun r hr => ?_) (fun hs => hcareful ⟨.inl hs.1,hs.2⟩)
    (fun hb => h.probes ((probesBlocked_congr hblocks hsharing hprobing).mp hb))
    (by rw [hblocks]; exact fun _ h => h) (fun q known task hq => .inl (hthread ▸ hq))
    fun known hk hu _ ho' => hcareful ⟨.inr hu,ho'.mono (by rw [hblocks]; exact hk)⟩
  rw [hd] at hr ⊢
  obtain ⟨hr₀,hkept,hrec⟩ := deleteRow_some hr
  have hattr := (h.attributed r hr₀).1
  refine ⟨hattr,fun hnil => ?_⟩
  have hnone : s.store.delivery.recipients.filter (· != actor) = [] := hrec.symm.trans hnil
  simp only [hnone] at hkept
  simp [Delivery.abandoned,hattr] at hkept

theorem Spared.worker (h : Spared covers s)
    (hl : (machine covers).step (.act p i) s = some t) (hc : Careful covers s (.act p i) t) :
    Spared covers t := by
  obtain ⟨ha,rfl⟩ := step_worker.mp hl
  cases hx : s.thread p with
  | endpoint known task =>
    rw [hx] at ha
    simp only [allowed,Delivery.allowed,Bool.and_eq_true] at ha
    exact h.endpoint hx ha.1.1.2
  | upsertDeliveryJob recipients =>
    simp only [Careful,hx] at hc
    exact h.upsert recipients i.activityId rfl rfl rfl rfl rfl hc
  | blockedActors todo allowed =>
    cases todo <;> exact h.same rfl rfl rfl rfl rfl fun _ _ h => by cases h
  | blockedDomains todo allowed =>
    cases todo <;> exact h.same rfl rfl rfl rfl rfl fun _ _ h => by cases h
  | loadActivity recipient =>
    refine h.same rfl rfl rfl rfl rfl fun _ _ h => ?_
    simp only [work] at h
    split at h <;> cases h
  | isRemoteActorTombstoned recipient =>
    refine h.same rfl rfl rfl rfl rfl fun _ _ h => ?_
    simp only [work] at h
    split at h <;> cases h
  | selectJob =>
    refine h.same rfl rfl rfl rfl rfl fun _ _ h => ?_
    simp only [work] at h
    split at h <;> cases h
  | loadActorCache | sendEndpoint | done => exact h.same rfl rfl rfl rfl rfl fun _ _ h => by cases h

theorem Spared.idle (h : Spared covers s)
    (hrow : t.store.delivery.row = s.store.delivery.row)
    (hrec : t.store.delivery.recipients = s.store.delivery.recipients)
    (hblocks : s.store.blocks ⊆ t.store.blocks) (hthread : t.thread = s.thread)
    (hsafe : ¬Stranded covers t) (hprobes : ¬ProbesBlocked covers t) : Spared covers t := by
  refine h.next (fun r hr => ?_) hsafe hprobes hblocks (fun q known task hq => .inl (hthread ▸ hq))
    fun known _ _ ho => ?_
  · rw [hrec]
    exact h.attributed r (hrow.symm.trans hr)
  · rw [hrec]
    exact ho

theorem Spared.keeps (h : Spared covers s) {d : Delivery.Store}
    (hrow : d.row = s.store.delivery.row) (hrec : d.recipients = s.store.delivery.recipients)
    (ht : t = ⟨{ s.store with delivery := d },s.thread⟩) : Spared covers t := by
  subst ht
  refine h.idle hrow hrec (fun _ h => h) rfl (fun hs => h.safe ?_) h.probes
  simpa only [Stranded,DeliverableRow,hrow,hrec] using hs

theorem Spared.event {e : Event} (h : Spared covers s)
    (hl : (machine covers).step (.env e) s = some t) (hc : Careful covers s (.env e) t) :
    Spared covers t := by
  obtain ⟨hp,rfl⟩ := step_event.mp hl
  cases e with
  | block b => exact h.idle rfl rfl (List.subset_cons_self _ _) rfl hc.1 hc.2
  | cacheActors sharing => exact h.idle rfl rfl (fun _ h => h) rfl h.safe hc
  | delivery e =>
    cases e with
    | tick ms => exact h.idle rfl rfl (fun _ h => h) rfl h.safe h.probes
    | upsertDeliveryJob => cases hp
    | purgeTerminal now => exact h.deleteRow rfl rfl rfl rfl rfl
    | deleteActivity => exact h.deleteRow rfl rfl rfl rfl rfl
    | deleteRemoteActor actor => exact h.deleteRemoteActor rfl rfl rfl rfl rfl hc
    | sweepRepairs now => exact h.keeps (Delivery.sendForRow_row _ _ _) (sendForRow_recipients _ _ _) rfl
    | sweepJobs now fresh deferred =>
      exact h.keeps (Delivery.sendForRow_row _ _ _) (sendForRow_recipients _ _ _) rfl
    | handleDlqMessage attempt now =>
      by_cases hm : Delivery.maxReconcileAttempts ≤ attempt
      · exact h.keeps (by simp [Delivery.happen,hm]) (by simp [Delivery.happen,hm]) rfl
      · exact h.keeps (by simp [Delivery.happen,hm])
          (by simp [Delivery.happen,hm,Delivery.Store.send]) rfl

end steps

/-- In the runs whose every step meets the condition, no request of a run goes to recipients
that are all covered by blocks committed before the run started. -/
theorem blocked_receive_nothing {s₀ s t : Pool} {l : Label} (h : Start s₀)
    (hr : (machine covers).ReachesBy (Careful covers) s₀ s)
    (hl : (machine covers).step l s = some t) (hc : Careful covers s l t) :
    SparesBlocked covers s l := by
  have hs : Spared covers s := by
    refine hr.invariant h.spared fun a l b ha hl hc => ?_
    cases l with
    | act p i => exact ha.worker hl hc
    | env e => exact ha.event hl hc
  intro p i known task hlp hx
  subst hlp
  cases task with
  | post job => exact hs.underway p known _ hx trivial
  | shadowProbe job =>
    intro ho
    obtain ⟨ha,_⟩ := step_worker.mp hl
    rw [hx] at ha
    simp only [allowed,probeAllowed,Bool.and_eq_true,Bool.or_eq_true,Bool.not_eq_true'] at ha
    rcases ha.2 with hprobe | hprobing
    · exact ho.1 (by simp [posted,hprobe])
    · obtain ⟨x,hrep⟩ : ∃ x, s.store.sharing.head? = some x := by
        refine Option.ne_none_iff_exists'.mp fun hnone => ho.1 ?_
        simp [posted,hnone]
      cases hprobe : i.delivery.probe.isSome with
      | false => exact ho.1 (by simp [posted,hprobe])
      | true =>
        have hb := ho.2 x (by simp [posted,hprobe,hrep])
        exact hs.probes ⟨hprobing,x,hrep,isBlocked_mono (hs.known p known _ hx) hb⟩
  | _ => exact fun ho => ho.1 rfl

section exact

variable {s t : Pool} {p : Nat} {i : Answer} {known : List Block} {task : Delivery.Task}

/-- Run `p` is at `task`, the recipients are those of `s`, nothing tells the time of the
answers from the clock, and no probe is answered. -/
structure Along (covers : Block → String → Bool) (i : Answer) (p : Nat) (s : Pool)
    (known : List Block) (task : Delivery.Task) (t : Pool) : Prop where
  reaches : (machine covers).Reaches s t
  recipients : t.store.delivery.recipients = s.store.delivery.recipients
  clock : i.delivery.admissible t.store.delivery.now = true
  quiet : i.delivery.probe = none
  thread : t.thread p = .endpoint known task

theorem Along.allowed (h : Along covers i p s known task t) (hne : task ≠ .done)
    (hdelay : Delivery.delayAllowed i.delivery task = true) :
    Defederation.allowed i t.store (t.thread p) = true := by
  have hprobe : probeAllowed i t.store task = true := by
    cases task <;> simp [probeAllowed,h.quiet]
  rw [h.thread]
  simp [Defederation.allowed,Delivery.allowed,hne,hdelay,h.clock,hprobe]

theorem Along.next (h : Along covers i p s known task t) (hne : task ≠ .done)
    (hdelay : Delivery.delayAllowed i.delivery task = true) :
    ∃ u, Along covers i p s (if begins task then t.store.blocks else known)
        (Delivery.work i.delivery p t.store.delivery task).2 u ∧
      u.store.delivery = (Delivery.work i.delivery p t.store.delivery task).1 ∧
        u.store.blocks = t.store.blocks := by
  have hallowed := h.allowed hne hdelay
  refine ⟨_,⟨h.reaches.trans (Machine.Reaches.single (step_worker.mpr ⟨hallowed,rfl⟩)),?_,?_,
    h.quiet,?_⟩,?_,?_⟩
  · simp only [h.thread,work,work_recipients]
    exact h.recipients
  · simp only [h.thread,work,Delivery.work_now]
    exact h.clock
  · simp only [h.thread,work,Function.update_self]
  · simp only [h.thread,work]
  · simp only [h.thread,work]

/-- The condition leaves out nothing harmless: a live job with blocked recipients alone is
delivered to them by a run that is still to start. -/
theorem stranded_receives {r : Delivery.DeliveryRow} (hr : s.store.delivery.row = some r)
    (live : r.status.terminal = false) (started : Recovery.Started r)
    (ho : OnlyBlocked covers s.store.blocks s.store.delivery.recipients)
    (hx : s.thread p = .endpoint known .select) :
    ∃ t l, (machine covers).Reaches s t ∧ ((machine covers).step l t).isSome = true ∧
      ¬SparesBlocked covers t l := by
  have hwakes := started.wakes live
  let now := s.store.delivery.now + Recovery.endpointTime r
  let i : Answer := ⟨{ first := now, second := now, third := now },true,[],"","",0⟩
  have hnow : Recovery.endpointTime r ≤ i.delivery.first := Nat.le_add_left _ _
  let s₁ : Pool := ⟨happen (.delivery (.tick (Recovery.endpointTime r))) s.store,s.thread⟩
  have h₁ : Along covers i p s known .select s₁ :=
    ⟨Machine.Reaches.single (step_event.mpr ⟨rfl,rfl⟩),rfl,by simp [Delivery.Answer.admissible,s₁,happen,
      Delivery.happen,i,now],rfl,hx⟩
  obtain ⟨job,hjob,hselect⟩ := hwakes.reaches i.delivery p s₁.store.delivery hr rfl rfl hnow
    (Nat.le_refl _)
  obtain ⟨s₂,h₂,hd₂,_⟩ := h₁.next (by simp) rfl
  rw [hselect] at h₂
  obtain ⟨s₃,h₃,hd₃,_⟩ := h₂.next (by simp) rfl
  have hr₃ : s₃.store.delivery.row = some r := by
    rw [hd₃,hd₂]
    exact hr
  obtain ⟨s₄,h₄,_⟩ := h₃.next (by simp [Delivery.work,i]) rfl
  have hclaim := hwakes.claims job i.delivery p s₃.store.delivery hjob hr₃ hnow (Nat.le_refl _)
  rw [show (Delivery.work i.delivery p s₂.store.delivery (.checkCircuit job)).2 = .claim job
    from rfl,hclaim] at h₄
  obtain ⟨s₅,h₅,_⟩ := h₄.next (by simp) rfl
  obtain ⟨s₆,h₆,_⟩ := h₅.next (by simp [Delivery.work,i]) rfl
  refine ⟨s₆,.act p i,h₆.reaches,?_,fun hspares => hspares p i _ _ rfl h₆.thread ?_⟩
  · exact Option.isSome_iff_exists.mpr ⟨_,step_worker.mpr
      ⟨h₆.allowed (by simp [Delivery.work,i]) rfl,rfl⟩⟩
  · change OnlyBlocked covers s.store.blocks s₆.store.delivery.recipients
    rw [h₆.recipients]
    exact ho

end exact

def sameActor : Block → String → Bool
  | .actor apId, actor => apId == actor
  | .domain _, _ => false

def evil : String := "https://evil.example/users/x"

def neighbour : String := "https://evil.example/users/y"

def planner (recipients : List String) : Pool where
  store := { delivery := ⟨0,none,[],[],[],[],[]⟩, blocks := [], probing := true }
  thread p := if p = 0 then .blockedActors recipients [] else .endpoint [] .select

theorem start_planner (recipients : List String) : Start (planner recipients) where
  row := rfl
  recipients := rfl
  sharing := rfl
  entry p := by
    by_cases hp : p = 0
    · simp only [planner,hp,if_true]
      exact .planEndpointsFromActorCache _
    · simp only [planner,hp,if_false]
      exact .select

def Unblocked (_ : Pool) (_ : Label) (t : Pool) : Prop :=
  ¬OnlyBlocked sameActor t.store.blocks t.store.delivery.recipients ∧
    t.store.sharing.head?.all (fun x => !isBlocked sameActor t.store.blocks x) = true

instance (s : Pool) (l : Label) (t : Pool) : Decidable (Unblocked s l t) :=
  inferInstanceAs (Decidable (¬(_ ∧ _) ∧ _))

theorem Unblocked.careful {s t : Pool} {l : Label} (hu : Unblocked s l t) :
    Careful sameActor s l t := by
  obtain ⟨h,hall⟩ := hu
  have hp : ¬ProbesBlocked sameActor t := by
    rintro ⟨_,x,hx,hb⟩
    simp [hx,hb] at hall
  cases l with
  | act p i =>
    simp only [Careful]
    split
    · exact fun hs => h hs.2
    · trivial
  | env e =>
    cases e with
    | block b => exact ⟨fun hs => h hs.2,hp⟩
    | cacheActors sharing => exact hp
    | delivery e =>
      cases e with
      | deleteRemoteActor actor => exact fun hs => h hs.2
      | _ => trivial

def sharedInbox (recipients : List String) : Answer :=
  ⟨{},true,recipients,"https://local.example/activities/1","https://evil.example/inbox",0⟩

/-- One of two recipients is blocked once the job is there, and both are cached with its
inbox; run 1 starts after that. -/
def sharedRun : List Label :=
  let act p : Label := .act p (sharedInbox [evil,neighbour])
  [act 0,act 0,act 0,act 0,act 0,act 0,act 0,act 0,.env (.block (.actor evil)),
    .env (.cacheActors [neighbour,evil]),act 1,act 1,act 1,act 1,act 1]

def sharedPool : Pool :=
  ((machine sameActor).runBy Unblocked sharedRun (planner [evil,neighbour])).getD
    (planner [evil,neighbour])

def sharedPosts : List String :=
  match sharedPool.thread 1 with
  | .endpoint _ task => posted (sharedInbox []) sharedPool.store task
  | _ => []

theorem blocked_receive_nothing_sharedPool : sharedPosts = [evil,neighbour] ∧
      SparesBlocked sameActor sharedPool (.act 1 (sharedInbox [])) := by
  have hstep : ((machine sameActor).step (.act 1 (sharedInbox [])) sharedPool).all
      (fun t => decide (Unblocked sharedPool (.act 1 (sharedInbox [])) t)) = true ∧
      ((machine sameActor).step (.act 1 (sharedInbox [])) sharedPool).isSome = true := by decide
  obtain ⟨t,ht⟩ := Option.isSome_iff_exists.mp hstep.2
  rw [ht] at hstep
  have hrun : ((machine sameActor).runBy Unblocked sharedRun
      (planner [evil,neighbour])).isSome = true := by decide
  exact ⟨by decide,blocked_receive_nothing (start_planner _)
    ((Machine.reachesBy_runBy hrun).mono fun _ _ _ h => h.careful) ht
    (of_decide_eq_true hstep.1 : Unblocked _ _ t).careful⟩

/-- The recipient is blocked once the job is there; run 1 starts after that. -/
def blockedRun : List Label :=
  let act p : Label := .act p (sharedInbox [evil])
  [act 0,act 0,act 0,act 0,act 0,act 0,.env (.block (.actor evil)),act 1,act 1,act 1,act 1,act 1]

/-- Run 1 posts to the inbox of a blocked actor. -/
theorem blocked_receives : ¬∀ covers s₀ s t l, Start s₀ → (machine covers).Reaches s₀ s →
    (machine covers).step l s = some t → SparesBlocked covers s l := by
  intro h
  have hrun : ((machine sameActor).run blockedRun (planner [evil])).map (fun s =>
      (match s.thread 1 with
        | .endpoint known (.post _) => some known
        | _ => none,s.store.delivery.recipients)) = some (some [.actor evil],[evil]) := by
    decide
  obtain ⟨s,hs,hx⟩ := Option.map_eq_some_iff.mp hrun
  obtain ⟨hthread,hrec⟩ := Prod.mk.inj hx
  have hpost : ∃ job, s.thread 1 = .endpoint [.actor evil] (.post job) := by
    split at hthread
    · rename_i known job hp
      cases hthread
      exact ⟨job,hp⟩
    · cases hthread
  obtain ⟨job,hpost⟩ := hpost
  let i := sharedInbox [evil]
  have hstep : ∃ t, (machine sameActor).step (.act 1 i) s = some t := by
    refine ⟨_,step_worker.mpr ⟨?_,rfl⟩⟩
    rw [hpost]
    simp [allowed,Delivery.allowed,Delivery.Answer.admissible,Delivery.delayAllowed,probeAllowed,
      i,sharedInbox]
  obtain ⟨t,hstep⟩ := hstep
  refine h sameActor (planner [evil]) s t _ (start_planner _) (.of_run hs) hstep 1 i _ _ rfl hpost ?_
  rw [posted,hrec]
  exact ⟨by simp,by simp [isBlocked,sameActor]⟩

end Yurucommu.Defederation
