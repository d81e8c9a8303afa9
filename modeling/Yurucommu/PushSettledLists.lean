import Yurucommu.PushSettled

/-!
The list of a push job, and what its runs gather of it: whoever has neither had a final answer nor
been removed is on it, and whoever on it has had one, the job has not been written since.
-/

set_option autoImplicit false

namespace Yurucommu.PushSettled

open PushJob (Dispatch GatewayResult JobRow Knows Worker Write leased
  maxNotificationPushAttempts recoverable seen stale)

abbrev Label := Threads.Label Input Event

section promise

structure Settled (s : Store) : Prop where
  once : s.repeated = []
  pending : ∀ r ids, s.job.row = some r → r.status ≠ .processing → r.pendingPusherIds = some ids →
    (∀ id ∈ ids, id ∈ s.owned ∧ id ∉ s.answered) ∧
      (s.withdrawn = false → ∀ id ∈ s.owned, id ∉ s.answered → id ∉ s.removed → id ∈ ids)
  unstarted : ∀ r, s.job.row = some r → r.pendingPusherIds = none → s.answered = []
  delivered : ∀ r, s.job.row = some r → r.status = .delivered → s.withdrawn = false →
    ∀ id ∈ s.owned, id ∈ s.answered ∨ id ∈ s.removed
  failed : ∀ r, s.job.row = some r → r.status = .failed → maxNotificationPushAttempts ≤ r.attempts

def Allows (i : Input) (p : Nat) (s : Store) : Worker → Prop
  | .send _ _ _ _ => Statement.hits (leased p) s.job.row = true ∧
      (i.call.delivered.result = none → i.call.delivered.answered = [])
  | .selectPending _ _ => s.present.length ≤ maxNotificationPushDispatch
  | .reclaim job _ => Statement.hits (seen job) s.job.row = true → s.unsaved = []
  | .reclaimStale _ cutoffAt => Statement.hits (stale cutoffAt) s.job.row = true → s.unsaved = []
  | .recover _ => Statement.hits recoverable s.job.row = true → s.unsaved = []
  | _ => True

def Meets (s : Pool) : Label → Pool → Prop
  | .act p i, _ => Allows i p s.store (s.thread p)
  | .env _, _ => True

end promise

section calls

variable {call : Call}

/-- What a call that is not cut short settles, and for whom it asks again. -/
structure Fits (ids : List String) (d : Delivered) : Prop where
  sent : ∀ id ∈ d.sent, id ∈ ids
  answered : ∀ id ∈ d.answered, id ∈ ids
  retry : ∀ result, d.result = some result → ∀ id, id ∈ result.retryIds ↔
    id ∈ ids ∧ id ∉ d.answered

theorem mem_idsOf_filter {pushers : List Pusher} {f : Pusher → Bool} {id : String}
    (h : id ∈ idsOf (pushers.filter f)) : id ∈ idsOf pushers := by
  obtain ⟨row,hrow,rfl⟩ := List.mem_map.mp h
  exact List.mem_map.mpr ⟨row,List.mem_of_mem_filter hrow,rfl⟩

theorem mem_idsOf_iff {pushers : List Pusher} (h : (idsOf pushers).Nodup) {f : Pusher → Bool}
    {id : String} : id ∈ idsOf (pushers.filter f) ↔
      id ∈ idsOf pushers ∧ id ∉ idsOf (pushers.filter fun row => !f row) := by
  constructor
  · intro hid
    refine ⟨mem_idsOf_filter hid,fun hno => ?_⟩
    obtain ⟨row,hrow,rfl⟩ := List.mem_map.mp hid
    obtain ⟨other,hother,heq⟩ := List.mem_map.mp hno
    obtain ⟨hin,hf⟩ := List.mem_filter.mp hrow
    obtain ⟨hin',hf'⟩ := List.mem_filter.mp hother
    obtain rfl := List.inj_on_of_nodup_map h hin' hin heq
    rw [hf] at hf'
    cases hf'
  · rintro ⟨hid,hno⟩
    obtain ⟨row,hrow,rfl⟩ := List.mem_map.mp hid
    cases hf : f row with
    | true => exact List.mem_map.mpr ⟨row,List.mem_filter.mpr ⟨hrow,hf⟩,rfl⟩
    | false =>
      refine absurd (List.mem_map.mpr ⟨row,List.mem_filter.mpr ⟨hrow,?_⟩,rfl⟩) hno
      rw [hf]
      rfl

theorem fits_gateway (c : GatewayCall) (h : (idsOf c.pushers).Nodup) :
    Fits (idsOf c.pushers) (deliverGatewayGroup c) := by
  have hlive : (idsOf (c.pushers.filter (·.live))).Nodup :=
    h.sublist (List.filter_sublist.map _)
  have hask : ∀ error seconds, Fits (idsOf c.pushers)
      ⟨some ⟨idsOf (c.pushers.filter (·.live)),seconds,error⟩,idsOf (c.pushers.filter (·.live)),
        idsOf (c.pushers.filter fun row => !row.live)⟩ := by
    intro error seconds
    refine ⟨fun id hid => mem_idsOf_filter hid,fun id hid => mem_idsOf_filter hid,?_⟩
    intro result hresult id
    cases hresult
    exact mem_idsOf_iff h
  have hanswered : ∀ b : GatewayBody, ∀ id,
      id ∈ idsOf ((c.pushers.filter (·.live)).filter b.retries) ↔ id ∈ idsOf c.pushers ∧
        id ∉ idsOf (c.pushers.filter fun row => !row.live) ++
          idsOf ((c.pushers.filter (·.live)).filter fun row => !b.retries row) := by
    intro b id
    rw [mem_idsOf_iff hlive,mem_idsOf_iff h,List.mem_append,not_or,and_assoc]
  have hin : ∀ b : GatewayBody, ∀ id ∈ idsOf (c.pushers.filter fun row => !row.live) ++
      idsOf ((c.pushers.filter (·.live)).filter fun row => !b.retries row),
        id ∈ idsOf c.pushers := by
    intro b id hid
    rcases List.mem_append.mp hid with hid | hid
    · exact mem_idsOf_filter hid
    · exact mem_idsOf_filter (mem_idsOf_filter hid)
  unfold deliverGatewayGroup
  split
  · refine ⟨fun _ hid => (by cases hid),fun _ hid => hid,fun result hresult id => ?_⟩
    cases hresult
    exact ⟨fun hid => (by cases hid),fun hid => absurd hid.1 hid.2⟩
  · split
    · exact ⟨fun _ hid => (by cases hid),fun _ hid => (by cases hid),
        fun _ hresult => (by cases hresult)⟩
    · dsimp only
      split
      · rename_i hnone
        refine ⟨fun _ hid => (by cases hid),fun _ hid => mem_idsOf_filter hid,?_⟩
        intro result hresult id
        cases hresult
        rw [← mem_idsOf_iff h,hnone]
        exact Iff.rfl
      · split
        · exact hask _ _
        · split
          · exact hask _ _
          · split
            · refine ⟨fun _ hid => mem_idsOf_filter hid,fun id hid => ?_,?_⟩
              · rcases List.mem_append.mp hid with hid | hid <;> exact mem_idsOf_filter hid
              · intro result hresult id
                cases hresult
                refine ⟨fun hid => (by cases hid),fun hid => ?_⟩
                have hboth := hid.2
                rw [List.mem_append,not_or] at hboth
                exact absurd ((mem_idsOf_iff h).mpr ⟨hid.1,hboth.1⟩) hboth.2
            · split
              · exact hask _ _
              · split
                · exact ⟨fun _ hid => mem_idsOf_filter hid,hin _,
                    fun _ hresult => (by cases hresult)⟩
                · refine ⟨fun _ hid => mem_idsOf_filter hid,hin _,?_⟩
                  intro result hresult id
                  cases hresult
                  exact hanswered _ id

theorem fits_webPush (id : String) (c : WebPushCall) : Fits [id] (deliverWebPushPusher id c) := by
  cases c with
  | throws sent =>
    cases sent <;> exact ⟨by simp [deliverWebPushPusher],by simp [deliverWebPushPusher],
      fun _ h => (by cases h)⟩
  | gone deleteThrows =>
    cases deleteThrows with
    | true =>
      exact ⟨by simp [deliverWebPushPusher],by simp [deliverWebPushPusher],fun _ h => (by cases h)⟩
    | false =>
      refine ⟨by simp [deliverWebPushPusher],by simp [deliverWebPushPusher],fun _ h => ?_⟩
      cases h
      simp [deliverWebPushPusher]
  | _ =>
    refine ⟨by simp [deliverWebPushPusher],by simp [deliverWebPushPusher],fun _ h => ?_⟩
    cases h
    simp [deliverWebPushPusher]

theorem fits_delivered (h : call.ids.Nodup) : Fits call.ids call.delivered := by
  cases call with
  | gateway c => exact fits_gateway c h
  | webPush id c => exact fits_webPush id c

end calls

section lists

variable {s s' : Store} {ids todo batch : List String} {d : Dispatch} {r : JobRow}

/-- Who has neither had a final answer nor been removed is on the list. Whoever on it has had one,
the job has not been written since. -/
structure Lists (s : Store) (ids : List String) : Prop where
  owned : ∀ id ∈ ids, id ∈ s.owned
  answered : ∀ id ∈ ids, id ∈ s.answered → id ∈ s.unsaved
  complete : s.withdrawn = false → ∀ id ∈ s.owned, id ∉ s.answered → id ∉ s.removed → id ∈ ids

structure Listed (s : Store) (r : JobRow) : Prop where
  none : r.pendingPusherIds = none → s.answered = []
  some : ∀ ids, r.pendingPusherIds = some ids → Lists s ids

def Closed (s : Store) : Prop :=
  s.withdrawn = false → ∀ id ∈ s.owned, id ∈ s.answered ∨ id ∈ s.removed

structure Narrowed (s : Store) (remaining : Option (List String)) : Prop where
  none : remaining = none → s.unsaved = []
  some : ∀ ids, remaining = some ids → Lists s ids ∧ ∀ id ∈ ids, id ∉ s.answered

/-- What a run has gathered, with the pushers that are still to be sent to. -/
structure Gathered (s : Store) (d : Dispatch) (todo : List String) : Prop where
  lists : Lists s d.dispatchIds
  unsaved : ∀ id ∈ s.unsaved, id ∈ d.settled
  sound : ∀ id ∈ d.settled, id ∈ s.answered ∨ id ∈ s.removed
  complete : ∀ id ∈ d.dispatchIds, id ∈ s.answered → id ∈ d.settled
  retry : ∀ id ∈ d.retryIds, id ∈ d.dispatchIds ∧ id ∉ s.answered
  nodup : todo.Nodup
  ahead : ∀ id ∈ todo, id ∈ d.dispatchIds ∧ id ∉ d.settled ∧ id ∉ d.retryIds
  cover : ∀ id ∈ d.dispatchIds, id ∈ d.settled ∨ id ∈ d.retryIds ∨ id ∈ todo

structure Frame (s s' : Store) : Prop where
  owned : s'.owned = s.owned
  answered : s'.answered = s.answered
  unsaved : s'.unsaved = s.unsaved
  removed : s.removed ⊆ s'.removed
  withdrawn : s.withdrawn = true → s'.withdrawn = true

theorem Frame.eligible (h : Frame s s') (hw : s'.withdrawn = false) : s.withdrawn = false := by
  cases hs : s.withdrawn with
  | false => rfl
  | true =>
    rw [h.withdrawn hs] at hw
    cases hw

theorem Lists.frame (h : Lists s ids) (hf : Frame s s') : Lists s' ids := by
  refine ⟨?_,?_,fun hw id hid hno hrem => ?_⟩
  · rw [hf.owned]
    exact h.owned
  · rw [hf.answered,hf.unsaved]
    exact h.answered
  · rw [hf.owned] at hid
    rw [hf.answered] at hno
    exact h.complete (hf.eligible hw) id hid hno fun hin => hrem (hf.removed hin)

theorem Listed.frame (h : Listed s r) (hf : Frame s s') : Listed s' r := by
  refine ⟨fun hr => ?_,fun ids hr => (h.some ids hr).frame hf⟩
  rw [hf.answered]
  exact h.none hr

theorem Closed.frame (h : Closed s) (hf : Frame s s') : Closed s' := by
  intro hw id hid
  rw [hf.owned] at hid
  rw [hf.answered]
  exact (h (hf.eligible hw) id hid).imp_right fun hin => hf.removed hin

theorem Narrowed.frame {remaining : Option (List String)} (h : Narrowed s remaining)
    (hf : Frame s s') : Narrowed s' remaining := by
  refine ⟨fun hr => ?_,fun ids hr => ⟨(h.some ids hr).1.frame hf,?_⟩⟩
  · rw [hf.unsaved]
    exact h.none hr
  · rw [hf.answered]
    exact (h.some ids hr).2

theorem Gathered.frame (h : Gathered s d todo) (hf : Frame s s') : Gathered s' d todo := by
  refine ⟨h.lists.frame hf,?_,fun id hid => ?_,?_,?_,h.nodup,h.ahead,h.cover⟩
  · rw [hf.unsaved]
    exact h.unsaved
  · rw [hf.answered]
    exact (h.sound id hid).imp_right fun hin => hf.removed hin
  · rw [hf.answered]
    exact h.complete
  · rw [hf.answered]
    exact h.retry

theorem Gathered.unanswered (h : Gathered s d todo) {id : String} (hid : id ∈ todo) :
    id ∉ s.answered := by
  obtain ⟨hin,hno,_⟩ := h.ahead id hid
  exact fun ha => hno (h.complete id hin ha)

theorem Gathered.narrowed (h : Gathered s d todo) : Narrowed s d.remaining := by
  unfold Dispatch.remaining
  refine ⟨fun hr => ?_,fun ids hr => ?_⟩
  · split at hr
    · rename_i hnil
      refine List.eq_nil_iff_forall_not_mem.mpr fun id hid => ?_
      have hin := h.unsaved id hid
      rw [hnil] at hin
      cases hin
    · cases hr
  · split at hr
    · cases hr
    · cases hr
      have hmem : ∀ id, id ∈ d.dispatchIds.filter (· ∉ d.settled) ↔
          id ∈ d.dispatchIds ∧ id ∉ d.settled := by
        intro id
        rw [List.mem_filter,decide_eq_true_eq]
      have hno : ∀ id ∈ d.dispatchIds.filter (· ∉ d.settled), id ∉ s.answered := by
        intro id hid ha
        obtain ⟨hin,hns⟩ := (hmem id).mp hid
        exact hns (h.complete id hin ha)
      refine ⟨⟨fun id hid => h.lists.owned id ((hmem id).mp hid).1,
        fun id hid ha => absurd ha (hno id hid),fun hw id hid ha hrem => ?_⟩,hno⟩
      refine (hmem id).mpr ⟨h.lists.complete hw id hid ha hrem,fun hset => ?_⟩
      rcases h.sound id hset with hin | hin
      · exact ha hin
      · exact hrem hin

theorem Gathered.closed (h : Gathered s d []) (hretry : d.retryIds = []) : Closed s := by
  intro hw id hid
  by_contra hno
  rw [not_or] at hno
  have hin := h.lists.complete hw id hid hno.1 hno.2
  rcases h.cover id hin with hset | hr | ht
  · rcases h.sound id hset with ha | hrem
    · exact hno.1 ha
    · exact hno.2 hrem
  · rw [hretry] at hr
    cases hr
  · cases ht

theorem Gathered.again (h : Gathered s d []) :
    Lists s d.retryIds.eraseDups ∧ ∀ id ∈ d.retryIds.eraseDups, id ∉ s.answered := by
  have hno : ∀ id ∈ d.retryIds.eraseDups, id ∉ s.answered := fun id hid =>
    (h.retry id (List.mem_eraseDups.mp hid)).2
  refine ⟨⟨fun id hid => ?_,fun id hid ha => absurd ha (hno id hid),
    fun hw id hid ha hrem => List.mem_eraseDups.mpr ?_⟩,hno⟩
  · exact h.lists.owned id (h.retry id (List.mem_eraseDups.mp hid)).1
  · rcases h.cover id (h.lists.complete hw id hid ha hrem) with hset | hr | ht
    · rcases h.sound id hset with hin | hin
      · exact absurd hin ha
      · exact absurd hin hrem
    · exact hr
    · cases ht

theorem Gathered.record {rest : List String} {outcome : GatewayResult} {answered : List String}
    (h : Gathered s d (ids ++ rest)) (hin : ∀ id ∈ answered, id ∈ ids)
    (hretry : ∀ id, id ∈ outcome.retryIds ↔ id ∈ ids ∧ id ∉ answered) :
    Gathered { s with answered := answered ++ s.answered, unsaved := answered ++ s.unsaved }
      (d.record ids outcome) rest := by
  have hids : ∀ id ∈ ids, id ∈ ids ++ rest := fun id hid => List.mem_append_left _ hid
  have hsettled : ∀ id, id ∈ (d.record ids outcome).settled ↔
      id ∈ d.settled ∨ (id ∈ ids ∧ id ∈ answered) := by
    intro id
    change id ∈ d.settled ++ ids.filter (· ∉ outcome.retryIds) ↔ _
    rw [List.mem_append,List.mem_filter,decide_eq_true_eq,hretry]
    constructor
    · rintro (hset | ⟨hid,hno⟩)
      · exact Or.inl hset
      · exact Or.inr ⟨hid,by_contra fun ha => hno ⟨hid,ha⟩⟩
    · rintro (hset | ⟨hid,ha⟩)
      · exact Or.inl hset
      · exact Or.inr ⟨hid,fun hno => hno.2 ha⟩
  have hagain : ∀ id, id ∈ (d.record ids outcome).retryIds ↔
      id ∈ d.retryIds ∨ (id ∈ ids ∧ id ∉ answered) := by
    intro id
    change id ∈ d.retryIds ++ outcome.retryIds ↔ _
    rw [List.mem_append,hretry]
  obtain ⟨_,hrest,hdisjoint⟩ := List.nodup_append.mp h.nodup
  refine ⟨⟨h.lists.owned,fun id hid ha => ?_,fun hw id hid ha hrem => ?_⟩,fun id hid => ?_,
    fun id hid => ?_,fun id hid ha => ?_,fun id hid => ?_,hrest,fun id hid => ?_,fun id hid => ?_⟩
  · rcases List.mem_append.mp ha with ha | ha
    · exact List.mem_append_left _ ha
    · exact List.mem_append_right _ (h.lists.answered id hid ha)
  · rw [List.mem_append,not_or] at ha
    exact h.lists.complete hw id hid ha.2 hrem
  · rcases List.mem_append.mp hid with hid | hid
    · exact (hsettled id).mpr (Or.inr ⟨hin id hid,hid⟩)
    · exact (hsettled id).mpr (Or.inl (h.unsaved id hid))
  · rcases (hsettled id).mp hid with hset | ⟨_,ha⟩
    · exact (h.sound id hset).imp_left fun ha => List.mem_append_right _ ha
    · exact Or.inl (List.mem_append_left _ ha)
  · rcases List.mem_append.mp ha with ha | ha
    · exact (hsettled id).mpr (Or.inr ⟨hin id ha,ha⟩)
    · exact (hsettled id).mpr (Or.inl (h.complete id hid ha))
  · rcases (hagain id).mp hid with hr | ⟨hid,hno⟩
    · obtain ⟨hdispatch,ha⟩ := h.retry id hr
      refine ⟨hdispatch,fun hin' => ?_⟩
      rcases List.mem_append.mp hin' with hnew | hold
      · exact (h.ahead id (hids id (hin id hnew))).2.2 hr
      · exact ha hold
    · refine ⟨(h.ahead id (hids id hid)).1,fun hin' => ?_⟩
      rcases List.mem_append.mp hin' with hnew | hold
      · exact hno hnew
      · exact h.unanswered (hids id hid) hold
  · obtain ⟨hdispatch,hset,hr⟩ := h.ahead id (List.mem_append_right _ hid)
    refine ⟨hdispatch,fun hs' => ?_,fun hr' => ?_⟩
    · rcases (hsettled id).mp hs' with hs' | ⟨hid',_⟩
      · exact hset hs'
      · exact hdisjoint id hid' id hid rfl
    · rcases (hagain id).mp hr' with hr' | ⟨hid',_⟩
      · exact hr hr'
      · exact hdisjoint id hid' id hid rfl
  · rcases h.cover id hid with hset | hr | ht
    · exact Or.inl ((hsettled id).mpr (Or.inl hset))
    · exact Or.inr (Or.inl ((hagain id).mpr (Or.inl hr)))
    · rcases List.mem_append.mp ht with ht | ht
      · by_cases ha : id ∈ answered
        · exact Or.inl ((hsettled id).mpr (Or.inr ⟨ht,ha⟩))
        · exact Or.inr (Or.inl ((hagain id).mpr (Or.inr ⟨ht,ha⟩)))
      · exact Or.inr (Or.inr ht)

theorem Gathered.thrown {rest : List String} {error : String} (h : Gathered s d (ids ++ rest)) :
    Gathered s (d.record ids (PushJob.thrown ids error)) rest := by
  have hrecord : Gathered { s with answered := [] ++ s.answered, unsaved := [] ++ s.unsaved }
      (d.record ids (PushJob.thrown ids error)) rest :=
    h.record (fun _ hid => (by cases hid)) fun id =>
      ⟨fun hid => ⟨hid,fun hno => (by cases hno)⟩,fun hid => hid.1⟩
  exact hrecord

end lists

section states

variable {s s' : Store} {p q : Nat} {r : JobRow} {x : Worker} {i : Input}

structure Kept (s : Store) : Prop where
  once : s.repeated = []
  current : ∀ r, s.job.row = some r → r ∈ s.rows
  versions : ∀ a ∈ s.rows, a.version ∈ s.job.versions
  listed : ∀ r, s.job.row = some r → ∀ a ∈ s.rows, a.status = r.status →
    a.updatedAt = r.updatedAt → Listed s a
  persisted : ∀ a ∈ s.rows, a.pendingPusherIds ≠ none → ∀ r, s.job.row = some r →
    r.pendingPusherIds ≠ none
  idle : ∀ r, s.job.row = some r → r.status ≠ .processing → s.unsaved = []
  delivered : ∀ r, s.job.row = some r → r.status = .delivered → r.pendingPusherIds = some []
  failed : ∀ r, s.job.row = some r → r.status = .failed → maxNotificationPushAttempts ≤ r.attempts

def Aware (s : Store) : Worker → Prop
  | .reclaim job _ => job ∈ s.rows ∧ job.status = .processing
  | .claim job _ => job.status ≠ .processing ∧
      (∀ r, s.job.row = some r → seen job r = true → Listed s job) ∧
      (job.pendingPusherIds ≠ none → ∀ r, s.job.row = some r → r.pendingPusherIds ≠ none)
  | _ => True

def Ready (s : Store) (r : JobRow) : Worker → Prop
  | .loadPushEvent job n => s.unsaved = [] ∧ r.updatedAt = n ∧ Listed s job ∧
      (job.pendingPusherIds ≠ none → r.pendingPusherIds ≠ none)
  | .selectPending _ n => s.unsaved = [] ∧ r.updatedAt = n ∧ s.answered = []
  | .persistPending _ n ids => s.unsaved = [] ∧ r.updatedAt = n ∧ s.answered = [] ∧ Lists s ids
  | .selectPushers _ d => s.unsaved = [] ∧ r.pendingPusherIds ≠ none ∧ Lists s d.dispatchIds ∧
      d = .start d.dispatchIds
  | .unreadCount _ d web groups => s.unsaved = [] ∧ r.pendingPusherIds ≠ none ∧
      Lists s d.dispatchIds ∧ d = .start d.dispatchIds ∧ (web ++ groups.flatten).Nodup ∧
      (∀ id ∈ web ++ groups.flatten, id ∈ d.dispatchIds) ∧
      ∀ id ∈ d.dispatchIds, id ∈ s.removed ∨ id ∈ web ++ groups.flatten
  | .buildContent _ d web groups => r.pendingPusherIds ≠ none ∧
      Gathered s d (web ++ groups.flatten)
  | .refresh _ d ids rest _ => r.pendingPusherIds ≠ none ∧ Gathered s d (ids ++ rest.flatten)
  | .send _ d ids rest => r.pendingPusherIds ≠ none ∧ Gathered s d (ids ++ rest.flatten) ∧
      ∀ a ∈ s.rows, a.status = r.status → a.updatedAt = r.updatedAt → a.pendingPusherIds ≠ none
  | .finish _ d _ _ => Closed s ∧ Narrowed s d.remaining
  | .retry _ d _ _ => Gathered s d []
  | .caught _ remaining _ _ _ => Narrowed s remaining
  | _ => True

structure Ok (p : Nat) (s : Store) (x : Worker) : Prop where
  knows : Knows p s.job x
  aware : Aware s x
  ready : ∀ r, s.job.row = some r → leased p r = true → Ready s r x

theorem Kept.settled (h : Kept s) : Settled s := by
  have hcurrent : ∀ r, s.job.row = some r → Listed s r := fun r hr =>
    h.listed r hr r (h.current r hr) rfl rfl
  refine ⟨h.once,fun r ids hr hs hids => ?_,fun r hr hnone => (hcurrent r hr).none hnone,
    fun r hr hd hw id hid => ?_,h.failed⟩
  · have hlists := (hcurrent r hr).some ids hids
    refine ⟨fun id hid => ⟨hlists.owned id hid,fun ha => ?_⟩,hlists.complete⟩
    have hin := hlists.answered id hid ha
    rw [h.idle r hr hs] at hin
    cases hin
  · have hlists := (hcurrent r hr).some [] (h.delivered r hr hd)
    by_contra hno
    rw [not_or] at hno
    cases hlists.complete hw id hid hno.1 hno.2

theorem Ready.frame (h : Ready s r x) (hf : Frame s s')
    (hrows : ∀ a ∈ s'.rows, a ∈ s.rows ∨ a = r) : Ready s' r x := by
  cases x with
  | loadPushEvent job n => exact ⟨hf.unsaved ▸ h.1,h.2.1,h.2.2.1.frame hf,h.2.2.2⟩
  | selectPending job n => exact ⟨hf.unsaved ▸ h.1,h.2.1,hf.answered ▸ h.2.2⟩
  | persistPending job n ids =>
    exact ⟨hf.unsaved ▸ h.1,h.2.1,hf.answered ▸ h.2.2.1,h.2.2.2.frame hf⟩
  | selectPushers job d => exact ⟨hf.unsaved ▸ h.1,h.2.1,h.2.2.1.frame hf,h.2.2.2⟩
  | unreadCount job d web groups =>
    obtain ⟨hu,hp,hl,hd,hn,hin,hrem⟩ := h
    exact ⟨hf.unsaved ▸ hu,hp,hl.frame hf,hd,hn,hin,fun id hid =>
      (hrem id hid).imp_left fun hr => hf.removed hr⟩
  | buildContent job d web groups => exact ⟨h.1,h.2.frame hf⟩
  | refresh job d ids rest n => exact ⟨h.1,h.2.frame hf⟩
  | send job d ids rest =>
    refine ⟨h.1,h.2.1.frame hf,fun a ha hs hu => ?_⟩
    rcases hrows a ha with ha | rfl
    · exact h.2.2 a ha hs hu
    · exact h.1
  | finish job d e n => exact ⟨h.1.frame hf,h.2.frame hf⟩
  | retry job d readAt n => exact Gathered.frame h hf
  | caught job remaining e readAt n => exact Narrowed.frame h hf
  | _ => trivial

theorem flatten_web (web : List String) (groups : List (List String)) :
    (web.map ([·]) ++ groups).flatten = web ++ groups.flatten := by
  induction web with
  | nil => rfl
  | cons id web ih =>
    rw [List.map_cons,List.cons_append,List.flatten_cons,ih]
    rfl

theorem ready_nextCall {job : JobRow} {d : PushJob.Dispatch} {batches : List (List String)}
    (hp : r.pendingPusherIds ≠ none) (h : Gathered s d batches.flatten) :
    Ready s r (PushJob.nextCall i.answer job d batches) := by
  cases batches with
  | nil =>
    change Ready s r (PushJob.conclude i.answer job d)
    unfold PushJob.conclude
    by_cases hretry : d.retryIds = []
    · rw [if_pos hretry]
      exact ⟨h.closed hretry,h.narrowed⟩
    · rw [if_neg hretry]
      exact h
  | cons ids rest => exact ⟨hp,h⟩

theorem aware_nextCall {job : JobRow} {d : PushJob.Dispatch} (batches : List (List String)) :
    Aware s (PushJob.nextCall i.answer job d batches) := by
  cases batches with
  | nil =>
    change Aware s (PushJob.conclude i.answer job d)
    unfold PushJob.conclude
    by_cases hretry : d.retryIds = []
    · rw [if_pos hretry]
      trivial
    · rw [if_neg hretry]
      trivial
  | cons ids rest => trivial

theorem narrowed_start {ids : List String} (h : s.unsaved = []) :
    Narrowed s (PushJob.Dispatch.start ids).remaining :=
  ⟨fun _ => h,fun _ hr => (by cases hr)⟩

theorem ready_dispatch {job : JobRow} {ids : List String} (hu : s.unsaved = [])
    (hp : r.pendingPusherIds ≠ none) (hl : Lists s ids) :
    Ready s r (PushJob.dispatch i.answer job ids) := by
  unfold PushJob.dispatch
  split
  · rename_i hnil
    subst hnil
    refine ⟨fun hw id hid => ?_,narrowed_start hu⟩
    by_contra hno
    rw [not_or] at hno
    cases hl.complete hw id hid hno.1 hno.2
  · exact ⟨hu,hp,hl,rfl⟩

theorem aware_dispatch {job : JobRow} (ids : List String) :
    Aware s (PushJob.dispatch i.answer job ids) := by
  unfold PushJob.dispatch
  split <;> trivial

theorem persisted_write {row row' : Option JobRow} {r' : JobRow} (h : Write p row x row')
    (hr' : row' = some r') (hr : row = some r) (hp : r.pendingPusherIds ≠ none) :
    r'.pendingPusherIds ≠ none := by
  cases h with
  | same =>
    cases hr.symm.trans hr'
    exact hp
  | persist h | finish h =>
    cases hr'
    intro hnone
    cases hnone
  | retry h | caught h =>
    cases hr'
    cases hr.symm.trans h
    intro hnone
    rw [PushJob.retry,Option.or_eq_none_iff] at hnone
    exact hp hnone.2
  | reclaim h | claim h | refresh h | recover h | reclaimStale h | mark h =>
    cases hr'
    cases hr.symm.trans h
    exact hp

theorem Kept.still (h : Kept s) (hjob : s'.job.row = s.job.row)
    (hversions : ∀ v ∈ s.job.versions, v ∈ s'.job.versions)
    (hrows : s'.rows = s.job.row.toList ++ s.rows) (honce : s'.repeated = [])
    (hlisted : ∀ r, s.job.row = some r → ∀ a ∈ s.rows, a.status = r.status →
      a.updatedAt = r.updatedAt → Listed s a → Listed s' a)
    (hidle : ∀ r, s.job.row = some r → r.status ≠ .processing → s'.unsaved = []) : Kept s' := by
  have hmem : ∀ a ∈ s'.rows, a ∈ s.rows := by
    intro a ha
    rw [hrows,List.mem_append,Option.mem_toList] at ha
    rcases ha with ha | ha
    · exact h.current a ha
    · exact ha
  refine ⟨honce,fun r hr => ?_,fun a ha => hversions _ (h.versions a (hmem a ha)),
    fun r hr a ha hs hu => ?_,fun a ha hp r hr => ?_,fun r hr => ?_,fun r hr => ?_,fun r hr => ?_⟩
  all_goals rw [hjob] at hr
  · rw [hrows]
    exact List.mem_append_right _ (h.current r hr)
  · exact hlisted r hr a (hmem a ha) hs hu (h.listed r hr a (hmem a ha) hs hu)
  · exact h.persisted a (hmem a ha) hp r hr
  · exact hidle r hr
  · exact h.delivered r hr
  · exact h.failed r hr

theorem Kept.write {r' : JobRow} (h : Kept s) (hjob : s'.job.row = some r')
    (hversions : s'.job.versions = r'.version :: s.job.versions)
    (hrows : s'.rows = r' :: s.rows) (honce : s'.repeated = [])
    (hlisted : Listed s' r')
    (hmatch : ∀ a ∈ s.rows, a.status = r'.status → a.updatedAt = r'.updatedAt → Listed s' a)
    (hpersisted : ∀ a ∈ s.rows, a.pendingPusherIds ≠ none → r'.pendingPusherIds ≠ none)
    (hidle : r'.status ≠ .processing → s'.unsaved = [])
    (hdelivered : r'.status = .delivered → r'.pendingPusherIds = some [])
    (hfailed : r'.status = .failed → maxNotificationPushAttempts ≤ r'.attempts) : Kept s' := by
  have hrow : ∀ r, s'.job.row = some r → r' = r := by
    intro r hr
    exact Option.some.inj (hjob.symm.trans hr)
  refine ⟨honce,fun r hr => ?_,fun a ha => ?_,fun r hr a ha hs hu => ?_,fun a ha hp r hr => ?_,
    fun r hr => ?_,fun r hr => ?_,fun r hr => ?_⟩
  · rw [hrows,hrow r hr]
    exact List.mem_cons_self
  · rw [hversions]
    rw [hrows] at ha
    rcases List.mem_cons.mp ha with rfl | ha
    · exact List.mem_cons_self
    · exact List.mem_cons_of_mem _ (h.versions a ha)
  · obtain rfl := hrow r hr
    rw [hrows] at ha
    rcases List.mem_cons.mp ha with rfl | ha
    · exact hlisted
    · exact hmatch a ha hs hu
  · obtain rfl := hrow r hr
    rw [hrows] at ha
    rcases List.mem_cons.mp ha with rfl | ha
    · exact hp
    · exact hpersisted a ha hp
  · exact hrow r hr ▸ hidle
  · exact hrow r hr ▸ hdelivered
  · exact hrow r hr ▸ hfailed

end states

end Yurucommu.PushSettled
