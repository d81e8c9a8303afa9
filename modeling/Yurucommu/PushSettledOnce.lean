import Yurucommu.PushSettledSteps
import Yurucommu.MachineTrace

/-!
A pusher whose answer was final is not sent the notification again, and the list of a job that no
run holds is that of the pushers without one, as long as the job is not taken over from a run whose
answers have not been written, and no exception hides them.
-/

set_option autoImplicit false

namespace Yurucommu.PushSettled

open PushJob (JobRow Recorded Knows Worker Write leased maxNotificationPushAttempts seen)

section others

variable {s s' : Store} {p q : Nat} {r : JobRow} {x z : Worker} {i : Input}

/-- A run that does not hold the row neither sends nor writes its answers. -/
theorem frame_record (hm : Allows i p s x) (h : Statement.hits (leased p) s.job.row = false) :
    Frame s (record i p s x) := by
  have hwrites : ∀ t, (if !i.answer.fails && Statement.hits (leased p) s.job.row
      then saved t else t) = t := by
    intro t
    rw [h,Bool.and_false]
    rfl
  cases x with
  | send job d ids rest =>
    rw [hm.1] at h
    cases h
  | loadPushEvent job n =>
    exact ⟨rfl,rfl,rfl,List.Subset.refl _,fun hw => by simp [record,hw]⟩
  | finish job d e n | retry job d readAt n | caught job remaining e readAt n =>
    change Frame s (if _ then saved s else s)
    rw [hwrites]
    exact Frame.refl s
  | _ => exact Frame.refl s

theorem row_of_seen {job : JobRow} {row' : Option JobRow} (hJ : Knows p s.job x)
    (hfound : job.version ∈ s.job.versions) (hstatus : job.status ≠ .processing)
    (hw : Write p s.job.row x row') (hr : row' = some r) (hseen : seen job r = true) :
    row' = s.job.row := by
  simp only [seen,Bool.and_eq_true,decide_eq_true_eq] at hseen
  have hfresh : ∀ n, PushJob.Fresh p n s.job → r.updatedAt = n → False := by
    intro n hf hn
    exact hf.2 _ hfound (hseen.2.symm.trans hn)
  cases hw with
  | same => rfl
  | persist h hl =>
    cases hr
    exact absurd (hseen.1.symm.trans (PushJob.leased_iff.mp hl).1) hstatus
  | reclaim | claim | refresh | finish | retry | caught =>
    cases hr
    exact (hfresh _ hJ.2 rfl).elim
  | recover | reclaimStale =>
    cases hr
    exact (hfresh _ hJ rfl).elim
  | mark =>
    cases hr
    exact absurd hseen.1.symm (hJ.2 _ hfound hseen.2.symm)

theorem Ok.other (hok : Ok p s x) (hz : Ok q s z) (hpq : p ≠ q) (hm : Allows i p s x)
    (hknows : Knows q (work i p s x).1.job z) : Ok q (work i p s x).1 z := by
  have hw : Write p s.job.row x (work i p s x).1.job.row :=
    PushJob.advance_write i.answer p s.job.row x
  have hframe : Statement.hits (leased p) s.job.row = false → Frame s (work i p s x).1 := by
    intro h
    have hf := frame_record hm h
    exact ⟨hf.1,hf.2,hf.3,hf.4,hf.5⟩
  refine ⟨hknows,?_,fun r hr hl => ?_⟩
  · cases z with
    | reclaim job n => exact ⟨mem_rows_work hz.aware.1,hz.aware.2⟩
    | claim job n =>
      obtain ⟨hstatus,hlisted,hpersisted⟩ := hz.aware
      refine ⟨hstatus,fun r hr hseen => ?_,fun hp r hr => ?_⟩
      · have hsame := row_of_seen hok.knows hz.knows.1.1 hstatus hw hr hseen
        have hr' : s.job.row = some r := hsame.symm.trans hr
        refine (hlisted r hr' hseen).frame (hframe ?_)
        rw [Bool.eq_false_iff]
        intro hhit
        obtain ⟨r',hr'',hl⟩ := Statement.hits_iff.mp hhit
        obtain rfl := Option.some.inj (hr'.symm.trans hr'')
        simp only [seen,Bool.and_eq_true,decide_eq_true_eq] at hseen
        exact hstatus (hseen.1.symm.trans (PushJob.leased_iff.mp hl).1)
      · obtain ⟨r',hr'⟩ := hw.some_of_some hr
        exact persisted_write hw hr hr' (hpersisted hp r' hr')
    | _ => trivial
  · have hr' := hw.row_of_token hpq hr (PushJob.leased_iff.mp hl).2
    refine (hz.ready r hr' hl).frame (hframe ?_) fun a ha => ?_
    · rw [Bool.eq_false_iff]
      intro hhit
      obtain ⟨r',hr'',hl'⟩ := Statement.hits_iff.mp hhit
      obtain rfl := Option.some.inj (hr'.symm.trans hr'')
      have htoken := (PushJob.leased_iff.mp hl).2.symm.trans (PushJob.leased_iff.mp hl').2
      exact hpq (Option.some.inj htoken).symm
    · rcases List.mem_append.mp ha with ha | ha
      · exact Or.inr (Option.some.inj (hr.symm.trans (Option.mem_toList.mp ha))).symm
      · exact Or.inl ha

theorem Kept.frame (h : Kept s) (hf : Frame s s') (hrow : s'.job.row = s.job.row)
    (hversions : s'.job.versions = s.job.versions) (hrows : s'.rows = s.rows)
    (honce : s'.repeated = s.repeated) : Kept s' := by
  refine ⟨honce.trans h.once,?_,?_,fun r hr a ha hs hu => ?_,?_,?_,?_,?_⟩
  · rw [hrow,hrows]
    exact h.current
  · rw [hversions,hrows]
    exact h.versions
  · rw [hrow] at hr
    rw [hrows] at ha
    exact (h.listed r hr a ha hs hu).frame hf
  · rw [hrow,hrows]
    exact h.persisted
  · rw [hrow,hf.unsaved]
    exact h.idle
  · rw [hrow]
    exact h.delivered
  · rw [hrow]
    exact h.failed

theorem Ok.frame (hz : Ok q s z) (hf : Frame s s') (hrow : s'.job.row = s.job.row)
    (hrows : s'.rows = s.rows) (hknows : Knows q s'.job z) : Ok q s' z := by
  refine ⟨hknows,hz.aware.frame hf hrow (fun a ha => hrows ▸ ha),fun r hr hl => ?_⟩
  rw [hrow] at hr
  exact (hz.ready r hr hl).frame hf fun a ha => Or.inl (hrows ▸ ha)

theorem Kept.deleted (h : Kept s) : Kept (happen .delete s) := by
  refine ⟨h.once,?_,h.versions,?_,fun a ha hp => ?_,?_,?_,?_⟩
  all_goals
    intro r hr
    cases hr

theorem Ok.deleted (hz : Ok q s z) (hknows : Knows q (happen .delete s).job z) :
    Ok q (happen .delete s) z := by
  refine ⟨hknows,?_,fun r hr => (by cases hr)⟩
  cases z with
  | reclaim job n => exact hz.aware
  | claim job n => exact ⟨hz.aware.1,fun r hr => (by cases hr),fun _ r hr => (by cases hr)⟩
  | _ => trivial

end others

section runs

structure Safe (s : Store) : Prop where
  recorded : Recorded s.job
  kept : Kept s

theorem happen_job (e : Event) (s : Store) : ∃ e', PushJob.threads.env e' s.job =
    some (happen e s).job := by
  cases e with
  | tick ms => exact ⟨.tick ms,rfl⟩
  | delete => exact ⟨.delete,rfl⟩
  | remove id => exact ⟨.tick 0,rfl⟩

theorem safe_step {s t : Pool} {l : Label} (hs : Threads.Holds Safe Ok s)
    (hl : threads.machine.step l s = some t) (hm : Meets s l t) : Threads.Holds Safe Ok t := by
  obtain ⟨⟨hrecorded,hkept⟩,hok⟩ := hs
  cases l with
  | act p i =>
    obtain ⟨ha,rfl⟩ := Threads.guarded_step_act.mp hl
    have hjob : PushJob.threads.next i.answer p s.store.job (s.thread p) =
        some ((work i p s.store (s.thread p)).1.job,(work i p s.store (s.thread p)).2) :=
      Threads.guarded_next.mpr ⟨(Bool.and_eq_true_iff.mp ha).1,rfl⟩
    have hown := own_work hkept (hok p) ha hm
    obtain ⟨hrec,hknows⟩ := PushJob.stable.own _ _ _ _ _ _ hrecorded (hok p).knows hjob
    refine ⟨⟨hrec,hown.kept⟩,fun q => ?_⟩
    by_cases hq : q = p
    · subst hq
      dsimp only
      rw [Function.update_self]
      exact ⟨hknows,hown.aware,hown.ready⟩
    · dsimp only
      rw [Function.update_of_ne hq]
      have hother := PushJob.stable.other _ _ _ _ _ _ _ _ hrecorded (hok p).knows (hok q).knows
        (Ne.symm hq) hjob
      exact (hok p).other (hok q) (Ne.symm hq) hm hother
  | env e =>
    obtain ⟨_,rfl⟩ := Threads.guarded_step_env.mp hl
    obtain ⟨e',hjob⟩ := happen_job e s.store
    obtain ⟨hrec,hknows⟩ := PushJob.stable.env _ _ _ hrecorded hjob
    cases e with
    | tick ms =>
      have hframe : Frame s.store (happen (.tick ms) s.store) :=
        ⟨rfl,rfl,rfl,List.Subset.refl _,id⟩
      exact ⟨⟨hrec,hkept.frame hframe rfl rfl rfl rfl⟩,
        fun q => (hok q).frame hframe rfl rfl (hknows q _ (hok q).knows)⟩
    | delete =>
      exact ⟨⟨hrec,hkept.deleted⟩,fun q => (hok q).deleted (hknows q _ (hok q).knows)⟩
    | remove id =>
      have hframe : Frame s.store (happen (.remove id) s.store) :=
        ⟨rfl,rfl,rfl,List.subset_cons_self _ _,fun h => h⟩
      exact ⟨⟨hrec,hkept.frame hframe rfl rfl rfl rfl⟩,
        fun q => (hok q).frame hframe rfl rfl (hknows q _ (hok q).knows)⟩

theorem ok_entry {p : Nat} {s : Store} {x : Worker} (h : x.Entry) : Ok p s x := by
  cases h with
  | select | recoverDeadLettered | sweep => exact ⟨trivial,trivial,fun _ _ _ => trivial⟩

theorem safe_created (now : Nat) (owned : List String) {entries : Nat → Worker}
    (h : ∀ p, (entries p).Entry) : Threads.Holds Safe Ok (created now owned entries) := by
  have hrow : ∀ r, (created now owned entries).store.job.row = some r → r = PushJob.newRow now := by
    intro r hr
    exact (Option.some.inj hr).symm
  have hrows : ∀ a ∈ (created now owned entries).store.rows, a = PushJob.newRow now := by
    intro a ha
    exact List.mem_singleton.mp ha
  refine ⟨⟨⟨?_,?_,?_,?_,?_,?_⟩,rfl,?_,?_,?_,?_,?_,?_,?_⟩,fun p => ?_⟩
  · intro e he
    cases he
  · intro n p q hn
    cases hn
  · intro v hv
    rw [List.mem_singleton.mp hv]
    exact Nat.le_refl _
  · intro v hv v' hv' _ _
    rw [List.mem_singleton.mp hv,List.mem_singleton.mp hv']
  · intro r hr
    rw [hrow r hr]
    exact List.mem_singleton_self _
  · intro r hr hm
    rw [hrow r hr] at hm
    simp [PushJob.newRow,maxNotificationPushAttempts] at hm
  · intro r hr
    rw [hrow r hr]
    exact List.mem_singleton_self _
  · intro a ha
    rw [hrows a ha]
    exact List.mem_singleton_self _
  · intro r _ a ha _ _
    rw [hrows a ha]
    exact ⟨fun _ => rfl,fun ids hids => (by cases hids)⟩
  · intro a ha hp
    rw [hrows a ha] at hp
    exact absurd rfl hp
  · intro r _ _
    rfl
  · intro r hr hd
    rw [hrow r hr] at hd
    cases hd
  · intro r hr hd
    rw [hrow r hr] at hd
    cases hd
  · exact ok_entry (h p)

theorem pushers_settled {now : Nat} {owned : List String} {entries : Nat → Worker} {s : Pool}
    (hentries : ∀ p, (entries p).Entry)
    (h : threads.machine.ReachesBy Meets (created now owned entries) s) : Settled s.store :=
  (h.invariant (safe_created now owned hentries)
    fun _ _ _ hs hl hm => safe_step hs hl hm).1.kept.settled

end runs

section results

instance (i : Input) (p : Nat) (s : Store) : (x : Worker) → Decidable (Allows i p s x)
  | .send _ _ _ _ => inferInstanceAs (Decidable (_ ∧ _))
  | .selectPending _ _ => inferInstanceAs (Decidable (_ ≤ _))
  | .reclaim _ _ | .reclaimStale _ _ | .recover _ => inferInstanceAs (Decidable (_ → _))
  | .select | .claim _ _ | .loadPushEvent _ _ | .persistPending _ _ _ | .selectPushers _ _
  | .unreadCount _ _ _ _ | .buildContent _ _ _ _ | .refresh _ _ _ _ _ | .finish _ _ _ _
  | .retry _ _ _ _ | .caught _ _ _ _ _ | .recoverDeadLettered | .sweep | .selectDue _
  | .sendBatch _ | .mark _ | .done => inferInstanceAs (Decidable True)

instance (s : Pool) : (l : Label) → (t : Pool) → Decidable (Meets s l t)
  | .act p i, _ => inferInstanceAs (Decidable (Allows i p s.store (s.thread p)))
  | .env _, _ => inferInstanceAs (Decidable True)

def step (p now : Nat) : Label := .act p { answer := { first := now, second := now + 1 } }

/-- A run of the job comes to a call for the two pushers, whose gateway answers. -/
def attempt (p now : Nat) (found : List Label) (call : GatewayCall) : List Label :=
  [step p now,step p (now + 2),step p (now + 4)] ++ found ++
    [.act p { answer := { first := now + 10, second := now + 11, groups := [idsOf call.pushers] } },
      step p (now + 12),step p (now + 14),
      .act p { answer := { first := now + 16, second := now + 17,
                           result := (deliverGatewayGroup call).result.getD ⟨[],0,none⟩,
                           fails := (deliverGatewayGroup call).result.isNone },
               call := .gateway call },
      step p (now + 18)]

def twoPushers : Nat → Pool := fun now => created now ["first","second"] fun _ => .select

def asked (response : GatewayBody) (deleteThrows : Bool) : GatewayCall :=
  ⟨true,[⟨"first","one",true⟩,⟨"second","two",true⟩],false,.received 200 0 (some response),
    deleteThrows⟩

def listing (now : Nat) : List Label :=
  [.act 0 { answer := { first := now, second := now + 1, pusherIds := ["first","second"] } },
    step 0 (now + 2)]

/-- The gateway rejects the one and accepts the other, the deletion throws, and both are sent to
again. -/
def resend : List Label :=
  attempt 0 1 (listing 7) (asked ⟨["one"],[],[]⟩ true) ++
    attempt 1 60000 [] (asked ⟨[],[],[]⟩ false)

def resent : Pool := (threads.machine.run resend (twoPushers 0)).getD (twoPushers 0)

theorem final_answer_repeated : ¬∀ (now : Nat) (owned : List String) (entries : Nat → Worker)
    (s : Pool), (∀ p, (entries p).Entry) →
      threads.machine.Reaches (created now owned entries) s → s.store.repeated = [] := by
  intro h
  have hreach : threads.machine.Reaches (twoPushers 0) resent :=
    Machine.reaches_run (by decide +kernel)
  have hno := h 0 _ _ _ (fun _ => .select) hreach
  revert hno
  decide +kernel

def askedAgain : List Label :=
  attempt 0 1 (listing 7) (asked ⟨[],["two"],[]⟩ false) ++
    attempt 1 60000 [] ⟨true,[⟨"second","two",true⟩],false,.received 200 0 (some ⟨[],[],[]⟩),false⟩

theorem pushers_settled_again : ∃ s : Pool, Settled s.store ∧
    s.store.answered = ["second","first"] ∧ (s.store.job.row.map (·.status)) = some .delivered :=
  ⟨(threads.machine.runBy Meets askedAgain (twoPushers 0)).getD (twoPushers 0),
    pushers_settled (fun _ => .select) (Machine.reachesBy_runBy (by decide +kernel)),
    by decide +kernel,by decide +kernel⟩

end results

end Yurucommu.PushSettled
