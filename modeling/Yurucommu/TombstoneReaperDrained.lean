import Yurucommu.TombstoneReaper

/-!
A pass deletes an actor or empties a key only where no work is left that can still lead to a
delivery, exactly when no dead letter of the activities waits for its reconciliation.
-/

set_option autoImplicit false

namespace Yurucommu.TombstoneReaper

section promise

variable (activityWhere : Activity → Bool)

def Delivery.waits (r : Delivery) : Bool := r.status = .deadLetter && r.dlqPending

/-- Some work for the activities can still lead to a delivery. -/
def owed (d : Db) : Bool :=
  let ids := targetActivityIds activityWhere d
  (d.deliveryQueue.any fun r => ids.contains r.activityApId && (r.active || r.waits)) ||
    (d.deliveryResolutions.any fun r => ids.contains r.activityApId && r.active) ||
      d.deliveryFanouts.any fun r => r.ofActivities ids && r.active

def deadLetterOwed (d : Db) : Bool :=
  let ids := targetActivityIds activityWhere d
  d.deliveryQueue.any fun r => ids.contains r.activityApId && r.waits

structure ActorRight (cutoff : Int) (c : Candidate) (d d' : Db) : Prop where
  drained : d'.actors ≠ d.actors → owed (deleteActivityWhere c.apId) d = false
  untouched : owed (deleteActivityWhere c.apId) d = true → d' = d
  tombstoned : ∀ a ∈ d.actors, a ∉ d'.actors →
    a.apId = c.apId ∧ (a.deletedAt.any fun deletedAt => deletedBefore deletedAt cutoff) = true ∧
      reserved d a.apId = false

structure CommunityRight (apId : String) (d d' : Db) : Prop where
  drained : d'.communities ≠ d.communities → owed (groupActivityWhere apId) d = false
  untouched : owed (groupActivityWhere apId) d = true → d' = d

def StepRight (stage : Stage) (d d' : Db) : Prop :=
  match stage with
  | .actors cutoff (c :: _) => ActorRight cutoff c d d'
  | .communities _ (apId :: _) => CommunityRight apId d d'
  | _ => d' = d

/-- When it does: where the guard lets a batch through, no dead letter of its activities waits. -/
def Holds (stage : Stage) (d : Db) : Prop :=
  match stage with
  | .actors cutoff (c :: _) => actorGuard cutoff c d = true →
      deadLetterOwed (deleteActivityWhere c.apId) d = false
  | .communities _ (apId :: _) => communityGuard apId d = true →
      deadLetterOwed (groupActivityWhere apId) d = false
  | _ => True

end promise

section batches

variable {activityWhere : Activity → Bool} {d d' : Db} {cutoff : Int} {c : Candidate}
  {apId : String}

/-- What the statements of a cascade do to the tables of the guard. -/
structure Shrinks (d d' : Db) : Prop where
  actors : d'.actors = d.actors
  communities : d'.communities = d.communities
  accountDeletionTargets : d'.accountDeletionTargets = d.accountDeletionTargets
  activities : d'.activities ⊆ d.activities
  deliveryQueue : d'.deliveryQueue ⊆ d.deliveryQueue
  deliveryResolutions : d'.deliveryResolutions ⊆ d.deliveryResolutions
  deliveryFanouts : d'.deliveryFanouts ⊆ d.deliveryFanouts

theorem Shrinks.refl (d : Db) : Shrinks d d :=
  ⟨rfl,rfl,rfl,List.Subset.refl _,List.Subset.refl _,List.Subset.refl _,List.Subset.refl _⟩

theorem Shrinks.trans {a b c : Db} (h : Shrinks a b) (k : Shrinks b c) : Shrinks a c :=
  ⟨k.actors.trans h.actors,k.communities.trans h.communities,
    k.accountDeletionTargets.trans h.accountDeletionTargets,
    List.Subset.trans k.activities h.activities,
    List.Subset.trans k.deliveryQueue h.deliveryQueue,
    List.Subset.trans k.deliveryResolutions h.deliveryResolutions,
    List.Subset.trans k.deliveryFanouts h.deliveryFanouts⟩

theorem shrinks_statement {f : Db → Db} (hf : f ∈ activityDeleteCascadeStatements activityWhere)
    (d : Db) : Shrinks d (f d) := by
  have hrefl := Shrinks.refl d
  simp only [activityDeleteCascadeStatements,projectionDeletes,List.cons_append,List.nil_append,
    List.mem_cons,List.not_mem_nil,or_false] at hf
  rcases hf with rfl | rfl | rfl | rfl | rfl | rfl | rfl | rfl | rfl
  · exact { hrefl with }
  · exact { hrefl with }
  · exact { hrefl with }
  · exact { hrefl with deliveryQueue := List.filter_subset_self _ }
  · exact { hrefl with deliveryResolutions := List.filter_subset_self _ }
  · exact { hrefl with deliveryFanouts := List.filter_subset_self _ }
  · exact { hrefl with deliveryFanouts := List.filter_subset_self _ }
  · exact { hrefl with }
  · exact { hrefl with activities := List.filter_subset_self _ }

theorem targetActivityIds_subset (h : Shrinks d d') :
    targetActivityIds activityWhere d' ⊆ targetActivityIds activityWhere d := by
  intro id hid
  obtain ⟨a,ha,rfl⟩ := List.mem_map.mp hid
  rw [List.mem_filter] at ha
  exact List.mem_map.mpr ⟨a,List.mem_filter.mpr ⟨h.activities ha.1,ha.2⟩,rfl⟩

theorem Fanout.ofActivities_mono {r : Fanout} {ids ids' : List String} (h : ids ⊆ ids')
    (hr : r.ofActivities ids = true) : r.ofActivities ids' = true := by
  simp only [Fanout.ofActivities,Bool.or_eq_true,List.contains_iff_mem,Option.any_eq_true] at hr ⊢
  exact hr.imp (fun hin => h hin) fun ⟨id,hid,hin⟩ => ⟨id,hid,h hin⟩

theorem drained_mono (h : Shrinks d d')
    (hd : activityDeliveryDrainedGuard activityWhere d = true) :
    activityDeliveryDrainedGuard activityWhere d' = true := by
  have hids : targetActivityIds activityWhere d' ⊆ targetActivityIds activityWhere d :=
    targetActivityIds_subset h
  simp only [activityDeliveryDrainedGuard,Bool.and_eq_true,Bool.not_eq_true',List.any_eq_false,
    List.contains_iff_mem,not_and] at hd ⊢
  obtain ⟨⟨hqueue,hresolutions⟩,hfanouts⟩ := hd
  refine ⟨⟨fun r hr hin => ?_,fun r hr hin => ?_⟩,fun r hr hin => ?_⟩
  · exact hqueue r (h.deliveryQueue hr) (hids hin)
  · exact hresolutions r (h.deliveryResolutions hr) (hids hin)
  · exact hfanouts r (h.deliveryFanouts hr) (Fanout.ofActivities_mono hids hin)

theorem actorGuard_mono (h : Shrinks d d') (hd : actorGuard cutoff c d = true) :
    actorGuard cutoff c d' = true := by
  rw [actorGuard,Bool.and_eq_true] at hd ⊢
  refine ⟨drained_mono h hd.1,?_⟩
  unfold incarnationStillReapable reserved
  rw [h.actors,h.accountDeletionTargets]
  exact hd.2

theorem shrinks_cascade (d : Db) :
    Shrinks d (Batch.run (activityDeleteCascadeStatements activityWhere) d) :=
  Batch.run_related Shrinks.refl (fun _ _ _ => Shrinks.trans) fun _ hf d => shrinks_statement hf d

theorem activities_cascade (d : Db) :
    (Batch.run (activityDeleteCascadeStatements activityWhere) d).activities =
      d.activities.filter fun a => !activityWhere a := rfl

theorem reapActor_of_false (h : actorGuard cutoff c d = false) : reapActor cutoff c d = d :=
  Batch.run_guarded_of_false h

theorem reapActor_of_true (h : actorGuard cutoff c d = true) : reapActor cutoff c d =
    actorDelete cutoff c
      (Batch.run (activityDeleteCascadeStatements (deleteActivityWhere c.apId)) d) :=
  Batch.run_guarded_snoc h fun _ hf _ hd => actorGuard_mono (shrinks_statement hf _) hd

theorem scrubCommunity_of_false (h : communityGuard apId d = false) :
    scrubCommunity cutoff apId d = d := Batch.run_guarded_of_false h

theorem scrubCommunity_of_true (h : communityGuard apId d = true) :
    scrubCommunity cutoff apId d = keyScrub cutoff apId
      (Batch.run (activityDeleteCascadeStatements (groupActivityWhere apId)) d) :=
  Batch.run_guarded_snoc h fun _ hf _ hd => drained_mono (shrinks_statement hf _) hd

/-- Work that is owed is work that the guard sees, or a dead letter that waits. -/
theorem owed_eq_false : owed activityWhere d = false ↔
    activityDeliveryDrainedGuard activityWhere d = true ∧
      deadLetterOwed activityWhere d = false := by
  simp only [owed,activityDeliveryDrainedGuard,deadLetterOwed,Bool.or_eq_false_iff,
    Bool.and_eq_true,Bool.not_eq_true',List.any_eq_false,Bool.or_eq_true,not_and,not_or]
  constructor
  · rintro ⟨⟨hqueue,hresolutions⟩,hfanouts⟩
    exact ⟨⟨⟨fun r hr hin => (hqueue r hr hin).1,hresolutions⟩,hfanouts⟩,
      fun r hr hin => (hqueue r hr hin).2⟩
  · rintro ⟨⟨⟨hqueue,hresolutions⟩,hfanouts⟩,hdead⟩
    exact ⟨⟨fun r hr hin => ⟨hqueue r hr hin,hdead r hr hin⟩,hresolutions⟩,hfanouts⟩

theorem cascade_ne (h : deadLetterOwed activityWhere d = true) :
    (Batch.run (activityDeleteCascadeStatements activityWhere) d).activities ≠ d.activities := by
  intro heq
  obtain ⟨r,_,hr⟩ := List.any_eq_true.mp h
  rw [Bool.and_eq_true,List.contains_iff_mem] at hr
  obtain ⟨a,ha,_⟩ := List.mem_map.mp hr.1
  rw [List.mem_filter] at ha
  rw [activities_cascade] at heq
  have hkept := ha.1
  rw [← heq,List.mem_filter,ha.2] at hkept
  cases hkept.2

theorem owed_of_deadLetter (h : deadLetterOwed activityWhere d = true) :
    owed activityWhere d = true := by
  by_contra hno
  rw [Bool.not_eq_true,owed_eq_false,h] at hno
  cases hno.2

theorem actor_right_iff : ActorRight cutoff c d (reapActor cutoff c d) ↔
    (actorGuard cutoff c d = true → deadLetterOwed (deleteActivityWhere c.apId) d = false) := by
  cases hguard : actorGuard cutoff c d with
  | false =>
    rw [reapActor_of_false hguard]
    constructor
    · intro _ hno
      cases hno
    · intro _
      exact ⟨fun hno => absurd rfl hno,fun _ => rfl,fun a ha hno => absurd ha hno⟩
  | true =>
    rw [reapActor_of_true hguard]
    constructor
    · intro hright _
      by_contra hdead
      rw [Bool.not_eq_false] at hdead
      have hsame := hright.untouched (owed_of_deadLetter hdead)
      exact cascade_ne hdead (congrArg Db.activities hsame :)
    · intro hdead
      have hclear : owed (deleteActivityWhere c.apId) d = false := by
        rw [actorGuard,Bool.and_eq_true] at hguard
        exact owed_eq_false.mpr ⟨hguard.1,hdead rfl⟩
      refine ⟨fun _ => hclear,fun howed => ?_,fun a ha hno => ?_⟩
      · rw [hclear] at howed
        cases howed
      · have hmatches : c.matches_ cutoff a = true := by
          by_contra hkeep
          refine hno (List.mem_filter.mpr ⟨?_,by simpa using hkeep⟩)
          rw [(shrinks_cascade d).actors]
          exact ha
        simp only [actorGuard,incarnationStillReapable,Bool.and_eq_true,List.any_eq_true] at hguard
        obtain ⟨_,a',_,hmatches',hfree⟩ := hguard
        simp only [Candidate.matches_,Bool.and_eq_true,decide_eq_true_eq] at hmatches hmatches'
        refine ⟨hmatches.1.1.1,?_,?_⟩
        · rw [hmatches.1.2,Option.any_some]
          exact hmatches.2
        · rw [hmatches.1.1.1,← hmatches'.1.1.1]
          simpa using hfree

theorem community_right_iff : CommunityRight apId d (scrubCommunity cutoff apId d) ↔
    (communityGuard apId d = true → deadLetterOwed (groupActivityWhere apId) d = false) := by
  cases hguard : communityGuard apId d with
  | false =>
    rw [scrubCommunity_of_false hguard]
    constructor
    · intro _ hno
      cases hno
    · intro _
      exact ⟨fun hno => absurd rfl hno,fun _ => rfl⟩
  | true =>
    rw [scrubCommunity_of_true hguard]
    constructor
    · intro hright _
      by_contra hdead
      rw [Bool.not_eq_false] at hdead
      have hsame := hright.untouched (owed_of_deadLetter hdead)
      exact cascade_ne hdead (congrArg Db.activities hsame :)
    · intro hdead
      have hclear := owed_eq_false.mpr ⟨hguard,hdead rfl⟩
      refine ⟨fun _ => hclear,fun howed => ?_⟩
      rw [hclear] at howed
      cases howed

end batches

section runs

theorem step_store {s t : Threads.Pool Db Stage} {p : Nat}
    (hstep : machine.step (.act p ()) s = some t) : t.store = (work s.store (s.thread p)).1 := by
  rw [machine,reaper,Threads.guarded_step_act] at hstep
  rw [hstep.2]

theorem work_actors (d : Db) (cutoff : Int) (c : Candidate) (todo : List Candidate) :
    work d (.actors cutoff (c :: todo)) = (reapActor cutoff c d,.actors cutoff todo) := rfl

theorem work_communities (d : Db) (cutoff : Int) (apId : String) (todo : List String) :
    work d (.communities cutoff (apId :: todo)) =
      (scrubCommunity cutoff apId d,.communities cutoff todo) := rfl

theorem work_right (d : Db) (stage : Stage) :
    StepRight stage d (work d stage).1 ↔ Holds stage d := by
  cases stage with
  | enter => exact ⟨fun _ => trivial,fun _ => rfl⟩
  | done => exact ⟨fun _ => trivial,fun _ => rfl⟩
  | actors cutoff todo =>
    cases todo with
    | nil => exact ⟨fun _ => trivial,fun _ => rfl⟩
    | cons c todo =>
      rw [work_actors]
      simp only [StepRight,Holds]
      exact actor_right_iff
  | communities cutoff todo =>
    cases todo with
    | nil => exact ⟨fun _ => trivial,fun _ => rfl⟩
    | cons apId todo =>
      rw [work_communities]
      simp only [StepRight,Holds]
      exact community_right_iff

/-- From any state, a step of a pass does what it has to exactly when no dead letter waits. -/
theorem keys_outlive_deliveries (s t : Threads.Pool Db Stage) (p : Nat)
    (hstep : machine.step (.act p ()) s = some t) :
    StepRight (s.thread p) s.store t.store ↔ Holds (s.thread p) s.store := by
  rw [step_store hstep]
  exact work_right s.store (s.thread p)

def hour : Nat := 60 * 60 * 1000

/-- One series of attempts that fails for more than four hours, and the reconciliation after it. -/
def failedSeries (id : String) : List (Threads.Label Unit Event) :=
  [.env (.attempt id),.env (.tick (4 * hour)),.env (.deadLetter id)]

def reconciled (id : String) : List (Threads.Label Unit Event) :=
  [.env (.tick (6 * hour)),.env (.reconcile id)]

/-- Alice deletes her account; the server of one follower is away for a day, and a pass comes when
the delivery waits for its third reconciliation. -/
def longOutage : List (Threads.Label Unit Event) :=
  ([.env (.createActor "alice" "key"),.env (.deleteAccount "alice" "delete" "fanout"),
    .env (.setFanout "fanout" .published),.env (.enqueue ⟨"job","delete",.pending,0,false,0⟩),
    .env (.setFanout "fanout" .completed)] : List (Threads.Label Unit Event)) ++
  failedSeries "job" ++ reconciled "job" ++ failedSeries "job" ++ reconciled "job" ++
    failedSeries "job" ++ ([.env (.tick hour),.act 0 ()] : List (Threads.Label Unit Event))

def after (labels : List (Threads.Label Unit Event)) : Threads.Pool Db Stage :=
  (machine.run labels (start 0)).getD (start 0)

theorem reaches_after {labels : List (Threads.Label Unit Event)}
    (h : (machine.run labels (start 0)).isSome = true) :
    machine.Reaches (start 0) (after labels) := by
  obtain ⟨s,hs⟩ := Option.isSome_iff_exists.mp h
  rw [after,hs]
  exact Machine.Reaches.of_run hs

theorem step_after {labels : List (Threads.Label Unit Event)} {l : Threads.Label Unit Event}
    (h : (machine.run (labels ++ [l]) (start 0)).isSome = true) :
    machine.step l (after labels) = some (after (labels ++ [l])) := by
  obtain ⟨t,ht⟩ := Option.isSome_iff_exists.mp h
  obtain ⟨s,_,hs,hl,hrun⟩ := Machine.run_split ht
  simp only [Machine.run,Option.some.injEq] at hrun
  subst hrun
  rw [after,after,hs,ht]
  exact hl

/-- The key of alice goes at the next step, and the delivery is still to be reconciled. -/
theorem key_lost_before_reconciliation : ¬ ∀ (now : Nat) (s t : Threads.Pool Db Stage) (p : Nat),
    machine.Reaches (start now) s → machine.step (.act p ()) s = some t →
      StepRight (s.thread p) s.store t.store := by
  intro hall
  have hreach : machine.Reaches (start 0) (after longOutage) := reaches_after (by decide +kernel)
  have hright := hall 0 _ _ 0 hreach
    (step_after (by decide +kernel))
  have hstage : (after longOutage).thread 0 = .actors hour [⟨"alice","key",0⟩] := by
    decide +kernel
  rw [hstage] at hright
  have hdrained := hright.drained (by decide +kernel)
  have howed : owed (deleteActivityWhere "alice") (after longOutage).store = true := by
    decide +kernel
  rw [howed] at hdrained
  cases hdrained

def delivered : List (Threads.Label Unit Event) :=
  [.env (.createActor "alice" "key"),.env (.deleteAccount "alice" "delete" "fanout"),
    .env (.enqueue ⟨"job","delete",.pending,0,false,0⟩),.env (.setFanout "fanout" .completed),
    .env (.attempt "job"),.env (.finish "job" .delivered 0),.env (.tick (25 * hour)),.act 0 ()]

theorem keys_outlive_deliveries_delivered :
    StepRight ((after delivered).thread 0) (after delivered).store
      (after (delivered ++ [.act 0 ()])).store ∧
    (after (delivered ++ [.act 0 ()])).store.actors = [] := by
  refine ⟨(keys_outlive_deliveries _ _ 0 (step_after (by decide +kernel))).mpr ?_,
    by decide +kernel⟩
  have hstage : (after delivered).thread 0 = .actors hour [⟨"alice","key",0⟩] := by
    decide +kernel
  rw [hstage]
  intro _
  decide +kernel

end runs

end Yurucommu.TombstoneReaper
