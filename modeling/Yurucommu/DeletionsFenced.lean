import Yurucommu.Deletions

/-!
A deletion commits under its lease only, and its last batch takes the whole plan at once.
-/

set_option autoImplicit false

namespace Yurucommu.Deletions

open Whatwg (Text)

variable {ρ : Type}

section predicates

variable {d e : Db ρ} {operation : Operation} {target : Target} {now : Nat} {operationId : Text}

theorem mem_planned {t : Target} :
    t ∈ planned d operationId ↔ t ∈ d.targets ∧ t.operationId = operationId := by
  simp [planned]

theorem fence_of_witness (h : witness d operation target now = true) :
    Fence now operation target d := by
  obtain ⟨o,ho,htrue⟩ := List.any_eq_true.mp h
  simp only [Bool.and_eq_true,decide_eq_true_eq,List.any_eq_true] at htrue
  obtain ⟨⟨⟨⟨⟨hid,htoken⟩,hlease⟩,hkey⟩,root,hroot,hrootId,hrootKey⟩,t,ht,
    ⟨⟨hop,hactor⟩,htkey⟩,a,ha,haId,haKey⟩ := htrue
  refine ⟨⟨o,ho,hid,htoken,hlease,hkey,root,hroot,hrootId,hrootKey.trans hkey⟩,?_⟩
  exact ⟨t,mem_planned.mpr ⟨ht,hop.trans hid⟩,hactor,htkey,a,ha,haId.trans hactor,
    haKey.trans htkey⟩

theorem complete_of_allComplete (h : allComplete d operationId = true) :
    Complete operationId d := by
  simp only [allComplete,Bool.and_eq_true,allTargetIncarnationsValid,List.all_eq_true,
    Bool.not_eq_true',List.contains_eq_mem,decide_eq_false_iff_not] at h
  obtain ⟨hvalid,hrest⟩ := h
  intro t ht
  obtain ⟨⟨⟨hcomplete,huploads⟩,hjobs⟩,hattempts⟩ := hrest t ht
  refine ⟨hcomplete,?_,huploads,hjobs,hattempts⟩
  obtain ⟨a,ha,htrue⟩ := List.any_eq_true.mp (hvalid t ht)
  simp only [Bool.and_eq_true,decide_eq_true_eq] at htrue
  exact ⟨a,ha,htrue.1.1,htrue.1.2,htrue.2⟩

end predicates

section statements

variable {d e : Db ρ} {operation : Operation} {target : Target} {now : Nat}
  {operationId id token root : Text} {options : Options} {authored : List Text}

def released (now : Nat) (operationId : Text) (d : Db ρ) : Db ρ :=
  { d with
    actors := (tombstone now operationId d).actors
    sessions := (deleteSessions operationId d).sessions
    objectTargets := Table.delete (fun r => r.2 = operationId) d.objectTargets
    targets := Table.delete (fun t => t.operationId = operationId) d.targets
    operations := Table.delete (fun o => o.id = operationId) d.operations }

theorem finalize_eq (h : finalize now operationId d = some e) : e = released now operationId d := by
  unfold finalize at h
  obtain ⟨d₂,h₂,h₃⟩ := Option.bind_eq_some_iff.mp h
  obtain ⟨d₁,h₁,h₂⟩ := Option.bind_eq_some_iff.mp h₂
  unfold releaseObjectTargets at h₁
  split at h₁
  · cases h₁
  · cases h₁
    unfold releaseTargets at h₂
    split at h₂
    · cases h₂
    · cases h₂
      unfold releaseOperation at h₃
      split at h₃
      · cases h₃
      · cases h₃
        rfl

theorem finalBatch_eq (h : finalBatch now d operation target = some e) :
    witness d operation target now = true ∧ allComplete d operation.id = true ∧
      e = released now operation.id d := by
  unfold finalBatch guardedBatch at h
  split at h
  · rename_i hwitness
    simp only at h
    split at h
    · rename_i hcomplete
      exact ⟨hwitness,hcomplete,finalize_eq h⟩
    · cases h
  · cases h

theorem reserveOperation_eq (h : reserveOperation now d id token root options authored = some e) :
    (∀ a ∈ taken d root options.cascadeOwnedAccounts, ∀ u ∈ d.targets, u.actorApId ≠ a.apId) ∧
    e = { d with
      operations := d.operations ++
        [⟨id,root,options.expectedPublicKeyPem,token,now + leaseMs⟩]
      targets := d.targets ++ (taken d root options.cascadeOwnedAccounts).map fun a =>
        ⟨a.apId,id,a.publicKeyPem,false⟩
      objectTargets := d.objectTargets ++ authored.map fun object => (object,id)
      issued := id :: d.issued } := by
  unfold reserveOperation at h
  simp only at h
  split at h
  · cases h
  · split at h
    · cases h
    · rename_i hfree
      split at h
      · cases h
      · split at h
        · cases h
          refine ⟨?_,rfl⟩
          intro a ha u hu heq
          refine hfree ?_
          rw [List.any_map]
          exact List.any_eq_true.mpr ⟨a,ha,List.any_eq_true.mpr ⟨u,hu,by simpa using heq⟩⟩
        · cases h

structure Quiet (d e : Db ρ) : Prop where
  actors : e.actors = d.actors
  sessions : e.sessions = d.sessions
  objectTargets : e.objectTargets = d.objectTargets
  issued : e.issued = d.issued
  operations : e.operations.map (·.id) = d.operations.map (·.id)
  targets : (e.targets.map fun t => (t.actorApId,t.operationId)) =
    d.targets.map fun t => (t.actorApId,t.operationId)

theorem Quiet.refl (d : Db ρ) : Quiet d d := ⟨rfl,rfl,rfl,rfl,rfl,rfl⟩

theorem quiet_operations {operations : List Operation}
    (h : operations.map (·.id) = d.operations.map (·.id)) :
    Quiet d { d with operations := operations } := ⟨rfl,rfl,rfl,rfl,h,rfl⟩

theorem quiet_claim (h : claimExpiredOperation now d operation token = some e) : Quiet d e := by
  unfold claimExpiredOperation at h
  split at h
  · cases h
    exact quiet_operations (Table.map_update (by intro r; rfl) _)
  · cases h

theorem quiet_renew (h : renewLease now d operation = some e) : Quiet d e := by
  unfold renewLease at h
  split at h
  · cases h
    exact quiet_operations (Table.map_update (by intro r; rfl) _)
  · cases h

theorem quiet_release : Quiet d (releaseLease d operation) :=
  quiet_operations (Table.map_update (by intro r; rfl) _)

theorem quiet_complete : Quiet d (completeCascade d operation target) :=
  ⟨rfl,rfl,rfl,rfl,rfl,Table.map_update (by intro r; rfl) _⟩

theorem quiet_tables (f : Tables ρ → Tables ρ) : Quiet d { d with tables := f d.tables } :=
  ⟨rfl,rfl,rfl,rfl,rfl,rfl⟩

theorem guardedBatch_eq {payload : Db ρ → Option (Db ρ)}
    (h : guardedBatch now d operation target payload = some e) :
    Fence now operation target d ∧ payload d = some e := by
  unfold guardedBatch at h
  split at h
  · rename_i hwitness
    exact ⟨fence_of_witness hwitness,h⟩
  · cases h

end statements

section step

variable {i : Answer ρ} {p : Nat} {d e : Db ρ} {c : Call}

inductive Effect (i : Answer ρ) (c : Call) (d e : Db ρ) : Prop where
  | quiet : Quiet d e → Effect i c d e
  | reserve (root : Text) (options : Options) :
      reserveOperation i.now d i.id i.token root options i.authored = some e → Effect i c d e
  | final (w : Worker) (root : Target) : i.fails = false → c.stage = .final w →
      w.root = some root → finalBatch i.now d w.operation root = some e → Effect i c d e

theorem effect_of_write {next aborted : Stage} (hfails : i.fails = false)
    (h : write i c d = some (some e,next,aborted)) : Effect i c d e := by
  unfold write at h
  cases hc : c.stage with
  | reserve =>
    rw [hc] at h
    cases hr : c.request with
    | deleteLocalAccount root options =>
      simp only [hr,Option.some.injEq,Prod.mk.injEq] at h
      exact .reserve root options h.1
    | resumeAbandonedAccountDeletions limit => simp [hr] at h
  | claim operation queue =>
    simp only [hc,Option.some.injEq,Prod.mk.injEq] at h
    exact .quiet (quiet_claim h.1)
  | enter w left =>
    rw [hc] at h
    cases left with
    | nil => cases h
    | cons target left =>
      simp only at h
      split at h
      · cases h
      · simp only [Option.some.injEq,Prod.mk.injEq] at h
        exact .quiet (quiet_renew h.1)
  | cascade w target left =>
    rw [hc] at h
    cases hn : i.next with
    | batch =>
      simp only [hn,Option.some.injEq,Prod.mk.injEq] at h
      obtain ⟨_,hpayload⟩ := guardedBatch_eq h.1
      cases hpayload
      exact .quiet (quiet_tables _)
    | renew =>
      simp only [hn,Option.some.injEq,Prod.mk.injEq] at h
      exact .quiet (quiet_renew h.1)
    | finish =>
      simp only [hn,Option.some.injEq,Prod.mk.injEq] at h
      obtain ⟨_,hpayload⟩ := guardedBatch_eq h.1
      cases hpayload
      exact .quiet quiet_complete
  | sweep w left =>
    rw [hc] at h
    cases left with
    | nil => cases h
    | cons target left =>
      simp only [Option.some.injEq,Prod.mk.injEq] at h
      exact .quiet (quiet_renew h.1)
  | purge w target left =>
    rw [hc] at h
    cases hn : i.next with
    | batch =>
      simp only [hn,Option.some.injEq,Prod.mk.injEq] at h
      obtain ⟨_,hpayload⟩ := guardedBatch_eq h.1
      cases hpayload
      exact .quiet (quiet_tables _)
    | renew =>
      simp only [hn,Option.some.injEq,Prod.mk.injEq] at h
      exact .quiet (quiet_renew h.1)
    | finish =>
      simp only [hn,Option.some.injEq,Prod.mk.injEq] at h
      rw [h.1]
      exact .quiet (Quiet.refl _)
  | renewLast w =>
    simp only [hc,Option.some.injEq,Prod.mk.injEq] at h
    exact .quiet (quiet_renew h.1)
  | final w =>
    rw [hc] at h
    cases hroot : w.root with
    | none => simp [hroot] at h
    | some root =>
      simp only [hroot,Option.some.injEq,Prod.mk.injEq] at h
      exact .final w root hfails hc hroot h.1
  | release operation =>
    simp only [hc,Option.some.injEq,Prod.mk.injEq] at h
    rw [← h.1]
    exact .quiet quiet_release
  | _ =>
    rw [hc] at h
    cases h

theorem effect_of_work : Effect i c d (work i p d c).1 := by
  unfold work
  cases hfails : i.fails with
  | true => exact .quiet (Quiet.refl d)
  | false =>
    simp only [Bool.false_eq_true,if_false]
    cases hwrite : write i c d with
    | none => exact .quiet (Quiet.refl d)
    | some r =>
      obtain ⟨e,next,aborted⟩ := r
      cases e with
      | none => exact .quiet (Quiet.refl d)
      | some e => exact effect_of_write hfails hwrite

/-- A batch that is issued under a guard commits inside its fence, or changes nothing. -/
theorem fence_of_work {operation : Operation} {target : Target}
    (h : issues i c = some (operation,target)) :
    (work i p d c).1 = d ∨ Fence i.now operation target d := by
  have hguarded : ∀ {payload : Db ρ → Option (Db ρ)} {next aborted : Stage},
      write i c d = some (guardedBatch i.now d operation target payload,next,aborted) →
      (work i p d c).1 = d ∨ Fence i.now operation target d := by
    intro payload next aborted hwrite
    unfold work
    rw [hwrite]
    cases i.fails with
    | true => exact .inl rfl
    | false =>
      cases hbatch : guardedBatch i.now d operation target payload with
      | none => exact .inl rfl
      | some e => exact .inr (guardedBatch_eq hbatch).1
  unfold issues at h
  cases hc : c.stage with
  | cascade w target' left =>
    rw [hc] at h
    simp only at h
    split at h
    · cases h
    · rename_i hnext
      cases h
      cases hn : i.next with
      | batch =>
        have hwrite : write i c d = some (guardedBatch i.now d w.operation target
            (fun d => some { d with tables := i.payload d.tables }),c.stage,c.stage.thrown) := by
          unfold write
          simp only [hc,hn]
        exact hguarded hwrite
      | renew => exact absurd hn hnext
      | finish =>
        have hwrite : write i c d = some (guardedBatch i.now d w.operation target
            (fun d => some (completeCascade d w.operation target)),.enter w left,c.stage.thrown) := by
          unfold write
          simp only [hc,hn]
        exact hguarded hwrite
  | purge w target' left =>
    rw [hc] at h
    simp only at h
    split at h
    · rename_i hn
      cases h
      have hwrite : write i c d = some (guardedBatch i.now d w.operation target
          (fun d => some { d with tables := i.payload d.tables }),c.stage,c.stage.thrown) := by
        unfold write
        simp only [hc,hn]
      exact hguarded hwrite
    · cases h
  | final w =>
    rw [hc] at h
    obtain ⟨root,hroot,heq⟩ := Option.map_eq_some_iff.mp h
    cases heq
    have hwrite : write i c d =
        some (finalBatch i.now d w.operation target,.resume w.queue,c.stage.thrown) := by
      unfold write
      simp only [hc,hroot]
    exact hguarded hwrite
  | _ =>
    rw [hc] at h
    cases h

end step

section invariant

variable {d e : Db ρ} {operationId : Text}

structure Kept (d : Db ρ) : Prop where
  actors : (d.actors.map (·.apId)).Nodup
  targets : (d.targets.map (·.actorApId)).Nodup
  untouched : Untouched d
  operationIds : ∀ o ∈ d.operations, o.id ∈ d.issued
  targetIds : ∀ t ∈ d.targets, t.operationId ∈ d.issued

theorem Quiet.mem_targets (h : Quiet d e) {t : Target} (ht : t ∈ e.targets) :
    ∃ u ∈ d.targets, u.actorApId = t.actorApId ∧ u.operationId = t.operationId := by
  have hkey : (t.actorApId,t.operationId) ∈ d.targets.map fun t => (t.actorApId,t.operationId) :=
    h.targets ▸ List.mem_map.mpr ⟨t,ht,rfl⟩
  obtain ⟨u,hu,heq⟩ := List.mem_map.mp hkey
  obtain ⟨hactor,hid⟩ := Prod.mk.inj heq
  exact ⟨u,hu,hactor,hid⟩

theorem Quiet.mem_operations (h : Quiet d e) {o : Operation} (ho : o ∈ e.operations) :
    ∃ u ∈ d.operations, u.id = o.id := by
  have hkey : o.id ∈ d.operations.map (·.id) := h.operations ▸ List.mem_map.mpr ⟨o,ho,rfl⟩
  exact List.mem_map.mp hkey

theorem Quiet.actor_targets (h : Quiet d e) :
    e.targets.map (·.actorApId) = d.targets.map (·.actorApId) := by
  have hfst := congrArg (List.map Prod.fst) h.targets
  rw [List.map_map,List.map_map] at hfst
  exact hfst

theorem Kept.quiet (h : Kept d) (hq : Quiet d e) : Kept e := by
  refine ⟨?_,?_,?_,?_,?_⟩
  · rw [hq.actors]
    exact h.actors
  · rw [hq.actor_targets]
    exact h.targets
  · intro t ht
    obtain ⟨u,hu,hactor,_⟩ := hq.mem_targets ht
    rw [hq.actors,← hactor]
    exact h.untouched u hu
  · intro o ho
    obtain ⟨u,hu,hid⟩ := hq.mem_operations ho
    rw [hq.issued,← hid]
    exact h.operationIds u hu
  · intro t ht
    obtain ⟨u,hu,_,hid⟩ := hq.mem_targets ht
    rw [hq.issued,← hid]
    exact h.targetIds u hu

theorem Kept.reserve {now : Nat} {id token root : Text} {options : Options} {authored : List Text}
    (h : Kept d) (he : reserveOperation now d id token root options authored = some e) : Kept e := by
  obtain ⟨hfree,rfl⟩ := reserveOperation_eq he
  refine ⟨h.actors,?_,?_,?_,?_⟩
  · rw [List.map_append,List.nodup_append,List.map_map]
    refine ⟨h.targets,h.actors.sublist (List.Sublist.map _ List.filter_sublist),?_⟩
    intro x hx y hy heq
    obtain ⟨u,hu,rfl⟩ := List.mem_map.mp hx
    obtain ⟨a,ha,rfl⟩ := List.mem_map.mp hy
    exact hfree a ha u hu heq
  · intro t ht
    rcases List.mem_append.mp ht with hold | hnew
    · exact h.untouched t hold
    · obtain ⟨a,ha,rfl⟩ := List.mem_map.mp hnew
      obtain ⟨hmem,htrue⟩ := List.mem_filter.mp ha
      exact ⟨a,hmem,rfl,(Bool.and_eq_true_iff.mp htrue).2⟩
  · intro o ho
    rcases List.mem_append.mp ho with hold | hnew
    · exact List.mem_cons_of_mem _ (h.operationIds o hold)
    · rw [List.mem_singleton] at hnew
      subst hnew
      exact List.mem_cons_self
  · intro t ht
    rcases List.mem_append.mp ht with hold | hnew
    · exact List.mem_cons_of_mem _ (h.targetIds t hold)
    · obtain ⟨a,_,rfl⟩ := List.mem_map.mp hnew
      exact List.mem_cons_self

theorem Kept.released (h : Kept d) (now : Nat) : Kept (released now operationId d) := by
  refine ⟨?_,?_,?_,?_,?_⟩
  · have hids : (Deletions.released now operationId d).actors.map (·.apId) =
        d.actors.map (·.apId) := Table.map_update (by intro a; rfl) _
    rw [hids]
    exact h.actors
  · exact h.targets.sublist (List.Sublist.map _ List.filter_sublist)
  · intro t ht
    obtain ⟨hmem,hother⟩ := List.mem_filter.mp ht
    obtain ⟨a,ha,hid,hlive⟩ := h.untouched t hmem
    have hapart : ((planned d operationId).any fun u => u.actorApId = a.apId) = false := by
      rw [List.any_eq_false]
      intro u hu htrue
      obtain ⟨hu,hop⟩ := mem_planned.mp hu
      have hsame : u = t := by
        refine List.inj_on_of_nodup_map h.targets hu hmem ?_
        rw [of_decide_eq_true htrue,hid]
      rw [hsame] at hop
      simp [hop] at hother
    exact ⟨a,Table.mem_update.mpr ⟨a,ha,.inl ⟨hapart,rfl⟩⟩,hid,hlive⟩
  · intro o ho
    exact h.operationIds o (List.mem_filter.mp ho).1
  · intro t ht
    exact h.targetIds t (List.mem_filter.mp ht).1

theorem Kept.effect {i : Answer ρ} {c : Call} (h : Kept d) (he : Effect i c d e) : Kept e := by
  cases he with
  | quiet hquiet => exact h.quiet hquiet
  | reserve root options hreserve => exact h.reserve hreserve
  | final w root _ _ _ hfinal =>
    obtain ⟨_,_,rfl⟩ := finalBatch_eq hfinal
    exact h.released i.now

theorem Kept.happen {event : Event ρ} (h : Kept d) (hpossible : possible event d = true) :
    Kept (happen event d) := by
  cases event with
  | write f => exact ⟨h.actors,h.targets,h.untouched,h.operationIds,h.targetIds⟩
  | setKey actor key =>
    refine ⟨?_,h.targets,?_,h.operationIds,h.targetIds⟩
    · have hids : (Deletions.happen (.setKey actor key) d).actors.map (·.apId) =
          d.actors.map (·.apId) := Table.map_update (by intro a; rfl) _
      rw [hids]
      exact h.actors
    · intro t ht
      obtain ⟨a,ha,hid,hlive⟩ := h.untouched t ht
      cases hcond : decide (a.apId = actor) with
      | false => exact ⟨a,Table.mem_update.mpr ⟨a,ha,.inl ⟨hcond,rfl⟩⟩,hid,hlive⟩
      | true => exact ⟨_,Table.mem_update.mpr ⟨a,ha,.inr ⟨hcond,rfl⟩⟩,hid,hlive⟩
  | register a =>
    simp only [possible,Bool.and_eq_true,Bool.not_eq_true'] at hpossible
    refine ⟨?_,h.targets,?_,h.operationIds,h.targetIds⟩
    · have hnew := List.any_eq_false.mp hpossible.1.1
      show ((d.actors ++ [a]).map (·.apId)).Nodup
      rw [List.map_append,List.nodup_append]
      refine ⟨h.actors,by simp,?_⟩
      intro x hx y hy heq
      obtain ⟨b,hb,rfl⟩ := List.mem_map.mp hx
      rw [List.map_singleton,List.mem_singleton] at hy
      exact hnew b hb (decide_eq_true (heq.trans hy))
    · intro t ht
      obtain ⟨b,hb,hrest⟩ := h.untouched t ht
      exact ⟨b,List.mem_append_left _ hb,hrest⟩
  | logout member => exact ⟨h.actors,h.targets,h.untouched,h.operationIds,h.targetIds⟩

end invariant

section gone

variable {d e : Db ρ} {operationId : Text} {accounts : List Text} {i : Answer ρ} {c : Call}

/-- The tombstones and the end of a plan, once its id was generated. -/
structure Finished (operationId : Text) (accounts : List Text) (d : Db ρ) : Prop where
  gone : Gone operationId d
  issued : operationId ∈ d.issued
  tombstoned : Tombstoned accounts d

theorem Finished.effect (h : Finished operationId accounts d) (hfresh : i.id ∉ d.issued)
    (he : Effect i c d e) : Finished operationId accounts e := by
  cases he with
  | quiet hq =>
    refine ⟨⟨?_,?_,?_⟩,hq.issued ▸ h.issued,?_⟩
    · intro o ho
      obtain ⟨u,hu,hid⟩ := hq.mem_operations ho
      exact hid ▸ h.gone.operations u hu
    · intro t ht
      obtain ⟨u,hu,_,hid⟩ := hq.mem_targets ht
      exact hid ▸ h.gone.targets u hu
    · intro r hr
      exact h.gone.objectTargets r (hq.objectTargets ▸ hr)
    · unfold Tombstoned
      rw [hq.actors,hq.sessions]
      exact h.tombstoned
  | reserve root options hreserve =>
    obtain ⟨_,rfl⟩ := reserveOperation_eq hreserve
    have hne : i.id ≠ operationId := fun heq => hfresh (heq ▸ h.issued)
    refine ⟨⟨?_,?_,?_⟩,List.mem_cons_of_mem _ h.issued,h.tombstoned⟩
    · intro o ho
      rcases List.mem_append.mp ho with hold | hnew
      · exact h.gone.operations o hold
      · rw [List.mem_singleton] at hnew
        subst hnew
        exact hne
    · intro t ht
      rcases List.mem_append.mp ht with hold | hnew
      · exact h.gone.targets t hold
      · obtain ⟨a,_,rfl⟩ := List.mem_map.mp hnew
        exact hne
    · intro r hr
      rcases List.mem_append.mp hr with hold | hnew
      · exact h.gone.objectTargets r hold
      · obtain ⟨object,_,rfl⟩ := List.mem_map.mp hnew
        exact hne
  | final w root _ _ _ hfinal =>
    obtain ⟨_,_,rfl⟩ := finalBatch_eq hfinal
    refine ⟨⟨?_,?_,?_⟩,h.issued,?_⟩
    · intro o ho
      exact h.gone.operations o (List.mem_filter.mp ho).1
    · intro t ht
      exact h.gone.targets t (List.mem_filter.mp ht).1
    · intro r hr
      exact h.gone.objectTargets r (List.mem_filter.mp hr).1
    · intro apId hmem
      obtain ⟨⟨a,ha,hid⟩,hdead,hnone⟩ := h.tombstoned apId hmem
      refine ⟨?_,?_,fun hs => hnone (List.mem_filter.mp hs).1⟩
      · cases hcond : (planned d w.operation.id).any fun t => t.actorApId = a.apId with
        | false => exact ⟨a,Table.mem_update.mpr ⟨a,ha,.inl ⟨hcond,rfl⟩⟩,hid⟩
        | true => exact ⟨_,Table.mem_update.mpr ⟨a,ha,.inr ⟨hcond,rfl⟩⟩,hid⟩
      · intro b hb hbid
        obtain ⟨a,ha,⟨_,rfl⟩ | ⟨_,rfl⟩⟩ := Table.mem_update.mp hb
        · exact hdead b ha hbid
        · rfl

theorem Finished.happen {event : Event ρ} (h : Finished operationId accounts d)
    (hpossible : possible event d = true) : Finished operationId accounts (happen event d) := by
  cases event with
  | write f => exact ⟨⟨h.gone.operations,h.gone.targets,h.gone.objectTargets⟩,h.issued,h.tombstoned⟩
  | setKey actor key =>
    refine ⟨⟨h.gone.operations,h.gone.targets,h.gone.objectTargets⟩,h.issued,?_⟩
    intro apId hmem
    obtain ⟨⟨a,ha,hid⟩,hdead,hnone⟩ := h.tombstoned apId hmem
    refine ⟨?_,?_,hnone⟩
    · cases hcond : decide (a.apId = actor) with
      | false => exact ⟨a,Table.mem_update.mpr ⟨a,ha,.inl ⟨hcond,rfl⟩⟩,hid⟩
      | true => exact ⟨_,Table.mem_update.mpr ⟨a,ha,.inr ⟨hcond,rfl⟩⟩,hid⟩
    · intro b hb hbid
      obtain ⟨a,ha,⟨_,rfl⟩ | ⟨_,rfl⟩⟩ := Table.mem_update.mp hb
      · exact hdead b ha hbid
      · exact hdead a ha hbid
  | register a =>
    refine ⟨⟨h.gone.operations,h.gone.targets,h.gone.objectTargets⟩,h.issued,?_⟩
    simp only [possible,Bool.and_eq_true,Bool.not_eq_true'] at hpossible
    intro apId hmem
    obtain ⟨⟨b,hb,hid⟩,hdead,hnone⟩ := h.tombstoned apId hmem
    refine ⟨⟨b,List.mem_append_left _ hb,hid⟩,?_,hnone⟩
    intro b' hb' hid'
    rcases List.mem_append.mp hb' with hold | hnew
    · exact hdead b' hold hid'
    · rw [List.mem_singleton] at hnew
      subst hnew
      exact absurd (decide_eq_true (hid.trans hid'.symm)) (List.any_eq_false.mp hpossible.1.1 b hb)
  | logout member =>
    refine ⟨⟨h.gone.operations,h.gone.targets,h.gone.objectTargets⟩,h.issued,?_⟩
    intro apId hmem
    obtain ⟨hexists,hdead,hnone⟩ := h.tombstoned apId hmem
    exact ⟨hexists,hdead,fun hs => hnone (List.mem_of_mem_erase hs)⟩

theorem finished_released (h : Complete operationId d) (hissued : operationId ∈ d.issued)
    (now : Nat) : Finished operationId ((planned d operationId).map (·.actorApId))
      (released now operationId d) := by
  refine ⟨⟨?_,?_,?_⟩,hissued,?_⟩
  · intro o ho
    simpa using (List.mem_filter.mp ho).2
  · intro t ht
    simpa using (List.mem_filter.mp ht).2
  · intro r hr
    simpa using (List.mem_filter.mp hr).2
  · intro apId hmem
    obtain ⟨t,ht,rfl⟩ := List.mem_map.mp hmem
    have hplanned : ((planned d operationId).any fun u => u.actorApId = t.actorApId) = true :=
      List.any_eq_true.mpr ⟨t,ht,by simp⟩
    obtain ⟨_,⟨a,ha,hid,_⟩,_⟩ := h t ht
    refine ⟨⟨_,Table.mem_update.mpr ⟨a,ha,.inr ⟨by simpa only [hid] using hplanned,rfl⟩⟩,hid⟩,?_,?_⟩
    · intro b hb hbid
      obtain ⟨a,_,⟨hcond,rfl⟩ | ⟨_,rfl⟩⟩ := Table.mem_update.mp hb
      · rw [hbid,hplanned] at hcond
        cases hcond
      · rfl
    · intro hs
      have hkeep := (List.mem_filter.mp hs).2
      simp only [hplanned] at hkeep
      cases hkeep

end gone

section run

variable {s₀ s t : Pool ρ} {l : Label ρ} {operationId : Text}

theorem step_effect {p : Nat} {i : Answer ρ} (hl : machine.step (.act p i) s = some t) :
    i.id ∉ s.store.issued ∧ t.store = (work i p s.store (s.thread p)).1 ∧
      Effect i (s.thread p) s.store t.store := by
  obtain ⟨hallowed,rfl⟩ := Threads.guarded_step_act.mp hl
  simp only [allowed,Bool.and_eq_true,Bool.not_eq_true',List.contains_eq_mem,
    decide_eq_false_iff_not] at hallowed
  exact ⟨hallowed.2,rfl,effect_of_work⟩

theorem Kept.step (h : Kept s.store) (hl : machine.step l s = some t) : Kept t.store := by
  cases l with
  | act p i => exact h.effect (step_effect hl).2.2
  | env event =>
    obtain ⟨hpossible,rfl⟩ := Threads.guarded_step_env.mp hl
    exact h.happen hpossible

theorem Finished.step {accounts : List Text} (h : Finished operationId accounts s.store)
    (hl : machine.step l s = some t) : Finished operationId accounts t.store := by
  cases l with
  | act p i =>
    obtain ⟨hfresh,_,heffect⟩ := step_effect hl
    exact h.effect hfresh heffect
  | env event =>
    obtain ⟨hpossible,rfl⟩ := Threads.guarded_step_env.mp hl
    exact h.happen hpossible

theorem Start.kept (h : Start s) : Kept s.store :=
  ⟨h.actors,h.targets,h.untouched,h.operationIds,h.targetIds⟩

theorem not_finalizes_of_gone (h : Gone operationId s.store) : ¬Finalizes operationId s l := by
  rintro ⟨p,i,w,root,_,_,_,hid,_,hcommit⟩
  obtain ⟨e,he⟩ := Option.isSome_iff_exists.mp hcommit
  obtain ⟨hwitness,_,_⟩ := finalBatch_eq he
  obtain ⟨o,ho,hoid,_⟩ := (fence_of_witness hwitness).lease
  exact h.operations o ho (hoid.trans hid)

theorem finalizes_step (h : Kept s.store) (hl : machine.step l s = some t)
    (hf : Finalizes operationId s l) : Complete operationId s.store ∧
      Finished operationId ((planned s.store operationId).map (·.actorApId)) t.store := by
  obtain ⟨p,i,w,root,rfl,hfails,hstage,rfl,hroot,hcommit⟩ := hf
  obtain ⟨e,he⟩ := Option.isSome_iff_exists.mp hcommit
  obtain ⟨hwitness,hall,rfl⟩ := finalBatch_eq he
  have hcomplete := complete_of_allComplete hall
  obtain ⟨o,ho,hoid,_⟩ := (fence_of_witness hwitness).lease
  have hissued := hoid ▸ h.operationIds o ho
  have hstore : t.store = released i.now w.operation.id s.store := by
    rw [(step_effect hl).2.1]
    unfold work
    have hwrite : write i (s.thread p) s.store =
        some (finalBatch i.now s.store w.operation root,.resume w.queue,
          (s.thread p).stage.thrown) := by
      unfold write
      simp only [hstage,hroot]
    rw [hwrite,he]
    simp [hfails]
  rw [hstore]
  exact ⟨hcomplete,finished_released hcomplete hissued i.now⟩

/-- Account deletion is fenced, and it takes the whole plan at once and only once. -/
theorem fenced_and_atomic (h₀ : Start s₀) (hr : machine.Reaches s₀ s) :
    (s.store.targets.map (·.actorApId)).Nodup ∧ Untouched s.store ∧
    (∀ p i t operation target, machine.step (.act p i) s = some t →
      issues i (s.thread p) = some (operation,target) →
      t.store = s.store ∨ Fence i.now operation target s.store) ∧
    ∀ operationId l t, machine.step l s = some t → Finalizes operationId s l →
      Complete operationId s.store ∧ ∀ u, machine.Reaches t u →
        Tombstoned ((planned s.store operationId).map (·.actorApId)) u.store ∧
        Gone operationId u.store ∧ ∀ l', ¬Finalizes operationId u l' := by
  have hkept := hr.invariant (P := fun s => Kept s.store) h₀.kept fun a l b ha hl _ => ha.step hl
  refine ⟨hkept.targets,hkept.untouched,?_,?_⟩
  · intro p i t operation target hl hissues
    rw [(step_effect hl).2.1]
    exact fence_of_work hissues
  · intro operationId l t hl hf
    obtain ⟨hcomplete,hfinished⟩ := finalizes_step hkept hl hf
    refine ⟨hcomplete,?_⟩
    intro u hu
    have hlater := hu.invariant (P := fun u => Finished operationId
      ((planned s.store operationId).map (·.actorApId)) u.store) hfinished
      fun a l b ha hl _ => ha.step hl
    exact ⟨hlater.tombstoned,hlater.gone,fun l' => not_finalizes_of_gone hlater.gone⟩

end run

section leaving

def alice : Text := ['a']
def key : Text := ['k']
def token : Text := ['t']
def operation : Operation := ⟨['o'],alice,key,token,120000⟩
def target : Target := ⟨alice,['o'],key,true⟩

def leaving : Pool Unit :=
  ⟨⟨[⟨alice,key,none,none,none⟩],[],[],[],[alice],⟨[],[],[],()⟩,[]⟩,
    fun _ => ⟨.deleteLocalAccount alice ⟨false,key,none,none⟩,.start⟩⟩

def torn : Db Unit :=
  ⟨[⟨alice,key,none,none,none⟩],[operation],[target],[],[alice],⟨[],[],[],()⟩,[['o']]⟩

def planned₀ : Target := { target with cascadeComplete := false }
def reserved : Db Unit := { torn with targets := [planned₀] }

def worker : Worker := ⟨operation,[planned₀],[]⟩
def call (stage : Stage) : Call := ⟨.deleteLocalAccount alice ⟨false,key,none,none⟩,stage⟩
def answer : Answer Unit := { id := ['x'] }

theorem start_leaving : Start leaving where
  actors := by decide
  targets := by decide
  untouched t ht := by
    simp [leaving] at ht
  operationIds o ho := by
    simp [leaving] at ho
  targetIds t ht := by
    simp [leaving] at ht
  start _ := rfl

theorem fenced_and_atomic_leaving : Complete operation.id torn ∧
    ∃ t : Pool Unit, machine.Reaches leaving t ∧ Tombstoned [alice] t.store ∧
      Gone operation.id t.store := by
  have h₀ : threads.Arrives leaving 0 leaving.store (call .start) := .start leaving 0
  have h₁ : threads.Arrives leaving 0 leaving.store (call .readRoot) := h₀.act (i := answer) rfl rfl
  have h₂ : threads.Arrives leaving 0 leaving.store (call .reserve) := h₁.act (i := answer) rfl rfl
  have h₃ : threads.Arrives leaving 0 reserved (call (.targets operation [])) :=
    h₂.act (i := { id := ['o'], token := token }) rfl rfl
  have h₄ : threads.Arrives leaving 0 reserved (call (.enter worker [planned₀])) :=
    h₃.act (i := answer) rfl rfl
  have h₅ : threads.Arrives leaving 0 reserved (call (.cascade worker planned₀ [])) :=
    h₄.act (i := answer) rfl rfl
  have h₆ : threads.Arrives leaving 0 torn (call (.enter worker [])) :=
    h₅.act (i := answer) rfl rfl
  have h₇ : threads.Arrives leaving 0 torn (call (.sweep worker [planned₀])) :=
    h₆.act (i := answer) rfl rfl
  have h₈ : threads.Arrives leaving 0 torn (call (.purge worker planned₀ [])) :=
    h₇.act (i := answer) rfl rfl
  have h₉ : threads.Arrives leaving 0 torn (call (.sweep worker [])) := h₈.act (i := answer) rfl rfl
  have h₁₀ : threads.Arrives leaving 0 torn (call (.renewLast worker)) :=
    h₉.act (i := answer) rfl rfl
  obtain ⟨s,hreach,hstore,hthread⟩ : threads.Arrives leaving 0 torn (call (.final worker)) :=
    h₁₀.act (i := answer) rfl rfl
  have hallowed : allowed answer s.store (s.thread 0) = true := by
    rw [hstore,hthread]
    rfl
  have hl : machine.step (.act 0 answer) s = some _ := Threads.guarded_step_act.mpr ⟨hallowed,rfl⟩
  have hf : Finalizes operation.id s (.act 0 answer) := by
    refine ⟨0,answer,worker,planned₀,rfl,rfl,?_,rfl,rfl,?_⟩
    · rw [hthread]
      rfl
    · rw [hstore]
      rfl
  obtain ⟨hcomplete,hafter⟩ := (fenced_and_atomic start_leaving hreach).2.2.2 _ _ _ hl hf
  obtain ⟨htombstoned,hgone,_⟩ := hafter _ (.refl _)
  rw [hstore] at hcomplete
  have haccounts : (planned s.store operation.id).map (·.actorApId) = [alice] := by
    rw [hstore]
    rfl
  rw [haccounts] at htombstoned
  exact ⟨hcomplete,_,hreach.snoc hl trivial,htombstoned,hgone⟩

end leaving

end Yurucommu.Deletions
