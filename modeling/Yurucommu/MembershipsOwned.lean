import Yurucommu.Memberships

/-!
Which batches keep an owner in every live community, and that all of them keep the member counts.
-/

set_option autoImplicit false

namespace Yurucommu.Memberships

open Whatwg (Text)

section rows

variable {community actor : Text} {rows : List Member} {d e : Db} {k : Text} {guard : Bool}

theorem memberWhere_iff {m : Member} : memberWhere community actor m = true ↔
    m.communityApId = community ∧ m.actorApId = actor := by
  simp [memberWhere]

theorem memberExists_iff : memberExists community actor d = true ↔
    ∃ m ∈ d.members, m.communityApId = community ∧ m.actorApId = actor := by
  simp [memberExists,memberWhere]

theorem isOwner_iff : isOwner community actor d = true ↔
    ∃ m ∈ d.members, m.communityApId = community ∧ m.actorApId = actor ∧ m.role = .owner := by
  simp [isOwner,memberWhere,and_assoc]

theorem anotherOwnerExists_iff : anotherOwnerExists community actor d = true ↔
    ∃ other, other ≠ actor ∧ isOwner community other d = true := by
  simp only [anotherOwnerExists,isOwner_iff,List.any_eq_true,Bool.and_eq_true,decide_eq_true_eq]
  constructor
  · rintro ⟨m,hm,⟨hcommunity,hrole⟩,hactor⟩
    exact ⟨m.actorApId,hactor,m,hm,hcommunity,rfl,hrole⟩
  · rintro ⟨other,hother,m,hm,hcommunity,rfl,hrole⟩
    exact ⟨m,hm,⟨hcommunity,hrole⟩,hother⟩

theorem exists_of_isOwner (h : isOwner community actor d = true) :
    memberExists community actor d = true := by
  obtain ⟨m,hm,hcommunity,hactor,_⟩ := isOwner_iff.mp h
  exact memberExists_iff.mpr ⟨m,hm,hcommunity,hactor⟩

theorem tally_append (m : Member) : counter.tally (rows ++ [m]) k =
    counter.tally rows k + if k = m.communityApId then 1 else 0 := by
  rw [Counter.tally_append,Counter.tally_singleton]
  congr 1
  by_cases hk : k = m.communityApId
  · simp [Counter.of,counter,hk]
  · simp [Counter.of,counter,hk,Ne.symm hk]

theorem tally_delete_member (community actor : Text) (guard : Bool) (h : (keys rows).Nodup) : counter.tally rows k =
    counter.tally (Table.delete (fun m => memberWhere community actor m && guard) rows) k +
      if k = community ∧ rows.any (memberWhere community actor) = true ∧ guard = true then 1
      else 0 := by
  rw [Counter.tally_delete _ (fun m => memberWhere community actor m && guard) rows k]
  congr 1
  have hone : rows.countP (fun m => counter.of k m && (memberWhere community actor m && guard)) =
      if rows.any (fun m => counter.of k m && (memberWhere community actor m && guard)) then 1
      else 0 := by
    refine Counter.countP_eq_any h ?_
    intro m _ m' _ ht ht'
    simp only [Bool.and_eq_true,memberWhere_iff] at ht ht'
    obtain ⟨_,⟨hcommunity,hactor⟩,_⟩ := ht
    obtain ⟨_,⟨hcommunity',hactor'⟩,_⟩ := ht'
    rw [hcommunity,hactor,hcommunity',hactor']
  rw [hone]
  congr 1
  have hof : ∀ m : Member, counter.of k m = true ↔ m.communityApId = k := by
    intro m
    constructor
    · intro h
      exact of_decide_eq_true (Bool.and_eq_true_iff.mp h).2
    · intro h
      exact Bool.and_eq_true_iff.mpr ⟨rfl,decide_eq_true h⟩
  simp only [eq_iff_iff,List.any_eq_true,Bool.and_eq_true,hof,memberWhere_iff]
  constructor
  · rintro ⟨m,hm,hk,hmember,hguard⟩
    exact ⟨hk.symm.trans hmember.1,⟨m,hm,hmember⟩,hguard⟩
  · rintro ⟨rfl,⟨m,hm,hmember⟩,hguard⟩
    exact ⟨m,hm,hmember.1,hmember,hguard⟩

theorem keys_delete (cond : Member → Bool) (h : (keys rows).Nodup) :
    (keys (Table.delete cond rows)).Nodup :=
  h.sublist (List.Sublist.map _ List.filter_sublist)

theorem keys_append {m : Member} (h : (keys rows).Nodup)
    (hm : rows.any (memberWhere m.communityApId m.actorApId) = false) :
    (keys (rows ++ [m])).Nodup := by
  unfold keys at h ⊢
  rw [List.map_append,List.nodup_append]
  refine ⟨h,by simp,?_⟩
  intro x hx y hy heq
  obtain ⟨m',hm',rfl⟩ := List.mem_map.mp hx
  rw [List.map_singleton,List.mem_singleton] at hy
  subst hy
  obtain ⟨hcommunity,hactor⟩ := Prod.mk.inj heq
  exact List.any_eq_false.mp hm m' hm' (memberWhere_iff.mpr ⟨hcommunity,hactor⟩)

theorem keys_updateRole (cond : Member → Bool) (role : Role) :
    keys (Table.update cond (fun m => { m with role := role }) rows) = keys rows := by
  unfold keys Table.update
  rw [List.map_map]
  refine List.map_congr_left fun m _ => ?_
  simp only [Function.comp_apply]
  split <;> rfl

end rows

structure Kept (d : Db) : Prop where
  keys : (keys d.members).Nodup
  exact : Exact d

section counts

variable {community actor : Text} {d e : Db} {guard : Bool} {rows : List Member}

theorem exact_bump (h : Exact d) (hrows : ∀ k, counter.tally rows k =
    counter.tally d.members k + if k = community ∧ guard = true then 1 else 0) :
    counter.Exact (bump community guard d).communities rows := by
  refine h.adjust ?_
  intro c _ hcount
  have hk := hrows (counter.id c)
  have hid : counter.id c = c.apId := rfl
  have hn : counter.count c = c.memberCount := rfl
  by_cases htrue : c.apId = community ∧ guard = true
  · rw [if_pos (hid ▸ htrue)] at hk
    rw [if_pos (by simpa using htrue)]
    omega
  · rw [if_neg (hid ▸ htrue)] at hk
    rw [if_neg (by simpa using htrue)]
    omega

theorem exact_drop (h : Exact d) (hrows : ∀ k, counter.tally d.members k =
    counter.tally rows k + if k = community ∧ guard = true then 1 else 0) :
    counter.Exact (drop community guard d).communities rows := by
  refine h.adjust ?_
  intro c _ hcount
  have hk := hrows (counter.id c)
  have hid : counter.id c = c.apId := rfl
  have hn : counter.count c = c.memberCount := rfl
  by_cases htrue : c.apId = community ∧ guard = true
  · rw [if_pos (hid ▸ htrue)] at hk
    have hpos : 0 < c.memberCount := by omega
    rw [if_pos (by simp [htrue.1,htrue.2,hpos])]
    omega
  · rw [if_neg (hid ▸ htrue)] at hk
    rw [if_neg (by
      simp only [Bool.and_eq_true,decide_eq_true_eq]
      exact fun hc => htrue ⟨hc.1.1,hc.2⟩)]
    omega

theorem Kept.insert (h : Kept d) (habsent : memberExists community actor d = false) (now : Nat) :
    Kept (insertMember (bump community true d) ⟨community,actor,.member,now⟩) := by
  refine ⟨keys_append h.keys habsent,?_⟩
  refine exact_bump h.exact ?_
  intro k
  show counter.tally (d.members ++ [⟨community,actor,.member,now⟩]) k = _
  rw [tally_append]
  simp

theorem Kept.delete (h : Kept d) (community actor : Text) (guard : Bool) :
    Kept (deleteMember community actor guard
    (drop community (memberExists community actor d && guard) d)) := by
  refine ⟨keys_delete _ h.keys,?_⟩
  refine exact_drop h.exact ?_
  intro k
  rw [tally_delete_member community actor guard h.keys]
  simp [deleteMember,drop,memberExists]

theorem Kept.updateRole (h : Kept d) (role : Role) :
    Kept (updateRole community actor guard d role) := by
  refine ⟨?_,?_⟩
  · unfold Memberships.updateRole
    simp only [keys_updateRole]
    exact h.keys
  · refine h.exact.of_tally ?_
    intro c _
    let set : Member → Member := fun m => { m with role := role }
    exact counter.tally_update_same (fun m : Member => (rfl : counter.counted (set m) = _))
      (fun m => (rfl : counter.key (set m) = _)) _ _ _

theorem Kept.payload {b : Batch} (h : Kept d) (hb : b.payload d = some e) : Kept e := by
  cases b with
  | insert community actor now =>
    simp only [Batch.payload] at hb
    split at hb
    · cases hb
    · rename_i habsent
      cases hb
      exact h.insert (by simpa using habsent) now
  | addMember community actor now =>
    simp only [Batch.payload] at hb
    split at hb
    · cases hb
      exact h
    · rename_i habsent
      cases hb
      exact h.insert (by simpa using habsent) now
  | removeMember community actor =>
    cases hb
    have hdelete := h.delete community actor true
    simpa using hdelete
  | removeOwnerIfAnotherExists community actor =>
    cases hb
    exact h.delete community actor _
  | setRole community actor role =>
    cases hb
    exact h.updateRole role
  | demoteOwnerIfAnotherExists community actor role =>
    cases hb
    exact h.updateRole role
  | retire community actor now =>
    cases hb
    exact ⟨h.keys,h.exact.update (fun _ => rfl) (fun _ => rfl)⟩
  | complete actor operation =>
    cases hb
    exact ⟨h.keys,h.exact⟩

end counts

section owners

variable {community actor x : Text} {d e : Db} {guard : Bool} {role : Role} {b : Batch}
  {marker : Option Text}

theorem isOwner_insertMember {m : Member} (h : isOwner community actor d = true) :
    isOwner community actor (insertMember d m) = true := by
  obtain ⟨m',hm',hrow⟩ := isOwner_iff.mp h
  exact isOwner_iff.mpr ⟨m',List.mem_append_left _ hm',hrow⟩

theorem isOwner_of_insertMember {m : Member} (hm : m.role ≠ .owner)
    (h : isOwner community actor (insertMember d m) = true) : isOwner community actor d = true := by
  obtain ⟨m',hm',hcommunity,hactor,hrole⟩ := isOwner_iff.mp h
  rcases List.mem_append.mp hm' with hold | hnew
  · exact isOwner_iff.mpr ⟨m',hold,hcommunity,hactor,hrole⟩
  · rw [List.mem_singleton] at hnew
    exact absurd (hnew ▸ hrole) hm

theorem isOwner_deleteMember : isOwner community x (deleteMember community actor guard d) = true ↔
    isOwner community x d = true ∧ (x = actor → guard = false) := by
  simp only [isOwner_iff,deleteMember,Table.delete,List.mem_filter,Bool.not_eq_true',
    Bool.and_eq_false_imp,memberWhere_iff]
  constructor
  · rintro ⟨m,⟨hm,hkeep⟩,hcommunity,rfl,hrole⟩
    exact ⟨⟨m,hm,hcommunity,rfl,hrole⟩,fun hx => hkeep ⟨hcommunity,hx⟩⟩
  · rintro ⟨⟨m,hm,hcommunity,rfl,hrole⟩,hkeep⟩
    exact ⟨m,⟨hm,fun hmember => hkeep hmember.2⟩,hcommunity,rfl,hrole⟩

theorem isOwner_of_deleteMember {k : Text}
    (h : isOwner k x (deleteMember community actor guard d) = true) : isOwner k x d = true := by
  obtain ⟨m,hm,hrow⟩ := isOwner_iff.mp h
  exact isOwner_iff.mpr ⟨m,(List.mem_filter.mp hm).1,hrow⟩

theorem isOwner_deleteMember_of_ne {k : Text} (hk : k ≠ community)
    (h : isOwner k x d = true) : isOwner k x (deleteMember community actor guard d) = true := by
  obtain ⟨m,hm,hcommunity,hrow⟩ := isOwner_iff.mp h
  refine isOwner_iff.mpr ⟨m,List.mem_filter.mpr ⟨hm,?_⟩,hcommunity,hrow⟩
  have hne : memberWhere community actor m = false := by
    rw [Bool.eq_false_iff]
    exact fun htrue => hk (hcommunity.symm.trans (memberWhere_iff.mp htrue).1)
  simp [hne]

theorem isOwner_updateRole {k : Text} (h : isOwner k x d = true)
    (hkeep : k = community → x = actor → guard = false ∨ role = .owner) :
    isOwner k x (updateRole community actor guard d role) = true := by
  obtain ⟨m,hm,hcommunity,hactor,hrole⟩ := isOwner_iff.mp h
  cases hcond : memberWhere community actor m && guard with
  | false =>
    exact isOwner_iff.mpr ⟨m,Table.mem_update.mpr ⟨m,hm,.inl ⟨hcond,rfl⟩⟩,hcommunity,hactor,hrole⟩
  | true =>
    refine isOwner_iff.mpr ⟨_,Table.mem_update.mpr ⟨m,hm,.inr ⟨hcond,rfl⟩⟩,hcommunity,hactor,?_⟩
    simp only [Bool.and_eq_true,memberWhere_iff] at hcond
    obtain ⟨⟨hk,hx⟩,hguard⟩ := hcond
    rcases hkeep (hcommunity.symm.trans hk) (hactor.symm.trans hx) with hfalse | howner
    · rw [hguard] at hfalse
      cases hfalse
    · exact howner

theorem isOwner_of_updateRole {k : Text}
    (h : isOwner k x (updateRole community actor guard d role) = true) :
    isOwner k x d = true ∨
      (x = actor ∧ role = .owner ∧ guard = true ∧ memberExists community actor d = true) := by
  obtain ⟨m',hm',hcommunity,hactor,hrole⟩ := isOwner_iff.mp h
  obtain ⟨m,hm,⟨hcond,rfl⟩ | ⟨hcond,rfl⟩⟩ := Table.mem_update.mp hm'
  · exact .inl (isOwner_iff.mpr ⟨m',hm,hcommunity,hactor,hrole⟩)
  · simp only [Bool.and_eq_true,memberWhere_iff] at hcond
    obtain ⟨hmember,hguard⟩ := hcond
    exact .inr ⟨hactor.symm.trans hmember.2,hrole,hguard,memberExists_iff.mpr ⟨m,hm,hmember⟩⟩

theorem live_of_adjust {cond : Community → Bool} {n : Community → Nat} {members : List Member}
    (h : Live { d with communities := counter.adjust cond n d.communities, members := members }
      community) : Live d community := by
  obtain ⟨c',hc',hid,hlive⟩ := h
  obtain ⟨c,hc,⟨_,rfl⟩ | ⟨_,rfl⟩⟩ := Table.mem_update.mp hc'
  · exact ⟨c',hc,hid,hlive⟩
  · exact ⟨c,hc,hid,hlive⟩

theorem live_of_payload (hb : b.payload d = some e) (h : Live e community) : Live d community := by
  cases b with
  | insert community' actor now =>
    simp only [Batch.payload] at hb
    split at hb
    · cases hb
    · cases hb
      exact live_of_adjust h
  | addMember community' actor now =>
    simp only [Batch.payload] at hb
    split at hb
    · cases hb
      exact h
    · cases hb
      exact live_of_adjust h
  | removeMember community' actor =>
    cases hb
    exact live_of_adjust h
  | removeOwnerIfAnotherExists community' actor =>
    cases hb
    exact live_of_adjust h
  | setRole community' actor role =>
    cases hb
    exact h
  | demoteOwnerIfAnotherExists community' actor role =>
    cases hb
    exact h
  | retire community' actor now =>
    cases hb
    obtain ⟨c',hc',hid,hlive⟩ := h
    obtain ⟨c,hc,⟨_,rfl⟩ | ⟨_,rfl⟩⟩ := Table.mem_update.mp hc'
    · exact ⟨c',hc,hid,hlive⟩
    · cases hlive
  | complete actor operation =>
    cases hb
    exact h

def Batch.Spares (d : Db) : Batch → Prop
  | .removeMember community actor => Spared community actor d
  | .setRole community actor role => role = .owner ∨ Spared community actor d
  | _ => True

theorem owned_of_others (community actor : Text) (h : Owned d) (hlive : ∀ k, Live e k → Live d k)
    (hothers : ∀ k x, isOwner k x d = true → k ≠ community ∨ x ≠ actor → isOwner k x e = true)
    (hactor : Live d community → isOwner community actor d = true →
      anotherOwnerExists community actor d = true ∨ isOwner community actor e = true) : Owned e := by
  intro k hk
  obtain ⟨x,hx⟩ := h k (hlive k hk)
  by_cases hrow : k ≠ community ∨ x ≠ actor
  · exact ⟨x,hothers k x hx hrow⟩
  · simp only [not_or,not_not] at hrow
    obtain ⟨rfl,rfl⟩ := hrow
    rcases hactor (hlive k hk) hx with hanother | hstays
    · obtain ⟨other,hne,hother⟩ := anotherOwnerExists_iff.mp hanother
      exact ⟨other,hothers k other hother (.inr hne)⟩
    · exact ⟨x,hstays⟩

theorem Owned.deleteMember (h : Owned d) {n : Community → Nat} {cond : Community → Bool}
    (hspared : guard = true → Spared community actor d) :
    Owned (deleteMember community actor guard
      { d with communities := counter.adjust cond n d.communities }) := by
  refine owned_of_others community actor h (fun k hk => live_of_adjust hk) ?_ ?_
  · intro k x hx hrow
    by_cases hk : k = community
    · subst hk
      exact isOwner_deleteMember.mpr ⟨hx,fun heq => (hrow.resolve_left (by simp) heq).elim⟩
    · exact isOwner_deleteMember_of_ne hk hx
  · intro hlive hx
    cases hguard : guard with
    | true => exact .inl (hspared hguard hlive hx)
    | false => exact .inr (isOwner_deleteMember.mpr ⟨hx,fun _ => rfl⟩)

theorem Owned.updateRole (h : Owned d)
    (hspared : guard = true → role = .owner ∨ Spared community actor d) :
    Owned (updateRole community actor guard d role) := by
  refine owned_of_others community actor h (fun k hk => hk) ?_ ?_
  · intro k x hx hrow
    refine isOwner_updateRole hx ?_
    intro hk hactor
    exact (hrow.elim (fun hne => hne hk) (fun hne => hne hactor)).elim
  · intro hlive hx
    cases hguard : guard with
    | false => exact .inr (isOwner_updateRole hx fun _ _ => .inl rfl)
    | true =>
      rcases hspared hguard with howner | hspared
      · exact .inr (isOwner_updateRole hx fun _ _ => .inr howner)
      · exact .inl (hspared hlive hx)

theorem Owned.payload (h : Owned d) (hspares : b.Spares d) (hb : b.payload d = some e) : Owned e := by
  cases b with
  | insert community actor now =>
    simp only [Batch.payload] at hb
    split at hb
    · cases hb
    · cases hb
      intro k hk
      obtain ⟨x,hx⟩ := h k (live_of_adjust hk)
      exact ⟨x,isOwner_insertMember hx⟩
  | addMember community actor now =>
    simp only [Batch.payload] at hb
    split at hb
    · cases hb
      exact h
    · cases hb
      intro k hk
      obtain ⟨x,hx⟩ := h k (live_of_adjust hk)
      exact ⟨x,isOwner_insertMember hx⟩
  | removeMember community actor =>
    cases hb
    exact h.deleteMember fun _ => hspares
  | removeOwnerIfAnotherExists community actor =>
    cases hb
    exact h.deleteMember fun hanother _ _ => hanother
  | setRole community actor role =>
    cases hb
    exact h.updateRole fun _ => hspares
  | demoteOwnerIfAnotherExists community actor role =>
    cases hb
    exact h.updateRole fun hanother => .inr fun _ _ => hanother
  | retire community actor now =>
    intro k hk
    obtain ⟨x,hx⟩ := h k (live_of_payload hb hk)
    cases hb
    exact ⟨x,hx⟩
  | complete actor operation =>
    cases hb
    exact h

theorem spared_of_removed (hlive : Live d community → Live e community) (h : Owned e)
    (he : ∀ x, isOwner community x e = true → x ≠ actor ∧ isOwner community x d = true) :
    Spared community actor d := by
  intro hlive' _
  obtain ⟨other,hother⟩ := h community (hlive hlive')
  exact anotherOwnerExists_iff.mpr ⟨other,he other hother⟩

/-- A batch keeps the owners if and only if it spares the only one. -/
theorem owned_iff_spares (h : Owned d) (hb : b.payload d = some e) : Owned e ↔ b.Spares d := by
  refine ⟨?_,fun hspares => h.payload hspares hb⟩
  intro howned
  cases b with
  | removeMember community actor =>
    cases hb
    refine spared_of_removed ?_ howned ?_
    · rintro ⟨c,hc,hid,hlive⟩
      cases hcond : decide (c.apId = community) && decide (0 < c.memberCount) &&
        memberExists community actor d with
      | false => exact ⟨c,Table.mem_update.mpr ⟨c,hc,.inl ⟨hcond,rfl⟩⟩,hid,hlive⟩
      | true => exact ⟨_,Table.mem_update.mpr ⟨c,hc,.inr ⟨hcond,rfl⟩⟩,hid,hlive⟩
    · intro x hx
      obtain ⟨hold,hne⟩ := isOwner_deleteMember.mp hx
      exact ⟨fun heq => Bool.noConfusion (hne heq),hold⟩
  | setRole community actor role =>
    cases hb
    by_cases hrole : role = .owner
    · exact .inl hrole
    · refine .inr (spared_of_removed (e := updateRole community actor true d role)
        (fun hlive => hlive) howned ?_)
      intro x hx
      obtain ⟨m',hm',hcommunity,hactor,howner⟩ := isOwner_iff.mp hx
      obtain ⟨m,hm,⟨hcond,rfl⟩ | ⟨_,rfl⟩⟩ := Table.mem_update.mp hm'
      · refine ⟨?_,isOwner_iff.mpr ⟨m',hm,hcommunity,hactor,howner⟩⟩
        rintro rfl
        rw [memberWhere_iff.mpr ⟨hcommunity,hactor⟩] at hcond
        cases hcond
      · exact absurd howner hrole
  | _ => trivial

end owners

section frozen

variable {d e : Db} {b : Batch} {marker : Option Text} {operation x : Text} {c : Call} {i : Answer}
  {next : Stage}

def Stage.succession : Stage → Bool
  | .memberships | .handOff _ _ _ | .heir _ _ _ _ | .promote _ _ _ _ _ | .retire _ _ | .depart _
  | .complete => true
  | _ => false

def Stage.returns : Stage → Bool
  | .remove _ _ _ | .change _ | .done => true
  | _ => false

def Stage.read : Stage → List Membership
  | .handOff rows _ _ | .heir _ rows _ _ | .promote _ _ rows _ _ | .retire rows _
  | .depart rows => rows
  | _ => []

def Stage.promotes : Stage → Option Text
  | .promote _ x _ _ _ => some x
  | _ => none

def Settled (d : Db) (actor operation : Text) (stage : Stage) : Prop :=
  operation ∈ d.issued ∧
    (∀ x, stage.promotes = some x → targeted x d operation = false) ∧
    (targeted actor d operation = true → ∀ m ∈ stage.read, m.role ≠ .owner →
      isOwner m.communityApId actor d = false)

structure Frozen (d : Db) (c : Call) : Prop where
  proper : ∀ operation, c.request = .teardown operation →
    c.stage = .start ∨ c.stage = .done ∨ c.stage.succession = true
  returns : ∀ b next, c.stage = .write b next → next.returns = true
  settled : c.stage.succession = true →
    ∃ operation, c.request = .teardown operation ∧ Settled d c.actor operation c.stage

/-- What a step leaves of an operation: no new target, and no new owner among the targets. -/
structure Leaves (operation : Text) (d e : Db) : Prop where
  issued : operation ∈ e.issued
  targets : ∀ x, targeted x e operation = true → targeted x d operation = true
  owners : ∀ x community, targeted x d operation = true → isOwner community x e = true →
    isOwner community x d = true

theorem Settled.leaves {actor : Text} {stage : Stage} (h : Settled d actor operation stage)
    (hl : Leaves operation d e) : Settled e actor operation stage := by
  obtain ⟨_,hpromotes,hread⟩ := h
  refine ⟨hl.issued,?_,?_⟩
  · intro x hx
    have hfalse := hpromotes x hx
    rw [Bool.eq_false_iff] at hfalse ⊢
    exact fun htrue => hfalse (hl.targets x htrue)
  · intro htarget m hm hrole
    have hbefore := hl.targets _ htarget
    have hfalse := hread hbefore m hm hrole
    rw [Bool.eq_false_iff] at hfalse ⊢
    exact fun howner => hfalse (hl.owners _ _ hbefore howner)

theorem Frozen.leaves (h : Frozen d c)
    (hl : ∀ operation, operation ∈ d.issued → Leaves operation d e) : Frozen e c := by
  refine ⟨h.proper,h.returns,?_⟩
  intro hstage
  obtain ⟨operation,hrequest,hsettled⟩ := h.settled hstage
  exact ⟨operation,hrequest,hsettled.leaves (hl operation hsettled.1)⟩

theorem reserved_of_targeted (h : targeted x d operation = true) (hne : some operation ≠ marker) :
    reserved x d marker = true := by
  obtain ⟨t,ht,htrue⟩ := List.any_eq_true.mp h
  simp only [Bool.and_eq_true,decide_eq_true_eq] at htrue
  refine List.any_eq_true.mpr ⟨t,ht,?_⟩
  simp only [Bool.and_eq_true,decide_eq_true_eq]
  exact ⟨htrue.1,htrue.2 ▸ hne⟩

theorem payload_of_run (hb : b.run marker d = some e) : b.payload d = some e ∧
    ∀ actor, b.writes d = some actor → reserved actor d marker = false := by
  unfold Batch.run at hb
  cases hwrites : b.writes d with
  | none =>
    rw [hwrites] at hb
    exact ⟨hb,fun _ h => by cases h⟩
  | some actor =>
    rw [hwrites] at hb
    cases hreserved : reserved actor d marker with
    | true => simp [hreserved] at hb
    | false =>
      simp only [hreserved,Bool.false_eq_true,if_false] at hb
      exact ⟨hb,fun _ heq => Option.some.inj heq ▸ hreserved⟩

/-- The member that a batch may make an owner. -/
def Batch.raises : Batch → Option Text
  | .setRole _ actor .owner | .demoteOwnerIfAnotherExists _ actor .owner => some actor
  | _ => none

theorem isOwner_of_run {community : Text} (hb : b.run marker d = some e)
    (h : isOwner community x e = true) : isOwner community x d = true ∨
      (b.raises = some x ∧ reserved x d marker = false) := by
  obtain ⟨hb,hwrites⟩ := payload_of_run hb
  cases b with
  | insert community' actor now =>
    simp only [Batch.payload] at hb
    split at hb
    · cases hb
    · cases hb
      exact .inl (isOwner_of_insertMember (by simp) h)
  | addMember community' actor now =>
    simp only [Batch.payload] at hb
    split at hb
    · cases hb
      exact .inl h
    · cases hb
      exact .inl (isOwner_of_insertMember (by simp) h)
  | removeMember community' actor =>
    cases hb
    exact .inl (isOwner_of_deleteMember h)
  | removeOwnerIfAnotherExists community' actor =>
    cases hb
    exact .inl (isOwner_of_deleteMember h)
  | setRole community' actor role =>
    cases hb
    rcases isOwner_of_updateRole h with hold | ⟨rfl,rfl,_,hexists⟩
    · exact .inl hold
    · exact .inr ⟨rfl,hwrites x (by simp [Batch.writes,hexists])⟩
  | demoteOwnerIfAnotherExists community' actor role =>
    cases hb
    rcases isOwner_of_updateRole h with hold | ⟨rfl,rfl,hanother,hexists⟩
    · exact .inl hold
    · exact .inr ⟨rfl,hwrites x (by simp [Batch.writes,hexists,hanother])⟩
  | retire community' actor now =>
    cases hb
    exact .inl h
  | complete actor operation =>
    cases hb
    exact .inl h

theorem payload_targets (hb : b.payload d = some e) : e.issued = d.issued ∧
    ∀ x operation, targeted x e operation = targeted x d operation := by
  cases b with
  | insert community' actor now | addMember community' actor now =>
    simp only [Batch.payload] at hb
    split at hb
    · cases hb <;> exact ⟨rfl,fun _ _ => rfl⟩
    · cases hb
      exact ⟨rfl,fun _ _ => rfl⟩
  | complete actor operation =>
    cases hb
    refine ⟨rfl,?_⟩
    intro x operation'
    refine Table.any_update _ _ _ ?_ _
    intro t
    rfl
  | _ =>
    cases hb
    exact ⟨rfl,fun _ _ => rfl⟩

theorem batch_of_teardown (h : Frozen d c) (hrequest : c.request = .teardown operation)
    (hbatch : batch i c = some (b,next)) (hraises : b.raises = some x) :
    targeted x d operation = false := by
  unfold batch at hbatch
  cases hstage : c.stage with
  | write b' next' =>
    have hproper := h.proper operation hrequest
    rw [hstage] at hproper
    simp [Stage.succession] at hproper
  | promote community heir rows left retirements =>
    rw [hstage] at hbatch
    cases hbatch
    cases hraises
    obtain ⟨operation',hrequest',_,hpromotes,_⟩ := h.settled (by rw [hstage]; rfl)
    rw [hrequest] at hrequest'
    cases hrequest'
    exact hpromotes _ (by rw [hstage]; rfl)
  | retire rows retirements =>
    rw [hstage] at hbatch
    cases retirements with
    | nil => cases hbatch
    | cons community retirements =>
      cases hbatch
      cases hraises
  | depart rows =>
    rw [hstage] at hbatch
    cases rows with
    | nil => cases hbatch
    | cons m rows =>
      cases hbatch
      cases hraises
  | complete =>
    simp only [hstage,Request.operation,hrequest,Option.map_some,Option.some.injEq] at hbatch
    cases hbatch
    cases hraises
  | _ =>
    rw [hstage] at hbatch
    cases hbatch

/-- A batch that commits leaves the targets of every operation alone. -/
theorem leaves_of_commit (h : Frozen d c) (hbatch : batch i c = some (b,next))
    (hcommit : commit c d b = some e) (hissued : operation ∈ d.issued) :
    Leaves operation d e := by
  have hrun : b.run c.request.operation d = some e := by
    unfold commit at hcommit
    split at hcommit
    · exact hcommit
    · cases hcommit
  obtain ⟨hsame,htargets⟩ := payload_targets (payload_of_run hrun).1
  refine ⟨hsame ▸ hissued,fun x hx => htargets x operation ▸ hx,?_⟩
  intro x community htarget howner
  rcases isOwner_of_run hrun howner with hold | ⟨hraises,hreserved⟩
  · exact hold
  · by_cases hmarker : some operation = c.request.operation
    · have hrequest : c.request = .teardown operation := by
        cases hc : c.request with
        | teardown operation' =>
          rw [hc] at hmarker
          rw [Option.some.inj hmarker]
        | _ =>
          rw [hc] at hmarker
          cases hmarker
      rw [batch_of_teardown h hrequest hbatch hraises] at htarget
      cases htarget
    · rw [reserved_of_targeted htarget hmarker] at hreserved
      cases hreserved

theorem leaves_of_happen {event : Event} (hpossible : possible event d = true)
    (hissued : operation ∈ d.issued) : Leaves operation d (happen event d) := by
  cases event with
  | reserve operation' actors =>
    simp only [possible,Bool.and_eq_true,Bool.not_eq_true',List.contains_eq_mem,
      decide_eq_false_iff_not] at hpossible
    refine ⟨List.mem_cons_of_mem _ hissued,?_,fun _ _ _ h => h⟩
    intro x htarget
    obtain ⟨t,ht,htrue⟩ := List.any_eq_true.mp htarget
    rcases List.mem_append.mp ht with hold | hnew
    · exact List.any_eq_true.mpr ⟨t,hold,htrue⟩
    · obtain ⟨actor,_,rfl⟩ := List.mem_map.mp hnew
      simp only [Bool.and_eq_true,decide_eq_true_eq] at htrue
      exact absurd (htrue.2 ▸ hissued) hpossible.1
  | finalize operation' =>
    refine ⟨hissued,?_,fun _ _ _ h => h⟩
    intro x htarget
    obtain ⟨t,ht,htrue⟩ := List.any_eq_true.mp htarget
    exact List.any_eq_true.mpr ⟨t,(List.mem_filter.mp ht).1,htrue⟩

def Stage.Plain (stage : Stage) : Prop :=
  stage.succession = false ∧ ∀ b next, stage = .write b next → next.returns = true

theorem plain_of_not_write {stage : Stage} (h : stage.succession = false)
    (hwrite : ∀ b next, stage ≠ .write b next) : stage.Plain :=
  ⟨h,fun b next heq => absurd heq (hwrite b next)⟩

theorem plain_write (hnext : next.returns = true) : (Stage.write b next).Plain := by
  refine ⟨rfl,?_⟩
  rintro _ _ ⟨⟩
  exact hnext

theorem plain_of_returns {stage : Stage} (h : stage.returns = true) : stage.Plain := by
  cases stage with
  | remove | change | done => exact plain_of_not_write rfl (by simp)
  | _ => cases h

theorem Frozen.plain {stage : Stage} (hroute : ∀ operation, c.request ≠ .teardown operation)
    (h : stage.Plain) : Frozen d { c with stage := stage } := by
  refine ⟨fun operation heq => absurd heq (hroute operation),h.2,?_⟩
  intro htrue
  have hfalse : stage.succession = true := htrue
  rw [h.1] at hfalse
  cases hfalse

theorem Frozen.done : Frozen d { c with stage := .done } := by
  refine ⟨fun _ _ => .inr (.inl rfl),?_,?_⟩
  · rintro _ _ ⟨⟩
  · intro h
    cases h

theorem Frozen.succession {stage : Stage} (hrequest : c.request = .teardown operation)
    (hstage : stage.succession = true) (h : Settled d c.actor operation stage) :
    Frozen d { c with stage := stage } := by
  refine ⟨fun _ _ => .inr (.inr hstage),?_,fun _ => ⟨operation,hrequest,h⟩⟩
  rintro b next heq
  have hwrite : stage = .write b next := heq
  rw [hwrite] at hstage
  cases hstage

theorem plain_readManager {actor : Text} {m : Member} {r : Request} :
    (readManager actor m r).Plain := by
  cases r <;> simp only [readManager]
  case join | leave | teardown => exact plain_of_returns rfl
  all_goals split
  all_goals first | exact plain_of_returns rfl | exact plain_of_not_write rfl (by simp)

theorem plain_readTarget {manager : Role} {r : Request} : (readTarget manager d r).Plain := by
  unfold readTarget
  split
  · split
    · exact plain_of_returns rfl
    · split
      · exact plain_of_returns rfl
      · exact plain_write rfl
  · exact plain_of_returns rfl

theorem plain_removeNext {actor community target : Text} {manager : Role} {rest : List Text}
    {known : List (Text × Role)} : (removeNext actor community manager target rest known).Plain := by
  simp only [removeNext]
  split
  · exact plain_of_returns rfl
  · split
    · exact plain_of_returns rfl
    · split
      · exact plain_of_returns rfl
      · exact plain_write rfl

theorem plain_changeNext {target : Text} {rest : List Text} {r : Request} :
    (changeNext target rest d r).Plain := by
  unfold changeNext
  split
  · split
    · exact plain_of_returns rfl
    · exact plain_write rfl
  · split
    · exact plain_of_returns rfl
    · exact plain_write rfl
  · exact plain_of_returns rfl

theorem plain_advance (hroute : ∀ operation, c.request ≠ .teardown operation)
    (hstage : c.stage.succession = false) (hwrite : ∀ b next, c.stage ≠ .write b next) :
    (advance i c d).Plain := by
  unfold advance
  cases hc : c.stage with
  | start =>
    cases hr : c.request with
    | teardown operation => exact absurd hr (hroute operation)
    | _ =>
      simp only
      split
      · exact plain_of_not_write rfl (by simp)
      · exact plain_of_returns rfl
  | existing =>
    simp only
    split
    · exact plain_of_returns rfl
    · exact plain_of_not_write rfl (by simp)
  | admission =>
    simp only
    split
    · exact plain_write rfl
    · exact plain_of_returns rfl
  | membership =>
    simp only
    split
    · exact plain_of_returns rfl
    · split
      · exact plain_write rfl
      · exact plain_write rfl
  | manager =>
    simp only
    split
    · exact plain_of_returns rfl
    · exact plain_readManager
  | pending =>
    simp only
    split
    · split
      · exact plain_write rfl
      · exact plain_of_returns rfl
    · exact plain_of_returns rfl
  | target manager => exact plain_readTarget
  | preload manager left known =>
    cases left with
    | nil =>
      simp only
      split
      · exact plain_of_returns rfl
      · exact plain_of_returns rfl
    | cons target left => exact plain_of_not_write rfl (by simp)
  | remove manager targets known =>
    cases targets with
    | nil => exact plain_of_returns rfl
    | cons target rest => exact plain_removeNext
  | change targets =>
    cases targets with
    | nil => exact plain_of_returns rfl
    | cons target rest => exact plain_changeNext
  | write b next => exact absurd hc (hwrite b next)
  | done => exact plain_of_returns rfl
  | _ =>
    rw [hc] at hstage
    cases hstage

theorem mem_oldest {ms : List Member} {m : Member} (h : oldest ms = some m) : m ∈ ms := by
  induction ms generalizing m with
  | nil => cases h
  | cons n ms ih =>
    simp only [oldest] at h
    cases hold : oldest ms with
    | none =>
      rw [hold] at h
      cases h
      exact List.mem_cons_self
    | some o =>
      simp only [hold] at h
      split at h
      · cases h
        exact List.mem_cons_of_mem _ (ih hold)
      · cases h
        exact List.mem_cons_self

theorem targeted_of_not_deleting (h : deleting x d = false) : targeted x d operation = false := by
  unfold deleting at h
  rw [List.any_eq_false] at h
  unfold targeted
  rw [List.any_eq_false]
  intro t ht htrue
  rw [Bool.and_eq_true] at htrue
  exact h t ht htrue.1

theorem Kept.not_owner (h : Kept d) {m : Member} (hm : m ∈ d.members) (hrole : m.role ≠ .owner) :
    isOwner m.communityApId m.actorApId d = false := by
  rw [Bool.eq_false_iff]
  intro htrue
  obtain ⟨m',hm',hcommunity,hactor,howner⟩ := isOwner_iff.mp htrue
  have hsame : m' = m := by
    refine List.inj_on_of_nodup_map h.keys hm' hm ?_
    rw [hcommunity,hactor]
  exact hrole (hsame ▸ howner)

theorem settled_advance (hkept : Kept d) (hstage : c.stage.succession = true)
    (hsettled : Settled d c.actor operation c.stage) :
    (advance i c d).succession = true ∧ Settled d c.actor operation (advance i c d) := by
  unfold advance
  cases hc : c.stage with
  | memberships =>
    rw [hc] at hsettled
    refine ⟨rfl,hsettled.1,(fun x hx => nomatch hx),?_⟩
    intro _ m hm hrole
    obtain ⟨row,hrow,rfl⟩ := List.mem_map.mp hm
    obtain ⟨hmember,hactor⟩ := List.mem_filter.mp hrow
    have hnot := hkept.not_owner hmember hrole
    rw [of_decide_eq_true hactor] at hnot
    exact hnot
  | handOff rows left retirements =>
    rw [hc] at hsettled
    cases left with
    | nil => exact ⟨rfl,hsettled⟩
    | cons m left =>
      simp only
      split
      · exact ⟨rfl,hsettled⟩
      · split
        · exact ⟨rfl,hsettled⟩
        · exact ⟨rfl,hsettled⟩
  | heir community rows left retirements =>
    rw [hc] at hsettled
    simp only
    split
    · exact ⟨rfl,hsettled⟩
    · rename_i m hheir
      refine ⟨rfl,hsettled.1,?_,hsettled.2.2⟩
      rintro x ⟨⟩
      have hmem := (List.mem_filter.mp (mem_oldest hheir)).2
      simp only [remains,Bool.and_eq_true,Bool.not_eq_true'] at hmem
      exact targeted_of_not_deleting hmem.2
  | promote community heir rows left retirements =>
    rw [hc] at hsettled
    exact ⟨rfl,hsettled⟩
  | retire rows retirements =>
    rw [hc] at hsettled
    cases retirements with
    | nil => exact ⟨rfl,hsettled⟩
    | cons community retirements => exact ⟨rfl,hsettled⟩
  | depart rows =>
    rw [hc] at hsettled
    cases rows with
    | nil => exact ⟨rfl,hsettled.1,(fun x hx => nomatch hx),fun _ m hm => nomatch hm⟩
    | cons m rows => exact ⟨rfl,hsettled⟩
  | complete =>
    rw [hc] at hsettled
    exact ⟨rfl,hsettled⟩
  | _ =>
    rw [hc] at hstage
    cases hstage

theorem Frozen.thrown (h : Frozen d c) : Frozen d { c with stage := c.stage.thrown } := by
  by_cases hroute : ∀ operation, c.request ≠ .teardown operation
  · refine Frozen.plain hroute ?_
    cases hc : c.stage with
    | write b next => exact plain_of_returns (h.returns b next hc)
    | change targets => cases targets <;> exact plain_of_returns rfl
    | _ => exact plain_of_returns rfl
  · simp only [not_forall,not_not] at hroute
    obtain ⟨operation,hrequest⟩ := hroute
    have hdone : c.stage.thrown = .done := by
      rcases h.proper operation hrequest with hstart | hdone | hstage
      · rw [hstart]
        rfl
      · rw [hdone]
        rfl
      · cases hc : c.stage with
        | write b next =>
          rw [hc] at hstage
          cases hstage
        | change targets =>
          rw [hc] at hstage
          cases hstage
        | _ => rfl
    rw [hdone]
    exact Frozen.done

theorem Frozen.advance (h : Frozen d c) (hkept : Kept d)
    (hissued : ∀ t ∈ d.targets, t.operationId ∈ d.issued) (hbatch : batch i c = none) :
    Frozen d { c with stage := advance i c d } := by
  by_cases hstage : c.stage.succession = true
  · obtain ⟨operation,hrequest,hsettled⟩ := h.settled hstage
    obtain ⟨hsuccession,hafter⟩ := settled_advance (i := i) hkept hstage hsettled
    exact Frozen.succession hrequest hsuccession hafter
  · have hfalse : c.stage.succession = false := by simpa using hstage
    by_cases hroute : ∀ operation, c.request ≠ .teardown operation
    · refine Frozen.plain hroute (plain_advance hroute hfalse ?_)
      intro b next hc
      unfold batch at hbatch
      rw [hc] at hbatch
      cases hbatch
    · simp only [not_forall,not_not] at hroute
      obtain ⟨operation,hrequest⟩ := hroute
      rcases h.proper operation hrequest with hstart | hdone | hsuccession
      · have hadvance : Memberships.advance i c d =
            if targeted c.actor d operation then .memberships else .done := by
          unfold Memberships.advance
          simp only [hstart,hrequest]
        rw [hadvance]
        split
        · rename_i htarget
          obtain ⟨t,ht,htrue⟩ := List.any_eq_true.mp htarget
          simp only [Bool.and_eq_true,decide_eq_true_eq] at htrue
          refine Frozen.succession hrequest rfl ⟨htrue.2 ▸ hissued t ht,?_,?_⟩
          · intro x hx
            cases hx
          · intro _ m hm
            cases hm
        · exact Frozen.done
      · have hadvance : Memberships.advance i c d = .done := by
          unfold Memberships.advance
          simp only [hdone]
        rw [hadvance]
        exact Frozen.done
      · rw [hfalse] at hsuccession
        cases hsuccession

theorem Frozen.committed (h : Frozen d c) (hbatch : batch i c = some (b,next)) :
    Frozen d { c with stage := next } := by
  unfold batch at hbatch
  cases hc : c.stage with
  | write b' next' =>
    rw [hc] at hbatch
    cases hbatch
    refine Frozen.plain ?_ (plain_of_returns (h.returns _ _ hc))
    intro operation hrequest
    have hproper := h.proper operation hrequest
    rw [hc] at hproper
    simp [Stage.succession] at hproper
  | promote community x rows left retirements =>
    rw [hc] at hbatch
    cases hbatch
    obtain ⟨operation,hrequest,hissued,_,hread⟩ := h.settled (by rw [hc]; rfl)
    rw [hc] at hread
    exact Frozen.succession hrequest rfl ⟨hissued,(fun x hx => nomatch hx),hread⟩
  | retire rows retirements =>
    rw [hc] at hbatch
    cases retirements with
    | nil => cases hbatch
    | cons community retirements =>
      cases hbatch
      obtain ⟨operation,hrequest,hissued,_,hread⟩ := h.settled (by rw [hc]; rfl)
      rw [hc] at hread
      exact Frozen.succession hrequest rfl ⟨hissued,(fun x hx => nomatch hx),hread⟩
  | depart rows =>
    rw [hc] at hbatch
    cases rows with
    | nil => cases hbatch
    | cons m rows =>
      cases hbatch
      obtain ⟨operation,hrequest,hissued,_,hread⟩ := h.settled (by rw [hc]; rfl)
      rw [hc] at hread
      exact Frozen.succession hrequest rfl ⟨hissued,(fun x hx => nomatch hx),
        fun htarget m hm => hread htarget m (List.mem_cons_of_mem _ hm)⟩
  | complete =>
    simp only [hc] at hbatch
    obtain ⟨operation,_,heq⟩ := Option.map_eq_some_iff.mp hbatch
    cases heq
    exact Frozen.done
  | _ =>
    rw [hc] at hbatch
    cases hbatch

end frozen

section run

variable {s₀ s t : Pool} {d e : Db} {b : Batch} {c : Call} {i : Answer} {next : Stage}

theorem payload_of_commit (h : commit c d b = some e) :
    admits c d = true ∧ b.payload d = some e := by
  unfold commit at h
  split at h
  · rename_i hadmits
    exact ⟨hadmits,(payload_of_run h).1⟩
  · cases h

theorem work_cases (i : Answer) (p : Nat) (d : Db) (c : Call) :
    work i p d c = (d,{ c with stage := c.stage.thrown }) ∨
    (batch i c = none ∧ work i p d c = (d,{ c with stage := advance i c d })) ∨
    ∃ b next e, i.fails = false ∧ batch i c = some (b,next) ∧ commit c d b = some e ∧
      work i p d c = (e,{ c with stage := next }) := by
  unfold work
  cases hfails : i.fails with
  | true => exact .inl rfl
  | false =>
    cases hbatch : batch i c with
    | none => exact .inr (.inl ⟨rfl,rfl⟩)
    | some r =>
      cases hcommit : commit c d r.1 with
      | none => exact .inl (by simp [hcommit])
      | some e => exact .inr (.inr ⟨r.1,r.2,e,rfl,rfl,hcommit,by simp [hcommit]⟩)

structure Holds (s : Pool) : Prop where
  kept : Kept s.store
  issued : ∀ t ∈ s.store.targets, t.operationId ∈ s.store.issued
  frozen : ∀ p, Frozen s.store (s.thread p)

theorem Start.holds (h : Start s) : Holds s where
  kept := ⟨h.keys,h.exact⟩
  issued := h.issued
  frozen p := by
    have hstart := h.start p
    refine ⟨fun _ _ => .inl hstart,?_,?_⟩
    · intro b next heq
      rw [hstart] at heq
      cases heq
    · intro hstage
      rw [hstart] at hstage
      cases hstage

theorem issued_payload (h : ∀ t ∈ d.targets, t.operationId ∈ d.issued)
    (hb : b.payload d = some e) : ∀ t ∈ e.targets, t.operationId ∈ e.issued := by
  cases b with
  | insert community actor now | addMember community actor now =>
    simp only [Batch.payload] at hb
    split at hb
    · cases hb <;> exact h
    · cases hb
      exact h
  | complete actor operation =>
    cases hb
    intro t' ht'
    obtain ⟨t,ht,⟨_,rfl⟩ | ⟨_,rfl⟩⟩ := Table.mem_update.mp ht'
    · exact h t' ht
    · exact h t ht
  | _ =>
    cases hb
    exact h

theorem Holds.happen {event : Event} (h : Holds s) (hpossible : possible event s.store = true) :
    Holds ⟨happen event s.store,s.thread⟩ := by
  refine ⟨?_,?_,fun p => (h.frozen p).leaves fun _ hissued => leaves_of_happen hpossible hissued⟩
  · cases event <;> exact ⟨h.kept.keys,h.kept.exact⟩
  · cases event with
    | reserve operation actors =>
      intro t ht
      rcases List.mem_append.mp ht with hold | hnew
      · exact List.mem_cons_of_mem _ (h.issued t hold)
      · obtain ⟨actor,_,rfl⟩ := List.mem_map.mp hnew
        exact List.mem_cons_self
    | finalize operation =>
      intro t ht
      exact h.issued t (List.mem_filter.mp ht).1

theorem Holds.step {l : Label} (h : Holds s) (hl : machine.step l s = some t) : Holds t := by
  cases l with
  | env event =>
    obtain ⟨hpossible,rfl⟩ := Threads.guarded_step_env.mp hl
    exact h.happen hpossible
  | act p i =>
    obtain ⟨_,rfl⟩ := Threads.guarded_step_act.mp hl
    have hthread : ∀ {e : Db} {c' : Call}, work i p s.store (s.thread p) = (e,c') →
        Kept e → (∀ t ∈ e.targets, t.operationId ∈ e.issued) →
        (∀ q, Frozen e (s.thread q)) → Frozen e c' →
        Holds ⟨(work i p s.store (s.thread p)).1,
          Function.update s.thread p (work i p s.store (s.thread p)).2⟩ := by
      intro e c' hwork hkept hissued hothers hown
      simp only [hwork]
      refine ⟨hkept,hissued,?_⟩
      intro q
      by_cases hq : q = p
      · subst hq
        simpa using hown
      · simpa [Function.update_of_ne hq] using hothers q
    rcases work_cases i p s.store (s.thread p) with hthrown | ⟨hbatch,hread⟩ |
      ⟨b,next,e,_,hbatch,hcommit,hwrite⟩
    · exact hthread hthrown h.kept h.issued h.frozen (h.frozen p).thrown
    · exact hthread hread h.kept h.issued h.frozen ((h.frozen p).advance h.kept h.issued hbatch)
    · have hpayload := (payload_of_commit hcommit).2
      have hothers : ∀ q, Frozen e (s.thread q) := fun q => (h.frozen q).leaves
        fun _ hissued => leaves_of_commit (h.frozen p) hbatch hcommit hissued
      exact hthread hwrite (h.kept.payload hpayload) (issued_payload h.issued hpayload) hothers
        ((hothers p).committed hbatch)

/-- The condition on a step is that its batch spares the only owner: a membership that was read
as no owner's does not need it. -/
theorem spares_of_meets {p : Nat} (h : Holds s) (hm : Spares s (.act p i)) (hfails : i.fails = false)
    (hbatch : batch i (s.thread p) = some (b,next))
    (hcommit : commit (s.thread p) s.store b = some e) : b.Spares s.store := by
  have hm := hm p i rfl hfails
  unfold batch at hbatch
  cases hc : (s.thread p).stage with
  | write b' next' =>
    rw [hc] at hbatch hm
    cases hbatch
    cases b with
    | removeMember | setRole => exact hm
    | _ => trivial
  | promote community x rows left retirements =>
    rw [hc] at hbatch
    cases hbatch
    exact .inl rfl
  | retire rows retirements =>
    rw [hc] at hbatch
    cases retirements with
    | nil => cases hbatch
    | cons community retirements =>
      cases hbatch
      trivial
  | depart rows =>
    rw [hc] at hbatch hm
    cases rows with
    | nil => cases hbatch
    | cons m rows =>
      cases hbatch
      by_cases hrole : m.role = .owner
      · exact hm hrole
      · intro _ howner
        obtain ⟨operation,hrequest,_,_,hread⟩ := (h.frozen p).settled (by rw [hc]; rfl)
        have hadmits := (payload_of_commit hcommit).1
        unfold admits at hadmits
        rw [hrequest] at hadmits
        rw [hc] at hread
        rw [hread hadmits m List.mem_cons_self hrole] at howner
        cases howner
  | complete =>
    simp only [hc] at hbatch
    obtain ⟨operation,_,heq⟩ := Option.map_eq_some_iff.mp hbatch
    cases heq
    trivial
  | _ =>
    rw [hc] at hbatch
    cases hbatch

theorem Owned.step {l : Label} (h : Holds s) (howned : Owned s.store)
    (hl : machine.step l s = some t) (hm : Spares s l) : Owned t.store := by
  cases l with
  | env event =>
    obtain ⟨_,rfl⟩ := Threads.guarded_step_env.mp hl
    cases event <;> exact howned
  | act p i =>
    obtain ⟨_,rfl⟩ := Threads.guarded_step_act.mp hl
    rcases work_cases i p s.store (s.thread p) with hthrown | ⟨_,hread⟩ |
      ⟨b,next,e,hfails,hbatch,hcommit,hwrite⟩
    · simp only [hthrown]
      exact howned
    · simp only [hread]
      exact howned
    · simp only [hwrite]
      exact howned.payload (spares_of_meets h hm hfails hbatch hcommit)
        (payload_of_commit hcommit).2

theorem Owned.tended (h : Owned d) {community : Text} (hlive : Live d community)
    (hquiet : ∀ x, memberExists community x d = true → deleting x d = false) :
    ∃ x, isOwner community x d = true ∧ deleting x d = false := by
  obtain ⟨x,hx⟩ := h community hlive
  exact ⟨x,hx,hquiet x (exists_of_isOwner hx)⟩

/-- The counts are exact in every run. A live community has an owner in every run whose unguarded
writes spare the only one, and none who is being deleted once no member is. -/
theorem counts_and_owners (h₀ : Start s₀) :
    (∀ s, machine.Reaches s₀ s → Exact s.store) ∧
    ∀ s, machine.ReachesBy (fun s l _ => Spares s l) s₀ s → Owned s.store ∧
      ∀ community, Live s.store community →
        (∀ x, memberExists community x s.store = true → deleting x s.store = false) →
        ∃ x, isOwner community x s.store = true ∧ deleting x s.store = false := by
  refine ⟨?_,?_⟩
  · intro s hr
    have hholds := hr.invariant (P := Holds) h₀.holds fun a l b ha hl _ => ha.step hl
    exact hholds.kept.exact
  · intro s hr
    have hboth := hr.invariant (P := fun s => Holds s ∧ Owned s.store) ⟨h₀.holds,h₀.owned⟩
      fun a l b ha hl hm => ⟨ha.1.step hl,ha.2.step ha.1 hl hm⟩
    exact ⟨hboth.2,fun community hlive hquiet => hboth.2.tended hlive hquiet⟩

end run

section promoted

def club : Text := "club".toList
def alice : Text := "alice".toList
def bob : Text := "bob".toList

def joined : Db :=
  ⟨[⟨club,2,none⟩],[⟨club,alice,.owner,0⟩,⟨club,bob,.member,1⟩],[],[]⟩

/-- alice makes bob a moderator and, elsewhere, an owner. Then she leaves. -/
def promoting : Pool :=
  ⟨joined,fun p =>
    if p = 0 then ⟨alice,.changeRole club bob .moderator,.start⟩
    else if p = 1 then ⟨alice,.changeRole club bob .owner,.start⟩
    else ⟨alice,.leave club,.start⟩⟩

theorem start_promoting : Start promoting where
  keys := by decide
  exact c hc := by
    have hmem : c = ⟨club,2,none⟩ := by simpa [promoting,joined] using hc
    subst hmem
    decide
  owned community hlive := by
    obtain ⟨c,hc,rfl,_⟩ := hlive
    have hmem : c = ⟨club,2,none⟩ := by simpa [promoting,joined] using hc
    subst hmem
    exact ⟨alice,by decide⟩
  issued t ht := by
    simp [promoting,joined] at ht
  start p := by
    simp only [promoting]
    split
    · rfl
    · split <;> rfl

/-- The first request alone. -/
theorem counts_and_owners_promoting : Owned
    ⟨[⟨club,2,none⟩],[⟨club,alice,.owner,0⟩,⟨club,bob,.moderator,1⟩],[],[]⟩ := by
  let c (stage : Stage) : Call := ⟨alice,.changeRole club bob .moderator,stage⟩
  let write : Stage := .write (.setRole club bob .moderator) (.change [])
  let s₁ : Pool := ⟨joined,Function.update promoting.thread 0 (c .manager)⟩
  let s₂ : Pool := ⟨joined,Function.update s₁.thread 0 (c (.change [bob]))⟩
  let s₃ : Pool := ⟨joined,Function.update s₂.thread 0 (c write)⟩
  let d : Db := ⟨[⟨club,2,none⟩],[⟨club,alice,.owner,0⟩,⟨club,bob,.moderator,1⟩],[],[]⟩
  have h₁ : machine.step (.act 0 {}) promoting = some s₁ := rfl
  have h₂ : machine.step (.act 0 {}) s₁ = some s₂ := rfl
  have h₃ : machine.step (.act 0 {}) s₂ = some s₃ := rfl
  have h₄ : machine.step (.act 0 {}) s₃ =
      some ⟨d,Function.update s₃.thread 0 (c (.change []))⟩ := rfl
  have hreach := ((((Machine.ReachesBy.refl (C := fun s l _ => Spares s l) promoting).snoc h₁
    ?_).snoc h₂ ?_).snoc h₃ ?_).snoc h₄ ?_
  · exact ((counts_and_owners start_promoting).2 _ hreach).1
  · intro p i hact _
    cases hact
    trivial
  · intro p i hact _
    cases hact
    trivial
  · intro p i hact _
    cases hact
    trivial
  · intro p i hact _
    cases hact
    refine .inr ?_
    intro _ howner
    revert howner
    decide

/-- The reservation of the only owner leaves a community without an owner who stays, until the
deletion comes to it. A role that was read before the member became an owner is another matter:
its write demotes the only owner. -/
theorem owner_reserved_or_demoted :
    (¬∀ s₀ s : Pool, Start s₀ → machine.Reaches s₀ s → Tended s.store ∧ Exact s.store) ∧
    ¬∀ s₀ s : Pool, Start s₀ → machine.Reaches s₀ s → Owned s.store := by
  have hlive : ∀ {d : Db}, d.communities = [⟨club,2,none⟩] ∨ d.communities = [⟨club,1,none⟩] →
      Live d club := by
    rintro d (h | h)
    · exact ⟨⟨club,2,none⟩,by rw [h]; exact List.mem_cons_self,rfl,rfl⟩
    · exact ⟨⟨club,1,none⟩,by rw [h]; exact List.mem_cons_self,rfl,rfl⟩
  refine ⟨?_,?_⟩
  · intro h
    have hrun : (machine.run [.env (.reserve [] [alice])] promoting).map (·.store) =
        some ⟨[⟨club,2,none⟩],[⟨club,alice,.owner,0⟩,⟨club,bob,.member,1⟩],[⟨alice,[],false⟩],[[]]⟩ :=
      rfl
    obtain ⟨s,hs,hstore⟩ := Option.map_eq_some_iff.mp hrun
    obtain ⟨htended,_⟩ := h promoting s start_promoting (.of_run hs)
    rw [hstore] at htended
    obtain ⟨x,howner,hstays⟩ := htended club (hlive (.inl rfl)) ⟨bob,by decide,by decide⟩
    obtain ⟨m,hm,_,rfl,hrole⟩ := isOwner_iff.mp howner
    have hmem : m = ⟨club,alice,.owner,0⟩ ∨ m = ⟨club,bob,.member,1⟩ := by simpa using hm
    rcases hmem with rfl | rfl
    · revert hstays
      decide
    · cases hrole
  · intro h
    have hrun : (machine.run [.act 0 {},.act 0 {},.act 0 {},.act 1 {},.act 1 {},.act 1 {},.act 1 {},
        .act 2 {},.act 2 {},.act 2 {},.act 0 {}] promoting).map (·.store) =
          some ⟨[⟨club,1,none⟩],[⟨club,bob,.moderator,1⟩],[],[]⟩ := rfl
    obtain ⟨s,hs,hstore⟩ := Option.map_eq_some_iff.mp hrun
    have howned := h promoting s start_promoting (.of_run hs)
    rw [hstore] at howned
    obtain ⟨x,howner⟩ := howned club (hlive (.inr rfl))
    obtain ⟨m,hm,_,_,hrole⟩ := isOwner_iff.mp howner
    have hmem : m = ⟨club,bob,.moderator,1⟩ := by simpa using hm
    subst hmem
    cases hrole

end promoted

end Yurucommu.Memberships
