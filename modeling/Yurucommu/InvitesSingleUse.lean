import Yurucommu.Invites

/-!
An invite is used by whoever it lets in, exactly as long as nothing fails between its claim and the
lift of the ban.
-/

set_option autoImplicit false

namespace Yurucommu.Invites

open Whatwg (Text)

def Outcome.claim : Outcome → Option (Text × Text)
  | .untouched => none
  | .claimed apId id | .joined apId id | .readmitted apId id => some (apId,id)

/-- The invite by which a membership was created. -/
def Outcome.join : Outcome → Option (Text × Text)
  | .untouched | .claimed _ _ => none
  | .joined apId id | .readmitted apId id => some (apId,id)

def Stage.outcome : Stage → Outcome
  | .insert apId id _ => .claimed apId id
  | .unban apId id => .joined apId id
  | .ended outcome _ => outcome
  | _ => .untouched

def Stage.isEnded : Stage → Bool
  | .ended _ _ => true
  | _ => false

def Call.outcome (c : Call) : Outcome := c.stage.outcome

abbrev Pool := Threads.Pool Db Call

section promise

/-- An invite is marked by the calls that it lets in, and by one at most. -/
structure Right (s : Pool) : Prop where
  marked : ∀ v ∈ s.store.invites, ∀ actor, v.usedByApId = some actor →
    ∃ p, (s.thread p).request.actor = actor ∧
      (s.thread p).outcome.claim = some (v.communityApId,v.id) ∧
        ((s.thread p).stage.isEnded = true →
          (s.thread p).outcome.join = some (v.communityApId,v.id))
  marks : ∀ p apId id, (s.thread p).outcome.join = some (apId,id) →
    ∀ v ∈ s.store.invites, v.id = id → v.usedByApId = some (s.thread p).request.actor
  once : ∀ p q apId apId' id, (s.thread p).outcome.claim = some (apId,id) →
    (s.thread q).outcome.claim = some (apId',id) → p = q
  targeted : ∀ p apId id, (s.thread p).outcome.claim = some (apId,id) →
    ∃ v ∈ s.store.issued, v.id = id ∧ v.communityApId = apId ∧
      v.invitedApId.all (fun a => a = (s.thread p).request.actor) = true
  failed : ∀ p outcome status, (s.thread p).stage = .ended outcome status → status ≠ 200 →
    outcome = .untouched
  succeeded : ∀ p outcome, (s.thread p).stage = .ended outcome 200 →
    ∃ apId id, outcome = .readmitted apId id

def Quiet (s t : Pool) (p : Nat) : Prop :=
  (t.thread p).outcome = .untouched → (s.thread p).outcome = .untouched ∧ t.store = s.store

def Meets (s : Pool) : Threads.Label Answer Event → Prop
  | .env _ => True
  | .act p i =>
    match (s.thread p).stage with
    | .claim apId id now => i = .lost → claimed apId id (s.thread p).request.actor now s.store = 0
    | .insert apId _ _ => i = .ok ∧ memberExists apId (s.thread p).request.actor s.store = false
    | .unban _ _ => i = .ok
    | _ => True

end promise

section steps

variable {s t : Pool} {p : Nat} {i : Answer}

theorem step_act_iff : machine.step (.act p i) s = some t ↔
    (s.thread p).stage.runs = true ∧
      t = ⟨(work i (s.thread p).request s.store (s.thread p).stage).1,
        Function.update s.thread p ⟨(s.thread p).request,
          (work i (s.thread p).request s.store (s.thread p).stage).2⟩⟩ := by
  rw [machine,joins,Threads.guarded_step_act]

theorem step_env_iff {e : Event} : machine.step (.env e) s = some t ↔
    possible e s.store = true ∧ t = ⟨happen e s.store,s.thread⟩ := by
  rw [machine,joins,Threads.guarded_step_env]

end steps

section writes

variable {r : Request} {d : Db} {apId id : Text} {now : Nat} {c : Community}

@[simp] theorem outcome_readCommunity : (readCommunity r d).outcome = .untouched := by
  unfold readCommunity
  split <;> rfl

@[simp] theorem outcome_readMember : (readMember r d c).outcome = .untouched := by
  unfold readMember
  split
  · rfl
  · split
    · rfl
    · split <;> rfl

@[simp] theorem outcome_readInvite : (readInvite r d apId id now).outcome = .untouched := by
  unfold readInvite
  split
  · rfl
  · split <;> rfl

inductive Writes (i : Answer) (r : Request) (d : Db) : Stage → Db × Stage → Prop
  | read (stage next : Stage) : stage.outcome = .untouched → next.outcome = .untouched →
    Writes i r d stage (d,next)
  | claim (apId id : Text) (now : Nat) :
    Writes i r d (.claim apId id now) (tryClaim i r d apId id now)
  | insert (apId id : Text) (now : Nat) :
    Writes i r d (.insert apId id now) (tryInsert i r d apId id now)
  | unban (apId id : Text) : Writes i r d (.unban apId id) (tryUnban i r d apId id)

theorem writes_reading {i : Answer} {stage next : Stage} (h : stage.outcome = .untouched)
    (hnext : next.outcome = .untouched) : Writes i r d stage (reading i d next) := by
  refine .read stage _ h ?_
  split
  · exact hnext
  · rfl

theorem work_writes (i : Answer) (stage : Stage) (h : stage.runs = true) :
    Writes i r d stage (work i r d stage) := by
  cases stage with
  | fetch => exact writes_reading rfl outcome_readCommunity
  | existing c => exact writes_reading rfl outcome_readMember
  | elsewhere => cases h
  | invite apId id now => exact writes_reading rfl outcome_readInvite
  | claim apId id now => exact .claim apId id now
  | insert apId id now => exact .insert apId id now
  | unban apId id => exact .unban apId id
  | ended outcome status => cases h

theorem claim_of_claimed_eq_zero {actor : Text} (h : claimed apId id actor now d = 0) :
    claim apId id actor now d = d := by
  have hrows : Table.update (claimWhere apId id actor now)
      (fun v => { v with usedByApId := some actor, usedAt := some now }) d.invites = d.invites := by
    refine Table.update_of_none _ fun v hv => ?_
    simpa using List.countP_eq_zero.mp h v hv
  rw [claim,hrows]

end writes

section invariant

structure Inv (s : Pool) : Prop where
  fresh : (s.store.issued.map (·.id)).Nodup
  ids : (s.store.invites.map (·.id)).Nodup
  rows : ∀ v ∈ s.store.invites, ∃ w ∈ s.store.issued,
    w.id = v.id ∧ w.communityApId = v.communityApId ∧ w.invitedApId = v.invitedApId
  marked : ∀ v ∈ s.store.invites, ∀ actor, v.usedByApId = some actor →
    ∃ p, (s.thread p).request.actor = actor ∧
      (s.thread p).outcome.claim = some (v.communityApId,v.id)
  used : ∀ p apId id, (s.thread p).outcome.claim = some (apId,id) →
    ∀ v ∈ s.store.invites, v.id = id →
      v.usedByApId = some (s.thread p).request.actor ∧ v.usedAt.isNone = false
  once : ∀ p q apId apId' id, (s.thread p).outcome.claim = some (apId,id) →
    (s.thread q).outcome.claim = some (apId',id) → p = q
  targeted : ∀ p apId id, (s.thread p).outcome.claim = some (apId,id) →
    ∃ v ∈ s.store.issued, v.id = id ∧ v.communityApId = apId ∧
      v.invitedApId.all (fun a => a = (s.thread p).request.actor) = true

theorem inv_start (now : Nat) (requests : Nat → Request) : Inv (start now requests) where
  fresh := List.nodup_nil
  ids := List.nodup_nil
  rows v hv := by cases hv
  marked v hv := by cases hv
  used p apId id h := by cases h
  once p q apId apId' id h := by cases h
  targeted p apId id h := by cases h

variable {s t : Pool}

theorem Inv.keep (h : Inv s) (hissued : t.store.issued = s.store.issued)
    (hinvites : t.store.invites.Sublist s.store.invites)
    (hrequest : ∀ q, (t.thread q).request = (s.thread q).request)
    (hclaim : ∀ q, (t.thread q).outcome.claim = (s.thread q).outcome.claim) : Inv t := by
  have hsub := hinvites.subset
  constructor
  · rw [hissued]
    exact h.fresh
  · exact h.ids.sublist (hinvites.map _)
  · rw [hissued]
    exact fun v hv => h.rows v (hsub hv)
  · simp only [hrequest,hclaim]
    exact fun v hv => h.marked v (hsub hv)
  · simp only [hrequest,hclaim]
    exact fun p apId id hp v hv => h.used p apId id hp v (hsub hv)
  · simp only [hclaim]
    exact h.once
  · simp only [hrequest,hclaim,hissued]
    exact h.targeted

theorem Inv.create (h : Inv s) {v : Invite} (hused : v.usedByApId = none)
    (hfresh : (s.store.issued.any fun w => w.id = v.id) = false)
    (hissued : t.store.issued = s.store.issued ++ [v])
    (hinvites : t.store.invites = s.store.invites ++ [v]) (hthread : t.thread = s.thread) :
    Inv t := by
  simp only [List.any_eq_false,decide_eq_true_eq] at hfresh
  have hnew : ∀ w ∈ s.store.invites, w.id ≠ v.id := by
    intro w hw heq
    obtain ⟨x,hx,hid,_⟩ := h.rows w hw
    exact hfresh x hx (hid.trans heq)
  constructor
  · rw [hissued,List.map_append,List.nodup_append]
    refine ⟨h.fresh,List.nodup_singleton _,?_⟩
    simpa using hfresh
  · rw [hinvites,List.map_append,List.nodup_append]
    refine ⟨h.ids,List.nodup_singleton _,?_⟩
    simpa using hnew
  · simp only [hissued,hinvites,List.mem_append,List.mem_singleton]
    rintro w (hw | rfl)
    · obtain ⟨x,hx,hrow⟩ := h.rows w hw
      exact ⟨x,.inl hx,hrow⟩
    · exact ⟨w,.inr rfl,rfl,rfl,rfl⟩
  · simp only [hthread,hinvites,List.mem_append,List.mem_singleton]
    rintro w (hw | rfl) actor hactor
    · exact h.marked w hw actor hactor
    · rw [hused] at hactor
      cases hactor
  · simp only [hthread,hinvites,List.mem_append,List.mem_singleton]
    rintro p apId id hp w (hw | rfl) hid
    · exact h.used p apId id hp w hw hid
    · obtain ⟨x,hx,hxid,_⟩ := h.targeted p apId id hp
      exact absurd (hxid.trans hid.symm) (hfresh x hx)
  · rw [hthread]
    exact h.once
  · simp only [hthread,hissued,List.mem_append]
    intro p apId id hp
    obtain ⟨x,hx,hrow⟩ := h.targeted p apId id hp
    exact ⟨x,.inl hx,hrow⟩

theorem ids_claim (cond : Invite → Bool) (actor : Text) (now : Nat) (invites : List Invite) :
    (Table.update cond (fun v => { v with usedByApId := some actor, usedAt := some now })
      invites).map (·.id) = invites.map (·.id) := by
  rw [Table.map_update]
  intro v
  rfl

theorem claimWhere_iff {apId id actor : Text} {now : Nat} {v : Invite} :
    claimWhere apId id actor now v = true ↔
      v.id = id ∧ v.communityApId = apId ∧ v.usedAt.isNone = true ∧
        (v.expiresAt.all fun expiresAt => now < expiresAt) = true ∧
          v.invitedApId.all (fun a => a = actor) = true := by
  simp only [claimWhere,Invite.claimable,Bool.and_eq_true,decide_eq_true_eq,and_assoc]

theorem Inv.claimed_le_one (h : Inv s) (apId id actor : Text) (now : Nat) :
    claimed apId id actor now s.store ≤ 1 := by
  have hcount : claimed apId id actor now s.store ≤ (s.store.invites.map (·.id)).count id := by
    rw [claimed,List.count,List.countP_map]
    refine List.countP_mono_left fun v _ hv => ?_
    simpa using (claimWhere_iff.mp hv).1
  exact hcount.trans (List.nodup_iff_count_le_one.mp h.ids id)

theorem Inv.claim (h : Inv s) {p : Nat} {apId id : Text} {now : Nat}
    (hp : (s.thread p).outcome.claim = none)
    (hrow : claimed apId id (s.thread p).request.actor now s.store ≠ 0)
    (hstore : t.store = Invites.claim apId id (s.thread p).request.actor now s.store)
    (hrequest : ∀ q, (t.thread q).request = (s.thread q).request)
    (hclaim : ∀ q, q ≠ p → (t.thread q).outcome.claim = (s.thread q).outcome.claim)
    (hmine : (t.thread p).outcome.claim = some (apId,id)) : Inv t := by
  have hissued : t.store.issued = s.store.issued := by rw [hstore]; rfl
  have hinvites : t.store.invites = Table.update (claimWhere apId id (s.thread p).request.actor now)
      (fun v => { v with usedByApId := some (s.thread p).request.actor, usedAt := some now })
      s.store.invites := by rw [hstore]; rfl
  have hpos : 0 < claimed apId id (s.thread p).request.actor now s.store := by omega
  obtain ⟨v₀,hv₀,hcond₀⟩ := List.countP_pos_iff.mp hpos
  obtain ⟨hid₀,hcommunity₀,hfree₀,_,hfor₀⟩ := claimWhere_iff.mp hcond₀
  have hother : ∀ q apId', q ≠ p → (t.thread q).outcome.claim ≠ some (apId',id) := by
    intro q apId' hq hc
    rw [hclaim q hq] at hc
    have hused := (h.used q apId' id hc v₀ hv₀ hid₀).2
    rw [hfree₀] at hused
    cases hused
  constructor
  · rw [hissued]
    exact h.fresh
  · rw [hinvites,ids_claim]
    exact h.ids
  · rw [hissued,hinvites]
    intro v hv
    obtain ⟨w,hw,⟨_,rfl⟩ | ⟨_,rfl⟩⟩ := Table.mem_update.mp hv
    · exact h.rows v hw
    · exact h.rows w hw
  · rw [hinvites]
    intro v hv actor hactor
    simp only [hrequest]
    obtain ⟨w,hw,⟨_,rfl⟩ | ⟨hcond,rfl⟩⟩ := Table.mem_update.mp hv
    · obtain ⟨q,hq,hqc⟩ := h.marked v hw actor hactor
      have hne : q ≠ p := by
        rintro rfl
        rw [hp] at hqc
        cases hqc
      exact ⟨q,hq,(hclaim q hne).trans hqc⟩
    · obtain ⟨hid,hcommunity,_⟩ := claimWhere_iff.mp hcond
      simp only [Option.some.injEq] at hactor
      refine ⟨p,hactor,?_⟩
      rw [hmine,hid,hcommunity]
  · rw [hinvites]
    intro q apId' id' hq v hv hid
    simp only [hrequest]
    obtain ⟨w,hw,⟨hcond,rfl⟩ | ⟨hcond,rfl⟩⟩ := Table.mem_update.mp hv
    · by_cases hqp : q = p
      · subst hqp
        rw [hmine,Option.some.injEq,Prod.mk.injEq] at hq
        have hsame : v = v₀ :=
          List.inj_on_of_nodup_map h.ids hw hv₀ (hid.trans (hq.2.symm.trans hid₀.symm))
        rw [hsame,hcond₀] at hcond
        cases hcond
      · rw [hclaim q hqp] at hq
        exact h.used q apId' id' hq v hw hid
    · by_cases hqp : q = p
      · subst hqp
        exact ⟨rfl,rfl⟩
      · refine absurd hq ?_
        have hw' : w.id = id' := hid
        rw [← hw',(claimWhere_iff.mp hcond).1]
        exact hother q apId' hqp
  · intro q q' apId₁ apId₂ id' hq hq'
    by_cases hqp : q = p
    · by_cases hqp' : q' = p
      · exact hqp.trans hqp'.symm
      · subst hqp
        rw [hmine,Option.some.injEq,Prod.mk.injEq] at hq
        rw [← hq.2] at hq'
        exact absurd hq' (hother q' apId₂ hqp')
    · by_cases hqp' : q' = p
      · subst hqp'
        rw [hmine,Option.some.injEq,Prod.mk.injEq] at hq'
        rw [← hq'.2] at hq
        exact absurd hq (hother q apId₁ hqp)
      · rw [hclaim q hqp] at hq
        rw [hclaim q' hqp'] at hq'
        exact h.once q q' apId₁ apId₂ id' hq hq'
  · intro q apId' id' hq
    rw [hissued,hrequest]
    by_cases hqp : q = p
    · subst hqp
      rw [hmine,Option.some.injEq,Prod.mk.injEq] at hq
      obtain ⟨w,hw,hid,hcommunity,hinvited⟩ := h.rows v₀ hv₀
      refine ⟨w,hw,?_,?_,?_⟩
      · rw [hid,hid₀,hq.2]
      · rw [hcommunity,hcommunity₀,hq.1]
      · rw [hinvited]
        exact hfor₀
    · rw [hclaim q hqp] at hq
      exact h.targeted q apId' id' hq

end invariant

section runs

variable {s t : Pool}

theorem thread_after {p : Nat} {i : Answer} (hstep : machine.step (.act p i) s = some t) :
    ∃ next, Writes i (s.thread p).request s.store (s.thread p).stage (t.store,next) ∧
      t.thread = Function.update s.thread p ⟨(s.thread p).request,next⟩ := by
  obtain ⟨hruns,rfl⟩ := step_act_iff.mp hstep
  exact ⟨_,work_writes i _ hruns,rfl⟩

theorem request_after {p q : Nat} {next : Stage}
    (h : t.thread = Function.update s.thread p ⟨(s.thread p).request,next⟩) :
    (t.thread q).request = (s.thread q).request := by
  rw [h,Function.update_apply]
  split
  · rename_i hq
    rw [hq]
  · rfl

theorem outcome_self {p : Nat} {next : Stage}
    (h : t.thread = Function.update s.thread p ⟨(s.thread p).request,next⟩) :
    (t.thread p).outcome = next.outcome := by
  rw [h,Function.update_self]
  rfl

theorem claim_other {p q : Nat} {next : Stage} (hq : q ≠ p)
    (h : t.thread = Function.update s.thread p ⟨(s.thread p).request,next⟩) :
    (t.thread q).outcome.claim = (s.thread q).outcome.claim := by
  rw [h,Function.update_of_ne hq]

theorem claim_after {p : Nat} {next : Stage}
    (h : t.thread = Function.update s.thread p ⟨(s.thread p).request,next⟩)
    (hclaim : next.outcome.claim = (s.thread p).outcome.claim) (q : Nat) :
    (t.thread q).outcome.claim = (s.thread q).outcome.claim := by
  by_cases hq : q = p
  · subst hq
    rw [outcome_self h,hclaim]
  · exact claim_other hq h

theorem tryClaim_cases {i : Answer} {r : Request} {d d' : Db} {apId id : Text} {now : Nat}
    {next : Stage} (hone : claimed apId id r.actor now d ≤ 1)
    (h : tryClaim i r d apId id now = (d',next)) :
    (d' = d ∧ next.outcome = .untouched) ∨
      (claimed apId id r.actor now d ≠ 0 ∧ d' = claim apId id r.actor now d ∧
        next.outcome = .claimed apId id) := by
  by_cases hrows : claimed apId id r.actor now d = 0
  · have hsame := claim_of_claimed_eq_zero hrows
    cases i <;> simp only [tryClaim,hrows,hsame,Prod.mk.injEq] at h <;>
      exact .inl ⟨h.1.symm,h.2 ▸ rfl⟩
  · have hrow : claimed apId id r.actor now d = 1 := by omega
    cases i with
    | refused =>
      simp only [tryClaim,Prod.mk.injEq] at h
      exact .inl ⟨h.1.symm,h.2 ▸ rfl⟩
    | lost =>
      simp only [tryClaim,hrow,Prod.mk.injEq] at h
      exact .inr ⟨hrows,h.1.symm,h.2 ▸ rfl⟩
    | ok =>
      simp only [tryClaim,hrow,Prod.mk.injEq] at h
      exact .inr ⟨hrows,h.1.symm,h.2 ▸ rfl⟩

theorem tryInsert_cases {i : Answer} {r : Request} {d d' : Db} {apId id : Text} {now : Nat}
    {next : Stage} (h : tryInsert i r d apId id now = (d',next)) :
    d'.invites = d.invites ∧ d'.issued = d.issued ∧
      ((d' = d ∧ ∃ status, next = .ended (.claimed apId id) status ∧ status ≠ 200) ∨
        next = .unban apId id ∨ next = .ended (.joined apId id) 500) := by
  cases i with
  | refused =>
    simp only [tryInsert,Prod.mk.injEq] at h
    obtain ⟨rfl,rfl⟩ := h
    exact ⟨rfl,rfl,.inl ⟨rfl,500,rfl,by decide⟩⟩
  | lost =>
    simp only [tryInsert] at h
    split at h
    · simp only [Prod.mk.injEq] at h
      obtain ⟨rfl,rfl⟩ := h
      exact ⟨rfl,rfl,.inl ⟨rfl,409,rfl,by decide⟩⟩
    · simp only [Prod.mk.injEq] at h
      obtain ⟨rfl,rfl⟩ := h
      exact ⟨rfl,rfl,.inr (.inr rfl)⟩
  | ok =>
    simp only [tryInsert] at h
    split at h
    · simp only [Prod.mk.injEq] at h
      obtain ⟨rfl,rfl⟩ := h
      exact ⟨rfl,rfl,.inl ⟨rfl,409,rfl,by decide⟩⟩
    · simp only [Prod.mk.injEq] at h
      obtain ⟨rfl,rfl⟩ := h
      exact ⟨rfl,rfl,.inr (.inl rfl)⟩

theorem tryUnban_cases {i : Answer} {r : Request} {d d' : Db} {apId id : Text} {next : Stage}
    (h : tryUnban i r d apId id = (d',next)) :
    d'.invites = d.invites ∧ d'.issued = d.issued ∧
      next.outcome.claim = some (apId,id) ∧ next.outcome ≠ .untouched := by
  cases i <;> simp only [tryUnban,Prod.mk.injEq] at h <;> obtain ⟨rfl,rfl⟩ := h <;>
    exact ⟨rfl,rfl,rfl,by simp [Stage.outcome]⟩

theorem Inv.act (h : Inv s) {p : Nat} {i : Answer}
    (hstep : machine.step (.act p i) s = some t) : Inv t ∧ Quiet s t p := by
  obtain ⟨next,hwrites,hthread⟩ := thread_after hstep
  have hrequest := fun q => request_after (q := q) hthread
  generalize hresult : (t.store,next) = result at hwrites
  generalize hstage : (s.thread p).stage = stage at hwrites
  have hbefore : (s.thread p).outcome = stage.outcome := congrArg Stage.outcome hstage
  cases hwrites with
  | read stage next' hquiet hnext =>
    obtain ⟨hstore,rfl⟩ := Prod.mk.inj hresult
    refine ⟨h.keep (by rw [hstore]) (by rw [hstore]) hrequest (claim_after hthread ?_),
      fun _ => ⟨hbefore.trans hquiet,hstore⟩⟩
    rw [hnext,hbefore,hquiet]
  | claim apId id now =>
    obtain ⟨hstore,hout⟩ | ⟨hrow,hstore,hout⟩ :=
      tryClaim_cases (h.claimed_le_one ..) hresult.symm
    · refine ⟨h.keep (by rw [hstore]) (by rw [hstore]) hrequest (claim_after hthread ?_),
        fun _ => ⟨hbefore,hstore⟩⟩
      rw [hout,hbefore]
      rfl
    · refine ⟨h.claim (by rw [hbefore]; rfl) hrow hstore hrequest
        (fun q hq => claim_other hq hthread) ?_,fun huntouched => ?_⟩
      · rw [outcome_self hthread,hout]
        rfl
      · rw [outcome_self hthread,hout] at huntouched
        cases huntouched
  | insert apId id now =>
    obtain ⟨hinvites,hissued,hnext⟩ := tryInsert_cases hresult.symm
    have hclaim : next.outcome.claim = some (apId,id) := by
      obtain ⟨_,status,rfl,_⟩ | rfl | rfl := hnext <;> rfl
    refine ⟨h.keep hissued (by rw [hinvites]) hrequest (claim_after hthread ?_),
      fun huntouched => ?_⟩
    · rw [hclaim,hbefore]
      rfl
    · rw [outcome_self hthread] at huntouched
      rw [huntouched] at hclaim
      cases hclaim
  | unban apId id =>
    obtain ⟨hinvites,hissued,hclaim,hne⟩ := tryUnban_cases hresult.symm
    refine ⟨h.keep hissued (by rw [hinvites]) hrequest (claim_after hthread ?_),
      fun huntouched => ?_⟩
    · rw [hclaim,hbefore]
      rfl
    · rw [outcome_self hthread] at huntouched
      exact absurd huntouched hne

theorem Inv.env (h : Inv s) {e : Event} (hstep : machine.step (.env e) s = some t) : Inv t := by
  obtain ⟨hpossible,rfl⟩ := step_env_iff.mp hstep
  cases e with
  | tick ms => exact h.keep rfl (List.Sublist.refl _) (fun _ => rfl) fun _ => rfl
  | createInvite id communityApId invitedApId expiresAt =>
    refine h.create (v := { id, communityApId, invitedApId, expiresAt }) rfl ?_ rfl rfl rfl
    simpa [possible] using hpossible
  | deleteInvites ids => exact h.keep rfl List.filter_sublist (fun _ => rfl) fun _ => rfl
  | others communities members bans =>
    exact h.keep rfl (List.Sublist.refl _) (fun _ => rfl) fun _ => rfl

theorem Inv.step (h : Inv s) {l : Threads.Label Answer Event} (hstep : machine.step l s = some t) :
    Inv t := by
  cases l with
  | act p i => exact (h.act hstep).1
  | env e => exact h.env hstep

def Stage.Settled : Stage → Prop
  | .ended .untouched status => status ≠ 200
  | .ended (.readmitted _ _) status => status = 200
  | .ended _ _ => False
  | _ => True

theorem settled_reading {stage : Stage} (i : Answer) (d : Db) (h : stage.Settled) :
    (reading i d stage).2.Settled := by
  rw [reading]
  split
  · exact h
  · simp [Stage.Settled]

theorem settled_readCommunity (r : Request) (d : Db) : (readCommunity r d).Settled := by
  unfold readCommunity
  split <;> simp [Stage.Settled]

theorem settled_readMember (r : Request) (d : Db) (c : Community) : (readMember r d c).Settled := by
  unfold readMember
  split
  · simp [Stage.Settled]
  · split
    · simp [Stage.Settled]
    · split <;> simp [Stage.Settled]

theorem settled_readInvite (r : Request) (d : Db) (apId id : Text) (now : Nat) :
    (readInvite r d apId id now).Settled := by
  unfold readInvite
  split
  · simp [Stage.Settled]
  · split <;> simp [Stage.Settled]

/-- A call settles at its step exactly when nothing fails that must not. -/
theorem settled_iff {p : Nat} {i : Answer} (hruns : (s.thread p).stage.runs = true) :
    (work i (s.thread p).request s.store (s.thread p).stage).2.Settled ↔ Meets s (.act p i) := by
  simp only [Meets]
  generalize (s.thread p).request = r
  generalize (s.thread p).stage = stage at hruns
  cases stage with
  | fetch => exact ⟨fun _ => trivial,fun _ => settled_reading i _ (settled_readCommunity r s.store)⟩
  | existing c =>
    exact ⟨fun _ => trivial,fun _ => settled_reading i _ (settled_readMember r s.store c)⟩
  | elsewhere => cases hruns
  | invite apId id now =>
    exact ⟨fun _ => trivial,fun _ => settled_reading i _ (settled_readInvite r s.store apId id now)⟩
  | claim apId id now =>
    cases i with
    | refused => simp [work,tryClaim,Stage.Settled]
    | lost =>
      by_cases hrow : claimed apId id r.actor now s.store = 0
      · simp [work,tryClaim,Stage.Settled,hrow]
      · simp [work,tryClaim,Stage.Settled,hrow]
    | ok =>
      simp only [work,tryClaim]
      split <;> simp [Stage.Settled]
  | insert apId id now =>
    cases hmember : memberExists apId r.actor s.store with
    | false => cases i <;> simp [work,tryInsert,Stage.Settled,hmember]
    | true => cases i <;> simp [work,tryInsert,Stage.Settled,hmember]
  | unban apId id => cases i <;> simp [work,tryUnban,Stage.Settled]
  | ended outcome status => cases hruns

theorem settled_of_right (h : Right s) (p : Nat) : (s.thread p).stage.Settled := by
  cases hstage : (s.thread p).stage with
  | ended outcome status =>
    by_cases hok : status = 200
    · subst hok
      obtain ⟨apId,id,rfl⟩ := h.succeeded p outcome hstage
      rfl
    · rw [h.failed p outcome status hstage hok]
      exact hok
  | _ => trivial

theorem right_of_inv (h : Inv s) (hsettled : ∀ p, (s.thread p).stage.Settled) : Right s := by
  have hjoin : ∀ p apId id, (s.thread p).outcome.join = some (apId,id) →
      (s.thread p).outcome.claim = some (apId,id) := by
    intro p apId id hp
    generalize (s.thread p).outcome = outcome at hp ⊢
    cases outcome with
    | untouched => cases hp
    | claimed apId id => cases hp
    | joined apId id => exact hp
    | readmitted apId id => exact hp
  refine ⟨fun v hv actor hactor => ?_,fun p apId id hp v hv hid => ?_,h.once,h.targeted,
    fun p outcome status hstage hfailed => ?_,fun p outcome hstage => ?_⟩
  · obtain ⟨p,hp,hclaim⟩ := h.marked v hv actor hactor
    refine ⟨p,hp,hclaim,fun hended => ?_⟩
    have hs := hsettled p
    simp only [Call.outcome] at hclaim ⊢
    generalize (s.thread p).stage = stage at hs hclaim hended ⊢
    cases stage with
    | ended outcome status =>
      cases outcome with
      | untouched => cases hclaim
      | claimed apId id => cases hs
      | joined apId id => cases hs
      | readmitted apId id => exact hclaim
    | _ => cases hended
  · exact (h.used p apId id (hjoin p apId id hp) v hv hid).1
  · have hs := hsettled p
    rw [hstage] at hs
    cases outcome with
    | untouched => rfl
    | claimed apId id => cases hs
    | joined apId id => cases hs
    | readmitted apId id => exact absurd hs hfailed
  · have hs := hsettled p
    rw [hstage] at hs
    cases outcome with
    | untouched => exact absurd rfl hs
    | claimed apId id => cases hs
    | joined apId id => cases hs
    | readmitted apId id => exact ⟨apId,id,rfl⟩

theorem not_right_of_not_meets {l : Threads.Label Answer Event}
    (hstep : machine.step l s = some t) (hno : ¬Meets s l) : ¬Right t := by
  cases l with
  | env e => exact absurd trivial hno
  | act p i =>
    obtain ⟨hruns,rfl⟩ := step_act_iff.mp hstep
    intro hright
    have hs := settled_of_right hright p
    simp only [Function.update_self] at hs
    exact hno ((settled_iff hruns).mp hs)

theorem settled_step (h : ∀ p, (s.thread p).stage.Settled) {l : Threads.Label Answer Event}
    (hstep : machine.step l s = some t) (hmeets : Meets s l) (q : Nat) :
    (t.thread q).stage.Settled := by
  cases l with
  | act p i =>
    obtain ⟨hruns,rfl⟩ := step_act_iff.mp hstep
    by_cases hq : q = p
    · subst hq
      simp only [Function.update_self]
      exact (settled_iff hruns).mpr hmeets
    · simp only [Function.update_of_ne hq]
      exact h q
  | env e =>
    obtain ⟨_,rfl⟩ := step_env_iff.mp hstep
    exact h q

theorem inv_reached {now : Nat} {requests : Nat → Request} {ls : List (Threads.Label Answer Event)}
    (h : machine.run ls (start now requests) = some s) : Inv s :=
  Machine.run_invariant (inv_start now requests) (fun _ _ _ hs hl => hs.step hl) h

/-- In every run, invites are used by those that they let in, in every state, exactly when at every
step nothing fails once an invite is claimed; and a call that ends untouched wrote nothing. -/
theorem invites_single_use (now : Nat) (requests : Nat → Request)
    (ls : List (Threads.Label Answer Event)) (s : Pool)
    (h : machine.run ls (start now requests) = some s) :
    ((∀ as bs u, ls = as ++ bs → machine.run as (start now requests) = some u → Right u) ↔
      ∀ as l bs u, ls = as ++ l :: bs → machine.run as (start now requests) = some u →
        Meets u l) ∧
    ∀ p i t, machine.step (.act p i) s = some t → Quiet s t p := by
  refine ⟨⟨fun hright as l bs u hls hu => ?_,fun hmeets as bs u hls hu => ?_⟩,
    fun p i t hstep => ((inv_reached h).act hstep).2⟩
  · by_contra hno
    rw [hls] at h
    obtain ⟨u',v,hu',hstep,_⟩ := Machine.run_split h
    rw [hu,Option.some.injEq] at hu'
    subst hu'
    exact not_right_of_not_meets hstep hno
      (hright (as ++ [l]) bs v (by rw [hls,List.append_assoc]; rfl) (Machine.run_snoc hu hstep))
  · refine right_of_inv (inv_reached hu) ?_
    refine Machine.run_history (P := fun as u => (∃ bs, ls = as ++ bs) →
      ∀ p, (u.thread p).stage.Settled) (fun _ p => trivial) ?_ hu ⟨bs,hls⟩
    rintro as l u v hu ih hstep ⟨bs,hls⟩
    rw [List.append_assoc] at hls
    exact settled_step (ih ⟨_,hls⟩) hstep (hmeets as l bs u hls hu)

def circle : Community := ⟨"c".toList,"circle".toList,false,.invite,0,none⟩

def requests (p : Nat) : Request :=
  ⟨"bob".toList,"circle".toList,"c".toList,some (if p = 0 then "first".toList else "second".toList)⟩

def invited : List (Threads.Label Answer Event) :=
  [.env (.others [circle] [] []),.env (.createInvite "first".toList "c".toList none none),
    .env (.createInvite "second".toList "c".toList none none)]

def twice : List (Threads.Label Answer Event) :=
  invited ++ ([.act 0 .ok,.act 1 .ok,.act 0 .ok,.act 1 .ok,.act 0 .ok,.act 1 .ok,.act 0 .ok,
    .act 1 .ok,.act 0 .ok,.act 1 .ok] : List (Threads.Label Answer Event))

def after (labels : List (Threads.Label Answer Event)) : Pool :=
  (machine.run labels (start 0 requests)).getD (start 0 requests)

theorem run_after {labels : List (Threads.Label Answer Event)}
    (h : (machine.run labels (start 0 requests)).isSome = true) :
    machine.run labels (start 0 requests) = some (after labels) := by
  obtain ⟨s,hs⟩ := Option.isSome_iff_exists.mp h
  rw [after,hs]
  rfl

/-- The second request fails, and its invite is gone. -/
theorem second_invite_burned : ¬ ∀ (now : Nat) (requests : Nat → Request) (s : Pool),
    machine.Reaches (start now requests) s → Right s := by
  intro hall
  have hrun : machine.run twice (start 0 requests) = some (after twice) :=
    run_after (by decide +kernel)
  have hright := hall 0 requests _ (Machine.Reaches.of_run hrun)
  have hstage : ((after twice).thread 1).stage =
      .ended (.claimed "c".toList "second".toList) 409 := by decide +kernel
  have huntouched := hright.failed 1 _ 409 hstage (by decide)
  cases huntouched

def once : List (Threads.Label Answer Event) :=
  invited ++ ([.act 0 .ok,.act 0 .ok,.act 0 .ok,.act 0 .ok,.act 0 .ok] :
    List (Threads.Label Answer Event))

theorem invites_single_use_once :
    ((∀ as bs u, once = as ++ bs → machine.run as (start 0 requests) = some u → Right u) ↔
      ∀ as l bs u, once = as ++ l :: bs → machine.run as (start 0 requests) = some u → Meets u l) ∧
    (∀ p i t, machine.step (.act p i) (after once) = some t → Quiet (after once) t p) ∧
      ((after once).thread 0).outcome = .joined "c".toList "first".toList := by
  obtain ⟨hiff,hquiet⟩ := invites_single_use 0 requests once _ (run_after (by decide +kernel))
  exact ⟨hiff,hquiet,by decide +kernel⟩

end runs

end Yurucommu.Invites
