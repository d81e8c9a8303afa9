import Yurucommu.Logins

/-!
However logins, revivals and deletions interleave, there is at most one live owner, and who has
become one, or a member, was let in by the gate of its own login.
-/

set_option autoImplicit false

namespace Yurucommu.Logins

open Whatwg (Text)

abbrev Pool := Threads.Pool Db Call

section tables

variable {env : Env} {d : Db} {r q new : Actor} {opts : Opts} {key : Key}

theorem liveOwner_iff : liveOwner r = true ↔ r.role = .owner ∧ r.deleted = false := by
  simp [liveOwner]

theorem noLiveOwner_iff : noLiveOwner d = true ↔ ∀ r ∈ d.actors, liveOwner r = false := by
  simp [noLiveOwner]

theorem actorIdentityMatches_iff : actorIdentityMatches q d r = true ↔
    r.apId = q.apId ∧ r.publicKeyPem = q.publicKeyPem ∧ r.takosUserId = q.takosUserId ∧
      r.deleted = false ∧ actorNotReserved q.apId d = true := by
  simp [actorIdentityMatches,and_assoc]

structure Kept (d : Db) : Prop where
  ids : (d.actors.map (·.apId)).Nodup
  one : ∀ r ∈ d.actors, ∀ q ∈ d.actors, liveOwner r = true → liveOwner q = true → r = q

theorem Kept.unique (h : Kept d) (hr : r ∈ d.actors) (hq : q ∈ d.actors)
    (hid : r.apId = q.apId) : r = q := List.inj_on_of_nodup_map h.ids hr hq hid

theorem Kept.owners (h : Kept d) : (d.actors.filter liveOwner).length ≤ 1 := by
  have hnodup : (d.actors.filter liveOwner).Nodup := (List.Nodup.of_map _ h.ids).filter _
  cases hf : d.actors.filter liveOwner with
  | nil => exact Nat.zero_le _
  | cons r rest =>
    cases rest with
    | nil => exact Nat.le_refl _
    | cons q rest =>
      have hr : r ∈ d.actors ∧ liveOwner r = true := by
        rw [← List.mem_filter,hf]
        exact List.mem_cons_self
      have hq : q ∈ d.actors ∧ liveOwner q = true := by
        rw [← List.mem_filter,hf]
        exact List.mem_cons_of_mem _ List.mem_cons_self
      rw [hf,h.one r hr.1 q hq.1 hr.2 hq.2] at hnodup
      exact absurd List.mem_cons_self (List.nodup_cons.mp hnodup).1

theorem Kept.update (h : Kept d) (cond : Actor → Bool) (set : Actor → Actor)
    (hid : ∀ r, (set r).apId = r.apId)
    (howner : ∀ r, liveOwner (set r) = true → liveOwner r = true) :
    Kept { d with actors := Table.update cond set d.actors } where
  ids := by
    rw [Table.map_update hid]
    exact h.ids
  one r' hr' q' hq' hr hq := by
    have hrow : ∀ r' ∈ Table.update cond set d.actors, liveOwner r' = true → ∃ r ∈ d.actors,
        liveOwner r = true ∧ r' = if cond r then set r else r := by
      intro r' hr' hlive
      obtain ⟨r,hr,⟨hc,rfl⟩ | ⟨hc,rfl⟩⟩ := Table.mem_update.mp hr'
      · exact ⟨r',hr,hlive,by rw [hc]; rfl⟩
      · exact ⟨r,hr,howner r hlive,by rw [hc]; rfl⟩
    obtain ⟨r,hrm,hrl,rfl⟩ := hrow r' hr' hr
    obtain ⟨q,hqm,hql,rfl⟩ := hrow q' hq' hq
    rw [h.one r hrm q hqm hrl hql]

theorem mem_revive : r ∈ (revive new d).actors ↔
    (r ∈ d.actors ∧ r.apId ≠ new.apId) ∨ (r = new ∧ ∃ q ∈ d.actors, q.apId = new.apId) := by
  simp only [revive,Table.mem_update,decide_eq_false_iff_not,decide_eq_true_eq]
  constructor
  · rintro ⟨q,hq,⟨hne,rfl⟩ | ⟨heq,rfl⟩⟩
    · exact .inl ⟨hq,hne⟩
    · exact .inr ⟨rfl,q,hq,heq⟩
  · rintro (⟨hr,hne⟩ | ⟨rfl,q,hq,heq⟩)
    · exact ⟨r,hr,.inl ⟨hne,rfl⟩⟩
    · exact ⟨q,hq,.inr ⟨heq,rfl⟩⟩

theorem Kept.revive (h : Kept d) (hguard : new.role = .owner → noLiveOwner d = true) :
    Kept (revive new d) where
  ids := by
    have hmap : (Logins.revive new d).actors.map (·.apId) = d.actors.map (·.apId) := by
      simp only [Logins.revive,Table.update,List.map_map]
      refine List.map_congr_left fun r _ => ?_
      simp only [Function.comp_apply,decide_eq_true_eq]
      split
      · rename_i heq
        exact heq.symm
      · rfl
    rw [hmap]
    exact h.ids
  one r hr q hq hrl hql := by
    rcases mem_revive.mp hr with ⟨hold,_⟩ | ⟨rfl,_⟩
    · rcases mem_revive.mp hq with ⟨hold',_⟩ | ⟨rfl,_⟩
      · exact h.one r hold q hold' hrl hql
      · rw [noLiveOwner_iff.mp (hguard (liveOwner_iff.mp hql).1) r hold] at hrl
        cases hrl
    · rcases mem_revive.mp hq with ⟨hold',_⟩ | ⟨rfl,_⟩
      · rw [noLiveOwner_iff.mp (hguard (liveOwner_iff.mp hrl).1) q hold'] at hql
        cases hql
      · rfl

theorem mem_insertActor : r ∈ (insertActor new d).actors ↔ r ∈ d.actors ∨ r = new := by
  simp [insertActor]

theorem Kept.insert (h : Kept d) (hguard : new.role = .owner → noLiveOwner d = true)
    (hclash : ∀ r ∈ d.actors, clashes new r = false) : Kept (insertActor new d) where
  ids := by
    simp only [insertActor,List.map_append,List.map_singleton]
    rw [List.nodup_append]
    refine ⟨h.ids,List.nodup_singleton _,?_⟩
    intro x hx y hy heq
    obtain ⟨r,hr,rfl⟩ := List.mem_map.mp hx
    rw [List.mem_singleton] at hy
    have hno := hclash r hr
    simp only [clashes,Bool.or_eq_false_iff,decide_eq_false_iff_not] at hno
    exact hno.1.1 (heq.trans hy)
  one r hr q hq hrl hql := by
    rcases mem_insertActor.mp hr with hold | rfl
    · rcases mem_insertActor.mp hq with hold' | rfl
      · exact h.one r hold q hold' hrl hql
      · rw [noLiveOwner_iff.mp (hguard (liveOwner_iff.mp hql).1) r hold] at hrl
        cases hrl
    · rcases mem_insertActor.mp hq with hold' | rfl
      · rw [noLiveOwner_iff.mp (hguard (liveOwner_iff.mp hrl).1) q hold'] at hql
        cases hql
      · rfl

theorem Kept.happen {e : Event} (h : Kept d) : Kept (happen e d) := by
  cases e with
  | delete apId username sessionActorIds =>
    have hupdate := h.update (fun r => r.apId = apId) (tombstoneOf username) (fun _ => rfl)
      fun r hr => by cases (liveOwner_iff.mp hr).1
    exact ⟨hupdate.ids,hupdate.one⟩
  | reap apId =>
    refine ⟨h.ids.sublist (List.Sublist.map _ List.filter_sublist),?_⟩
    intro r hr q hq
    exact h.one r (List.mem_filter.mp hr).1 q (List.mem_filter.mp hq).1
  | reserve apId => exact ⟨h.ids,h.one⟩
  | release apId => exact ⟨h.ids,h.one⟩
  | session memberId => exact ⟨h.ids,h.one⟩
  | activity a => exact ⟨h.ids,h.one⟩

end tables

section calls

variable {env : Env} {p : Nat} {d : Db} {c : Call}

def Grants (env : Env) (role : Role) (takosUserId : Text) : Request → Prop
  | .password => role = .owner ∧ takosUserId = "password:owner".toList
  | .oauth u => takosUserId = u.providerUserId ∧
      (role = .owner → mayOwn env u = true) ∧ (role = .member → mayJoin env u = true)
  | .account username _ _ => role = .member ∧ takosUserId = "local:".toList ++ username

def Answers (r : Actor) : Request → Prop
  | .password => liveOwner r = true
  | .oauth u => r.takosUserId = some u.providerUserId ∧ r.deleted = false
  | .account username _ _ => r.takosUserId = some ("local:".toList ++ username) ∧ r.deleted = false

def Proper (env : Env) (c : Call) : Prop :=
  match c.stage with
  | .probe _ _ => ∀ username name root, c.request ≠ .account username name root
  | .create opts | .reserve opts _ | .reserveOwner opts _ | .write opts _ | .revived opts =>
    Grants env opts.role opts.takosUserId c.request
  | .check r =>
    match c.request with
    | .oauth u => r.takosUserId = some u.providerUserId
    | request => Answers r request
  | .rename r => ∃ u, c.request = .oauth u ∧ r.takosUserId = some u.providerUserId
  | .done (some r) => Answers r c.request
  | _ => True

def Written : Stage → Prop
  | .revived _ | .lost | .done _ | .failed => True
  | _ => False

theorem answers_newActor {opts : Opts} {key : Key} {request : Request}
    (h : Grants env opts.role opts.takosUserId request) :
    Answers (newActor env opts key) request := by
  cases request with
  | password => exact liveOwner_iff.mpr ⟨h.1,rfl⟩
  | oauth u => exact ⟨congrArg some h.1,rfl⟩
  | account username name root => exact ⟨congrArg some h.2,rfl⟩

theorem readOwner_cases (empty : Stage) (one : Actor → Stage) :
    readOwner d empty one = empty ∨ readOwner d empty one = .failed ∨
      ∃ r ∈ d.actors, liveOwner r = true ∧ readOwner d empty one = one r := by
  unfold readOwner
  cases hf : d.actors.filter liveOwner with
  | nil => exact .inl rfl
  | cons r rest =>
    cases rest with
    | nil =>
      have hr : r ∈ d.actors ∧ liveOwner r = true := by
        rw [← List.mem_filter,hf]
        exact List.mem_cons_self
      exact .inr (.inr ⟨r,hr.1,hr.2,rfl⟩)
    | cons q rest => exact .inr (.inl rfl)

theorem proper_start : Proper env { c with stage := start env d c.request } := by
  obtain ⟨request,stage⟩ := c
  cases request with
  | password =>
    have hcases := readOwner_cases (d := d) (.probe "tako".toList 0) Stage.check
    simp only [start]
    rcases hcases with heq | heq | ⟨r,_,hlive,heq⟩ <;> rw [heq]
    · exact fun _ _ _ => nofun
    · trivial
    · exact hlive
  | oauth u =>
    simp only [start]
    cases hf : d.actors.find? fun r => r.takosUserId = some u.providerUserId with
    | none => exact fun _ _ _ => nofun
    | some r =>
      have hid := List.find?_some hf
      rw [decide_eq_true_eq] at hid
      exact hid
  | account username name root =>
    simp only [start]
    split
    · trivial
    · exact ⟨rfl,rfl⟩

theorem proper_probe {base : Text} {counter : Nat}
    (h : ∀ username name root, c.request ≠ .account username name root) :
    Proper env { c with stage := probe env base counter d c.request } := by
  obtain ⟨request,stage⟩ := c
  simp only [probe]
  split
  · exact h
  · cases request with
    | password => exact ⟨rfl,rfl⟩
    | oauth u => trivial
    | account username name root => exact absurd rfl (h username name root)

theorem proper_countOwners {username : Text} {u : OAuthLogin} (h : c.request = .oauth u) :
    Proper env { c with stage := countOwners env u username d } := by
  obtain ⟨request,stage⟩ := c
  simp only at h
  subst h
  simp only [countOwners]
  split
  · split
    · rename_i hgate
      exact ⟨rfl,fun _ => hgate,nofun⟩
    · trivial
  · split
    · rename_i hgate
      exact ⟨rfl,nofun,fun _ => hgate⟩
    · trivial

def Granted (env : Env) (r : Actor) (request : Request) : Prop :=
  ∃ id, r.takosUserId = some id ∧ Grants env r.role id request

theorem Granted.answers {r : Actor} {request : Request} (h : Granted env r request)
    (hlive : r.deleted = false) : Answers r request := by
  obtain ⟨id,hid,hgrants⟩ := h
  cases request with
  | password => exact liveOwner_iff.mpr ⟨hgrants.1,hlive⟩
  | oauth u => exact ⟨hid.trans (congrArg some hgrants.1),hlive⟩
  | account username name root => exact ⟨hid.trans (congrArg some hgrants.2),hlive⟩

theorem proper_readRevived {opts : Opts} {key : Key}
    (h : ∀ r ∈ d.actors, r.publicKeyPem = key → r.deleted = false → Granted env r c.request) :
    Proper env { c with stage := readRevived env opts key d } := by
  simp only [readRevived]
  cases hf : d.actors.find? fun r => r.apId = env.actorApId opts.username &&
      r.publicKeyPem = key && r.takosUserId = some opts.takosUserId && !r.deleted with
  | none => trivial
  | some r =>
    have hr := List.find?_some hf
    simp only [Bool.and_eq_true,decide_eq_true_eq,Bool.not_eq_true'] at hr
    exact (h r (List.mem_of_find?_eq_some hf) hr.1.1.2 hr.2).answers hr.2

theorem proper_resolveWinner : Proper env { c with stage := resolveWinner d c.request } := by
  obtain ⟨request,stage⟩ := c
  cases request with
  | password =>
    have hcases := readOwner_cases (d := d) .failed fun r => .done (some r)
    simp only [resolveWinner]
    rcases hcases with heq | heq | ⟨r,_,hlive,heq⟩ <;> rw [heq]
    · trivial
    · trivial
    · exact hlive
  | oauth u =>
    simp only [resolveWinner]
    cases hf : d.actors.find? fun r => r.takosUserId = some u.providerUserId && !r.deleted with
    | none => trivial
    | some r =>
      have hr := List.find?_some hf
      rw [Bool.and_eq_true,decide_eq_true_eq,Bool.not_eq_true'] at hr
      exact hr
  | account username name root => trivial

theorem written_readRevived {opts : Opts} {key : Key} : Written (readRevived env opts key d) := by
  unfold readRevived
  cases d.actors.find? fun r => r.apId = env.actorApId opts.username &&
      r.publicKeyPem = key && r.takosUserId = some opts.takosUserId && !r.deleted with
  | none => trivial
  | some r => trivial

theorem written_resolveWinner {request : Request} : Written (resolveWinner d request) := by
  cases request with
  | password =>
    have hcases := readOwner_cases (d := d) .failed fun r => .done (some r)
    simp only [resolveWinner]
    rcases hcases with heq | heq | ⟨r,_,_,heq⟩ <;> rw [heq] <;> trivial
  | oauth u => trivial
  | account username name root => trivial

inductive Move (env : Env) (p : Nat) (d : Db) (c : Call) : Db × Call → Prop where
  | reads (stage : Stage) (hproper : Proper env { c with stage := stage })
      (hwritten : Written c.stage → Written stage) : Move env p d c (d,{ c with stage := stage })
  | revives (opts : Opts) (t : Tombstone) (hstage : c.stage = .write opts (some t))
      (h : revivable env opts t d = true) :
      Move env p d c (revive (newActor env opts (.generated p)) d,
        { c with stage := .revived opts })
  | inserts (opts : Opts) (hstage : c.stage = .write opts none)
      (hguard : opts.role = .owner → noLiveOwner d = true)
      (hclash : ∀ r ∈ d.actors, clashes (newActor env opts (.generated p)) r = false) :
      Move env p d c (insertActor (newActor env opts (.generated p)) d,
        { c with stage := .done (some (newActor env opts (.generated p))) })
  | renames (existing : Actor) (u : OAuthLogin) (hstage : c.stage = .rename existing)
      (hrequest : c.request = .oauth u) :
      Move env p d c ((rename existing u d).1,{ c with stage := (rename existing u d).2 })

theorem move_write {opts : Opts} {tombstone : Option Tombstone}
    (hstage : c.stage = .write opts tombstone) :
    Move env p d c (((writeActor env opts tombstone (.generated p) d).getD (d,.lost)).1,
      { c with stage := ((writeActor env opts tombstone (.generated p) d).getD (d,.lost)).2 }) := by
  have hlost : Move env p d c (d,{ c with stage := .lost }) := .reads .lost trivial fun _ => trivial
  unfold writeActor
  cases tombstone with
  | some t =>
    simp only
    split
    · rename_i h
      exact .revives opts t hstage (Bool.and_eq_true_iff.mp h).1
    · exact hlost
  | none =>
    simp only
    split
    · rename_i h
      simp only [Bool.and_eq_true,Bool.or_eq_true,decide_eq_true_eq,Bool.not_eq_true',
        List.any_eq_false,Bool.not_eq_true] at h
      exact .inserts opts hstage (fun howner => h.1.resolve_left (absurd howner)) h.2
    · exact hlost

theorem work_move {fails : Bool} (hr : running c = true) (hp : Proper env c)
    (hkeys : ∀ r ∈ d.actors, r.publicKeyPem = .generated p → r.deleted = false →
      Granted env r c.request) : Move env p d c (work env fails p d c) := by
  unfold work
  split
  · exact .reads .failed trivial fun _ => trivial
  unfold advance
  cases hstage : c.stage with
  | start => exact .reads _ proper_start (by rw [hstage]; exact False.elim)
  | probe base counter =>
    rw [Proper,hstage] at hp
    exact .reads _ (proper_probe hp) (by rw [hstage]; exact False.elim)
  | count username =>
    have hoauth : ∀ u, c.request = .oauth u →
        Move env p d c (d,{ c with stage := countOwners env u username d }) := fun u hrequest =>
      .reads _ (proper_countOwners hrequest) (by rw [hstage]; exact False.elim)
    have hfailed : Move env p d c (d,{ c with stage := .failed }) :=
      .reads .failed trivial fun _ => trivial
    simp only
    split
    · rename_i hrequest
      exact hoauth _ hrequest
    · exact hfailed
  | create opts =>
    rw [Proper,hstage] at hp
    exact .reads _ hp (by rw [hstage]; exact False.elim)
  | reserve opts tombstone =>
    rw [Proper,hstage] at hp
    have hnext : ∀ stage, (stage = .reserveOwner opts tombstone ∨ stage = .write opts tombstone) →
        Move env p d c (d,{ c with stage := stage }) := by
      rintro stage (rfl | rfl)
      · exact .reads _ hp (by rw [hstage]; exact False.elim)
      · exact .reads _ hp (by rw [hstage]; exact False.elim)
    simp only
    split
    · refine hnext _ ?_
      split
      · exact .inl rfl
      · exact .inr rfl
    · exact .reads .failed trivial fun _ => trivial
  | reserveOwner opts tombstone =>
    rw [Proper,hstage] at hp
    simp only
    split
    · exact .reads _ hp (by rw [hstage]; exact False.elim)
    · exact .reads .failed trivial fun _ => trivial
  | write opts tombstone => exact move_write hstage
  | revived opts =>
    exact .reads _ (proper_readRevived hkeys) fun _ => written_readRevived
  | lost =>
    exact .reads _ proper_resolveWinner fun _ => written_resolveWinner
  | check existing =>
    rw [Proper,hstage] at hp
    have hrename : ∀ u, c.request = .oauth u →
        Move env p d c (d,{ c with stage := .rename existing }) := by
      intro u hrequest
      rw [hrequest] at hp
      exact .reads _ ⟨u,hrequest,hp⟩ (by rw [hstage]; exact False.elim)
    have hdone : (∀ u, c.request ≠ .oauth u) →
        Move env p d c (d,{ c with stage := .done (some existing) }) := by
      intro hnot
      refine .reads _ (?_ : Answers existing c.request) fun _ => trivial
      simp only at hp
      exact hp
    simp only
    split
    · split
      · rename_i u hrequest
        exact hrename u hrequest
      · rename_i hnot
        exact hdone hnot
    · exact .reads .failed trivial fun _ => trivial
  | rename existing =>
    rw [Proper,hstage] at hp
    obtain ⟨u,hrequest,_⟩ := hp
    have hmove : Move env p d c
        ((rename existing u d).1,{ c with stage := (rename existing u d).2 }) :=
      .renames existing u hstage hrequest
    simpa only [hrequest] using hmove
  | done answer =>
    rw [running,hstage] at hr
    cases hr
  | failed =>
    rw [running,hstage] at hr
    cases hr

end calls

section moves

variable {env : Env} {p : Nat} {d : Db} {c : Call} {x : Db × Call}

theorem Move.request (h : Move env p d c x) : x.2.request = c.request := by
  cases h <;> rfl

theorem Move.written (h : Move env p d c x) (hw : Written c.stage) : Written x.2.stage := by
  cases h with
  | reads stage _ hwritten => exact hwritten hw
  | revives opts t hstage _ => trivial
  | inserts opts hstage _ _ => trivial
  | renames existing u hstage _ => trivial

theorem Move.proper (h : Move env p d c x) (hp : Proper env c) : Proper env x.2 := by
  cases h with
  | reads stage hproper _ => exact hproper
  | revives opts t hstage _ =>
    rw [Proper,hstage] at hp
    exact hp
  | inserts opts hstage _ _ =>
    rw [Proper,hstage] at hp
    exact answers_newActor hp
  | renames existing u hstage hrequest =>
    rw [Proper,hstage] at hp
    obtain ⟨v,hv,hid⟩ := hp
    obtain rfl : u = v := Request.oauth.inj (hrequest.symm.trans hv)
    simp only [rename]
    cases hf : d.actors.find? (actorIdentityMatches existing d) with
    | none => trivial
    | some r =>
      obtain ⟨_,_,hsame,hlive,_⟩ := actorIdentityMatches_iff.mp (List.find?_some hf)
      simp only [Proper,Option.map_some,hrequest]
      exact ⟨hsame.trans hid,hlive⟩

theorem Move.kept (h : Move env p d c x) (hk : Kept d) : Kept x.1 := by
  cases h with
  | reads stage _ _ => exact hk
  | revives opts t hstage hrevivable =>
    refine hk.revive fun howner => ?_
    have hrole : opts.role = .owner := howner
    simp only [revivable,Bool.and_eq_true,Bool.or_eq_true,decide_eq_true_eq] at hrevivable
    exact hrevivable.1.1.resolve_left (absurd hrole)
  | inserts opts hstage hguard hclash => exact hk.insert hguard hclash
  | renames existing u hstage _ =>
    exact hk.update _ (setProfile u) (fun _ => rfl) fun _ hr => hr

def Stays (d : Db) (r : Actor) : Prop :=
  ∃ q ∈ d.actors, q.apId = r.apId ∧ q.publicKeyPem = r.publicKeyPem ∧
    (r.deleted = false → q.deleted = false ∧ q.role = r.role ∧ q.takosUserId = r.takosUserId)

theorem Stays.refl {r : Actor} (h : r ∈ d.actors) : Stays d r :=
  ⟨r,h,rfl,rfl,fun hlive => ⟨hlive,rfl,rfl⟩⟩

theorem Move.rows (h : Move env p d c x) {r : Actor} (hr : r ∈ x.1.actors) :
    Stays d r ∨ ∃ opts tombstone, c.stage = .write opts tombstone ∧
      r = newActor env opts (.generated p) ∧ Written x.2.stage := by
  cases h with
  | reads stage _ _ => exact .inl (.refl hr)
  | revives opts t hstage _ =>
    rcases mem_revive.mp hr with ⟨hr,_⟩ | ⟨rfl,_⟩
    · exact .inl (.refl hr)
    · exact .inr ⟨opts,some t,hstage,rfl,trivial⟩
  | inserts opts hstage _ _ =>
    rcases mem_insertActor.mp hr with hr | rfl
    · exact .inl (.refl hr)
    · exact .inr ⟨opts,none,hstage,rfl,trivial⟩
  | renames existing u hstage _ =>
    obtain ⟨q,hq,⟨_,rfl⟩ | ⟨_,rfl⟩⟩ := Table.mem_update.mp hr
    · exact .inl (.refl hq)
    · exact .inl ⟨q,hq,rfl,rfl,fun hlive => ⟨hlive,rfl,rfl⟩⟩

theorem happen_rows {e : Event} {r : Actor} (hr : r ∈ (happen e d).actors) : Stays d r := by
  cases e with
  | delete apId username sessionActorIds =>
    obtain ⟨q,hq,⟨_,rfl⟩ | ⟨_,rfl⟩⟩ := Table.mem_update.mp hr
    · exact .refl hq
    · exact ⟨q,hq,rfl,rfl,nofun⟩
  | reap apId => exact .refl (List.mem_filter.mp hr).1
  | reserve apId => exact .refl hr
  | release apId => exact .refl hr
  | session memberId => exact .refl hr
  | activity a => exact .refl hr

theorem Move.revival (h : Move env p d c x) (hk : Kept d) {q r : Actor} (hq : q ∈ d.actors)
    (hdeleted : q.deleted = true) (hr : r ∈ x.1.actors) (hid : r.apId = q.apId)
    (hlive : r.deleted = false) : ∃ opts t, c.stage = .write opts (some t) ∧
      r = newActor env opts (.generated p) ∧ (∀ y ∈ x.1.sessions, y.memberId ≠ r.apId) ∧
        ∀ a ∈ x.1.activities, ¬(a.actorApId = r.apId ∧ a.type = "Delete".toList) := by
  have hgone : ¬Stays d r := by
    rintro ⟨q',hq',hid',_,hsame⟩
    have heq := hk.unique hq' hq (hid'.trans hid)
    rw [heq,hdeleted] at hsame
    cases (hsame hlive).1
  cases h with
  | reads stage _ _ => exact absurd (.refl hr) hgone
  | revives opts t hstage _ =>
    rcases mem_revive.mp hr with ⟨hr,_⟩ | ⟨rfl,_⟩
    · exact absurd (.refl hr) hgone
    · refine ⟨opts,t,hstage,rfl,fun y hy => ?_,fun a ha => ?_⟩
      · simpa using (List.mem_filter.mp hy).2
      · rintro ⟨hactor,htype⟩
        have hkept := (List.mem_filter.mp ha).2
        simp [hactor,htype] at hkept
  | inserts opts hstage _ hclash =>
    rcases mem_insertActor.mp hr with hr | rfl
    · exact absurd (.refl hr) hgone
    · have hno := hclash q hq
      simp only [clashes,Bool.or_eq_false_iff,decide_eq_false_iff_not] at hno
      exact absurd hid.symm hno.1.1
  | renames existing u hstage hrequest =>
    have hmove : Move env p d c
        ((rename existing u d).1,{ c with stage := (rename existing u d).2 }) :=
      .renames existing u hstage hrequest
    obtain hstays | ⟨opts,tombstone,hwrite,_⟩ := hmove.rows hr
    · exact absurd hstays hgone
    · rw [hstage] at hwrite
      cases hwrite

def wins : Stage → Stage → Bool
  | .write _ _,.revived _ | .write _ _,.done _ | .rename _,.done (some _) => true
  | _,_ => false

theorem Move.quiet (h : Move env p d c x) (hw : wins c.stage x.2.stage = false) : x.1 = d := by
  cases h with
  | reads stage _ _ => rfl
  | revives opts t hstage _ =>
    rw [hstage] at hw
    cases hw
  | inserts opts hstage _ _ =>
    rw [hstage] at hw
    cases hw
  | renames existing u hstage _ =>
    simp only [rename] at hw ⊢
    cases hf : d.actors.find? (actorIdentityMatches existing d) with
    | some r =>
      rw [hstage,hf] at hw
      cases hw
    | none =>
      have hnone := List.find?_eq_none.mp hf
      rw [Table.update_of_none _ fun r hr => Bool.eq_false_iff.mpr (hnone r hr)]

end moves

section runs

variable {env : Env} {s₀ s t : Pool} {l : Threads.Label Bool Event}

/-- At most one live owner, actors with ids of their own, and calls that have yet to generate
their keys. -/
structure Start (s : Pool) : Prop where
  kept : Kept s.store
  start : ∀ p, (s.thread p).stage = .start
  keys : ∀ r ∈ s.store.actors, ∀ p, r.publicKeyPem ≠ .generated p

structure Holds (env : Env) (s : Pool) : Prop where
  kept : Kept s.store
  keys : ∀ r ∈ s.store.actors, ∀ p, r.publicKeyPem = .generated p →
    Written (s.thread p).stage ∧ (r.deleted = false → Granted env r (s.thread p).request)
  calls : ∀ p, Proper env (s.thread p)

/-- Whoever is new was let in by the call that brought it in, a revived row has nothing of the
tombstone's but its id, and a call that does not win changes nothing. -/
structure Decided (env : Env) (s : Pool) (l : Threads.Label Bool Event) (t : Pool) : Prop where
  admission : ∀ r ∈ t.store.actors, r.deleted = false →
    (∃ q ∈ s.store.actors, q.apId = r.apId ∧ q.deleted = false ∧ q.role = r.role ∧
      q.takosUserId = r.takosUserId) ∨
    ∃ p i, l = .act p i ∧ Granted env r (s.thread p).request
  revival : ∀ q ∈ s.store.actors, q.deleted = true → ∀ r ∈ t.store.actors, r.apId = q.apId →
    r.deleted = false → ∃ p i opts, l = .act p i ∧ r = newActor env opts (.generated p) ∧
      Grants env opts.role opts.takosUserId (s.thread p).request ∧
      r.publicKeyPem ≠ q.publicKeyPem ∧ (∀ x ∈ t.store.sessions, x.memberId ≠ r.apId) ∧
      ∀ a ∈ t.store.activities, ¬(a.actorApId = r.apId ∧ a.type = "Delete".toList)
  quiet : ∀ p i, l = .act p i → wins (s.thread p).stage (t.thread p).stage = false →
    t.store = s.store

theorem Start.holds (h : Start s) : Holds env s where
  kept := h.kept
  keys r hr p hkey := absurd hkey (h.keys r hr p)
  calls p := by
    rw [Proper,h.start p]
    trivial

theorem Holds.act {p : Nat} {fails : Bool} (h : Holds env s)
    (hl : (machine env).step (.act p fails) s = some t) :
    Holds env t ∧ Decided env s (.act p fails) t := by
  obtain ⟨hr,rfl⟩ := Threads.guarded_step_act.mp hl
  have hmove : Move env p s.store (s.thread p) (work env fails p s.store (s.thread p)) :=
    work_move hr (h.calls p) fun r hr hkey hlive => (h.keys r hr p hkey).2 hlive
  refine ⟨⟨hmove.kept h.kept,?_,?_⟩,?_,?_,?_⟩
  · intro r hr q hkey
    rcases hmove.rows hr with ⟨r₀,hr₀,_,hkey₀,hsame⟩ | ⟨opts,tombstone,hstage,rfl,hwritten⟩
    · obtain ⟨hwritten,hgranted⟩ := h.keys r₀ hr₀ q (hkey₀.trans hkey)
      have hrow : ∀ request, (r₀.deleted = false → Granted env r₀ request) →
          r.deleted = false → Granted env r request := by
        intro request hold hlive
        obtain ⟨hlive₀,hrole,hid⟩ := hsame hlive
        obtain ⟨id,hsome,hgrants⟩ := hold hlive₀
        exact ⟨id,hid ▸ hsome,hrole ▸ hgrants⟩
      by_cases hq : q = p
      · subst hq
        simp only [Function.update_self,hmove.request]
        exact ⟨hmove.written hwritten,hrow _ hgranted⟩
      · simp only [Function.update_of_ne hq]
        exact ⟨hwritten,hrow _ hgranted⟩
    · obtain rfl : p = q := Key.generated.inj hkey
      have hgrants := h.calls p
      rw [Proper,hstage] at hgrants
      simp only [Function.update_self,hmove.request]
      exact ⟨hwritten,fun _ => ⟨opts.takosUserId,rfl,hgrants⟩⟩
  · intro q
    by_cases hq : q = p
    · subst hq
      simp only [Function.update_self]
      exact hmove.proper (h.calls q)
    · simp only [Function.update_of_ne hq]
      exact h.calls q
  · intro r hr hlive
    rcases hmove.rows hr with ⟨q,hq,hid,_,hsame⟩ | ⟨opts,tombstone,hstage,rfl,_⟩
    · exact .inl ⟨q,hq,hid,hsame hlive⟩
    · have hgrants := h.calls p
      rw [Proper,hstage] at hgrants
      exact .inr ⟨p,fails,rfl,opts.takosUserId,rfl,hgrants⟩
  · intro q hq hdeleted r hr hid hlive
    obtain ⟨opts,tombstone,hstage,rfl,hsessions,hactivities⟩ :=
      hmove.revival h.kept hq hdeleted hr hid hlive
    have hgrants := h.calls p
    rw [Proper,hstage] at hgrants
    refine ⟨p,fails,opts,rfl,rfl,hgrants,fun hkey => ?_,hsessions,hactivities⟩
    have hwritten := (h.keys q hq p hkey.symm).1
    rw [hstage] at hwritten
    exact hwritten
  · rintro q i hact hw
    cases hact
    simp only [Function.update_self] at hw
    exact hmove.quiet hw

theorem Holds.event {e : Event} (h : Holds env s) (hl : (machine env).step (.env e) s = some t) :
    Holds env t ∧ Decided env s (.env e) t := by
  obtain ⟨he,rfl⟩ := Threads.guarded_step_env.mp hl
  refine ⟨⟨h.kept.happen,?_,h.calls⟩,?_,?_,?_⟩
  · intro r hr p hkey
    obtain ⟨r₀,hr₀,_,hkey₀,hsame⟩ := happen_rows hr
    obtain ⟨hwritten,hgranted⟩ := h.keys r₀ hr₀ p (hkey₀.trans hkey)
    refine ⟨hwritten,fun hlive => ?_⟩
    obtain ⟨hlive₀,hrole,hid⟩ := hsame hlive
    obtain ⟨id,hsome,hgrants⟩ := hgranted hlive₀
    exact ⟨id,hid ▸ hsome,hrole ▸ hgrants⟩
  · intro r hr hlive
    obtain ⟨q,hq,hid,_,hsame⟩ := happen_rows hr
    exact .inl ⟨q,hq,hid,hsame hlive⟩
  · intro q hq hdeleted r hr hid hlive
    obtain ⟨q',hq',hid',_,hsame⟩ := happen_rows hr
    have heq := h.kept.unique hq' hq (hid'.trans hid)
    rw [heq,hdeleted] at hsame
    cases (hsame hlive).1
  · rintro p i hact _
    cases hact

theorem Holds.step (h : Holds env s) (hl : (machine env).step l s = some t) :
    Holds env t ∧ Decided env s l t := by
  cases l with
  | act p fails => exact h.act hl
  | env e => exact h.event hl

theorem one_live_owner (hs : Start s₀) (hr : (machine env).Reaches s₀ s) :
    (s.store.actors.filter liveOwner).length ≤ 1 ∧
      (∀ p r, (s.thread p).stage = .done (some r) → Answers r (s.thread p).request) ∧
      ∀ l t, (machine env).step l s = some t → Decided env s l t := by
  have h : Holds env s := by
    refine hr.invariant (P := Holds env) hs.holds ?_
    intro a l b ha hl _
    exact (ha.step hl).1
  refine ⟨h.kept.owners,fun p r hdone => ?_,fun l t hl => (h.step hl).2⟩
  have hproper := h.calls p
  rw [Proper,hdone] at hproper
  exact hproper

end runs

section first

def unpinned : Env where
  actorApId username := "https://a/ap/users/".toList ++ username
  toLowerCase t := t
  oidcOwnerSub := none
  takosumiAccountsOwnerSub := none
  oidcAllowedSubs := none
  allowUnpinnedOwnerClaim := some "1".toList

/-- A password login and a first OAuth login, in an instance with nothing but a tombstone. -/
def first : Pool where
  store := ⟨[⟨"https://a/ap/users/tako".toList,"deleted-1".toList,none,none,.before 0,none,.member,
    none,true⟩],[],[],[]⟩
  thread p := ⟨if p = 0 then .password else
    .oauth ⟨"x".toList,"1".toList,"bob".toList,none,"bob".toList,none,none⟩,.start⟩

theorem start_first : Start first where
  kept := by
    refine ⟨List.nodup_singleton _,fun r hr q hq _ _ => ?_⟩
    rw [List.mem_singleton.mp hr,List.mem_singleton.mp hq]
  start p := rfl
  keys r hr p hkey := by
    rw [List.mem_singleton.mp hr] at hkey
    cases hkey

/-- The OAuth login reads that there is no owner, then the password login revives the tombstone as
the owner, then the OAuth login loses. -/
theorem one_live_owner_first : ∃ s, (machine unpinned).Reaches first s ∧
    (s.store.actors.map fun r => (r.preferredUsername,r.role)) = [("tako".toList,.owner)] ∧
    (s.store.actors.filter liveOwner).length ≤ 1 := by
  have hrun : ((machine unpinned).run [.act 1 false,.act 1 false,.act 1 false,.act 0 false,
      .act 0 false,.act 0 false,.act 0 false,.act 0 false,.act 0 false,.act 1 false,.act 1 false,
      .act 1 false,.act 1 false] first).map
        (fun s => s.store.actors.map fun r => (r.preferredUsername,r.role)) =
      some [("tako".toList,.owner)] := by
    decide +kernel
  obtain ⟨s,hs,hactors⟩ := Option.map_eq_some_iff.mp hrun
  have hreaches : (machine unpinned).Reaches first s := .of_run hs
  exact ⟨s,hreaches,hactors,(one_live_owner start_first hreaches).1⟩

end first

end Yurucommu.Logins
