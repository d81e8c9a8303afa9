import Yurucommu.FollowDecisions

/-!
A batch that commits while the request it decides is still pending as it was read decides it once,
and what it sends and answers is what has become of the edge.
-/

set_option autoImplicit false

namespace Yurucommu.FollowDecisions

open Whatwg (Text)
open ActorIdentity (activityPubActorIdentityMatchesSql)
open Interactions (FollowStatus FollowRow sameFollow)

abbrev Pool := Threads.Pool Db Call

section statements

variable {w : Site} {d : Db} {rows : List FollowRow} {f : FollowRow}
  {actor requester community : Text} {follow : Option Text}

theorem sameFollow_iff : sameFollow requester actor f = true ↔
    f.followerApId = requester ∧ f.followingApId = actor := by
  simp [sameFollow]

theorem pendingFollow_iff : pendingFollow requester actor f = true ↔
    sameFollow requester actor f = true ∧ f.status = .pending := by
  simp [pendingFollow]

theorem pendingJoin_iff {j : JoinRequest} : pendingJoin community requester j = true ↔
    j.communityApId = community ∧ j.actorApId = requester ∧ j.status = .pending := by
  simp [pendingJoin,and_assoc]

theorem hasPendingJoin_iff : hasPendingJoin community requester d = true ↔
    ∃ j ∈ d.joinRequests, j.communityApId = community ∧ j.actorApId = requester ∧
      j.status = .pending := by
  simp only [hasPendingJoin,List.any_eq_true,pendingJoin_iff]

def StillPending (requester actor : Text) (follow : Option Text) (rows : List FollowRow) : Prop :=
  ∃ f ∈ rows, pendingFollow requester actor f = true ∧ f.activityApId = follow

/-- The pending edge of `follow` becomes an accepted one, and no other edge changes. -/
structure Turned (requester actor : Text) (follow : Option Text) (rows rows' : List FollowRow) :
    Prop where
  pending : StillPending requester actor follow rows
  accepted : ∃ f ∈ rows', sameFollow requester actor f = true ∧ f.status = .accepted ∧
    f.activityApId = follow
  others : Table.delete (sameFollow requester actor) rows' =
    Table.delete (sameFollow requester actor) rows

/-- The pending edge of `follow` goes away, and no other edge does. -/
structure Removed (requester actor : Text) (follow : Option Text) (rows rows' : List FollowRow) :
    Prop where
  pending : StillPending requester actor follow rows
  absent : rows'.any (sameFollow requester actor) = false
  others : Table.delete (sameFollow requester actor) rows' =
    Table.delete (sameFollow requester actor) rows

structure Processed (community requester : Text) (status : RequestStatus) (d d' : Db) : Prop where
  pending : hasPendingJoin community requester d = true
  processed : ∃ j ∈ d'.joinRequests, j.communityApId = community ∧ j.actorApId = requester ∧
    j.status = status
  once : hasPendingJoin community requester d' = false

/-- What a response tells the requester has happened in the batch that records it. -/
def Backed (rows rows' : List FollowRow) (r : Response) : Prop :=
  match r.type with
  | .accept => Turned r.requesterApId r.actorApId r.follow rows rows'
  | .reject => Removed r.requesterApId r.actorApId r.follow rows rows'

theorem findPendingFollow_eq_some (h : findPendingFollow requester actor d = some f) :
    StillPending requester actor f.activityApId d.follows :=
  ⟨f,List.mem_of_find?_eq_some h,List.find?_some h,rfl⟩

theorem delete_update {cond key : FollowRow → Bool} {set : FollowRow → FollowRow}
    (hset : ∀ f, key (set f) = key f) (hcond : ∀ f, cond f = true → key f = true) :
    Table.delete key (Table.update cond set rows) = Table.delete key rows := by
  unfold Table.delete Table.update
  induction rows with
  | nil => rfl
  | cons f rows ih =>
    rw [List.map_cons,List.filter_cons,List.filter_cons,ih]
    by_cases hc : cond f = true
    · simp [hc,hset,hcond f hc]
    · simp [hc]

theorem delete_delete {cond key : FollowRow → Bool} (h : ∀ f, cond f = true → key f = true) :
    Table.delete key (Table.delete cond rows) = Table.delete key rows := by
  unfold Table.delete
  rw [List.filter_filter]
  refine List.filter_congr fun f _ => ?_
  cases hk : key f with
  | true => rfl
  | false =>
    cases hc : cond f with
    | false => rfl
    | true => simp [h f hc] at hk

theorem mem_delete {ρ : Type} {cond : ρ → Bool} {rows : List ρ} {r : ρ} :
    r ∈ Table.delete cond rows ↔ r ∈ rows ∧ cond r = false := by
  simp [Table.delete]

@[simp] theorem respond_follows (type : ResponseType) (prepared : Bool) :
    (respond type actor requester follow prepared d).follows = d.follows := by
  cases prepared <;> rfl

@[simp] theorem respond_members (type : ResponseType) (prepared : Bool) :
    (respond type actor requester follow prepared d).members = d.members := by
  cases prepared <;> rfl

@[simp] theorem respond_bans (type : ResponseType) (prepared : Bool) :
    (respond type actor requester follow prepared d).bans = d.bans := by
  cases prepared <;> rfl

theorem turned_flip (now : Nat) (h : StillPending requester actor follow d.follows) :
    Turned requester actor follow d.follows (flip requester actor now d).follows where
  pending := h
  accepted := by
    obtain ⟨f,hf,hp,hid⟩ := h
    exact ⟨_,Table.mem_update.mpr ⟨f,hf,.inr ⟨hp,rfl⟩⟩,(pendingFollow_iff.mp hp).1,rfl,hid⟩
  others := delete_update (fun _ => rfl) fun f hf => (pendingFollow_iff.mp hf).1

theorem removed_delete (h : StillPending requester actor follow rows) :
    Removed requester actor follow rows (Table.delete (sameFollow requester actor) rows) where
  pending := h
  absent := by
    rw [List.any_eq_false]
    intro f hf
    rw [(mem_delete.mp hf).2]
    decide
  others := delete_delete fun _ hf => hf

end statements

section kept

variable {w : Site} {d d' : Db} {f : FollowRow} {actor requester community : Text}
  {follow : Option Text}

structure Kept (w : Site) (d : Db) : Prop where
  keys : ∀ f ∈ d.follows, ∀ g ∈ d.follows, f.followerApId = g.followerApId →
    f.followingApId = g.followingApId → f = g
  ids : ∀ f ∈ d.follows, ∀ g ∈ d.follows, ∀ id, f.activityApId = some id →
    g.activityApId = some id → f = g
  undecided : ∀ f ∈ d.follows, f.status = .pending → ∀ id, f.activityApId = some id →
    ∀ r ∈ d.responses, r.follow ≠ some id
  once : ∀ id, d.responses.countP (fun r => r.follow = some id) ≤ 1
  remote : ∀ f ∈ d.follows, w.isLocal f.followerApId = true → w.isCommunity f.followingApId = false
  joins : ∀ j ∈ d.joinRequests, w.isLocal j.actorApId = true

theorem Kept.of_eq (h : Kept w d) (hf : d'.follows = d.follows) (hr : d'.responses = d.responses)
    (hj : d'.joinRequests = d.joinRequests) : Kept w d' := by
  cases d'
  simp only at hf hr hj
  subst hf hr hj
  exact ⟨h.keys,h.ids,h.undecided,h.once,h.remote,h.joins⟩

theorem removed_deletePending (h : Kept w d) (hp : StillPending requester actor follow d.follows) :
    Removed requester actor follow d.follows
      (Table.delete (pendingFollow requester actor) d.follows) where
  pending := hp
  absent := by
    obtain ⟨f,hf,hpending,_⟩ := hp
    rw [List.any_eq_false]
    intro g hg hsame
    obtain ⟨hg,hnot⟩ := mem_delete.mp hg
    obtain ⟨hfer,hfing⟩ := sameFollow_iff.mp (pendingFollow_iff.mp hpending).1
    obtain ⟨hger,hging⟩ := sameFollow_iff.mp hsame
    have heq := h.keys f hf g hg (hfer.trans hger.symm) (hfing.trans hging.symm)
    rw [heq,hnot] at hpending
    cases hpending
  others := delete_delete fun f hf => (pendingFollow_iff.mp hf).1

theorem Kept.delete (h : Kept w d) (cond : FollowRow → Bool) : Kept w (deleteFollows cond d) where
  keys f hf g hg := h.keys f (mem_delete.mp hf).1 g (mem_delete.mp hg).1
  ids f hf g hg := h.ids f (mem_delete.mp hf).1 g (mem_delete.mp hg).1
  undecided f hf := h.undecided f (mem_delete.mp hf).1
  once := h.once
  remote f hf := h.remote f (mem_delete.mp hf).1
  joins := h.joins

theorem Kept.flip (h : Kept w d) (now : Nat) : Kept w (flip requester actor now d) := by
  -- a flipped row differs from the one it was in what neither a key nor an id is about
  have hrow : ∀ f' ∈ (FollowDecisions.flip requester actor now d).follows, ∃ f ∈ d.follows,
      f' = (if pendingFollow requester actor f
        then { f with status := .accepted, acceptedAt := some now } else f) ∧
      f'.followerApId = f.followerApId ∧ f'.followingApId = f.followingApId ∧
      f'.activityApId = f.activityApId ∧ (f'.status = .pending → f.status = .pending) := by
    intro f' hf'
    obtain ⟨f,hf,⟨hc,rfl⟩ | ⟨hc,rfl⟩⟩ := Table.mem_update.mp hf'
    · exact ⟨f',hf,by rw [hc]; rfl,rfl,rfl,rfl,id⟩
    · exact ⟨f,hf,by rw [hc]; rfl,rfl,rfl,rfl,nofun⟩
  refine ⟨?_,?_,?_,h.once,?_,h.joins⟩
  · intro f' hf' g' hg' her hing
    obtain ⟨f,hf,hf',hfer,hfing,_⟩ := hrow f' hf'
    obtain ⟨g,hg,hg',hger,hging,_⟩ := hrow g' hg'
    have heq := h.keys f hf g hg (by rw [← hfer,her,hger]) (by rw [← hfing,hing,hging])
    rw [hf',hg',heq]
  · intro f' hf' g' hg' id hfid hgid
    obtain ⟨f,hf,hf',_,_,hid,_⟩ := hrow f' hf'
    obtain ⟨g,hg,hg',_,_,hid',_⟩ := hrow g' hg'
    have heq := h.ids f hf g hg id (hid ▸ hfid) (hid' ▸ hgid)
    rw [hf',hg',heq]
  · intro f' hf' hpending id hid
    obtain ⟨f,hf,_,_,_,hfid,hstatus⟩ := hrow f' hf'
    exact h.undecided f hf (hstatus hpending) id (hfid ▸ hid)
  · intro f' hf' hlocal
    obtain ⟨f,hf,_,hfer,hfing,_⟩ := hrow f' hf'
    rw [hfing]
    exact h.remote f hf (hfer ▸ hlocal)

theorem Kept.respond (h : Kept w d) (type : ResponseType) (prepared : Bool)
    (hnew : ∀ id, follow = some id → ∀ r ∈ d.responses, r.follow ≠ some id)
    (hleft : ∀ id, follow = some id → ∀ f ∈ d.follows, f.status = .pending →
      f.activityApId ≠ some id) :
    Kept w (respond type actor requester follow prepared d) := by
  unfold FollowDecisions.respond
  split
  · refine ⟨h.keys,h.ids,?_,?_,h.remote,h.joins⟩
    · intro f hf hpending id hid r hr
      rcases List.mem_append.mp hr with hr | hr
      · exact h.undecided f hf hpending id hid r hr
      · rw [List.mem_singleton.mp hr]
        exact fun heq => hleft id heq f hf hpending hid
    · intro id
      have hold := h.once id
      simp only [List.countP_append,List.countP_singleton]
      by_cases heq : follow = some id
      · have hzero : d.responses.countP (fun r => r.follow = some id) = 0 := by
          rw [List.countP_eq_zero]
          intro r hr
          simpa using hnew id heq r hr
        rw [hzero]
        split <;> omega
      · simp [heq,hold]
  · exact h

theorem Kept.undecided_of_pending (h : Kept w d)
    (hp : StillPending requester actor follow d.follows) (id : Text) (hid : follow = some id) :
    ∀ r ∈ d.responses, r.follow ≠ some id := by
  obtain ⟨f,hf,hpending,rfl⟩ := hp
  exact h.undecided f hf (pendingFollow_iff.mp hpending).2 id hid

theorem Kept.accept (h : Kept w d) (hp : StillPending requester actor follow d.follows)
    (prepared : Bool) (now : Nat) : Kept w (accept actor requester follow prepared now d) := by
  refine (h.flip now).respond _ _ (h.undecided_of_pending hp) ?_
  rintro id hid f' hf' hpending hfid
  obtain ⟨f,hf,hpend,hfollow⟩ := hp
  obtain ⟨g,hg,⟨hc,rfl⟩ | ⟨hc,rfl⟩⟩ := Table.mem_update.mp hf'
  · have heq := h.ids f hf f' hg id (hfollow.trans hid) hfid
    rw [← heq,hpend] at hc
    cases hc
  · cases hpending

theorem Kept.removed (h : Kept w d) (cond : FollowRow → Bool)
    (hr : Removed requester actor follow d.follows (deleteFollows cond d).follows)
    (prepared : Bool) : Kept w (FollowDecisions.respond .reject actor requester follow prepared
      (deleteFollows cond d)) := by
  refine (h.delete cond).respond _ _ (h.undecided_of_pending hr.pending) ?_
  rintro id hid f' hf' hpending hfid
  obtain ⟨f,hf,hpend,hfollow⟩ := hr.pending
  have heq := h.ids f hf f' (mem_delete.mp hf').1 id (hfollow.trans hid) hfid
  have habsent := List.any_eq_false.mp hr.absent f' hf'
  rw [← heq,(pendingFollow_iff.mp hpend).1] at habsent
  exact habsent rfl

theorem Kept.process (h : Kept w d) (status : RequestStatus) (localRequest : Bool) :
    Kept w (process community requester status localRequest d) := by
  unfold FollowDecisions.process
  split
  · refine ⟨h.keys,h.ids,h.undecided,h.once,h.remote,?_⟩
    intro j hj
    obtain ⟨i,hi,⟨_,rfl⟩ | ⟨_,rfl⟩⟩ := Table.mem_update.mp hj
    · exact h.joins _ hi
    · exact h.joins i hi
  · exact h

theorem Kept.happen (h : Kept w d) {e : Event} (he : possible w e d = true) :
    Kept w (happen e d) := by
  cases e with
  | follow f =>
    simp only [possible,Bool.and_eq_true,decide_eq_true_eq,Bool.not_eq_true',List.any_eq_false,
      sameFollow_iff,Option.all_eq_true,Bool.and_eq_false_imp] at he
    obtain ⟨⟨⟨hstatus,hkey⟩,hid⟩,hremote⟩ := he
    have hmem : ∀ a ∈ d.follows ++ [f], a ∈ d.follows ∨ a = f := by
      intro a ha
      exact (List.mem_append.mp ha).imp id List.mem_singleton.mp
    refine ⟨?_,?_,?_,h.once,?_,h.joins⟩
    · intro a ha b hb her hing
      rcases hmem a ha with hold | rfl
      · rcases hmem b hb with hold' | rfl
        · exact h.keys a hold b hold' her hing
        · exact absurd ⟨her,hing⟩ (hkey a hold)
      · rcases hmem b hb with hold' | rfl
        · exact absurd ⟨her.symm,hing.symm⟩ (hkey b hold')
        · rfl
    · intro a ha b hb id haid hbid
      rcases hmem a ha with hold | rfl
      · rcases hmem b hb with hold' | rfl
        · exact h.ids a hold b hold' id haid hbid
        · exact absurd haid ((hid id hbid).1 a hold)
      · rcases hmem b hb with hold' | rfl
        · exact absurd hbid ((hid id haid).1 b hold')
        · rfl
    · intro a ha hpending id haid r hr
      rcases hmem a ha with hold | rfl
      · exact h.undecided a hold hpending id haid r hr
      · exact (hid id haid).2 r hr
    · intro a ha hlocal
      rcases hmem a ha with hold | rfl
      · exact h.remote a hold hlocal
      · exact hremote hlocal
  | join community actor =>
    simp only [possible] at he
    have hold : ∀ d' : Db, d'.follows = d.follows → d'.responses = d.responses →
        (∀ j ∈ d'.joinRequests, w.isLocal j.actorApId = true) → Kept w d' := by
      intro d' hf hr hj
      cases d'
      simp only at hf hr hj
      subst hf hr
      exact ⟨h.keys,h.ids,h.undecided,h.once,h.remote,hj⟩
    simp only [FollowDecisions.happen]
    split
    · refine hold _ rfl rfl fun j hj => ?_
      obtain ⟨i,hi,⟨_,rfl⟩ | ⟨_,rfl⟩⟩ := Table.mem_update.mp hj
      · exact h.joins _ hi
      · exact h.joins i hi
    · refine hold _ rfl rfl fun j hj => ?_
      rcases List.mem_append.mp hj with hj | hj
      · exact h.joins j hj
      · rw [List.mem_singleton.mp hj]
        exact he
  | undo follower following => exact h.delete _
  | ban community actor => exact h.of_eq rfl rfl rfl

end kept

section batches

variable {w : Site} {d d' : Db} {actor requester community : Text} {follow : Option Text}

def Requested (community requester : Text) (d : Db) : Prop :=
  hasPendingJoin community requester d = true ∨
    d.follows.any (pendingFollow requester community) = true

/-- What a step records, lets in and lifts, it has found still pending. -/
structure Lawful (d d' : Db) : Prop where
  responses : ∃ new, d'.responses = d.responses ++ new ∧
    ∀ r ∈ new, Backed d.follows d'.follows r
  members : ∀ m ∈ d'.members, m ∈ d.members ∨
    hasPendingJoin m.communityApId m.actorApId d = true
  bans : ∀ b ∈ d.bans, b ∉ d'.bans → ∃ requester, Requested b.communityApId requester d ∧
    lifts b.communityApId requester d b = true

theorem Lawful.of_eq (hr : d'.responses = d.responses) (hm : d'.members = d.members)
    (hb : ∀ b ∈ d.bans, b ∈ d'.bans) : Lawful d d' where
  responses := ⟨[],by rw [hr,List.append_nil],fun r h => by cases h⟩
  members m h := .inl (hm ▸ h)
  bans b h hnot := absurd (hb b h) hnot

theorem Lawful.refl (d : Db) : Lawful d d := .of_eq rfl rfl fun _ h => h

theorem Lawful.respond {type : ResponseType} (prepared : Bool) (hr : d'.responses = d.responses)
    (hm : d'.members = d.members) (hb : d'.bans = d.bans)
    (hbacked : Backed d.follows d'.follows ⟨type,actor,requester,follow⟩) :
    Lawful d (respond type actor requester follow prepared d') where
  responses := by
    rw [respond_follows]
    unfold FollowDecisions.respond
    cases prepared with
    | false => exact ⟨[],by simp [hr],fun r h => by cases h⟩
    | true =>
      refine ⟨[⟨type,actor,requester,follow⟩],by simp [hr],fun r h => ?_⟩
      rw [List.mem_singleton.mp h]
      exact hbacked
  members m h := by
    rw [respond_members,hm] at h
    exact .inl h
  bans b h hnot := by
    rw [respond_bans,hb] at hnot
    exact absurd h hnot

theorem Lawful.accept (hp : StillPending requester actor follow d.follows) (prepared : Bool)
    (now : Nat) : Lawful d (accept actor requester follow prepared now d) :=
  .respond prepared rfl rfl rfl (turned_flip now hp)

theorem Lawful.removed (cond : FollowRow → Bool) (prepared : Bool)
    (hr : Removed requester actor follow d.follows (deleteFollows cond d).follows) :
    Lawful d (FollowDecisions.respond .reject actor requester follow prepared
      (deleteFollows cond d)) := .respond prepared rfl rfl rfl hr

theorem Lawful.addMember (hj : hasPendingJoin community requester d = true) :
    Lawful d (addMember community requester d) where
  responses := ⟨[],(List.append_nil _).symm,fun r h => by cases h⟩
  members m h := by
    unfold FollowDecisions.addMember Table.insertIgnore at h
    simp only at h
    split at h
    · exact .inl h
    · rcases List.mem_append.mp h with h | h
      · exact .inl h
      · rw [List.mem_singleton.mp h]
        exact .inr hj
  bans b h hnot := absurd h hnot

theorem Lawful.unban (h : Lawful d d') (hb : d'.bans = d.bans)
    (hr : Requested community requester d) : Lawful d (unban community requester d') where
  responses := h.responses
  members := h.members
  bans b hmem hnot := by
    rw [FollowDecisions.unban,mem_delete,hb,not_and,Bool.not_eq_false] at hnot
    have hlifts := hnot hmem
    unfold lifts at hlifts
    rw [hb,Bool.and_eq_true,decide_eq_true_eq] at hlifts
    obtain ⟨rfl,hmatches⟩ := hlifts
    exact ⟨requester,hr,by simp [lifts,hmatches]⟩

theorem Lawful.process (h : Lawful d d') (status : RequestStatus) (localRequest : Bool) :
    Lawful d (process community requester status localRequest d') := by
  unfold FollowDecisions.process
  split
  · exact ⟨h.responses,h.members,h.bans⟩
  · exact h

theorem processed_process {status : RequestStatus} (hs : status ≠ .pending)
    (h : hasPendingJoin community requester d = true) (hj : d'.joinRequests = d.joinRequests) :
    Processed community requester status d (process community requester status true d') where
  pending := h
  processed := by
    obtain ⟨j,hmem,hcommunity,hactor,hstatus⟩ := hasPendingJoin_iff.mp h
    refine ⟨{ j with status := status },?_,hcommunity,hactor,rfl⟩
    simp only [FollowDecisions.process,if_true,hj]
    exact Table.mem_update.mpr ⟨j,hmem,.inr ⟨pendingJoin_iff.mpr ⟨hcommunity,hactor,hstatus⟩,rfl⟩⟩
  once := by
    simp only [hasPendingJoin,List.any_eq_false,FollowDecisions.process,if_true]
    intro j' hj' hpending
    obtain ⟨j,_,⟨hc,rfl⟩ | ⟨_,rfl⟩⟩ := Table.mem_update.mp hj'
    · rw [hc] at hpending
      cases hpending
    · exact hs (pendingJoin_iff.mp hpending).2.2

end batches

section requests

variable {w : Site} {d : Db} {c : Call} {i : Answer}

def Sane (w : Site) (c : Call) : Prop :=
  match c.stage with
  | .start => ∀ r, c.request = .acceptRequest r ∨ c.request = .rejectRequest r →
      w.isCommunity c.actor = true
  | .edge r localRequest => w.isCommunity c.actor = true ∧
      (c.request = .acceptRequest r ∨ c.request = .rejectRequest r) ∧
      (localRequest = true → w.isLocal r = true)
  | .accept r _ => c.request = .accept r
  | .batch _ _ => ∃ requesters, c.request = .acceptBatch requesters
  | .reject r _ => c.request = .reject r
  | .acceptRequest r localRequest pendingEdge => c.request = .acceptRequest r ∧
      (localRequest = w.isLocal r) ∧ (pendingEdge.isSome = !w.isLocal r)
  | .rejectRequest r localRequest pendingEdge => c.request = .rejectRequest r ∧
      (localRequest = w.isLocal r) ∧ (pendingEdge.isSome = !w.isLocal r)
  | .unfollow target => c.request = .unfollow target
  | .done _ => True

def Fresh (actor : Text) (d : Db) : Stage → Prop
  | .accept r follow | .batch ((r,some follow) :: _) _ | .reject r follow =>
    StillPending r actor follow d.follows
  | .acceptRequest r localRequest pendingEdge | .rejectRequest r localRequest pendingEdge =>
    (localRequest = true → hasPendingJoin actor r d = true) ∧
      ∀ follow, pendingEdge = some follow → StillPending r actor follow d.follows
  | _ => True

def answered : Stage → List (Text × Bool)
  | .batch _ results | .done results => results
  | _ => []

def Effect (w : Site) (actor requester : Text) (d d' : Db) : Request → Prop
  | .accept _ | .acceptBatch _ => ∃ follow, Turned requester actor follow d.follows d'.follows
  | .reject _ => ∃ follow, Removed requester actor follow d.follows d'.follows
  | .acceptRequest _ =>
    if w.isLocal requester = true then
      Processed actor requester .accepted d d' ∧
        d'.members.any (fun m => m.communityApId = actor && m.actorApId = requester) = true
    else ∃ follow, Turned requester actor follow d.follows d'.follows
  | .rejectRequest _ =>
    if w.isLocal requester = true then Processed actor requester .rejected d d'
    else ∃ follow, Removed requester actor follow d.follows d'.follows
  | .unfollow _ => d'.follows.any (sameFollow actor requester) = false

theorem Sane.read (hs : Sane w c) (hk : Kept w d) (hstage : c.stage = .start) :
    Sane w { c with stage := read i c.actor d c.request } := by
  rw [Sane,hstage] at hs
  obtain ⟨actor,request,stage⟩ := c
  simp only at hs
  cases request with
  | accept r =>
    simp only [FollowDecisions.read]
    cases findPendingFollow r actor d with
    | none => trivial
    | some f =>
      simp only
      split
      · rfl
      · trivial
  | acceptBatch rs => exact ⟨rs,rfl⟩
  | reject r =>
    simp only [FollowDecisions.read]
    cases findPendingFollow r actor d with
    | none => trivial
    | some f => rfl
  | acceptRequest r =>
    simp only [FollowDecisions.read]
    split
    · refine ⟨hs r (.inl rfl),.inl rfl,fun h => ?_⟩
      obtain ⟨j,hj,_,rfl,_⟩ := hasPendingJoin_iff.mp h
      exact hk.joins j hj
    · trivial
  | rejectRequest r =>
    simp only [FollowDecisions.read]
    split
    · refine ⟨hs r (.inr rfl),.inr rfl,fun h => ?_⟩
      obtain ⟨j,hj,_,rfl,_⟩ := hasPendingJoin_iff.mp h
      exact hk.joins j hj
    · trivial
  | unfollow t =>
    simp only [FollowDecisions.read]
    split
    · rfl
    · trivial

theorem Sane.readEdge {r : Text} {localRequest : Bool} (hs : Sane w c) (hk : Kept w d)
    (hstage : c.stage = .edge r localRequest) :
    Sane w { c with stage := readEdge c.actor r localRequest c.request d } := by
  rw [Sane,hstage] at hs
  obtain ⟨hcommunity,hrequest,hlocal⟩ := hs
  simp only [FollowDecisions.readEdge]
  split
  · trivial
  · rename_i hfound
    have hremote : ((findPendingFollow r c.actor d).map (·.activityApId)).isSome = true →
        w.isLocal r = false := by
      intro h
      rw [Option.isSome_map,Option.isSome_iff_exists] at h
      obtain ⟨f,hf⟩ := h
      obtain ⟨g,hg,hp,_⟩ := findPendingFollow_eq_some hf
      obtain ⟨rfl,hactor⟩ := sameFollow_iff.mp (pendingFollow_iff.mp hp).1
      by_contra hl
      rw [Bool.not_eq_false] at hl
      have hnot := hk.remote g hg hl
      rw [hactor,hcommunity] at hnot
      cases hnot
    have hboth : localRequest = w.isLocal r ∧
        ((findPendingFollow r c.actor d).map (·.activityApId)).isSome = !w.isLocal r := by
      cases localRequest with
      | true =>
        rw [hlocal rfl] at hremote ⊢
        refine ⟨rfl,?_⟩
        rw [Bool.not_true,Bool.eq_false_iff]
        exact fun h => by cases hremote h
      | false =>
        simp only [Bool.not_false,Bool.true_and,Option.isNone_iff_eq_none,
          ← Option.not_isSome_iff_eq_none,not_not] at hfound
        rw [hremote hfound]
        exact ⟨rfl,hfound⟩
    rcases hrequest with hrequest | hrequest <;> rw [hrequest]
    · exact ⟨rfl,hboth⟩
    · exact ⟨rfl,hboth⟩

theorem Sane.advance (hs : Sane w c) (hk : Kept w d) :
    Sane w { c with stage := (advance w i c d).2 } := by
  unfold FollowDecisions.advance
  cases hstage : c.stage with
  | start => exact hs.read hk hstage
  | edge r localRequest => exact hs.readEdge hk hstage
  | batch rest results =>
    rw [Sane,hstage] at hs
    cases rest with
    | nil => trivial
    | cons item rest =>
      obtain ⟨r,_ | follow⟩ := item
      · exact hs
      · exact hs
  | _ => trivial

theorem Sane.thrown (hs : Sane w c) : Sane w { c with stage := thrown c.stage } := by
  unfold FollowDecisions.thrown
  cases hstage : c.stage with
  | batch rest results =>
    rw [Sane,hstage] at hs
    cases rest with
    | nil => trivial
    | cons item rest =>
      obtain ⟨r,_ | follow⟩ := item
      · trivial
      · exact hs
  | _ => trivial

theorem acceptRequest_local {actor r : Text} {now : Nat} (hl : w.isLocal r = true) :
    acceptRequest w actor r true none now d =
      process actor r .accepted true (unban actor r (addMember actor r d)) := by
  rw [acceptRequest,if_pos hl]

theorem acceptRequest_remote {actor r : Text} {follow : Option Text} {now : Nat}
    (hl : w.isLocal r = false) : acceptRequest w actor r false (some follow) now d =
      unban actor r (accept actor r follow follow.isSome now d) := by
  rw [acceptRequest,if_neg (by simp [hl])]
  rfl

theorem lawful_happen {e : Event} : Lawful d (happen e d) := by
  cases e with
  | follow f => exact .of_eq rfl rfl fun _ h => h
  | join community actor =>
    simp only [happen]
    split
    · exact .of_eq rfl rfl fun _ h => h
    · exact .of_eq rfl rfl fun _ h => h
  | undo follower following => exact .of_eq rfl rfl fun _ h => h
  | ban community actor => exact .of_eq rfl rfl fun _ h => List.mem_append_left _ h

/-- A step keeps the tables, decides only what is still pending, and answers what it has done. -/
structure Step (w : Site) (c : Call) (d d' : Db) (stage : Stage) : Prop where
  kept : Kept w d'
  lawful : Lawful d d'
  answers : ∃ new, answered stage = answered c.stage ++ new ∧
    ∀ r, (r,true) ∈ new → Effect w c.actor r d d' c.request

theorem Step.of_eq (hk : Kept w d) {stage : Stage} (new : List (Text × Bool))
    (hnew : answered stage = answered c.stage ++ new) (hfalse : ∀ r, (r,true) ∉ new) :
    Step w c d d stage :=
  ⟨hk,.refl d,new,hnew,fun r h => absurd h (hfalse r)⟩

theorem Step.one {d' : Db} {r : Text} {results : List (Text × Bool)} {stage : Stage}
    (hk : Kept w d') (hl : Lawful d d') (hold : answered c.stage = results)
    (hnew : answered stage = results ++ [(r,true)])
    (heffect : Effect w c.actor r d d' c.request) : Step w c d d' stage := by
  refine ⟨hk,hl,[(r,true)],by rw [hold,hnew],fun q hq => ?_⟩
  rw [List.mem_singleton,Prod.mk.injEq] at hq
  rw [hq.1]
  exact heffect

theorem answered_read : answered (read i c.actor d c.request) = [] ∨
    ∃ r, answered (read i c.actor d c.request) = [(r,false)] := by
  cases c.request with
  | accept r =>
    simp only [read]
    cases findPendingFollow r c.actor d with
    | none => exact .inr ⟨r,rfl⟩
    | some f =>
      simp only
      split
      · exact .inl rfl
      · exact .inr ⟨r,rfl⟩
  | acceptBatch rs => exact .inl rfl
  | reject r =>
    simp only [read]
    cases findPendingFollow r c.actor d with
    | none => exact .inr ⟨r,rfl⟩
    | some f => exact .inl rfl
  | acceptRequest r =>
    simp only [read]
    split
    · exact .inl rfl
    · exact .inr ⟨r,rfl⟩
  | rejectRequest r =>
    simp only [read]
    split
    · exact .inl rfl
    · exact .inr ⟨r,rfl⟩
  | unfollow t =>
    simp only [read]
    split
    · exact .inl rfl
    · exact .inr ⟨t,rfl⟩

theorem answered_readEdge {r : Text} {localRequest : Bool} :
    answered (readEdge c.actor r localRequest c.request d) = [] ∨
      answered (readEdge c.actor r localRequest c.request d) = [(r,false)] := by
  simp only [readEdge]
  split
  · exact .inr rfl
  · cases c.request <;> exact .inl rfl

theorem not_true_mem {new : List (Text × Bool)} (h : new = [] ∨ ∃ r, new = [(r,false)])
    (r : Text) : (r,true) ∉ new := by
  obtain rfl | ⟨q,rfl⟩ := h
  · exact List.not_mem_nil
  · simp

theorem step_acceptRequest {r : Text} {localRequest : Bool} {pendingEdge : Option (Option Text)}
    (hk : Kept w d) (hs : Sane w c) (hf : Fresh c.actor d c.stage)
    (hstage : c.stage = .acceptRequest r localRequest pendingEdge) :
    Step w c d (acceptRequest w c.actor r localRequest pendingEdge i.now d)
      (.done [(r,true)]) := by
  rw [Sane,hstage] at hs
  rw [hstage] at hf
  obtain ⟨hrequest,hlocal,hedge⟩ := hs
  obtain ⟨hjoin,hpending⟩ := hf
  have hold : answered c.stage = [] := by rw [hstage]; rfl
  cases hl : w.isLocal r with
  | true =>
    rw [hl] at hlocal hedge
    subst hlocal
    rw [Bool.not_true,Bool.eq_false_iff,ne_eq,Option.not_isSome_iff_eq_none] at hedge
    subst hedge
    rw [acceptRequest_local hl]
    have hj := hjoin rfl
    have hkept : Kept w (unban c.actor r (addMember c.actor r d)) := hk.of_eq rfl rfl rfl
    refine .one (hkept.process _ _) (((Lawful.addMember hj).unban rfl (.inl hj)).process _ _)
      hold rfl ?_
    · rw [hrequest,Effect,if_pos hl]
      refine ⟨processed_process (by decide) hj rfl,?_⟩
      exact Table.any_insertIgnore (by simp) d.members
  | false =>
    rw [hl] at hlocal hedge
    subst hlocal
    obtain ⟨follow,rfl⟩ := Option.isSome_iff_exists.mp hedge
    rw [acceptRequest_remote hl]
    have hp := hpending follow rfl
    have hkept := hk.accept hp follow.isSome i.now
    have hrequested : Requested c.actor r d := by
      obtain ⟨f,hf,hp,_⟩ := hp
      exact .inr (List.any_eq_true.mpr ⟨f,hf,hp⟩)
    refine .one (hkept.of_eq rfl rfl rfl) ((Lawful.accept hp _ _).unban ?_ hrequested) hold rfl ?_
    · exact respond_bans _ _
    · rw [hrequest,Effect,if_neg (by simp [hl])]
      refine ⟨follow,?_⟩
      rw [show (unban c.actor r (accept c.actor r follow follow.isSome i.now d)).follows =
        (flip r c.actor i.now d).follows from respond_follows _ _]
      exact turned_flip i.now hp

theorem step_rejectRequest {r : Text} {localRequest : Bool} {pendingEdge : Option (Option Text)}
    (hk : Kept w d) (hs : Sane w c) (hf : Fresh c.actor d c.stage)
    (hstage : c.stage = .rejectRequest r localRequest pendingEdge) :
    Step w c d (rejectRequest w c.actor r localRequest pendingEdge d) (.done [(r,true)]) := by
  rw [Sane,hstage] at hs
  rw [hstage] at hf
  obtain ⟨hrequest,hlocal,hedge⟩ := hs
  obtain ⟨hjoin,hpending⟩ := hf
  have hold : answered c.stage = [] := by rw [hstage]; rfl
  unfold rejectRequest
  cases hl : w.isLocal r with
  | true =>
    rw [hl] at hlocal hedge
    subst hlocal
    rw [Bool.not_true,Bool.eq_false_iff,ne_eq,Option.not_isSome_iff_eq_none] at hedge
    subst hedge
    refine .one (hk.process _ _) ((Lawful.refl d).process _ _) hold rfl ?_
    rw [hrequest,Effect,if_pos hl]
    exact processed_process (by decide) (hjoin rfl) rfl
  | false =>
    rw [hl] at hlocal hedge
    subst hlocal
    obtain ⟨follow,rfl⟩ := Option.isSome_iff_exists.mp hedge
    have hr := removed_deletePending hk (hpending follow rfl)
    simp only [process,Bool.false_eq_true,if_false]
    refine .one (hk.removed _ hr _) (Lawful.removed _ _ hr) hold rfl ?_
    rw [hrequest,Effect,if_neg (by simp [hl])]
    refine ⟨follow,?_⟩
    rw [respond_follows]
    exact hr

theorem step_advance (hk : Kept w d) (hs : Sane w c) (hf : Fresh c.actor d c.stage) :
    Step w c d (advance w i c d).1 (advance w i c d).2 := by
  unfold advance
  cases hstage : c.stage with
  | start =>
    refine .of_eq hk (answered (read i c.actor d c.request)) (by rw [hstage]; rfl) ?_
    exact not_true_mem answered_read
  | edge r localRequest =>
    refine .of_eq hk (answered (readEdge c.actor r localRequest c.request d))
      (by rw [hstage]; rfl) ?_
    exact not_true_mem (answered_readEdge.imp id fun h => ⟨r,h⟩)
  | accept r follow =>
    rw [hstage] at hf
    rw [Sane,hstage] at hs
    refine .one (hk.accept hf _ _) (Lawful.accept hf _ _) (by rw [hstage]) rfl ?_
    rw [hs]
    refine ⟨follow,?_⟩
    simp only [accept,respond_follows]
    exact turned_flip i.now hf
  | batch rest results =>
    have hold : answered c.stage = results := by rw [hstage]; rfl
    cases rest with
    | nil => exact .of_eq hk [] (by rw [hold]; simp [answered]) (by simp)
    | cons item rest =>
      obtain ⟨r,_ | follow⟩ := item
      · exact .of_eq hk [(r,false)] (by rw [hold]; rfl) (by simp)
      · rw [hstage] at hf
        rw [Sane,hstage] at hs
        obtain ⟨requesters,hrequest⟩ := hs
        refine .one (hk.accept hf _ _) (Lawful.accept hf _ _) hold rfl ?_
        rw [hrequest]
        refine ⟨follow,?_⟩
        simp only [accept,respond_follows]
        exact turned_flip i.now hf
  | reject r follow =>
    rw [hstage] at hf
    rw [Sane,hstage] at hs
    have hr := removed_delete hf
    refine .one (hk.removed _ hr _) (Lawful.removed _ _ hr) (by rw [hstage]) rfl ?_
    rw [hs]
    refine ⟨follow,?_⟩
    simp only [reject,respond_follows]
    exact hr
  | acceptRequest r localRequest pendingEdge =>
    exact step_acceptRequest hk hs (hstage ▸ hf) hstage
  | rejectRequest r localRequest pendingEdge =>
    exact step_rejectRequest hk hs (hstage ▸ hf) hstage
  | unfollow target =>
    rw [Sane,hstage] at hs
    refine .one (hk.delete _) (.of_eq rfl rfl fun _ h => h) (by rw [hstage]) rfl ?_
    rw [hs]
    simp [Effect,deleteFollows,Table.delete,List.any_eq_false]
  | done results =>
    exact .of_eq hk [] (by rw [hstage]; simp [answered]) (by simp)

theorem answered_thrown (h : running c = true) : ∃ new,
    answered (thrown c.stage) = answered c.stage ++ new ∧ ∀ r, (r,true) ∉ new := by
  unfold running at h
  cases hstage : c.stage with
  | batch rest results =>
    cases rest with
    | nil => exact ⟨[],(List.append_nil _).symm,fun r => List.not_mem_nil⟩
    | cons item rest =>
      obtain ⟨r,_ | follow⟩ := item
      · exact ⟨[],(List.append_nil _).symm,fun r => List.not_mem_nil⟩
      · exact ⟨[(r,false)],rfl,fun r => by simp⟩
  | done results =>
    rw [hstage] at h
    cases h
  | _ => exact ⟨[],rfl,fun r => List.not_mem_nil⟩

theorem step_work (hr : running c = true) (hk : Kept w d) (hs : Sane w c)
    (hf : i.fails = false → Fresh c.actor d c.stage) :
    Step w c d (work w i d c).1 (work w i d c).2.stage ∧ Sane w (work w i d c).2 := by
  unfold work
  split
  · obtain ⟨new,hnew,hfalse⟩ := answered_thrown hr
    exact ⟨.of_eq hk new hnew hfalse,hs.thrown⟩
  · rename_i hnot
    exact ⟨step_advance hk hs (hf (Bool.eq_false_iff.mpr hnot)),hs.advance hk⟩

end requests

section runs

variable {w : Site} {s₀ s t : Pool} {l : Threads.Label Answer Event}

def Meets (s : Pool) : Threads.Label Answer Event → Prop
  | .act p i => i.fails = false → Fresh (s.thread p).actor s.store (s.thread p).stage
  | .env _ => True

/-- Tables in order, and calls that have yet to read; a community's are made by its managers. -/
structure Start (w : Site) (s : Pool) : Prop where
  kept : Kept w s.store
  start : ∀ p, (s.thread p).stage = .start
  managed : ∀ p r,
    (s.thread p).request = .acceptRequest r ∨ (s.thread p).request = .rejectRequest r →
      w.isCommunity (s.thread p).actor = true

structure Decided (w : Site) (s t : Pool) : Prop where
  lawful : Lawful s.store t.store
  answers : ∀ p, ∃ new, answered (t.thread p).stage = answered (s.thread p).stage ++ new ∧
    ∀ r, (r,true) ∈ new →
      Effect w (s.thread p).actor r s.store t.store (s.thread p).request

structure Holds (w : Site) (s : Pool) : Prop where
  kept : Kept w s.store
  sane : ∀ p, Sane w (s.thread p)

theorem Start.holds (h : Start w s) : Holds w s where
  kept := h.kept
  sane p := by
    rw [Sane,h.start p]
    exact h.managed p

theorem Holds.step (h : Holds w s) (hl : (machine w).step l s = some t) (hm : Meets s l) :
    Holds w t ∧ Decided w s t := by
  cases l with
  | act p i =>
    obtain ⟨hr,rfl⟩ := Threads.guarded_step_act.mp hl
    obtain ⟨hstep,hsane⟩ := step_work hr h.kept (h.sane p) hm
    refine ⟨⟨hstep.kept,fun q => ?_⟩,hstep.lawful,fun q => ?_⟩
    · by_cases hq : q = p
      · subst hq
        simpa using hsane
      · simpa [Function.update_of_ne hq] using h.sane q
    · by_cases hq : q = p
      · subst hq
        simpa using hstep.answers
      · exact ⟨[],by simp [Function.update_of_ne hq],fun r hmem => by cases hmem⟩
  | env e =>
    obtain ⟨he,rfl⟩ := Threads.guarded_step_env.mp hl
    refine ⟨⟨h.kept.happen he,h.sane⟩,lawful_happen,fun q => ?_⟩
    exact ⟨[],(List.append_nil _).symm,fun r hmem => by cases hmem⟩

/-- Every batch commits while the request it decides is pending as it was read: then no Follow is
answered twice, and each step records, lets in and answers only what it has itself decided. -/
theorem follow_decided_once (hs : Start w s₀)
    (hr : (machine w).ReachesBy (fun s l _ => Meets s l) s₀ s) :
    (∀ id, s.store.responses.countP (fun r => r.follow = some id) ≤ 1) ∧
      ∀ l t, (machine w).step l s = some t → Meets s l → Decided w s t := by
  have h : Holds w s := by
    refine hr.invariant (P := Holds w) hs.holds ?_
    intro a l b ha hl hm
    exact (ha.step hl hm).1
  exact ⟨h.kept.once,fun l t hl hm => (h.step hl hm).2⟩

end runs

section racing

def site : Site where
  isLocal a := a = ['a']
  isSafeRemoteUrl _ := true
  isCommunity _ := false

/-- Two devices of an actor with one pending Follow: one accepts it, the other one rejects it. -/
def racing : Pool where
  store := ⟨[⟨['r'],['a'],.pending,some ['f'],none⟩],[],[],[],[]⟩
  thread p := ⟨['a'],if p = 0 then .accept ['r'] else .reject ['r'],.start⟩

theorem start_racing : Start site racing where
  kept := by
    refine ⟨?_,?_,?_,?_,?_,?_⟩
    · intro f hf g hg _ _
      rw [List.mem_singleton.mp hf,List.mem_singleton.mp hg]
    · intro f hf g hg _ _ _
      rw [List.mem_singleton.mp hf,List.mem_singleton.mp hg]
    · intro f _ _ _ _ r hr
      cases hr
    · intro id
      exact Nat.zero_le _
    · intro f _ _
      rfl
    · intro j hj
      cases hj
  start _ := rfl
  managed p r h := by
    by_cases hp : p = 0 <;> simp [racing,hp] at h

def read0 : Pool :=
  ⟨racing.store,Function.update racing.thread 0 ⟨['a'],.accept ['r'],.accept ['r'] (some ['f'])⟩⟩

def accepted0 : Pool :=
  ⟨⟨[⟨['r'],['a'],.accepted,some ['f'],some 0⟩],[],[],[],[⟨.accept,['a'],['r'],some ['f']⟩]⟩,
    Function.update read0.thread 0 ⟨['a'],.accept ['r'],.done [(['r'],true)]⟩⟩

theorem meets_read0 : Meets read0 (.act 0 {}) :=
  fun _ => ⟨_,List.mem_cons_self,rfl,rfl⟩

theorem follow_decided_once_racing :
    accepted0.store.responses.countP (fun r => r.follow = some ['f']) ≤ 1 ∧
      Decided site read0 accepted0 := by
  have hread : (machine site).ReachesBy (fun s l _ => Meets s l) racing read0 :=
    (Machine.ReachesBy.refl racing).snoc (l := .act 0 {}) rfl fun _ => trivial
  have haccepted : (machine site).ReachesBy (fun s l _ => Meets s l) racing accepted0 :=
    hread.snoc (l := .act 0 {}) rfl meets_read0
  exact ⟨(follow_decided_once start_racing haccepted).1 ['f'],
    (follow_decided_once start_racing hread).2 (.act 0 {}) accepted0 rfl meets_read0⟩

/-- Both devices read the pending edge; the Reject of the second is recorded after the Accept of
the first. -/
theorem accept_then_reject : ¬∀ (w : Site) (s₀ s : Pool), Start w s₀ →
    (machine w).Reaches s₀ s →
      ∀ id, s.store.responses.countP (fun r => r.follow = some id) ≤ 1 := by
  intro h
  have hrun : ((machine site).run [.act 0 {},.act 1 {},.act 0 {},.act 1 {}] racing).map
      (·.store) = some ⟨[],[],[],[],[⟨.accept,['a'],['r'],some ['f']⟩,
        ⟨.reject,['a'],['r'],some ['f']⟩]⟩ := rfl
  obtain ⟨s,hs,hstore⟩ := Option.map_eq_some_iff.mp hrun
  have hone := h site racing s start_racing (.of_run hs) ['f']
  rw [hstore] at hone
  revert hone
  decide

end racing

end Yurucommu.FollowDecisions
