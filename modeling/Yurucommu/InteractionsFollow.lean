import Yurucommu.InteractionsCuts

/-!
The cuts of a Follow, of an actor here and of a group. `handleFollow` asks for the edge before it
does anything, so what it still owes when it is cut is never written. `handleGroupFollow` looks for
its response and its request one by one, and a retry goes on where the cut was.
-/

set_option autoImplicit false

namespace Yurucommu.Interactions

open Whatwg (Text)
open Inbox (Processed Outcome)

variable {w : Site} {a : Activity}

section reads

variable {b d e : Db} {recipient : Text} {status : FollowStatus} {n : Nat}

theorem readFollow_cases (w : Site) (a : Activity) (recipient : Text) (d : Db) :
    (∃ state, readFollow w a recipient d = .commit state) ∨
      ∃ status, readFollow w a recipient d = .followEdge recipient status ∧
        (d.actors.find? fun r => r.apId = recipient).isSome = true := by
  unfold readFollow
  split
  · exact .inl ⟨_,rfl⟩
  · rename_i row hrow
    split
    · exact .inl ⟨_,rfl⟩
    · split
      · exact .inl ⟨_,rfl⟩
      · exact .inr ⟨_,rfl,by rw [hrow]; rfl⟩

theorem followEdge_follows (a : Activity) (recipient : Text) (status : FollowStatus) (n : Nat)
    (d : Db) : (followEdge a recipient status n d).follows.any (sameFollow a.actor recipient) =
      true := by
  cases status <;> exact Table.any_insertIgnore (by simp [sameFollow]) _

theorem followEdge_actors (a : Activity) (recipient : Text) (status : FollowStatus) (n : Nat)
    (d : Db) (key : Text) :
    ((followEdge a recipient status n d).actors.find? fun r => r.apId = key).isSome =
      (d.actors.find? fun r => r.apId = key).isSome := by
  rw [List.isSome_find?,List.isSome_find?]
  cases status with
  | accepted =>
    exact Table.any_update _ (fun r => r.apId = key)
      (fun r : ActorRow => { r with followerCount := r.followerCount + 1 }) (fun _ => rfl) _
  | _ => rfl

theorem findFollow_of_any {follower following : Text}
    (h : d.follows.any (sameFollow follower following) = true) :
    (findFollowByFollowerIdentity d.follows follower following).isSome = true := by
  have hsome : (d.follows.find? (sameFollow follower following)).isSome = true := by
    rwa [List.isSome_find?]
  obtain ⟨row,hrow⟩ := Option.isSome_iff_exists.mp hsome
  unfold findFollowByFollowerIdentity
  unfold sameFollow at hrow
  rw [hrow]
  rfl

theorem readFollow_followEdge (h : readFollow w a recipient b = .followEdge recipient status) :
    readFollow w a recipient (followEdge a recipient status n b) = processedDone := by
  have hsome : (b.actors.find? fun r => r.apId = recipient).isSome = true := by
    rcases readFollow_cases w a recipient b with ⟨state,hc⟩ | ⟨_,_,hsome⟩
    · rw [hc] at h
      cases h
    · exact hsome
  rw [← followEdge_actors a recipient status n b] at hsome
  obtain ⟨row,hrow⟩ := Option.isSome_iff_exists.mp hsome
  have hfound := findFollow_of_any (followEdge_follows a recipient status n b)
  unfold readFollow
  simp only [hrow,hfound,if_true,ite_self]

end reads

section follow

variable {p : Nat} {s₀ : Store} {b d : Db} {recipient : Text} {n l : Nat}

structure Followed (w : Site) (a : Activity) (recipient : Text) (b d : Db)
    (status : FollowStatus) : Prop where
  read : readFollow w a recipient b = .followEdge recipient status
  again : readFollow w a recipient d = processedDone

def FollowKept (w : Site) (a : Activity) (s₀ : Store) (recipient : Text) (p : Nat) (s : Store) :
    Stage → Prop
  | .follow r => r = recipient ∧ s.db = begin_ a s₀.db ∧ Rewinds w p a s₀ s.db s.now
  | .followEdge r status => r = recipient ∧ s.db = begin_ a s₀.db ∧
    Rewinds w p a s₀ s.db s.now ∧ readFollow w a recipient (begin_ a s₀.db) = .followEdge r status
  | .upsertActivity _ _ r respond | .insertInbox r respond => r = recipient ∧ ∃ status,
    Followed w a recipient (begin_ a s₀.db) s.db status ∧ respond = responds w a status ∧
      apIds s.db = apIds (begin_ a s₀.db)
  | .insertResponse _ _ _ => ∃ status,
    Followed w a recipient (begin_ a s₀.db) s.db status ∧ responds w a status = true ∧
      s.db.inbox.any (sameInbox recipient a.activityId) = true ∧
        apIds s.db = apIds (begin_ a s₀.db)
  | .isBlocked id | .insertRequest id => ∃ status,
    Followed w a recipient (begin_ a s₀.db) s.db status ∧ responds w a status = true ∧
      s.db.inbox.any (sameInbox recipient a.activityId) = true ∧
        apIds s.db = apIds (begin_ a s₀.db) ++ [id] ∧
          s.db.requests.any (fun r => r.activityApId = id) = false
  | .readDue id | .markQueued id => ∃ status,
    Followed w a recipient (begin_ a s₀.db) s.db status ∧ responds w a status = true ∧
      s.db.inbox.any (sameInbox recipient a.activityId) = true ∧
        apIds s.db = apIds (begin_ a s₀.db) ++ [id] ∧ w.queueAvailable = true ∧
          ∃ rows k, rows.any (fun r : RequestRow => r.activityApId = id) = false ∧ k ≤ s.now ∧
            s.db.requests = rows ++ [⟨id,a.actor,Resolution.newRow k⟩]
  | .commit state => Rewinds w p a s₀ s.db s.now ∧
    (readFollow w a recipient (begin_ a s₀.db) = .commit state ∨ ∃ status,
      Followed w a recipient (begin_ a s₀.db) s.db status ∧
        s.db.inbox.any (sameInbox recipient a.activityId) = true ∧
          (responds w a status = true → ∃ id, apIds s.db = apIds (begin_ a s₀.db) ++ [id] ∧
            requested w a id s.db = true))
  | _ => False

theorem Followed.passes {status : FollowStatus} (hk : a.kind = .follow recipient)
    (h : Followed w a recipient b d status) (hb : Begun a d) (n : Nat) :
    Passes w a d n processedDone ∧
      ∀ q l m, n ≤ m → ∃ t, Completes w q a (⟨d,held q l,m⟩,a.entry) t := by
  have hentry : a.entry = .follow recipient := by
    unfold Activity.entry
    rw [hk]
  refine passes_read (by rw [hentry]; rfl) ?_ ?_ hb.1
  · intro i hi
    rw [hentry]
    exact hi
  · intro i k
    rw [hentry]
    simp only [handle,h.again]

theorem Followed.rewinds {status : FollowStatus} (hk : a.kind = .follow recipient)
    (h : Followed w a recipient b d status) (hb : Begun a d)
    (hr : Reached w p a s₀ (⟨d,held p l,n⟩,processedDone)) : Rewinds w p a s₀ d n :=
  rewinds_of_reached hb rfl (le_refl n) hr (h.passes hk hb n).1

theorem apIds_upsert {row : ActivityRow} (h : d.activities.any (sameActivity row.apId) = false) :
    apIds (upsertActivity row d) = apIds d ++ [row.apId] := by
  unfold apIds upsertActivity
  simp [Table.insertIgnore_of_not_any row h]

theorem fresh_iff {id : Text} : fresh id d = true ↔
    d.activities.any (sameActivity id) = false ∧
      d.requests.any (fun r => r.activityApId = id) = false := by
  simp [fresh]

theorem insertRequest_new {id actor : Text} {n : Nat}
    (h : d.requests.any (fun r => r.activityApId = id) = false) :
    (insertRequest id actor n d).requests = d.requests ++ [⟨id,actor,Resolution.newRow n⟩] := by
  have hnone : d.requests.any (sameRequest id actor) = false := by
    rw [List.any_eq_false] at h ⊢
    intro r hr hsame
    refine h r hr ?_
    simp only [sameRequest,Bool.and_eq_true] at hsame
    exact hsame.1
  exact Table.insertIgnore_of_not_any _ hnone

theorem not_requested_new {id : Text} (h : d.requests.any (fun r => r.activityApId = id) = false) :
    requested w a id d = false := by
  unfold requested
  rw [List.any_eq_false] at h ⊢
  intro r hr hsame
  refine h r hr ?_
  simp only [sameRequest,Bool.and_eq_true] at hsame
  exact hsame.1.1

theorem not_requested_waiting {id : Text} {rows : List RequestRow} {k : Nat}
    (hq : w.queueAvailable = true) (h : rows.any (fun r => r.activityApId = id) = false)
    (hrows : d.requests = rows ++ [⟨id,a.actor,Resolution.newRow k⟩]) :
    requested w a id d = false := by
  unfold requested
  rw [hrows,List.any_append,Bool.or_eq_false_iff]
  constructor
  · rw [List.any_eq_false] at h ⊢
    intro r hr hsame
    refine h r hr ?_
    simp only [sameRequest,Bool.and_eq_true] at hsame
    exact hsame.1.1
  · simp [hq,Resolution.waiting,Resolution.newRow]

theorem followKept_keeps (hk : a.kind = .follow recipient) (p : Nat) :
    Keeps w p a s₀ (FollowKept w a s₀ recipient p) := by
  have hentry : a.entry = .follow recipient := by
    unfold Activity.entry
    rw [hk]
  constructor
  · intro n hn hb hr
    rw [hentry]
    refine ⟨rfl,rfl,rewinds_of_reached hb ?_ (le_refl n) hr (passes_entry _ n)⟩
    rw [hentry]
    rfl
  · intro i d l m n st hblocked hw hb hH hn ht hr
    have hb' := begun_working (w := w) (i := i) (n := n) hb hw
    cases st with
    | follow r =>
      obtain ⟨rfl,hdb,hrew⟩ := hH
      simp only at hdb
      have hlater := hrew.later hn
      subst hdb
      simp only [handle] at hr ⊢
      rcases readFollow_cases w a r (begin_ a s₀.db) with ⟨state,hc⟩ | ⟨status,hc,_⟩
      · rw [hc]
        exact ⟨hlater,.inl hc⟩
      · rw [hc]
        exact ⟨rfl,rfl,hlater,hc⟩
    | followEdge r status =>
      obtain ⟨rfl,hdb,_,hread⟩ := hH
      simp only at hdb
      subst hdb
      refine ⟨rfl,status,⟨hread,readFollow_followEdge hread⟩,rfl,?_⟩
      cases status <;> rfl
    | upsertActivity type o r respond =>
      obtain ⟨rfl,status,hfollowed,hrespond,hids⟩ := hH
      have hup : upsertActivity ⟨a.activityId,type,a.actor,some o,none,.unprocessed⟩ d = d :=
        upsertActivity_of_any hb.1
      simp only [handle,hup]
      exact ⟨rfl,status,hfollowed,hrespond,hids⟩
    | insertInbox r respond =>
      obtain ⟨rfl,status,hfollowed,hrespond,hids⟩ := hH
      have hfollowed' : Followed w a r (begin_ a s₀.db) (notify r a.activityId n d) status :=
        ⟨hfollowed.read,hfollowed.again⟩
      have hnotified := any_notify r a.activityId n d
      cases respond with
      | true => exact ⟨status,hfollowed',hrespond.symm,hnotified,hids⟩
      | false =>
        refine ⟨hfollowed'.rewinds hk hb' hr,.inr ⟨status,hfollowed',hnotified,?_⟩⟩
        intro htrue
        rw [htrue] at hrespond
        cases hrespond
    | insertResponse type actor o =>
      obtain ⟨status,hfollowed,hresponds,hnotified,hids⟩ := hH
      simp only [throws,Bool.or_eq_false_iff,Bool.not_eq_false'] at ht
      obtain ⟨hnew,hnone⟩ := fresh_iff.mp ht.2
      refine ⟨status,⟨hfollowed.read,hfollowed.again⟩,hresponds,hnotified,?_,hnone⟩
      simp only [handle]
      rw [apIds_upsert hnew]
      exact congrArg (· ++ [i.id]) hids
    | isBlocked id =>
      obtain ⟨status,hfollowed,hresponds,hnotified,hids,hnone⟩ := hH
      simp only [handle,hblocked,Bool.false_eq_true,if_false]
      exact ⟨status,hfollowed,hresponds,hnotified,hids,hnone⟩
    | insertRequest id =>
      obtain ⟨status,hfollowed,hresponds,hnotified,hids,hnone⟩ := hH
      have hfollowed' : Followed w a recipient (begin_ a s₀.db) (insertRequest id a.actor n d)
          status := ⟨hfollowed.read,hfollowed.again⟩
      cases hq : w.queueAvailable with
      | true =>
        simp only [handle,hq,if_true]
        exact ⟨status,hfollowed',hresponds,hnotified,hids,hq,d.requests,n,hnone,le_refl n,
          insertRequest_new hnone⟩
      | false =>
        simp only [handle,hq,Bool.false_eq_true,if_false] at hr ⊢
        refine ⟨hfollowed'.rewinds hk hb' hr,.inr ⟨status,hfollowed',hnotified,?_⟩⟩
        intro _
        exact ⟨id,hids,requested_insertRequest hq id n d⟩
    | readDue id =>
      obtain ⟨status,hfollowed,hresponds,hnotified,hids,hq,rows,k,hnone,hk',hrows⟩ := hH
      have hdue : requestDue id a.actor n d = true := by
        simp only at hrows hk'
        unfold requestDue
        rw [hrows,List.any_append]
        simp only [List.any_cons,List.any_nil,sameRequest,Resolution.due,Resolution.waiting,
          Resolution.newRow]
        simp [le_trans hk' hn]
      simp only [handle,hdue,if_true]
      exact ⟨status,hfollowed,hresponds,hnotified,hids,hq,rows,k,hnone,le_trans hk' hn,hrows⟩
    | markQueued id =>
      obtain ⟨status,hfollowed,hresponds,hnotified,hids,hq,rows,k,hnone,hk',hrows⟩ := hH
      have hfollowed' : Followed w a recipient (begin_ a s₀.db) (markQueued id a.actor n d)
          status := ⟨hfollowed.read,hfollowed.again⟩
      refine ⟨hfollowed'.rewinds hk hb' hr,.inr ⟨status,hfollowed',hnotified,?_⟩⟩
      intro _
      refine ⟨id,hids,?_⟩
      simp only at hrows
      unfold requested
      simp only [handle,markQueued,Table.update,hrows,List.map_append,List.any_append]
      simp [sameRequest,Resolution.waiting,Resolution.newRow,Resolution.markQueued]
    | gate | insertActivity | insertClaim | readProcessed | claim => cases hw
    | retain id | commit state | clear | done | thrown at_ => cases hw
    | _ => exact hH.elim

theorem followKept_rewinds (hk : a.kind = .follow recipient) {st : Stage}
    (h : FollowKept w a s₀ recipient p ⟨d,held p l,n⟩ st) (hb : Begun a d)
    (hr : Reached w p a s₀ (⟨d,held p l,n⟩,st)) (howes : owes w a d st = false) :
    Rewinds w p a s₀ d n := by
  cases st with
  | follow r => exact h.2.2
  | followEdge r status => exact h.2.2.1
  | upsertActivity type o r respond =>
    obtain ⟨rfl,status,hfollowed,_⟩ := h
    simp only [owes,Bool.or_eq_false_iff,Bool.not_eq_false'] at howes
    obtain ⟨rfl,hi⟩ := howes
    exact hfollowed.rewinds hk hb (reached_upserted hb.1 hi hr)
  | insertInbox r respond =>
    obtain ⟨rfl,status,hfollowed,_⟩ := h
    simp only [owes,Bool.or_eq_false_iff,Bool.not_eq_false'] at howes
    obtain ⟨rfl,hi⟩ := howes
    exact hfollowed.rewinds hk hb (reached_notified hi hr)
  | insertResponse type actor o => cases howes
  | isBlocked id | insertRequest id =>
    obtain ⟨_,_,_,_,_,hnone⟩ := h
    have hnot := not_requested_new (w := w) (a := a) hnone
    simp only at hnot
    simp [owes,hnot] at howes
  | readDue id | markQueued id =>
    obtain ⟨_,_,_,_,_,hq,rows,k,hnone,_,hrows⟩ := h
    have hnot := not_requested_waiting (a := a) hq hnone hrows
    simp [owes,hnot] at howes
  | commit state => exact h.1
  | _ => exact h.elim

theorem Followed.stuck {status : FollowStatus} (hk : a.kind = .follow recipient)
    (h : Followed w a recipient (begin_ a s₀.db) d status) (hb : Begun a d)
    (hno : ∀ e, SameRows e d → e.inbox.any (sameInbox recipient a.activityId) = true →
      (responds w a status = true → ∃ id, apIds e = apIds (begin_ a s₀.db) ++ [id] ∧
        requested w a id e = true) → False) :
    Stuck w a (FollowKept w a s₀ recipient) d n := by
  obtain ⟨hpasses,hcompletes⟩ := h.passes hk hb n
  refine ⟨hpasses,hcompletes,?_⟩
  rintro r s state _ ⟨_,hread | ⟨status',hfollowed,hnotified,hrequested⟩⟩ heq
  · rw [h.read] at hread
    cases hread
  · have hstatus := hfollowed.read
    rw [h.read] at hstatus
    cases hstatus
    exact hno s.db (sameRows heq) hnotified hrequested

theorem followKept_stuck (hk : a.kind = .follow recipient) {st : Stage}
    (h : FollowKept w a s₀ recipient p ⟨d,held p l,n⟩ st) (hb : Begun a d)
    (howes : owes w a d st = true) : Stuck w a (FollowKept w a s₀ recipient) d n := by
  cases st with
  | upsertActivity type o r respond | insertInbox r respond =>
    obtain ⟨rfl,status,hfollowed,hrespond,hids⟩ := h
    refine hfollowed.stuck hk hb fun e hsame hnotified hrequested => ?_
    simp only [owes,Bool.or_eq_true,Bool.not_eq_true'] at howes
    rcases howes with htrue | hi
    · obtain ⟨id,hid,_⟩ := hrequested (hrespond.symm.trans htrue)
      have hlength := congrArg List.length (hsame.apIds.symm.trans hid)
      simp only at hids
      rw [hids] at hlength
      simp at hlength
    · rw [hsame.inbox,hi] at hnotified
      cases hnotified
  | insertResponse type actor o =>
    obtain ⟨status,hfollowed,hresponds,_,hids⟩ := h
    refine hfollowed.stuck hk hb fun e hsame _ hrequested => ?_
    obtain ⟨id,hid,_⟩ := hrequested hresponds
    have hlength := congrArg List.length (hsame.apIds.symm.trans hid)
    simp only at hids
    rw [hids] at hlength
    simp at hlength
  | isBlocked id | insertRequest id | readDue id | markQueued id =>
    obtain ⟨status,hfollowed,hresponds,_,hids,_⟩ := h
    refine hfollowed.stuck hk hb fun e hsame _ hrequested => ?_
    obtain ⟨id',hid,hreq⟩ := hrequested hresponds
    have hlast := hsame.apIds.symm.trans hid
    simp only at hids
    rw [hids] at hlast
    have heq : id = id' := by simpa using hlast
    subst heq
    unfold requested at hreq
    rw [hsame.requests] at hreq
    simp only [owes,requested,hreq] at howes
    cases howes
  | follow r | followEdge r status | commit state => cases howes
  | _ => exact h.elim

theorem followKept_cuts (hk : a.kind = .follow recipient) :
    Cuts w a s₀ (FollowKept w a s₀ recipient) := by
  have hkind : ∀ group joinPolicy, a.kind ≠ .groupFollow group joinPolicy := by
    intro group joinPolicy heq
    rw [hk] at heq
    cases heq
  refine ⟨followKept_keeps hk,?_,?_⟩
  · intro p d l n st hH hb hr hstranded
    refine followKept_rewinds hk hH hb hr ?_
    rw [← Bool.not_eq_true]
    exact fun howes => hstranded ⟨hkind,howes⟩
  · rintro p d l n st hH hb ⟨_,howes⟩
    exact followKept_stuck hk hH hb howes

end follow

section group

variable {p : Nat} {s₀ : Store} {d e : Db} {group : Text} {joinPolicy : JoinPolicy} {n l : Nat}
  {status : FollowStatus} {id : Text}

theorem readGroupFollow_cases (w : Site) (a : Activity) (group : Text) (joinPolicy : JoinPolicy)
    (d : Db) : (∃ status, readGroupFollow w a group joinPolicy d = .groupResponse group status) ∨
      ∃ status, readGroupFollow w a group joinPolicy d = .groupEdge group status ∧
        findFollowByFollowerIdentity d.follows a.actor group = none := by
  unfold readGroupFollow
  split
  · exact .inl ⟨_,rfl⟩
  · rename_i hnone
    split
    · exact .inl ⟨_,rfl⟩
    · exact .inr ⟨_,rfl,hnone⟩

theorem find_insertFollow {row : FollowRow}
    (h : findFollowByFollowerIdentity d.follows row.followerApId row.followingApId = none) :
    findFollowByFollowerIdentity (insertFollow row d).follows row.followerApId row.followingApId =
      some row := by
  have hnone : d.follows.find? (sameFollow row.followerApId row.followingApId) = none := by
    unfold findFollowByFollowerIdentity at h
    rw [Option.orElse_eq_none] at h
    exact h.1
  have hany : d.follows.any (sameFollow row.followerApId row.followingApId) = false := by
    rw [← List.isSome_find?,hnone]
    rfl
  unfold insertFollow
  simp only [Table.insertIgnore_of_not_any row hany]
  unfold findFollowByFollowerIdentity
  unfold sameFollow at hnone
  rw [List.find?_append,hnone]
  simp

theorem readGroupFollow_insertFollow (row : FollowRow) (hf : row.followerApId = a.actor)
    (hg : row.followingApId = group) (hs : row.status = status)
    (h : readGroupFollow w a group joinPolicy d = .groupEdge group status) :
    readGroupFollow w a group joinPolicy (insertFollow row d) = .groupResponse group status := by
  subst hg hs
  have hnone : findFollowByFollowerIdentity d.follows a.actor row.followingApId = none := by
    rcases readGroupFollow_cases w a row.followingApId joinPolicy d with ⟨_,hc⟩ | ⟨_,_,hnone⟩
    · rw [hc] at h
      cases h
    · exact hnone
  rw [← hf] at hnone
  have hfound := find_insertFollow hnone
  unfold readGroupFollow
  rw [← hf,hfound]

theorem readGroupResponse_cases (w : Site) (a : Activity) (group : Text) (status : FollowStatus)
    (d : Db) : readGroupResponse w a group status d = processedDone ∨
      (∃ id, readGroupResponse w a group status d = .isBlocked id) ∨
        readGroupResponse w a group status d =
          .insertResponse (groupResponseType status) group a.sourceActivityId ∧
            findResponse (groupResponseType status) group a.sourceActivityId d = none := by
  unfold readGroupResponse
  split
  · exact .inl rfl
  · split
    · exact .inl rfl
    · split
      · exact .inr (.inl ⟨_,rfl⟩)
      · rename_i hnone
        exact .inr (.inr ⟨rfl,hnone⟩)

theorem readGroupResponse_upsert {type : ActivityType} {actor objectId : Text}
    (h : readGroupResponse w a group status d = .insertResponse type actor objectId)
    (hnew : d.activities.any (sameActivity id) = false) :
    readGroupResponse w a group status
      (upsertActivity ⟨id,type,actor,some objectId,some .outbound,.unprocessed⟩ d) =
        .isBlocked id := by
  have hcases := readGroupResponse_cases w a group status d
  rw [h] at hcases
  obtain hc | ⟨_,hc⟩ | ⟨hc,hnone⟩ := hcases
  · cases hc
  · cases hc
  cases hc
  have hfound : findResponse (groupResponseType status) group a.sourceActivityId
      (upsertActivity ⟨id,groupResponseType status,group,some a.sourceActivityId,some .outbound,
        .unprocessed⟩ d) = some ⟨id,groupResponseType status,group,some a.sourceActivityId,
          some .outbound,.unprocessed⟩ := by
    have hrows := Table.insertIgnore_of_not_any (⟨id,groupResponseType status,group,
      some a.sourceActivityId,some .outbound,.unprocessed⟩ : ActivityRow) hnew
    unfold findResponse at hnone ⊢
    unfold upsertActivity
    simp only [hrows]
    rw [List.find?_append,hnone]
    simp
  unfold readGroupResponse at h ⊢
  rw [hfound]
  split at h
  · cases h
  · split at h
    · cases h
    · rename_i hlocal hpending
      simp [hlocal,hpending]

structure Answered (w : Site) (a : Activity) (group : Text) (joinPolicy : JoinPolicy) (d : Db)
    (id : Text) (status : FollowStatus) : Prop where
  follow : readGroupFollow w a group joinPolicy d = .groupResponse group status
  response : readGroupResponse w a group status d = .isBlocked id

def GroupKept (w : Site) (a : Activity) (s₀ : Store) (group : Text) (joinPolicy : JoinPolicy)
    (p : Nat) (s : Store) (st : Stage) : Prop :=
  Rewinds w p a s₀ s.db s.now ∧ match st with
    | .groupFollow g j => g = group ∧ j = joinPolicy
    | .groupEdge g status => g = group ∧
      readGroupFollow w a group joinPolicy s.db = .groupEdge group status
    | .groupResponse g status => g = group ∧
      readGroupFollow w a group joinPolicy s.db = .groupResponse group status
    | .insertResponse type actor objectId => ∃ status,
      readGroupFollow w a group joinPolicy s.db = .groupResponse group status ∧
        readGroupResponse w a group status s.db = .insertResponse type actor objectId
    | .isBlocked id | .insertRequest id => ∃ status, Answered w a group joinPolicy s.db id status
    | .readDue id | .markQueued id => w.queueAvailable = true ∧
      s.db.requests.any (sameRequest id a.actor) = true ∧
        ∃ status, Answered w a group joinPolicy s.db id status
    | .commit _ => True
    | _ => False

theorem entry_group (hk : a.kind = .groupFollow group joinPolicy) :
    a.entry = .groupFollow group joinPolicy := by
  unfold Activity.entry
  rw [hk]

theorem passes_groupResponse (hk : a.kind = .groupFollow group joinPolicy)
    (h : readGroupFollow w a group joinPolicy d = .groupResponse group status) (n : Nat) :
    Passes w a d n (.groupResponse group status) := by
  have hentry := entry_group hk
  refine (passes_entry d n).step (by rw [hentry]; rfl) fun i k _ _ => ?_
  rw [hentry]
  simp only [handle,h]

theorem Answered.passes (hk : a.kind = .groupFollow group joinPolicy)
    (h : Answered w a group joinPolicy d id status) (n : Nat) :
    Passes w a d n (.isBlocked id) := by
  refine (passes_groupResponse hk h.follow n).step rfl fun i k _ _ => ?_
  simp only [handle,h.response]

theorem Answered.passes_requested (hk : a.kind = .groupFollow group joinPolicy)
    (h : Answered w a group joinPolicy d id status)
    (hb : isActorBlockedStrict w a.actor = false)
    (hr : d.requests.any (sameRequest id a.actor) = true) (n : Nat) :
    Passes w a d n (if w.queueAvailable then .readDue id else processedDone) := by
  have hrequest : Passes w a d n (.insertRequest id) := by
    refine (h.passes hk n).step rfl fun i k _ _ => ?_
    simp only [handle,hb,Bool.false_eq_true,if_false]
  refine hrequest.step rfl fun i k _ _ => ?_
  simp only [handle,insertRequest_of_any hr]

theorem markQueued_markQueued (id actor : Text) (n m : Nat) (d : Db) :
    markQueued id actor m (markQueued id actor n d) = markQueued id actor n d := by
  have hnone : ∀ r ∈ (markQueued id actor n d).requests,
      (sameRequest id actor r && Resolution.waiting r.row) = false := by
    intro r hr
    simp only [markQueued,Table.update,List.mem_map] at hr
    obtain ⟨r₀,_,rfl⟩ := hr
    split
    · simp [Resolution.waiting,Resolution.markQueued]
    · rename_i hcond
      rwa [Bool.not_eq_true] at hcond
  have hrows := Table.update_of_none
    (fun r : RequestRow => { r with row := Resolution.markQueued m r.row }) hnone
  unfold markQueued at hrows ⊢
  simp only [hrows]

theorem passes_queued (h : Passes w a d n (.readDue id))
    (hq : ∀ m, markQueued id a.actor m d = d) : Passes w a d n processedDone := by
  intro q l m t hm hc
  obtain ⟨k,hk,hc⟩ := h q l m t hm hc
  obtain ⟨i,j,hj,_,hc⟩ := (completes_working rfl).mp hc
  simp only [handle] at hc
  cases hdue : requestDue id a.actor j d with
  | false =>
    simp only [hdue,Bool.false_eq_true,if_false] at hc
    exact ⟨j,le_trans hk hj,hc⟩
  | true =>
    simp only [hdue,if_true] at hc
    obtain ⟨i',j',hj',_,hc⟩ := (completes_working rfl).mp hc
    simp only [handle,hq] at hc
    exact ⟨j',le_trans hk (le_trans hj hj'),hc⟩

theorem groupKept_keeps (hk : a.kind = .groupFollow group joinPolicy) (p : Nat) :
    Keeps w p a s₀ (GroupKept w a s₀ group joinPolicy p) := by
  have hentry := entry_group hk
  constructor
  · intro n hn hb hr
    have hhandling : a.entry.handling = true := by
      rw [hentry]
      rfl
    have hrew := rewinds_of_reached hb hhandling (le_refl n) hr (passes_entry _ n)
    rw [hentry]
    exact ⟨hrew,rfl,rfl⟩
  · intro i d l m n st hblocked hw hb hH hn ht hr
    have hb' := begun_working (w := w) (i := i) (n := n) hb hw
    have hlater := hH.1.later hn
    cases st with
    | groupFollow g j =>
      obtain ⟨_,rfl,rfl⟩ := hH
      simp only [handle]
      rcases readGroupFollow_cases w a g j d with ⟨status,hc⟩ | ⟨status,hc,_⟩
      · rw [hc]
        exact ⟨hlater,rfl,hc⟩
      · rw [hc]
        exact ⟨hlater,rfl,hc⟩
    | groupEdge g status =>
      obtain ⟨_,rfl,hread⟩ := hH
      simp only [handle] at hr hb' ⊢
      have hread' := readGroupFollow_insertFollow ⟨a.actor,g,status,some a.activityId,
        if status = .accepted then some n else none⟩ rfl rfl rfl hread
      exact ⟨rewinds_of_reached hb' rfl (le_refl n) hr (passes_groupResponse hk hread' n),rfl,
        hread'⟩
    | groupResponse g status =>
      obtain ⟨_,rfl,hread⟩ := hH
      simp only [handle]
      rcases readGroupResponse_cases w a g status d with hc | ⟨id,hc⟩ | ⟨hc,_⟩
      · rw [hc]
        exact ⟨hlater,trivial⟩
      · rw [hc]
        exact ⟨hlater,status,hread,hc⟩
      · rw [hc]
        exact ⟨hlater,status,hread,hc⟩
    | insertResponse type actor objectId =>
      obtain ⟨_,status,hread,hresponse⟩ := hH
      simp only [throws,Bool.or_eq_false_iff,Bool.not_eq_false'] at ht
      simp only [handle] at hr hb' ⊢
      have hanswered : Answered w a group joinPolicy (upsertActivity
          ⟨i.id,type,actor,some objectId,some .outbound,.unprocessed⟩ d) i.id status :=
        ⟨hread,readGroupResponse_upsert hresponse (fresh_iff.mp ht.2).1⟩
      exact ⟨rewinds_of_reached hb' rfl (le_refl n) hr (hanswered.passes hk n),status,hanswered⟩
    | isBlocked id =>
      simp only [handle,hblocked,Bool.false_eq_true,if_false]
      exact ⟨hlater,hH.2⟩
    | insertRequest id =>
      obtain ⟨_,status,hanswered⟩ := hH
      have hany := any_insertRequest id a.actor n d
      have hanswered' : Answered w a group joinPolicy (insertRequest id a.actor n d) id status :=
        ⟨hanswered.follow,hanswered.response⟩
      have hpasses := hanswered'.passes_requested hk hblocked hany n
      simp only [handle] at hr hb' ⊢
      cases hq : w.queueAvailable with
      | true =>
        simp only [hq,if_true] at hr hpasses ⊢
        exact ⟨rewinds_of_reached hb' rfl (le_refl n) hr hpasses,hq,hany,status,hanswered'⟩
      | false =>
        simp only [hq,Bool.false_eq_true,if_false] at hr hpasses ⊢
        exact ⟨rewinds_of_reached hb' rfl (le_refl n) hr hpasses,trivial⟩
    | readDue id =>
      simp only [handle]
      cases hdue : requestDue id a.actor n d with
      | true => exact ⟨hlater,hH.2⟩
      | false => exact ⟨hlater,trivial⟩
    | markQueued id =>
      obtain ⟨_,hq,hany,status,hanswered⟩ := hH
      have hany' : (markQueued id a.actor n d).requests.any (sameRequest id a.actor) = true := by
        have hkeep := Table.any_update
          (fun r => sameRequest id a.actor r && Resolution.waiting r.row) (sameRequest id a.actor)
          (fun r => { r with row := Resolution.markQueued n r.row }) (fun _ => rfl) d.requests
        exact hkeep.trans hany
      have hanswered' : Answered w a group joinPolicy (markQueued id a.actor n d) id status :=
        ⟨hanswered.follow,hanswered.response⟩
      have hpasses := hanswered'.passes_requested hk hblocked hany' n
      simp only [hq,if_true] at hpasses
      have hdone := passes_queued hpasses fun m => markQueued_markQueued id a.actor n m d
      exact ⟨rewinds_of_reached hb' rfl (le_refl n) hr hdone,trivial⟩
    | gate | insertActivity | insertClaim | readProcessed | claim => cases hw
    | retain id | commit state | clear | done | thrown at_ => cases hw
    | _ => exact hH.2.elim

theorem groupKept_cuts (hk : a.kind = .groupFollow group joinPolicy) :
    Cuts w a s₀ (GroupKept w a s₀ group joinPolicy) := by
  refine ⟨groupKept_keeps hk,?_,?_⟩
  · intro p d l n st hH _ _ _
    exact hH.1
  · rintro p d l n st _ _ ⟨hkind,_⟩
    exact absurd hk (hkind group joinPolicy)

end group

end Yurucommu.Interactions
