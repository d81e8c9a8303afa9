import Yurucommu.FollowCountsExact
import Yurucommu.MoveGraphRewritten

/-!
A move rewrites the graph as it should: the edges that came in are the moved ones, the counts follow
them, and every local re-Follow is recorded.
-/

set_option autoImplicit false

namespace Yurucommu.MoveGraph

open Whatwg (Text)
open FollowCounts (ActorRow Column)

variable {m : Move} {e : Engine} {d : Db} {follows : List FollowRow} {actors : List ActorRow}

section counts

theorem of_eq_true {column : Column} {k : Text} {f : FollowRow} :
    (counter column).of k f = true ↔ f.status = .accepted ∧ key column f = k := by
  rw [Counter.of,Bool.and_eq_true]
  exact and_congr decide_eq_true_iff decide_eq_true_iff

theorem countP_edge (h : (follows.map FollowRow.edge).Nodup) {p : FollowRow → Bool} {a b : Text}
    (hp : ∀ f, p f = true ↔ f.status = .accepted ∧ f.edge = (a,b)) :
    follows.countP p = if hasAccepted a b follows then 1 else 0 := by
  have heq : p = fun f => decide (f.edge = (a,b)) && decide (f.status = .accepted) := by
    funext f
    rw [Bool.eq_iff_iff,hp,Bool.and_eq_true,decide_eq_true_eq,decide_eq_true_eq,and_comm]
  rw [heq,hasAccepted]
  refine Counter.countP_eq_any h ?_
  intro f _ g _ hf hg
  rw [Bool.and_eq_true,decide_eq_true_eq] at hf hg
  exact hf.1.trans hg.1.symm

theorem countP_eq_zero_of {p : FollowRow → Bool} (h : ∀ f ∈ follows, p f = false) :
    follows.countP p = 0 := by
  rw [List.countP_eq_zero]
  intro f hf htrue
  rw [h f hf] at htrue
  cases htrue

theorem tally_following (h : (follows.map FollowRow.edge).Nodup) {k : Text}
    (hk : isLocal actors k = true) (hold : k ≠ m.oldActorApId) (hnew : k ≠ m.newActorApId) :
    (counter .following).tally follows k =
      (counter .following).tally (Table.delete (names m) (rewritten m e actors follows)) k +
        if hasAccepted k m.oldActorApId follows then 1 else 0 := by
  have hadded : ∀ f ∈ oldAsFollower m follows ++ localFollowers m e actors follows ++
      remoteFollowers m actors follows, (counter .following).of k f = false := by
    intro f hf
    rw [Bool.eq_false_iff,ne_eq,of_eq_true]
    rintro ⟨haccepted,hkey⟩
    simp only [List.mem_append] at hf
    obtain (hf | hf) | hf := hf
    · exact hnew (hkey.symm.trans (edge_of_mem_oldAsFollower hf).1)
    · have hpending := (edge_of_mem_localFollowers hf).2.2
      rw [haccepted] at hpending
      cases hpending
    · have hremote := (edge_of_mem_remoteFollowers hf).2
      have hfollower : f.followerApId = k := hkey
      rw [hfollower,hk] at hremote
      cases hremote
  have hsplit : rewritten m e actors follows = follows ++ (oldAsFollower m follows ++
      localFollowers m e actors follows ++ remoteFollowers m actors follows) := by
    simp [rewritten]
  have htally := (counter .following).tally_delete (names m) (rewritten m e actors follows) k
  have htaken : follows.countP (fun f => (counter .following).of k f && names m f) =
      if hasAccepted k m.oldActorApId follows then 1 else 0 := by
    refine countP_edge h fun f => ?_
    rw [Bool.and_eq_true,of_eq_true]
    simp only [key,names,Bool.or_eq_true,decide_eq_true_eq,FollowRow.edge,Prod.mk.injEq]
    constructor
    · rintro ⟨⟨haccepted,hkey⟩,hnames⟩
      cases hnames with
      | inl hfollower => exact absurd (hkey.symm.trans hfollower) hold
      | inr hfollowing => exact ⟨haccepted,hkey,hfollowing⟩
    · rintro ⟨haccepted,hkey,hfollowing⟩
      exact ⟨⟨haccepted,hkey⟩,.inr hfollowing⟩
  rw [hsplit,Counter.tally_append,List.countP_append,htaken] at htally
  have hnone := countP_eq_zero_of hadded
  have hnone' := countP_eq_zero_of (p := fun f => (counter .following).of k f && names m f)
    fun f hf => by rw [hadded f hf,Bool.false_and]
  rw [← hsplit] at htally
  simp only [Counter.tally] at htally hnone ⊢
  omega

theorem tally_followers (actors : List ActorRow) (h : (follows.map FollowRow.edge).Nodup)
    {k : Text} (hold : k ≠ m.oldActorApId) (hnew : k ≠ m.newActorApId)
    (hne : m.oldActorApId ≠ m.newActorApId) :
    (counter .followers).tally follows k +
        (if hasAccepted m.oldActorApId k follows && !hasEdge m.newActorApId k follows then 1
          else 0) =
      (counter .followers).tally (Table.delete (names m) (rewritten m e actors follows)) k +
        if hasAccepted m.oldActorApId k follows then 1 else 0 := by
  have hfollowee : ∀ f ∈ localFollowers m e actors follows ++ remoteFollowers m actors follows,
      (counter .followers).of k f = false := by
    intro f hf
    rw [Bool.eq_false_iff,ne_eq,of_eq_true]
    rintro ⟨_,hkey⟩
    cases List.mem_append.mp hf with
    | inl hf => exact hnew (hkey.symm.trans (edge_of_mem_localFollowers hf).1)
    | inr hf => exact hnew (hkey.symm.trans (edge_of_mem_remoteFollowers hf).1)
  have hfollower : ∀ f ∈ oldAsFollower m follows,
      ((counter .followers).of k f && names m f) = false := by
    intro f hf
    rw [Bool.eq_false_iff,ne_eq,Bool.and_eq_true,of_eq_true]
    rintro ⟨⟨_,hkey⟩,hnames⟩
    simp only [names,Bool.or_eq_true,decide_eq_true_eq] at hnames
    cases hnames with
    | inl hfollower => exact hne (hfollower.symm.trans (edge_of_mem_oldAsFollower hf).1)
    | inr hfollowing => exact hold (hkey.symm.trans hfollowing)
  have htaken : follows.countP (fun f => (counter .followers).of k f && names m f) =
      if hasAccepted m.oldActorApId k follows then 1 else 0 := by
    refine countP_edge h fun f => ?_
    rw [Bool.and_eq_true,of_eq_true]
    simp only [key,names,Bool.or_eq_true,decide_eq_true_eq,FollowRow.edge,Prod.mk.injEq]
    constructor
    · rintro ⟨⟨haccepted,hkey⟩,hnames⟩
      cases hnames with
      | inl hfollower => exact ⟨haccepted,hfollower,hkey⟩
      | inr hfollowing => exact absurd (hkey.symm.trans hfollowing) hold
    · rintro ⟨haccepted,hfollower,hkey⟩
      exact ⟨⟨haccepted,hkey⟩,.inl hfollower⟩
  have hmoved : (oldAsFollower m follows).countP ((counter .followers).of k) =
      if hasAccepted m.oldActorApId k follows && !hasEdge m.newActorApId k follows then 1
        else 0 := by
    unfold oldAsFollower
    rw [List.countP_map,List.countP_filter]
    cases habsent : hasEdge m.newActorApId k follows with
    | true =>
      rw [Bool.not_true,Bool.and_false,if_neg (by simp)]
      refine countP_eq_zero_of fun f _ => ?_
      rw [Bool.eq_false_iff,ne_eq,Bool.and_eq_true,Function.comp_apply,of_eq_true]
      rintro ⟨⟨_,hkey⟩,hcond⟩
      have hk : f.followingApId = k := hkey
      rw [Bool.and_eq_true,hk,habsent] at hcond
      cases hcond.2
    | false =>
      rw [Bool.not_false,Bool.and_true]
      refine countP_edge h fun f => ?_
      rw [Bool.and_eq_true,Function.comp_apply,of_eq_true]
      simp only [key,Bool.and_eq_true,decide_eq_true_eq,Bool.not_eq_true',FollowRow.edge,
        Prod.mk.injEq]
      constructor
      · rintro ⟨⟨haccepted,hkey⟩,⟨hfollower,_⟩,_⟩
        exact ⟨haccepted,hfollower,hkey⟩
      · rintro ⟨haccepted,hfollower,hkey⟩
        rw [hkey]
        exact ⟨⟨haccepted,rfl⟩,⟨hfollower,hnew⟩,habsent⟩
  have htally := (counter .followers).tally_delete (names m) (rewritten m e actors follows) k
  have hsplit : rewritten m e actors follows = follows ++ oldAsFollower m follows ++
      (localFollowers m e actors follows ++ remoteFollowers m actors follows) := by
    simp [rewritten]
  have hnone := countP_eq_zero_of hfollowee
  have hnone' := countP_eq_zero_of (p := fun f => (counter .followers).of k f && names m f)
    fun f hf => by rw [hfollowee f hf,Bool.false_and]
  have hnone'' := countP_eq_zero_of hfollower
  rw [hsplit,Counter.tally_append,Counter.tally_append,List.countP_append,List.countP_append,
    htaken] at htally
  rw [← hsplit] at htally
  simp only [Counter.tally] at htally hnone hmoved ⊢
  omega

theorem hasAccepted_tally {column : Column} {a b : Text} (h : hasAccepted a b follows = true)
    {k : Text} (hk : ∀ f : FollowRow, f.edge = (a,b) → key column f = k) :
    0 < (counter column).tally follows k := by
  obtain ⟨f,hf,heq⟩ := List.any_eq_true.mp h
  rw [Bool.and_eq_true,decide_eq_true_eq] at heq
  have hpos := (counter column).tally_pos hf heq.2
  have hkey : (counter column).key f = k := hk f heq.1
  rwa [hkey] at hpos

theorem exact_other {column other : Column} (hne : other ≠ column)
    (h : (counter other).Exact d.actors follows) (cond : ActorRow → Bool) :
    (counter other).Exact (decrement column cond d).actors follows :=
  h.update (fun a => FollowCounts.count_setCount_of_ne hne _ a)
    (fun a => FollowCounts.apId_setCount column _ a)

theorem exact_decremented (hkeys : (d.follows.map FollowRow.edge).Nodup)
    (h : ∀ column, (counter column).Exact d.actors d.follows)
    (hne : m.oldActorApId ≠ m.newActorApId) (hold : isLocal d.actors m.oldActorApId = false)
    (hnew : isLocal d.actors m.newActorApId = false) (column : Column) :
    (counter column).Exact (decremented m d).actors
      (Table.delete (names m) (rewritten m e d.actors d.follows)) := by
  have hlocal : ∀ a ∈ d.actors, isLocal d.actors a.apId = true ∧ a.apId ≠ m.oldActorApId ∧
      a.apId ≠ m.newActorApId := by
    intro a ha
    have htrue : isLocal d.actors a.apId = true := List.any_eq_true.mpr ⟨a,ha,by simp⟩
    refine ⟨htrue,?_,?_⟩
    · intro heq
      rw [heq,hold] at htrue
      cases htrue
    · intro heq
      rw [heq,hnew] at htrue
      cases htrue
  cases column with
  | following =>
    have hfirst : (counter .following).Exact (decrementLocalFollowers m d).actors
        (Table.delete (names m) (rewritten m e d.actors d.follows)) := by
      refine (h .following).adjust ?_
      intro a ha hcount
      obtain ⟨htrue,hold',hnew'⟩ := hlocal a ha
      have htally := tally_following (e := e) hkeys htrue hold' hnew'
      change a.count .following = (counter .following).tally d.follows a.apId at hcount
      change (if (decide (0 < a.count .following) &&
        hasAccepted a.apId m.oldActorApId d.follows) = true then a.count .following - 1
          else a.count .following) = (counter .following).tally _ a.apId
      cases hacc : hasAccepted a.apId m.oldActorApId d.follows with
      | true =>
        have hpos : 0 < (counter .following).tally d.follows a.apId :=
          hasAccepted_tally hacc fun f hf => (Prod.mk.inj hf).1
        rw [hacc,if_pos rfl] at htally
        rw [if_pos (by simp; omega)]
        omega
      | false =>
        rw [hacc,if_neg (by simp)] at htally
        rw [if_neg (by simp)]
        omega
    exact exact_other (d := decrementLocalFollowers m d) (by decide) hfirst _
  | followers =>
    have hkeep : (counter .followers).Exact (decrementLocalFollowers m d).actors d.follows :=
      exact_other (by decide) (h .followers) _
    refine hkeep.adjust ?_
    intro a ha hcount
    have hid : ∃ b ∈ d.actors, b.apId = a.apId := by
      have hmem : a.apId ∈ (decrementLocalFollowers m d).actors.map ActorRow.apId :=
        List.mem_map_of_mem ha
      have hids : (decrementLocalFollowers m d).actors.map ActorRow.apId =
          d.actors.map ActorRow.apId := apIds_decrement .following _ d
      rw [hids] at hmem
      exact List.mem_map.mp hmem
    obtain ⟨b,hb,hba⟩ := hid
    obtain ⟨_,hold',hnew'⟩ := hlocal b hb
    rw [hba] at hold' hnew'
    have htally := tally_followers (e := e) d.actors hkeys hold' hnew' hne
    change a.count .followers = (counter .followers).tally d.follows a.apId at hcount
    change (if (decide (0 < a.count .followers) &&
      (hasAccepted m.oldActorApId a.apId d.follows && (decide (a.apId = m.newActorApId) ||
        hasEdge m.newActorApId a.apId d.follows))) = true then a.count .followers - 1
          else a.count .followers) = (counter .followers).tally _ a.apId
    rw [decide_eq_false hnew',Bool.false_or]
    cases hacc : hasAccepted m.oldActorApId a.apId d.follows with
    | true =>
      have hpos : 0 < (counter .followers).tally d.follows a.apId :=
        hasAccepted_tally hacc fun f hf => (Prod.mk.inj hf).2
      rw [hacc,if_pos rfl,Bool.true_and] at htally
      cases hedge : hasEdge m.newActorApId a.apId d.follows with
      | true =>
        rw [hedge,if_neg (by simp)] at htally
        rw [if_pos (by simp; omega)]
        omega
      | false =>
        rw [hedge,if_pos (by simp)] at htally
        rw [if_neg (by simp)]
        omega
    | false =>
      rw [hacc,if_neg (by simp),if_neg (by simp)] at htally
      rw [if_neg (by simp)]
      omega

end counts

section moved

theorem mem_rewritten {g : FollowRow} :
    g ∈ rewritten m e actors follows ↔ g ∈ follows ∨ g ∈ oldAsFollower m follows ∨
      g ∈ localFollowers m e actors follows ∨ g ∈ remoteFollowers m actors follows := by
  simp [rewritten]

theorem mem_after {g : FollowRow} :
    g ∈ Table.delete (names m) (rewritten m e actors follows) ↔
      g ∈ rewritten m e actors follows ∧ g.followerApId ≠ m.oldActorApId ∧
        g.followingApId ≠ m.oldActorApId := by
  rw [Table.delete,List.mem_filter,Bool.not_eq_true',names_eq_false]

theorem sameApId_iff (new a : ActivityRow) : sameApId new a = true ↔ a.apId = new.apId :=
  decide_eq_true_iff

theorem eq_of_refollowId (hfresh : Fresh m e d) {f g : FollowRow} (hf : f ∈ d.follows)
    (hg : g ∈ rewritten m e d.actors d.follows)
    (hid : g.activityApId = some (m.refollowPrefix ++ e.random f.followerApId)) :
    g.followerApId = f.followerApId := by
  obtain ⟨hrandom,hfollows,_⟩ := hfresh f hf
  obtain hg | hg | hg | hg := mem_rewritten.mp hg
  · exact absurd hid (hfollows g hg)
  · obtain ⟨f',hf',_,_,_,rfl⟩ := mem_oldAsFollower.mp hg
    exact absurd hid (hfollows f' hf')
  · obtain ⟨f',hf',_,_,rfl⟩ := mem_localFollowers.mp hg
    exact hrandom f' hf' (List.append_cancel_left (Option.some.inj hid))
  · obtain ⟨f',hf',_,_,rfl⟩ := mem_remoteFollowers.mp hg
    exact absurd hid (hfollows f' hf')

theorem recorded_of_refollow (hfresh : Fresh m e d) {f : FollowRow} (hf : f ∈ d.follows)
    (hmem : refollow m e f ∈ rewritten m e d.actors d.follows) :
    refollowActivity m e f.followerApId (m.refollowPrefix ++ e.random f.followerApId) ∈
      Table.insertAllIgnore sameApId (localRefollows m e (rewritten m e d.actors d.follows))
        d.activities := by
  have hrows : ∀ a ∈ d.activities, a.apId ≠ (refollowActivity m e f.followerApId
      (m.refollowPrefix ++ e.random f.followerApId)).apId := (hfresh f hf).2.2
  refine Table.mem_insertAllIgnore_of_only sameApId_iff ?_ hrows ?_
  · rw [mem_localRefollows]
    refine ⟨refollow m e f,hmem,_,?_,rfl⟩
    rw [refollowId_eq_some]
    exact ⟨rfl,rfl,List.prefix_append _ _⟩
  · intro a ha heq
    obtain ⟨g,hg,id,hid,rfl⟩ := mem_localRefollows.mp ha
    have hsame : id = m.refollowPrefix ++ e.random f.followerApId := heq
    subst hsame
    rw [eq_of_refollowId hfresh hf hg (refollowId_eq_some.mp hid).2.1]

theorem mem_refollowIds {activities : List ActivityRow} {actorApId id : Text}
    (h : refollowActivity m e actorApId id ∈ activities) (hid : m.refollowPrefix <+: id) :
    id ∈ refollowIds m activities := by
  unfold refollowIds
  rw [List.mem_map]
  refine ⟨_,List.mem_filter.mpr ⟨h,?_⟩,rfl⟩
  simpa [refollowActivity, List.isPrefixOf_iff_prefix] using hid

theorem consistent_after (h : Consistent d) (hne : m.oldActorApId ≠ m.newActorApId)
    (hold : isLocal d.actors m.oldActorApId = false)
    (hnew : isLocal d.actors m.newActorApId = false) :
    Consistent (rewriteMovedFollowGraph m e d) := by
  rw [rewriteMovedFollowGraph_eq h.edges hne]
  refine ⟨?_,?_,exact_decremented h.edges h.counts hne hold hnew⟩
  · exact (nodup_rewritten h.edges).sublist (List.Sublist.map _ List.filter_sublist)
  · exact Table.nodup_insertAllIgnore (fun new a => (sameApId_iff new a).mpr) _ h.activityIds

theorem edge_absent_of_not_mem {g : FollowRow} (h : g ∈ rewritten m e actors follows)
    (hg : g ∉ follows) : g.edge ≠ (m.newActorApId,m.newActorApId) ∧ ∃ f ∈ follows,
      (f.followerApId = m.oldActorApId ∧ g = { f with followerApId := m.newActorApId }) ∨
      (f.followingApId = m.oldActorApId ∧ if isLocal actors f.followerApId then
        g = refollow m e f else g = { f with followingApId := m.newActorApId }) := by
  obtain hin | hin | hin | hin := mem_rewritten.mp h
  · exact absurd hin hg
  · obtain ⟨f,hf,hold,hnew,_,rfl⟩ := mem_oldAsFollower.mp hin
    refine ⟨?_,f,hf,.inl ⟨hold,rfl⟩⟩
    intro heq
    exact hnew (Prod.mk.inj heq).2
  · obtain ⟨f,hf,hmoves,hlocal,rfl⟩ := mem_localFollowers.mp hin
    obtain ⟨hold,hnew,_⟩ := oldAsFollowee_eq_true.mp hmoves
    refine ⟨?_,f,hf,.inr ⟨hold,?_⟩⟩
    · intro heq
      exact hnew (Prod.mk.inj heq).1
    · rw [if_pos hlocal]
  · obtain ⟨f,hf,hmoves,hremote,rfl⟩ := mem_remoteFollowers.mp hin
    obtain ⟨hold,hnew,_⟩ := oldAsFollowee_eq_true.mp hmoves
    refine ⟨?_,f,hf,.inr ⟨hold,?_⟩⟩
    · intro heq
      exact hnew (Prod.mk.inj heq).1
    · rw [if_neg (by simp [hremote])]

theorem kept_of_hasEdge {a b : Text} (h : hasEdge a b follows = true) (ha : a ≠ m.oldActorApId)
    (hb : b ≠ m.oldActorApId) : ∃ g ∈ follows, g.edge = (a,b) ∧
      g ∈ Table.delete (names m) (rewritten m e actors follows) := by
  obtain ⟨g,hg,heq⟩ := hasEdge_eq_true.mp h
  have hedge := Prod.mk.inj heq
  refine ⟨g,hg,heq,mem_after.mpr ⟨mem_rewritten.mpr (.inl hg),?_,?_⟩⟩
  · rw [hedge.1]
    exact ha
  · rw [hedge.2]
    exact hb

theorem moved_rewriteMovedFollowGraph (h : Consistent d) (hne : m.oldActorApId ≠ m.newActorApId)
    (hold : isLocal d.actors m.oldActorApId = false)
    (hnew : isLocal d.actors m.newActorApId = false) :
    Moved m e d (rewriteMovedFollowGraph m e d) := by
  have hafter := consistent_after (e := e) h hne hold hnew
  have heq := rewriteMovedFollowGraph_eq (e := e) h.edges hne
  rw [heq] at hafter ⊢
  constructor
  case consistent => exact hafter
  case sameActors => exact apIds_decremented
  case forgotten =>
    intro f hf
    exact (mem_after.mp hf).2
  case others =>
    intro f hf hfollower hfollowing
    exact mem_after.mpr ⟨mem_rewritten.mpr (.inl hf),hfollower,hfollowing⟩
  case asFollower =>
    intro f hf hfollower hfollowing hfresh
    cases hedge : hasEdge m.newActorApId f.followingApId d.follows with
    | true =>
      rw [if_pos rfl]
      exact kept_of_hasEdge hedge (Ne.symm hne) hfollowing
    | false =>
      rw [if_neg (by simp)]
      refine mem_after.mpr ⟨mem_rewritten.mpr (.inr (.inl ?_)),Ne.symm hne,hfollowing⟩
      exact mem_oldAsFollower.mpr ⟨f,hf,hfollower,hfresh,hedge,rfl⟩
  case asFollowee =>
    intro f hf hfollowing hfollower hself
    cases hedge : hasEdge f.followerApId m.newActorApId d.follows with
    | true =>
      rw [if_pos rfl]
      exact kept_of_hasEdge hedge hfollower (Ne.symm hne)
    | false =>
      rw [if_neg (by simp)]
      have hmoves := oldAsFollowee_eq_true.mpr ⟨hfollowing,hself,hedge⟩
      cases hlocal : isLocal d.actors f.followerApId with
      | true =>
        rw [if_pos rfl]
        have hmem : refollow m e f ∈ rewritten m e d.actors d.follows :=
          mem_rewritten.mpr (.inr (.inr (.inl (mem_localFollowers.mpr ⟨f,hf,hmoves,hlocal,rfl⟩))))
        refine ⟨mem_after.mpr ⟨hmem,hfollower,Ne.symm hne⟩,?_⟩
        intro hfresh
        have hrecorded := recorded_of_refollow hfresh hf hmem
        exact ⟨hrecorded,mem_refollowIds hrecorded (List.prefix_append _ _)⟩
      | false =>
        rw [if_neg (by simp)]
        refine mem_after.mpr ⟨mem_rewritten.mpr (.inr (.inr (.inr ?_))),hfollower,Ne.symm hne⟩
        exact mem_remoteFollowers.mpr ⟨f,hf,hmoves,hlocal,rfl⟩
  case nothingElse =>
    intro g hg hbefore
    exact edge_absent_of_not_mem (mem_after.mp hg).1 hbefore
  case earlier => exact Table.prefix_insertAllIgnore _ _
  case recorded =>
    intro a ha hbefore
    cases Table.mem_insertAllIgnore ha with
    | inl hin => exact absurd hin hbefore
    | inr hin =>
      obtain ⟨f,_,id,hid,rfl⟩ := mem_localRefollows.mp hin
      exact ⟨(refollowId_eq_some.mp hid).2.2,f.followerApId,rfl⟩

end moved

end Yurucommu.MoveGraph
