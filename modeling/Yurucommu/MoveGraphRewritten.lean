import Yurucommu.MoveGraph

/-!
A move rewrites the graph as it should: the three inserts never meet a key that is taken, so the
edges after the batch are known in one piece, and the two counts follow them.
-/

set_option autoImplicit false

namespace Yurucommu.MoveGraph

open Whatwg (Text)
open FollowCounts (ActorRow Column)

variable {m : Move} {e : Engine} {d : Db} {follows : List FollowRow} {actors : List ActorRow}

section selects

theorem hasEdge_eq_false {a b : Text} :
    hasEdge a b follows = false ↔ ∀ f ∈ follows, f.edge ≠ (a,b) := by
  simp [hasEdge]

theorem hasEdge_eq_true {a b : Text} :
    hasEdge a b follows = true ↔ ∃ f ∈ follows, f.edge = (a,b) := by
  simp [hasEdge]

theorem hasEdge_append (a b : Text) (follows more : List FollowRow) :
    hasEdge a b (follows ++ more) = (hasEdge a b follows || hasEdge a b more) := List.any_append

theorem mem_oldAsFollower {g : FollowRow} :
    g ∈ oldAsFollower m follows ↔ ∃ f ∈ follows, f.followerApId = m.oldActorApId ∧
      f.followingApId ≠ m.newActorApId ∧ hasEdge m.newActorApId f.followingApId follows = false ∧
      g = { f with followerApId := m.newActorApId } := by
  simp only [oldAsFollower,List.mem_map,List.mem_filter,Bool.and_eq_true,decide_eq_true_eq,
    Bool.not_eq_true']
  constructor
  · rintro ⟨f,⟨hf,⟨hold,hnew⟩,habsent⟩,rfl⟩
    exact ⟨f,hf,hold,hnew,habsent,rfl⟩
  · rintro ⟨f,hf,hold,hnew,habsent,rfl⟩
    exact ⟨f,⟨hf,⟨hold,hnew⟩,habsent⟩,rfl⟩

theorem oldAsFollowee_eq_true {f : FollowRow} :
    oldAsFollowee m follows f = true ↔ f.followingApId = m.oldActorApId ∧
      f.followerApId ≠ m.newActorApId ∧
      hasEdge f.followerApId m.newActorApId follows = false := by
  simp [oldAsFollowee,and_assoc]

theorem mem_localFollowers {g : FollowRow} :
    g ∈ localFollowers m e actors follows ↔ ∃ f ∈ follows,
      oldAsFollowee m follows f = true ∧ isLocal actors f.followerApId = true ∧
      g = refollow m e f := by
  simp only [localFollowers,List.mem_map,List.mem_filter,Bool.and_eq_true]
  constructor
  · rintro ⟨f,⟨hf,hmoves,hlocal⟩,rfl⟩
    exact ⟨f,hf,hmoves,hlocal,rfl⟩
  · rintro ⟨f,hf,hmoves,hlocal,rfl⟩
    exact ⟨f,⟨hf,hmoves,hlocal⟩,rfl⟩

theorem mem_remoteFollowers {g : FollowRow} :
    g ∈ remoteFollowers m actors follows ↔ ∃ f ∈ follows,
      oldAsFollowee m follows f = true ∧ isLocal actors f.followerApId = false ∧
      g = { f with followingApId := m.newActorApId } := by
  simp only [remoteFollowers,List.mem_map,List.mem_filter,Bool.and_eq_true,Bool.not_eq_true']
  constructor
  · rintro ⟨f,⟨hf,hmoves,hremote⟩,rfl⟩
    exact ⟨f,hf,hmoves,hremote,rfl⟩
  · rintro ⟨f,hf,hmoves,hremote,rfl⟩
    exact ⟨f,⟨hf,hmoves,hremote⟩,rfl⟩

theorem mem_localRefollows {a : ActivityRow} :
    a ∈ localRefollows m e follows ↔ ∃ f ∈ follows, ∃ id, refollowId m f = some id ∧
      a = refollowActivity m e f.followerApId id := by
  simp only [localRefollows,List.mem_filterMap,Option.map_eq_some_iff]
  constructor
  · rintro ⟨f,hf,id,hid,rfl⟩
    exact ⟨f,hf,id,hid,rfl⟩
  · rintro ⟨f,hf,id,hid,rfl⟩
    exact ⟨f,hf,id,hid,rfl⟩

theorem refollowId_eq_some {f : FollowRow} {id : Text} :
    refollowId m f = some id ↔ f.followingApId = m.newActorApId ∧ f.activityApId = some id ∧
      m.refollowPrefix <+: id := by
  unfold refollowId
  by_cases hnew : f.followingApId = m.newActorApId
  · simp [hnew,Option.filter_eq_some_iff]
  · simp [hnew]

theorem edge_of_mem_oldAsFollower {g : FollowRow} (h : g ∈ oldAsFollower m follows) :
    g.followerApId = m.newActorApId ∧ g.followingApId ≠ m.newActorApId := by
  obtain ⟨f,_,_,hnew,_,rfl⟩ := mem_oldAsFollower.mp h
  exact ⟨rfl,hnew⟩

theorem edge_of_mem_localFollowers {g : FollowRow} (h : g ∈ localFollowers m e actors follows) :
    g.followingApId = m.newActorApId ∧ isLocal actors g.followerApId = true ∧
      g.status = .pending := by
  obtain ⟨f,_,_,hlocal,rfl⟩ := mem_localFollowers.mp h
  exact ⟨rfl,hlocal,rfl⟩

theorem edge_of_mem_remoteFollowers {g : FollowRow} (h : g ∈ remoteFollowers m actors follows) :
    g.followingApId = m.newActorApId ∧ isLocal actors g.followerApId = false := by
  obtain ⟨f,_,_,hremote,rfl⟩ := mem_remoteFollowers.mp h
  exact ⟨rfl,hremote⟩

end selects

section keys

def rewritten (m : Move) (e : Engine) (actors : List ActorRow) (follows : List FollowRow) :
    List FollowRow :=
  follows ++ oldAsFollower m follows ++ localFollowers m e actors follows ++
    remoteFollowers m actors follows

theorem nodup_moved {cond : FollowRow → Bool} {f : FollowRow → FollowRow}
    (h : (follows.map FollowRow.edge).Nodup)
    (hf : ∀ a b, cond a = true → cond b = true → (f a).edge = (f b).edge → a.edge = b.edge) :
    (((follows.filter cond).map f).map FollowRow.edge).Nodup := by
  rw [List.map_map]
  refine List.Nodup.map_on ?_ (h.of_map.sublist List.filter_sublist)
  intro a ha b hb heq
  rw [List.mem_filter] at ha hb
  exact List.inj_on_of_nodup_map h ha.1 hb.1 (hf a b ha.2 hb.2 heq)

theorem nodup_oldAsFollower (h : (follows.map FollowRow.edge).Nodup) :
    ((oldAsFollower m follows).map FollowRow.edge).Nodup := by
  refine nodup_moved h ?_
  intro a b ha hb heq
  simp only [Bool.and_eq_true,decide_eq_true_eq] at ha hb
  simp only [FollowRow.edge,Prod.mk.injEq] at heq ⊢
  exact ⟨ha.1.1.trans hb.1.1.symm,heq.2⟩

theorem nodup_localFollowers (h : (follows.map FollowRow.edge).Nodup) :
    ((localFollowers m e actors follows).map FollowRow.edge).Nodup := by
  refine nodup_moved h ?_
  intro a b ha hb heq
  rw [Bool.and_eq_true,oldAsFollowee_eq_true] at ha hb
  simp only [FollowRow.edge,refollow,Prod.mk.injEq] at heq ⊢
  exact ⟨heq.1,ha.1.1.trans hb.1.1.symm⟩

theorem nodup_remoteFollowers (h : (follows.map FollowRow.edge).Nodup) :
    ((remoteFollowers m actors follows).map FollowRow.edge).Nodup := by
  refine nodup_moved h ?_
  intro a b ha hb heq
  rw [Bool.and_eq_true,oldAsFollowee_eq_true] at ha hb
  simp only [FollowRow.edge,Prod.mk.injEq] at heq ⊢
  exact ⟨heq.1,ha.1.1.trans hb.1.1.symm⟩

theorem nodup_append_of_edge {as bs : List FollowRow} (ha : (as.map FollowRow.edge).Nodup)
    (hb : (bs.map FollowRow.edge).Nodup) (hne : ∀ a ∈ as, ∀ b ∈ bs, a.edge ≠ b.edge) :
    ((as ++ bs).map FollowRow.edge).Nodup := by
  rw [List.map_append,List.nodup_append]
  refine ⟨ha,hb,?_⟩
  intro k hk k' hk' heq
  obtain ⟨a,haas,rfl⟩ := List.mem_map.mp hk
  obtain ⟨b,hbbs,rfl⟩ := List.mem_map.mp hk'
  exact hne a haas b hbbs heq

theorem nodup_rewritten (h : (follows.map FollowRow.edge).Nodup) :
    ((rewritten m e actors follows).map FollowRow.edge).Nodup := by
  refine nodup_append_of_edge (nodup_append_of_edge (nodup_append_of_edge h
    (nodup_oldAsFollower h) ?_) (nodup_localFollowers h) ?_) (nodup_remoteFollowers h) ?_
  · intro a ha b hb heq
    obtain ⟨f,_,_,_,habsent,rfl⟩ := mem_oldAsFollower.mp hb
    exact hasEdge_eq_false.mp habsent a ha heq
  · intro a ha b hb heq
    obtain ⟨f,_,hmoves,_,rfl⟩ := mem_localFollowers.mp hb
    cases List.mem_append.mp ha with
    | inl ha => exact hasEdge_eq_false.mp (oldAsFollowee_eq_true.mp hmoves).2.2 a ha heq
    | inr ha =>
      simp only [FollowRow.edge,refollow,Prod.mk.injEq] at heq
      exact (edge_of_mem_oldAsFollower ha).2 heq.2
  · intro a ha b hb heq
    have hremote := edge_of_mem_remoteFollowers hb
    obtain ⟨f,_,hmoves,_,rfl⟩ := mem_remoteFollowers.mp hb
    simp only [List.mem_append] at ha
    obtain (ha | ha) | ha := ha
    · exact hasEdge_eq_false.mp (oldAsFollowee_eq_true.mp hmoves).2.2 a ha heq
    · simp only [FollowRow.edge,Prod.mk.injEq] at heq
      exact (edge_of_mem_oldAsFollower ha).2 heq.2
    · simp only [FollowRow.edge,Prod.mk.injEq] at heq
      have hlocal := (edge_of_mem_localFollowers ha).2.1
      rw [heq.1,hremote.2] at hlocal
      cases hlocal

end keys

section batch

theorem oldAsFollowee_append {more : List FollowRow} {f : FollowRow}
    (h : ∀ g ∈ more, g.edge ≠ (f.followerApId,m.newActorApId)) :
    oldAsFollowee m (follows ++ more) f = oldAsFollowee m follows f := by
  unfold oldAsFollowee
  rw [hasEdge_append,hasEdge_eq_false.mpr h,Bool.or_false]

theorem localFollowers_append :
    localFollowers m e actors (follows ++ oldAsFollower m follows) =
      localFollowers m e actors follows := by
  unfold localFollowers
  have hadded : (oldAsFollower m follows).filter (fun f => oldAsFollowee m
      (follows ++ oldAsFollower m follows) f && isLocal actors f.followerApId) = [] := by
    rw [List.filter_eq_nil_iff]
    intro g hg hmoves
    rw [Bool.and_eq_true,oldAsFollowee_eq_true] at hmoves
    exact hmoves.1.2.1 (edge_of_mem_oldAsFollower hg).1
  rw [List.filter_append,hadded,List.append_nil]
  congr 1
  refine List.filter_congr fun f _ => ?_
  rw [oldAsFollowee_append]
  intro g hg heq
  simp only [FollowRow.edge,Prod.mk.injEq] at heq
  exact (edge_of_mem_oldAsFollower hg).2 heq.2

theorem remoteFollowers_append (hne : m.oldActorApId ≠ m.newActorApId) :
    remoteFollowers m actors
        (follows ++ oldAsFollower m follows ++ localFollowers m e actors follows) =
      remoteFollowers m actors follows := by
  unfold remoteFollowers
  rw [List.append_assoc,List.filter_append]
  have hadded : (oldAsFollower m follows ++ localFollowers m e actors follows).filter (fun f =>
      oldAsFollowee m (follows ++ (oldAsFollower m follows ++ localFollowers m e actors follows)) f
        && !isLocal actors f.followerApId) = [] := by
    rw [List.filter_eq_nil_iff]
    intro g hg hmoves
    rw [Bool.and_eq_true,oldAsFollowee_eq_true] at hmoves
    cases List.mem_append.mp hg with
    | inl hg => exact hmoves.1.2.1 (edge_of_mem_oldAsFollower hg).1
    | inr hg => exact hne (hmoves.1.1.symm.trans (edge_of_mem_localFollowers hg).1)
  rw [hadded,List.append_nil]
  congr 1
  refine List.filter_congr fun f _ => ?_
  cases hlocal : isLocal actors f.followerApId with
  | true => simp
  | false =>
    rw [oldAsFollowee_append]
    intro g hg heq
    simp only [FollowRow.edge,Prod.mk.injEq] at heq
    cases List.mem_append.mp hg with
    | inl hg => exact (edge_of_mem_oldAsFollower hg).2 heq.2
    | inr hg =>
      have htrue := (edge_of_mem_localFollowers hg).2.1
      rw [heq.1,hlocal] at htrue
      cases htrue

theorem insertFollows_eq {new : List FollowRow}
    (h : ((d.follows ++ new).map FollowRow.edge).Nodup) :
    insertFollows new d = { d with follows := d.follows ++ new } := by
  have hsame : ∀ new f, sameEdge new f = true → f.edge = new.edge :=
    fun new f heq => of_decide_eq_true heq
  unfold insertFollows
  rw [Table.insertAllIgnore_eq_append hsame h]

theorem inserts_eq (h : (d.follows.map FollowRow.edge).Nodup)
    (hne : m.oldActorApId ≠ m.newActorApId) :
    rewriteRemoteFollowers m (rewriteLocalFollowers m e (rewriteOldAsFollower m d)) =
      { d with follows := rewritten m e d.actors d.follows } := by
  have hall : ((rewritten m e d.actors d.follows).map FollowRow.edge).Nodup := nodup_rewritten h
  have hthird : ((d.follows ++ oldAsFollower m d.follows ++
      localFollowers m e d.actors d.follows).map FollowRow.edge).Nodup := by
    rw [rewritten,List.map_append] at hall
    exact hall.of_append_left
  have hsecond : ((d.follows ++ oldAsFollower m d.follows).map FollowRow.edge).Nodup := by
    rw [List.map_append] at hthird
    exact hthird.of_append_left
  unfold rewriteOldAsFollower
  rw [insertFollows_eq hsecond]
  unfold rewriteLocalFollowers
  rw [localFollowers_append,insertFollows_eq hthird]
  unfold rewriteRemoteFollowers
  rw [remoteFollowers_append hne]
  exact insertFollows_eq hall

def names (m : Move) (f : FollowRow) : Bool :=
  f.followerApId = m.oldActorApId || f.followingApId = m.oldActorApId

theorem names_eq_false {f : FollowRow} :
    names m f = false ↔ f.followerApId ≠ m.oldActorApId ∧ f.followingApId ≠ m.oldActorApId := by
  simp [names]

theorem deletes_eq :
    deleteOldAsFollowee m (deleteOldAsFollower m d) = deleteFollows (names m) d := by
  unfold deleteOldAsFollowee deleteOldAsFollower deleteFollows Table.delete
  simp only [List.filter_filter]
  congr 1
  refine List.filter_congr fun f _ => ?_
  simp [names,Bool.and_comm]

def decremented (m : Move) (d : Db) : Db :=
  decrementDroppedLocalFollowees m (decrementLocalFollowers m d)

theorem follows_decremented : (decremented m d).follows = d.follows := rfl

theorem apIds_decrement (column : Column) (cond : ActorRow → Bool) (d : Db) :
    (decrement column cond d).actors.map ActorRow.apId = d.actors.map ActorRow.apId :=
  Table.map_update (fun a => FollowCounts.apId_setCount column _ a) _

theorem apIds_decremented :
    (decremented m d).actors.map ActorRow.apId = d.actors.map ActorRow.apId :=
  (apIds_decrement .followers _ _).trans (apIds_decrement .following _ d)

theorem isLocal_congr {actors' : List ActorRow}
    (h : actors'.map ActorRow.apId = actors.map ActorRow.apId) :
    isLocal actors' = isLocal actors := by
  funext apId
  unfold isLocal
  have hany : ∀ as : List ActorRow, as.any (fun a => a.apId = apId) =
      (as.map ActorRow.apId).any (· = apId) := fun as => by rw [List.any_map]; rfl
  rw [hany,hany,h]

theorem rewritten_congr {actors' : List ActorRow}
    (h : actors'.map ActorRow.apId = actors.map ActorRow.apId) :
    rewritten m e actors' follows = rewritten m e actors follows := by
  unfold rewritten localFollowers remoteFollowers
  rw [isLocal_congr h]

theorem rewriteMovedFollowGraph_eq (h : (d.follows.map FollowRow.edge).Nodup)
    (hne : m.oldActorApId ≠ m.newActorApId) :
    rewriteMovedFollowGraph m e d =
      { actors := (decremented m d).actors
        follows := Table.delete (names m) (rewritten m e d.actors d.follows)
        activities := Table.insertAllIgnore sameApId
          (localRefollows m e (rewritten m e d.actors d.follows)) d.activities } := by
  have hbatch : rewriteMovedFollowGraph m e d =
      deleteOldAsFollowee m (deleteOldAsFollower m (recordLocalRefollows m e
        (rewriteRemoteFollowers m (rewriteLocalFollowers m e
          (rewriteOldAsFollower m (decremented m d)))))) := rfl
  have hinserts := inserts_eq (e := e) (d := decremented m d) h hne
  rw [follows_decremented,rewritten_congr apIds_decremented] at hinserts
  rw [hbatch,hinserts,deletes_eq]
  rfl

end batch

end Yurucommu.MoveGraph
