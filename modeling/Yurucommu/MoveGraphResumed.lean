import Yurucommu.MoveGraphMoved

/-!
A move that is run again: the batch finds nothing to do, and the pages hand every recorded
re-Follow to delivery, once a call.
-/

set_option autoImplicit false

namespace Yurucommu.MoveGraph

open Whatwg (Text)
open FollowCounts (ActorRow Column)

variable {m : Move} {e : Engine} {d : Db}

section again

theorem decrement_of_none {column : Column} {cond : ActorRow → Bool}
    (h : ∀ a ∈ d.actors, cond a = false) : decrement column cond d = d := by
  unfold decrement Counter.adjust
  rw [Table.update_of_none _ fun a ha => by rw [h a ha,Bool.and_false]]

theorem hasAccepted_eq_false {a b : Text} (h : ∀ f ∈ d.follows, f.edge ≠ (a,b)) :
    hasAccepted a b d.follows = false := by
  rw [hasAccepted,List.any_eq_false]
  intro f hf htrue
  rw [Bool.and_eq_true,decide_eq_true_eq] at htrue
  exact h f hf htrue.1

/-- No edge of the old id is left, and every id under the prefix has its activity. -/
structure Settled (m : Move) (d : Db) : Prop where
  forgotten : ∀ f ∈ d.follows, names m f = false
  recorded : ∀ f ∈ d.follows, ∀ id, refollowId m f = some id → ∃ a ∈ d.activities, a.apId = id

theorem Settled.decremented (h : Settled m d) : decremented m d = d := by
  have hnone : ∀ a b, a = m.oldActorApId ∨ b = m.oldActorApId →
      hasAccepted a b d.follows = false := by
    intro a b hab
    refine hasAccepted_eq_false fun f hf heq => ?_
    obtain ⟨hfollower,hfollowing⟩ := names_eq_false.mp (h.forgotten f hf)
    cases hab with
    | inl ha => exact hfollower ((Prod.mk.inj heq).1.trans ha)
    | inr hb => exact hfollowing ((Prod.mk.inj heq).2.trans hb)
  have hfirst : decrementLocalFollowers m d = d :=
    decrement_of_none fun a _ => hnone a.apId m.oldActorApId (.inr rfl)
  unfold MoveGraph.decremented
  rw [hfirst]
  refine decrement_of_none fun a _ => ?_
  rw [hnone m.oldActorApId a.apId (.inl rfl),Bool.false_and]

theorem Settled.rewritten (h : Settled m d) : rewritten m e d.actors d.follows = d.follows := by
  have hfollower : oldAsFollower m d.follows = [] := by
    rw [List.eq_nil_iff_forall_not_mem]
    intro g hg
    obtain ⟨f,hf,hold,_,_,_⟩ := mem_oldAsFollower.mp hg
    exact (names_eq_false.mp (h.forgotten f hf)).1 hold
  have hfollowee : ∀ f ∈ d.follows, oldAsFollowee m d.follows f ≠ true := by
    intro f hf hmoves
    exact (names_eq_false.mp (h.forgotten f hf)).2 (oldAsFollowee_eq_true.mp hmoves).1
  have hlocal : localFollowers m e d.actors d.follows = [] := by
    rw [List.eq_nil_iff_forall_not_mem]
    intro g hg
    obtain ⟨f,hf,hmoves,_,_⟩ := mem_localFollowers.mp hg
    exact hfollowee f hf hmoves
  have hremote : remoteFollowers m d.actors d.follows = [] := by
    rw [List.eq_nil_iff_forall_not_mem]
    intro g hg
    obtain ⟨f,hf,hmoves,_,_⟩ := mem_remoteFollowers.mp hg
    exact hfollowee f hf hmoves
  simp [MoveGraph.rewritten,hfollower,hlocal,hremote]

theorem Settled.rewriteMovedFollowGraph (h : Settled m d)
    (hkeys : (d.follows.map FollowRow.edge).Nodup) (hne : m.oldActorApId ≠ m.newActorApId) :
    rewriteMovedFollowGraph m e d = d := by
  have hkept : Table.delete (names m) d.follows = d.follows := by
    unfold Table.delete
    rw [List.filter_eq_self]
    intro f hf
    rw [h.forgotten f hf,Bool.not_false]
  have hknown : Table.insertAllIgnore sameApId (localRefollows m e d.follows) d.activities =
      d.activities := by
    refine Table.insertAllIgnore_of_any fun a ha => ?_
    obtain ⟨f,hf,id,hid,rfl⟩ := mem_localRefollows.mp ha
    obtain ⟨b,hb,heq⟩ := h.recorded f hf id hid
    exact List.any_eq_true.mpr ⟨b,hb,(sameApId_iff _ b).mpr heq⟩
  rw [rewriteMovedFollowGraph_eq hkeys hne,h.rewritten,h.decremented,hkept,hknown]

theorem settled_rewriteMovedFollowGraph (hkeys : (d.follows.map FollowRow.edge).Nodup)
    (hne : m.oldActorApId ≠ m.newActorApId) : Settled m (rewriteMovedFollowGraph m e d) := by
  rw [rewriteMovedFollowGraph_eq hkeys hne]
  constructor
  case forgotten =>
    intro f hf
    exact names_eq_false.mpr (mem_after.mp hf).2
  case recorded =>
    intro f hf id hid
    have hnew : refollowActivity m e f.followerApId id ∈
        localRefollows m e (MoveGraph.rewritten m e d.actors d.follows) :=
      mem_localRefollows.mpr ⟨f,(mem_after.mp hf).1,id,hid,rfl⟩
    have hcongr : ∀ new a, sameApId new a = true →
        sameApId (refollowActivity m e f.followerApId id) a =
          sameApId (refollowActivity m e f.followerApId id) new := by
      intro new a heq
      rw [Bool.eq_iff_iff,sameApId_iff,sameApId_iff,(sameApId_iff new a).mp heq]
    have hany := Table.any_insertAllIgnore hcongr
      (localRefollows m e (MoveGraph.rewritten m e d.actors d.follows)) d.activities
    rw [List.any_eq_true.mpr ⟨_,hnew,(sameApId_iff _ _).mpr rfl⟩,Bool.or_true] at hany
    obtain ⟨a,ha,heq⟩ := List.any_eq_true.mp hany
    exact ⟨a,ha,(sameApId_iff _ a).mp heq⟩

end again

section pages

variable {σ ε : Type} {activities : List ActivityRow}

theorem filter_truthy {cursor : Option Text} (h : ∀ k ∈ cursor, k ≠ []) :
    cursor.filter (· ≠ []) = cursor := by
  cases cursor with
  | none => rfl
  | some k => simp [Option.filter,h k rfl]

theorem last_ne_nil {cursor : Option Text} {ids : List Text} (hids : ids.Nodup)
    (hfull : ¬(Keyset.page moveRefollowPageSize cursor ids).length < moveRefollowPageSize)
    {k : Text} (hk : (Keyset.page moveRefollowPageSize cursor ids).getLast? = some k) : k ≠ [] := by
  have hlen : 2 ≤ (Keyset.page moveRefollowPageSize cursor ids).length := by
    simp only [moveRefollowPageSize] at hfull ⊢
    omega
  obtain ⟨a,_,hlt⟩ := Keyset.exists_lt_last hids hlen hk
  rintro rfl
  exact List.not_lt_nil a hlt

theorem enqueueFrom_pages (hids : (refollowIds m activities).Nodup)
    (enqueueDeliveriesToActor : σ → List Text → Text → Except ε σ) (fuel : Nat)
    (cursor : Option Text) (found : Nat) (s : σ) (hcursor : ∀ k ∈ cursor, k ≠ [])
    (hfuel : (Keyset.left cursor (refollowIds m activities)).length < fuel) :
    ∃ pages : List (List Text),
      pages.flatten = Keyset.left cursor (refollowIds m activities) ∧
      enqueueFrom m enqueueDeliveriesToActor activities fuel cursor found s =
        some ((pages.foldlM (fun s page => enqueueDeliveriesToActor s page m.newActorApId)
          s).map fun s =>
            (s,found + (Keyset.left cursor (refollowIds m activities)).length)) := by
  induction fuel generalizing cursor found s with
  | zero => exact absurd hfuel (Nat.not_lt_zero _)
  | succ fuel ih =>
    unfold enqueueFrom
    simp only [filter_truthy hcursor]
    generalize hpage : Keyset.page moveRefollowPageSize cursor (refollowIds m activities) = page
    by_cases hshort : page.length < moveRefollowPageSize
    · have hleft : Keyset.left cursor (refollowIds m activities) = page := by
        rw [← hpage] at hshort ⊢
        exact Keyset.left_of_short hshort
      rw [hleft]
      by_cases hempty : page.length = 0
      · refine ⟨[],(List.length_eq_zero_iff.mp hempty).symm,?_⟩
        rw [if_pos hempty,hempty]
        rfl
      · refine ⟨[page],List.flatten_singleton,?_⟩
        rw [if_neg hempty,List.foldlM_cons]
        cases enqueueDeliveriesToActor s page m.newActorApId with
        | error thrown => rfl
        | ok s' =>
          simp only [if_pos hshort]
          rfl
    · have hempty : ¬page.length = 0 := by
        simp only [moveRefollowPageSize] at hshort
        omega
      have hfull := hshort
      rw [← hpage] at hfull
      obtain ⟨k,hk,hleft⟩ := Keyset.left_of_full hids (by decide) hfull
      have hne := last_ne_nil hids hfull hk
      rw [hpage] at hk hleft
      have hlen := congrArg List.length hleft
      rw [List.length_append] at hlen
      have htruthy : ∀ k' ∈ some k, k' ≠ [] := by
        intro k' hk'
        cases hk'
        exact hne
      rw [if_neg hempty,hk]
      cases hsent : enqueueDeliveriesToActor s page m.newActorApId with
      | error thrown =>
        obtain ⟨pages,hpages,_⟩ := ih (some k) found s htruthy (by omega)
        refine ⟨page :: pages,by rw [List.flatten_cons,hpages,hleft],?_⟩
        rw [List.foldlM_cons,hsent]
        rfl
      | ok s' =>
        obtain ⟨pages,hpages,hrun⟩ := ih (some k) (found + page.length) s' htruthy (by omega)
        refine ⟨page :: pages,by rw [List.flatten_cons,hpages,hleft],?_⟩
        simp only [if_neg hshort]
        rw [hrun,List.foldlM_cons,hsent,hlen,Nat.add_assoc]
        rfl

theorem enqueuePersistedMoveRefollows_pages (hids : (refollowIds m activities).Nodup)
    (enqueueDeliveriesToActor : σ → List Text → Text → Except ε σ) (s : σ) {fuel : Nat}
    (hfuel : (refollowIds m activities).length < fuel) :
    ∃ pages : List (List Text), pages.flatten.Nodup ∧
      pages.flatten.Perm (refollowIds m activities) ∧
      enqueuePersistedMoveRefollows m enqueueDeliveriesToActor activities fuel s =
        some ((pages.foldlM (fun s page => enqueueDeliveriesToActor s page m.newActorApId)
          s).map fun s => (s,(refollowIds m activities).length)) := by
  have hperm := Keyset.perm_left_none (refollowIds m activities)
  obtain ⟨pages,hpages,hrun⟩ := enqueueFrom_pages hids enqueueDeliveriesToActor fuel none 0 s
    (by simp) (by rw [hperm.length_eq]; exact hfuel)
  rw [hperm.length_eq,Nat.zero_add] at hrun
  refine ⟨pages,?_,?_,hrun⟩
  · rw [hpages]
    exact hperm.nodup_iff.mpr hids
  · rw [hpages]
    exact hperm

theorem nodup_refollowIds (h : (activities.map ActivityRow.apId).Nodup) :
    (refollowIds m activities).Nodup := h.sublist (List.Sublist.map _ List.filter_sublist)

end pages

/-- A move of a remote actor to another: what it makes of the graph, that a second run changes
nothing, and that a call hands over each recorded re-Follow once. -/
theorem rewriteMovedFollowGraph_moves (m : Move) (e : Engine) (d : Db) (h : Consistent d)
    (hne : m.oldActorApId ≠ m.newActorApId) (hold : isLocal d.actors m.oldActorApId = false)
    (hnew : isLocal d.actors m.newActorApId = false) :
    Moved m e d (rewriteMovedFollowGraph m e d) ∧
    (∀ e' : Engine, rewriteMovedFollowGraph m e' (rewriteMovedFollowGraph m e d) =
      rewriteMovedFollowGraph m e d) ∧
    ∀ (σ ε : Type) (enqueueDeliveriesToActor : σ → List Text → Text → Except ε σ) (s : σ)
      (fuel : Nat),
      (refollowIds m (rewriteMovedFollowGraph m e d).activities).length < fuel →
      ∃ pages : List (List Text), pages.flatten.Nodup ∧
        pages.flatten.Perm (refollowIds m (rewriteMovedFollowGraph m e d).activities) ∧
        enqueuePersistedMoveRefollows m enqueueDeliveriesToActor
            (rewriteMovedFollowGraph m e d).activities fuel s =
          some ((pages.foldlM (fun s page => enqueueDeliveriesToActor s page m.newActorApId)
            s).map fun s =>
              (s,(refollowIds m (rewriteMovedFollowGraph m e d).activities).length)) := by
  have hmoved := moved_rewriteMovedFollowGraph (e := e) h hne hold hnew
  refine ⟨hmoved,?_,?_⟩
  · intro e'
    exact (settled_rewriteMovedFollowGraph h.edges hne).rewriteMovedFollowGraph
      hmoved.consistent.edges hne
  · intro σ ε enqueueDeliveriesToActor s fuel hfuel
    exact enqueuePersistedMoveRefollows_pages
      (nodup_refollowIds hmoved.consistent.activityIds) enqueueDeliveriesToActor s hfuel

section concrete

def alice : Text := "https://here.example/ap/users/alice".toList

def bob : Text := "https://there.example/users/bob".toList

def firstMove : Move where
  oldActorApId := "https://old.example/users/carol".toList
  newActorApId := "https://new.example/users/carol".toList
  refollowPrefix := "https://here.example/ap/activities/move-refollow-5d-".toList

def firstEngine : Engine where
  random y := List.replicate 63 '0' ++ [if y = alice then 'a' else if y = bob then 'b' else
    if y = firstMove.oldActorApId then 'c' else 'd']
  now := "2026-01-02 03:04:05".toList

/-- The old id and a local actor follow each other; the new id has asked to follow it. -/
def firstDb : Db where
  actors := [⟨alice,false,1,1⟩]
  follows :=
    [⟨alice,firstMove.oldActorApId,.accepted,none,"2026-01-01T00:00:00.000Z".toList,none⟩,
      ⟨firstMove.oldActorApId,alice,.accepted,none,"2026-01-01T00:00:00.000Z".toList,none⟩,
      ⟨firstMove.newActorApId,alice,.pending,none,"2026-01-01T00:00:00.000Z".toList,none⟩,
      ⟨bob,firstMove.oldActorApId,.accepted,none,"2026-01-01T00:00:00.000Z".toList,none⟩]
  activities := []

theorem wellFormed_firstDb : Consistent firstDb ∧ Fresh firstMove firstEngine firstDb := by
  refine ⟨⟨by decide +kernel,List.nodup_nil,fun column a ha => ?_⟩,
    fun f hf => ⟨?_,?_,fun a ha => absurd ha List.not_mem_nil⟩⟩
  · cases List.mem_singleton.mp ha
    cases column with
    | followers => decide +kernel
    | following => decide +kernel
  · revert f
    decide +kernel
  · revert f
    decide +kernel

theorem rewriteMovedFollowGraph_moves_first :
    Moved firstMove firstEngine firstDb (rewriteMovedFollowGraph firstMove firstEngine firstDb) ∧
      refollowActivity firstMove firstEngine alice
          (firstMove.refollowPrefix ++ firstEngine.random alice) ∈
        (rewriteMovedFollowGraph firstMove firstEngine firstDb).activities := by
  have h := rewriteMovedFollowGraph_moves firstMove firstEngine firstDb wellFormed_firstDb.1
    (by decide +kernel) (by decide +kernel) (by decide +kernel)
  refine ⟨h.1,?_⟩
  have hfollowee := h.1.asFollowee _ List.mem_cons_self rfl (by decide +kernel)
    (by decide +kernel)
  rw [if_neg (by decide +kernel),if_pos (by decide +kernel)] at hfollowee
  exact (hfollowee.2 wellFormed_firstDb.2).1

/-- The old id follows itself; a remote actor follows it, and has asked to follow the new one. -/
def overlappingDb : Db where
  actors := []
  follows :=
    [⟨bob,firstMove.oldActorApId,.accepted,none,"2026-01-01T00:00:00.000Z".toList,none⟩,
      ⟨bob,firstMove.newActorApId,.pending,none,"2026-01-01T00:00:00.000Z".toList,none⟩,
      ⟨firstMove.oldActorApId,firstMove.oldActorApId,.accepted,none,
        "2026-01-01T00:00:00.000Z".toList,none⟩]
  activities := []

/-- The status of a remote follower's edge is lost to the one the new id had, and an edge of the
old id with itself is no edge of the new one. -/
theorem rewriteMovedFollowGraph_overlapping :
    ∃ (m : Move) (e : Engine) (d : Db), Consistent d ∧ m.oldActorApId ≠ m.newActorApId ∧
      isLocal d.actors m.oldActorApId = false ∧ isLocal d.actors m.newActorApId = false ∧
      (∃ f ∈ d.follows, f.followingApId = m.oldActorApId ∧ f.followerApId ≠ m.newActorApId ∧
        isLocal d.actors f.followerApId = false ∧
        ∀ g ∈ (rewriteMovedFollowGraph m e d).follows,
          g.edge = (f.followerApId,m.newActorApId) → g.status ≠ f.status) ∧
      ∃ f ∈ d.follows, f.followerApId = m.oldActorApId ∧ f.followingApId ≠ m.newActorApId ∧
        ∀ g ∈ (rewriteMovedFollowGraph m e d).follows,
          g.edge ≠ (m.newActorApId,f.followingApId) := by
  refine ⟨firstMove,firstEngine,overlappingDb,⟨by decide +kernel,List.nodup_nil,?_⟩,
    by decide +kernel,rfl,rfl,?_,?_⟩
  · intro column a ha
    exact absurd ha List.not_mem_nil
  · refine ⟨_,List.mem_cons_self,rfl,by decide +kernel,rfl,?_⟩
    decide +kernel
  · refine ⟨_,List.mem_cons_of_mem _ (List.mem_cons_of_mem _ List.mem_cons_self),rfl,
      by decide +kernel,?_⟩
    decide +kernel

end concrete

end Yurucommu.MoveGraph
