import Yurucommu.FollowCounts

/-!
Which batches keep the counts of followers and following equal to the numbers of accepted edges.
-/

set_option autoImplicit false

namespace Yurucommu.FollowCounts

open Whatwg (Text)
open ActorIdentity (activityPubActorIdentityMatchesSql)
open Interactions (FollowStatus FollowRow sameFollow)

section identity

/-- Two ids are spellings of one actor, as SQL compares them. -/
def Same (left right : Text) : Prop := left ∈ activityPubActorIdentityMatchesSql [left] right

theorem mem_matches {candidates : List Text} {x y : Text} :
    x ∈ activityPubActorIdentityMatchesSql candidates y ↔ x ∈ candidates ∧ Same x y := by
  simp [Same,activityPubActorIdentityMatchesSql]

theorem Same.refl (x : Text) : Same x x := by
  simp [Same,activityPubActorIdentityMatchesSql,ActorIdentity.Sql.values]

theorem direction_iff {follower following : Text} {rows : List FollowRow} {f : FollowRow}
    (hf : f ∈ rows) : direction follower following rows f = true ↔
      (f.followerApId = follower ∧ Same f.followingApId following) ∨
        (f.followingApId = following ∧ Same f.followerApId follower) := by
  simp only [direction,Bool.or_eq_true,Bool.and_eq_true,decide_eq_true_eq,mem_matches]
  constructor
  · rintro (⟨hfollower,_,hsame⟩ | ⟨hfollowing,_,hsame⟩)
    · exact .inl ⟨hfollower,hsame⟩
    · exact .inr ⟨hfollowing,hsame⟩
  · rintro (⟨hfollower,hsame⟩ | ⟨hfollowing,hsame⟩)
    · refine .inl ⟨hfollower,?_,hsame⟩
      exact List.mem_map.mpr ⟨f,List.mem_filter.mpr ⟨hf,by simpa using hfollower⟩,rfl⟩
    · refine .inr ⟨hfollowing,?_,hsame⟩
      exact List.mem_map.mpr ⟨f,List.mem_filter.mpr ⟨hf,by simpa using hfollowing⟩,rfl⟩

theorem actorIdentity_iff {apId : Text} {actors : List ActorRow} {a : ActorRow} (ha : a ∈ actors) :
    actorIdentity apId actors a = true ↔ Same a.apId apId := by
  simp only [actorIdentity,decide_eq_true_eq,mem_matches]
  exact ⟨fun h => h.2,fun h => ⟨List.mem_map_of_mem ha,h⟩⟩

end identity

section columns

def Column.endpoint : Column → Text → Text → Text
  | .followers,_,right => right
  | .following,left,_ => left

variable {column : Column} {d : Db} {rows : Column → List FollowRow} {rows' : List FollowRow}
  {cond : ActorRow → Bool} {n : ActorRow → Nat} {apId : Text} {guard : Bool}

def tally (column : Column) (rows : List FollowRow) (k : Text) : Nat := (counter column).tally rows k

/-- Each column counts rows of its own: those of the table while no statement has run. -/
def Tallies (rows : Column → List FollowRow) (d : Db) : Prop :=
  ∀ column, (counter column).Exact d.actors (rows column)

theorem count_setCount_of_ne {column' : Column} (h : column' ≠ column) (m : Nat) (a : ActorRow) :
    (a.setCount column m).count column' = a.count column' := by
  cases column <;> cases column' <;> first | rfl | exact absurd rfl h

theorem here_setCounts : Here (setCounts column cond n d) apId ↔ Here d apId := by
  constructor
  · rintro ⟨a',ha',rfl⟩
    obtain ⟨a,ha,rfl⟩ := List.mem_map.mp ha'
    refine ⟨a,ha,?_⟩
    split
    · exact (apId_setCount column _ a).symm
    · rfl
  · rintro ⟨a,ha,rfl⟩
    refine ⟨_,List.mem_map.mpr ⟨a,ha,rfl⟩,?_⟩
    split
    · exact apId_setCount column _ a
    · rfl

theorem Tallies.setCounts (h : Tallies rows d) (column : Column) (rows' : List FollowRow)
    (cond : ActorRow → Bool)
    (hn : ∀ a ∈ d.actors, a.count column = tally column (rows column) a.apId →
      (if cond a then n a else a.count column) = tally column rows' a.apId) :
    Tallies (Function.update rows column rows') (setCounts column cond n d) := by
  intro column'
  by_cases hcolumn : column' = column
  · subst hcolumn
    rw [Function.update_self]
    exact (h column').adjust hn
  · rw [Function.update_of_ne hcolumn]
    exact (h column').update (fun a => count_setCount_of_ne hcolumn _ a)
      (fun a => apId_setCount column _ a)

theorem Tallies.stay (h : Tallies rows d) (column : Column) (rows' : List FollowRow)
    (hrows : ∀ k, Here d k → tally column rows' k = tally column (rows column) k) :
    Tallies (Function.update rows column rows') d := by
  intro column'
  by_cases hcolumn : column' = column
  · subst hcolumn
    rw [Function.update_self]
    exact (h column').of_tally fun a ha => hrows a.apId ⟨a,ha,rfl⟩
  · rw [Function.update_of_ne hcolumn]
    exact h column'

theorem Tallies.increment (h : Tallies rows d) (column : Column) (rows' : List FollowRow)
    (apId : Text) (guard : Bool)
    (hrows : ∀ k, Here d k → tally column rows' k =
      tally column (rows column) k + if k = apId ∧ guard = true then 1 else 0) :
    Tallies (Function.update rows column rows') (increment column apId guard d) := by
  refine h.setCounts _ _ _ ?_
  intro a ha hcount
  have hk := hrows a.apId ⟨a,ha,rfl⟩
  by_cases htrue : a.apId = apId ∧ guard = true
  · rw [if_pos htrue] at hk
    rw [if_pos (by simpa using htrue)]
    omega
  · rw [if_neg htrue] at hk
    rw [if_neg (by simpa using htrue)]
    omega

theorem Tallies.decrement (h : Tallies rows d) (column : Column) (rows' : List FollowRow)
    (apId : Text) (guard : Bool)
    (hrows : ∀ k, Here d k → tally column (rows column) k =
      tally column rows' k + if k = apId ∧ guard = true then 1 else 0) :
    Tallies (Function.update rows column rows') (decrement column apId guard d) := by
  refine h.setCounts _ _ _ ?_
  intro a ha hcount
  have hk := hrows a.apId ⟨a,ha,rfl⟩
  by_cases htrue : a.apId = apId ∧ guard = true
  · rw [if_pos htrue] at hk
    have hpos : 0 < a.count column := by omega
    rw [if_pos (by simp [htrue.1,htrue.2,hpos])]
    omega
  · rw [if_neg htrue] at hk
    rw [if_neg (by
      simp only [Bool.and_eq_true,decide_eq_true_eq]
      exact fun hc => htrue ⟨hc.1.1,hc.2⟩)]
    omega

/-- Every actor that `apId` names loses `k` rows, and no other actor loses one. -/
theorem Tallies.subtract (h : Tallies rows d) (column : Column) (rows' : List FollowRow)
    (apId : Text) (k : Nat)
    (hrows : ∀ x, Here d x → (Same x apId → tally column (rows column) x = tally column rows' x + k) ∧
      (¬Same x apId → tally column (rows column) x = tally column rows' x)) :
    Tallies (Function.update rows column rows') (subtract column apId k d) := by
  refine h.setCounts _ _ _ ?_
  intro a ha hcount
  obtain ⟨hsame,hother⟩ := hrows a.apId ⟨a,ha,rfl⟩
  by_cases hid : Same a.apId apId
  · have hk := hsame hid
    have hidentity := (actorIdentity_iff ha).mpr hid
    by_cases hpos : 0 < a.count column
    · rw [if_pos (by simp [hidentity,hpos])]
      omega
    · rw [if_neg (by simp [hpos])]
      omega
  · have hk := hother hid
    have hidentity : actorIdentity apId d.actors a = false := by
      rw [Bool.eq_false_iff]
      exact fun htrue => hid ((actorIdentity_iff ha).mp htrue)
    rw [if_neg (by simp [hidentity])]
    omega

theorem Tallies.reconcile (h : Tallies rows d) (column : Column) (rows' : List FollowRow)
    (apId : Text) (eligible k : Nat)
    (hrows : ∀ x, Here d x →
      (Same x apId → tally column rows' x + k = tally column (rows column) x + eligible) ∧
      (¬Same x apId → tally column rows' x = tally column (rows column) x)) :
    Tallies (Function.update rows column rows') (reconcile column apId eligible k d) := by
  refine h.setCounts _ _ _ ?_
  intro a ha hcount
  obtain ⟨hsame,hother⟩ := hrows a.apId ⟨a,ha,rfl⟩
  by_cases hid : Same a.apId apId
  · have hk := hsame hid
    rw [if_pos ((actorIdentity_iff ha).mpr hid)]
    omega
  · have hk := hother hid
    rw [if_neg (fun htrue => hid ((actorIdentity_iff ha).mp htrue))]
    omega

end columns

structure Kept (d : Db) : Prop where
  keys : (keys d.follows).Nodup
  exact : Exact d

section rows

variable {column : Column} {rows : List FollowRow} {follower following k : Text} {now : Nat}

theorem sameFollow_iff {f : FollowRow} : sameFollow follower following f = true ↔
    f.followerApId = follower ∧ f.followingApId = following := by
  simp [sameFollow]

theorem key_of_same (column : Column) {f : FollowRow} (h : sameFollow follower following f = true) :
    column.key f = column.endpoint follower following := by
  obtain ⟨rfl,rfl⟩ := sameFollow_iff.mp h
  cases column <;> rfl

theorem countP_key (follower following : Text) {q : FollowRow → Bool} (h : (keys rows).Nodup)
    (hq : ∀ f ∈ rows, q f = true → sameFollow follower following f = true) :
    rows.countP q = if rows.any q then 1 else 0 := by
  refine Counter.countP_eq_any h ?_
  intro f hf f' hf' ht ht'
  obtain ⟨hfollower,hfollowing⟩ := sameFollow_iff.mp (hq f hf ht)
  obtain ⟨hfollower',hfollowing'⟩ := sameFollow_iff.mp (hq f' hf' ht')
  rw [hfollower,hfollowing,hfollower',hfollowing']

theorem tally_append (f : FollowRow) : tally column (rows ++ [f]) k =
    tally column rows k + if k = column.key f ∧ f.status = .accepted then 1 else 0 := by
  unfold tally
  rw [Counter.tally_append,Counter.tally_singleton]
  congr 1
  simp only [Counter.of,counter,Bool.and_eq_true,decide_eq_true_eq]
  by_cases hk : k = column.key f
  · simp [hk]
  · simp [hk,Ne.symm hk]

theorem tally_delete_key (column : Column) (follower following k : Text)
    (h : (keys rows).Nodup) : tally column rows k =
    tally column (Table.delete (sameFollow follower following) rows) k +
      if k = column.endpoint follower following ∧
        rows.any (fun f => sameFollow follower following f && f.status = .accepted) = true then 1
      else 0 := by
  unfold tally
  rw [Counter.tally_delete _ (sameFollow follower following) rows k]
  congr 1
  rw [countP_key follower following h]
  · by_cases hk : k = column.endpoint follower following
    · subst hk
      have hany : rows.any (fun f => (counter column).of (column.endpoint follower following) f &&
          sameFollow follower following f) =
            rows.any fun f => sameFollow follower following f && f.status = .accepted := by
        congr 1
        funext f
        cases hf : sameFollow follower following f with
        | false => simp
        | true => simp [Counter.of,counter,key_of_same column hf]
      simp [hany]
    · have hany : rows.any (fun f => (counter column).of k f && sameFollow follower following f) =
          false := by
        rw [List.any_eq_false]
        intro f _ htrue
        rw [Bool.and_eq_true] at htrue
        have hkey : column.key f = k := by
          have hof := htrue.1
          simp only [Counter.of,Bool.and_eq_true,decide_eq_true_eq] at hof
          exact hof.2
        exact hk (hkey.symm.trans (key_of_same _ htrue.2))
      simp [hany,hk]
  · intro f _ htrue
    rw [Bool.and_eq_true] at htrue
    exact htrue.2

def flipped (follower following : Text) (now : Nat) (rows : List FollowRow) : List FollowRow :=
  Table.update (fun f => sameFollow follower following f && f.status = .pending)
    (fun f => { f with status := .accepted, acceptedAt := some now }) rows

theorem tally_flipped (column : Column) (follower following k : Text) (now : Nat)
    (h : (keys rows).Nodup) : tally column (flipped follower following now rows) k =
    tally column rows k +
      if k = column.endpoint follower following ∧
        rows.any (fun f => sameFollow follower following f && f.status = .pending) = true then 1
      else 0 := by
  unfold tally flipped
  rw [Counter.tally_update]
  · congr 1
    rw [countP_key follower following h]
    · by_cases hk : k = column.endpoint follower following
      · subst hk
        have hany : rows.any (fun f => (sameFollow follower following f && f.status = .pending) &&
            decide ((counter column).key f = column.endpoint follower following)) =
              rows.any fun f => sameFollow follower following f && f.status = .pending := by
          congr 1
          funext f
          cases hf : sameFollow follower following f with
          | false => simp
          | true => simp [counter,key_of_same column hf]
        simp [hany]
      · have hany : rows.any (fun f => (sameFollow follower following f && f.status = .pending) &&
            decide ((counter column).key f = k)) = false := by
          rw [List.any_eq_false]
          intro f _ htrue
          simp only [Bool.and_eq_true,decide_eq_true_eq] at htrue
          have hkey : column.key f = k := htrue.2
          exact hk (hkey.symm.trans (key_of_same _ htrue.1.1))
        simp [hany,hk]
    · intro f _ htrue
      simp only [Bool.and_eq_true] at htrue
      exact htrue.1.1
  · intro f hf
    simp only [Bool.and_eq_true,decide_eq_true_eq] at hf
    refine ⟨?_,rfl,?_⟩
    · simp [counter,hf.2]
    · cases column <;> rfl

theorem keys_flipped (h : (keys rows).Nodup) : (keys (flipped follower following now rows)).Nodup := by
  have hsame : keys (flipped follower following now rows) = keys rows := by
    unfold keys flipped Table.update
    rw [List.map_map]
    refine List.map_congr_left fun f _ => ?_
    simp only [Function.comp_apply]
    split <;> rfl
  rw [hsame]
  exact h

theorem keys_delete (cond : FollowRow → Bool) (h : (keys rows).Nodup) :
    (keys (Table.delete cond rows)).Nodup :=
  h.sublist (List.Sublist.map _ List.filter_sublist)

theorem keys_append {f : FollowRow} (h : (keys rows).Nodup)
    (hf : rows.any (sameFollow f.followerApId f.followingApId) = false) :
    (keys (rows ++ [f])).Nodup := by
  unfold keys at h ⊢
  rw [List.map_append,List.nodup_append]
  refine ⟨h,by simp,?_⟩
  intro x hx y hy heq
  obtain ⟨f',hf',rfl⟩ := List.mem_map.mp hx
  rw [List.map_singleton,List.mem_singleton] at hy
  subst hy
  obtain ⟨hfollower,hfollowing⟩ := Prod.mk.inj heq
  exact List.any_eq_false.mp hf f' hf' (sameFollow_iff.mpr ⟨hfollower,hfollowing⟩)

theorem keys_insertIgnore {f : FollowRow} (h : (keys rows).Nodup) :
    (keys (Table.insertIgnore (sameFollow f.followerApId f.followingApId) f rows)).Nodup := by
  unfold Table.insertIgnore
  split
  · exact h
  · rename_i hany
    exact keys_append h (by simpa using hany)

end rows

section batches

variable {column : Column} {d : Db} {rows : Column → List FollowRow} {follows : List FollowRow}
  {follower following apId id : Text} {status : FollowStatus} {now : Nat} {w : Site}

theorem Kept.tallies (h : Kept d) : Tallies (fun _ => d.follows) d := h.exact

theorem Tallies.kept (h : Tallies rows d) (follows : List FollowRow)
    (hrows : ∀ column, rows column = follows) (hkeys : (FollowCounts.keys follows).Nodup) :
    Kept { d with follows := follows } := by
  refine ⟨hkeys,?_⟩
  intro column
  have hexact := h column
  rw [hrows column] at hexact
  exact hexact

theorem Kept.stay (h : Kept d) (hkeys : (FollowCounts.keys follows).Nodup)
    (hrows : ∀ column k, Here d k → tally column follows k = tally column d.follows k) :
    Kept { d with follows := follows } :=
  ⟨hkeys,fun column => (h.exact column).of_tally fun a ha => hrows column a.apId ⟨a,ha,rfl⟩⟩

theorem Kept.append_uncounted {f : FollowRow} (h : Kept d) (hf : f.status ≠ .accepted)
    (hany : d.follows.any (sameFollow f.followerApId f.followingApId) = false) :
    Kept (addFollow f d) := by
  refine h.stay (keys_append h.keys hany) ?_
  intro column k _
  rw [tally_append,if_neg (fun htrue => hf htrue.2)]
  omega

theorem Kept.insertIgnore_uncounted {f : FollowRow} (h : Kept d)
    (hf : f.status = .accepted → ¬Here d f.followerApId ∧ ¬Here d f.followingApId) :
    Kept (insertIgnore f d) := by
  refine h.stay (keys_insertIgnore h.keys) ?_
  intro column k hk
  unfold Table.insertIgnore
  split
  · rfl
  · rw [tally_append,if_neg]
    · omega
    · rintro ⟨rfl,hstatus⟩
      cases column with
      | followers => exact (hf hstatus).2 hk
      | following => exact (hf hstatus).1 hk

theorem Kept.insertLocal (h : Kept d) : Kept (insertLocal follower following status id now d) := by
  unfold FollowCounts.insertLocal
  split
  · exact h
  · rename_i hany
    have hany : d.follows.any (sameFollow follower following) = false := by simpa using hany
    have habsent : edgeAbsent follower following d = true := by simp [edgeAbsent,hany]
    cases status with
    | accepted =>
      let f : FollowRow := ⟨follower,following,.accepted,some id,some now⟩
      have hfollowing := h.tallies.increment .following (d.follows ++ [f]) follower
        (edgeAbsent follower following d) fun k _ => by
          rw [tally_append,habsent]
          simp [f,Column.key]
      have hboth := hfollowing.increment .followers (d.follows ++ [f]) following
        (edgeAbsent follower following d) fun k _ => by
          rw [Function.update_of_ne (by decide),tally_append,habsent]
          simp [f,Column.key]
      refine hboth.kept _ ?_ (keys_append h.keys hany)
      intro column
      cases column <;> rfl
    | pending => exact h.append_uncounted (by simp) hany
    | rejected => exact h.append_uncounted (by simp) hany

theorem Kept.insertRemote (h : Kept d) : Kept (insertRemote follower following id d) := by
  unfold FollowCounts.insertRemote
  split
  · exact h
  · rename_i hany
    exact h.append_uncounted (by simp) (by simpa using hany)

theorem Kept.insertInbound (h : Kept d) (hsigner : ¬Here d follower) :
    Kept (insertInbound follower following status id now d) := by
  unfold FollowCounts.insertInbound
  cases status with
  | accepted =>
    let f : FollowRow := ⟨follower,following,.accepted,some id,some now⟩
    let follows' := Table.insertIgnore (sameFollow follower following) f d.follows
    have htally : ∀ column k, tally column follows' k = tally column d.follows k +
        if k = column.key f ∧ edgeAbsent follower following d = true then 1 else 0 := by
      intro column k
      unfold edgeAbsent
      cases hany : d.follows.any (sameFollow follower following) with
      | true =>
        simp only [follows',Table.insertIgnore_of_any f hany]
        simp
      | false =>
        simp only [follows',Table.insertIgnore_of_not_any f hany,tally_append]
        simp [f]
    have hfollowers := h.tallies.increment .followers follows' following
      (edgeAbsent follower following d) fun k _ => htally .followers k
    have hboth := hfollowers.stay .following follows' fun k hk => by
      rw [Function.update_of_ne (by decide),htally .following k,if_neg]
      · rfl
      · rintro ⟨rfl,_⟩
        exact hsigner (here_setCounts.mp hk)
    refine hboth.kept _ ?_ (keys_insertIgnore (f := f) h.keys)
    intro column
    cases column <;> rfl
  | pending => exact h.insertIgnore_uncounted (by simp)
  | rejected => exact h.insertIgnore_uncounted (by simp)

theorem Kept.accept (h : Kept d) (hlocal : ∀ k, Here d k → w.isLocal k = true) :
    Kept (accept w following follower now d) := by
  have htally := fun column k => tally_flipped column follower following k now h.keys
  have hfollowers := h.tallies.increment .followers (flipped follower following now d.follows)
    following (has .pending follower following d) fun k _ => htally .followers k
  unfold FollowCounts.accept
  simp only
  split
  · have hboth := hfollowers.increment .following (flipped follower following now d.follows)
      follower (has .pending follower following d) fun k _ => htally .following k
    refine hboth.kept _ ?_ (keys_flipped h.keys)
    intro column
    cases column <;> rfl
  · rename_i hremote
    have hboth := hfollowers.stay .following (flipped follower following now d.follows)
      fun k hk => by
        rw [Function.update_of_ne (by decide),htally .following k,if_neg]
        · rfl
        · rintro ⟨rfl,_⟩
          exact hremote (hlocal _ (here_setCounts.mp hk))
    refine hboth.kept _ ?_ (keys_flipped h.keys)
    intro column
    cases column <;> rfl

theorem Kept.delete_uncounted (h : Kept d) (hnone : has .accepted follower following d = false) :
    Kept (deleteFollows (sameFollow follower following) d) := by
  refine h.stay (keys_delete _ h.keys) ?_
  intro column k _
  have hk := tally_delete_key column follower following k h.keys
  unfold has at hnone
  rw [hnone] at hk
  simpa using hk.symm

theorem Kept.unfollow {wasAccepted : Bool} (h : Kept d)
    (hlocal : ∀ k, Here d k → w.isLocal k = true)
    (hcounted : wasAccepted = true ∨ has .accepted follower following d = false) :
    Kept (unfollow w follower following wasAccepted d) := by
  have htally := fun column k => tally_delete_key column follower following k h.keys
  unfold FollowCounts.unfollow
  simp only
  cases wasAccepted with
  | false => exact h.delete_uncounted (by simpa using hcounted)
  | true =>
    let follows' := Table.delete (sameFollow follower following) d.follows
    have hfollowing := h.tallies.decrement .following follows' follower
      (has .accepted follower following d) fun k _ => htally .following k
    rw [if_pos rfl]
    split
    · have hboth := hfollowing.decrement .followers follows' following
        (has .accepted follower following d) fun k _ => htally .followers k
      refine hboth.kept _ ?_ (keys_delete _ h.keys)
      intro column
      cases column <;> rfl
    · rename_i hremote
      have hboth := hfollowing.stay .followers follows' fun k hk => by
        rw [Function.update_of_ne (by decide),htally .followers k,if_neg]
        · rfl
        · rintro ⟨rfl,_⟩
          exact hremote (hlocal _ (here_setCounts.mp hk))
      refine hboth.kept _ ?_ (keys_delete _ h.keys)
      intro column
      cases column <;> rfl

end batches

section identity

variable {column : Column} {d : Db} {follower following x : Text} {now : Nat}

def Stored (d : Db) (apId : Text) : Prop :=
  Here d apId ∨ ∃ f ∈ d.follows, f.followerApId = apId ∨ f.followingApId = apId

def Canonical (d : Db) : Prop :=
  ∀ apId left right, Stored d left → Stored d right → Same left apId → Same right apId →
    left = right

theorem direction_key (h : Canonical d) (hx : Here d x) {f : FollowRow} (hf : f ∈ d.follows)
    (hdirection : direction follower following d.follows f = true) :
    column.key f = x ↔ Same x (column.endpoint follower following) := by
  have hfollower : Stored d f.followerApId := .inr ⟨f,hf,.inl rfl⟩
  have hfollowing : Stored d f.followingApId := .inr ⟨f,hf,.inr rfl⟩
  have hends : Same f.followerApId follower ∧ Same f.followingApId following := by
    rcases (direction_iff hf).mp hdirection with ⟨rfl,hsame⟩ | ⟨rfl,hsame⟩
    · exact ⟨.refl _,hsame⟩
    · exact ⟨hsame,.refl _⟩
  cases column with
  | followers =>
    constructor
    · rintro rfl
      exact hends.2
    · exact fun hsame => h _ _ _ hfollowing (.inl hx) hends.2 hsame
  | following =>
    constructor
    · rintro rfl
      exact hends.1
    · exact fun hsame => h _ _ _ hfollower (.inl hx) hends.1 hsame

theorem tally_sever (column : Column) (h : Canonical d) (hx : Here d x) :
    (Same x (column.endpoint follower following) → tally column d.follows x =
      tally column (Table.delete (direction follower following d.follows) d.follows) x +
        acceptedEdgeCount follower following d) ∧
    (¬Same x (column.endpoint follower following) → tally column d.follows x =
      tally column (Table.delete (direction follower following d.follows) d.follows) x) := by
  have htake := (counter column).tally_delete (direction follower following d.follows) d.follows x
  refine ⟨?_,?_⟩
  · intro hsame
    have hcount : (d.follows.countP fun f =>
        (counter column).of x f && direction follower following d.follows f) =
          acceptedEdgeCount follower following d := by
      unfold acceptedEdgeCount
      refine List.countP_congr fun f hf => ?_
      simp only [Counter.of,Bool.and_eq_true]
      constructor
      · rintro ⟨⟨hstatus,_⟩,hdirection⟩
        exact ⟨hdirection,hstatus⟩
      · rintro ⟨hdirection,hstatus⟩
        exact ⟨⟨hstatus,decide_eq_true ((direction_key h hx hf hdirection).mpr hsame)⟩,hdirection⟩
    rw [hcount] at htake
    exact htake
  · intro hother
    have hcount : (d.follows.countP fun f =>
        (counter column).of x f && direction follower following d.follows f) = 0 := by
      rw [List.countP_eq_zero]
      intro f hf htrue
      simp only [Counter.of,Bool.and_eq_true] at htrue
      exact hother ((direction_key h hx hf htrue.2).mp (of_decide_eq_true htrue.1.2))
    rw [hcount] at htake
    exact htake

theorem Kept.sever (h : Kept d) (hc : Canonical d) :
    Kept (severFollowDirection follower following d) := by
  let follows' := Table.delete (direction follower following d.follows) d.follows
  have hfollowing := h.tallies.subtract .following follows' follower
    (acceptedEdgeCount follower following d) fun x hx =>
      tally_sever .following hc hx
  have hboth := hfollowing.subtract .followers follows' following
    (acceptedEdgeCount follower following d) fun x hx =>
      tally_sever .followers hc (here_setCounts.mp hx)
  refine hboth.kept _ ?_ (keys_delete _ h.keys)
  intro column
  cases column <;> rfl

theorem here_sever : Here (severFollowDirection follower following d) x ↔ Here d x := by
  have htwice : Here (subtract .followers following (acceptedEdgeCount follower following d)
      (subtract .following follower (acceptedEdgeCount follower following d) d)) x ↔ Here d x :=
    here_setCounts.trans here_setCounts
  exact htwice

theorem Canonical.sever (h : Canonical d) :
    Canonical (severFollowDirection follower following d) := by
  have hstored : ∀ apId, Stored (severFollowDirection follower following d) apId → Stored d apId := by
    rintro apId (hhere | ⟨f,hf,hend⟩)
    · exact .inl (here_sever.mp hhere)
    · exact .inr ⟨f,(List.mem_filter.mp hf).1,hend⟩
  exact fun apId left right hleft hright => h apId left right (hstored left hleft) (hstored right hright)

theorem Kept.severPair (h : Kept d) (hc : Canonical d) :
    Kept (severFollowPair follower following d) := (h.sever hc).sever hc.sever

theorem countP_or {p q : FollowRow → Bool} {rows : List FollowRow}
    (h : ∀ f, p f = true → q f = false) :
    (rows.countP fun f => p f || q f) = rows.countP p + rows.countP q := by
  induction rows with
  | nil => rfl
  | cons f rows ih =>
    rw [List.countP_cons,List.countP_cons,List.countP_cons,ih]
    cases hp : p f with
    | true =>
      rw [h f hp]
      simp only [Bool.true_or,if_true,Bool.false_eq_true,if_false]
      omega
    | false =>
      simp only [Bool.false_or,Bool.false_eq_true,if_false]
      omega

theorem Kept.acceptRetained (h : Kept d)
    (hfollower : ∀ x, Stored d x → Same x follower → x = follower)
    (hfollowing : ∀ x, Stored d x → Same x following → x = following) :
    Kept (acceptRetainedFollowDirection follower following now d) := by
  have hsame : ∀ f ∈ d.follows,
      direction follower following d.follows f = sameFollow follower following f := by
    intro f hf
    rw [Bool.eq_iff_iff,direction_iff hf,sameFollow_iff]
    constructor
    · rintro (⟨rfl,hend⟩ | ⟨rfl,hend⟩)
      · exact ⟨rfl,hfollowing _ (.inr ⟨f,hf,.inr rfl⟩) hend⟩
      · exact ⟨hfollower _ (.inr ⟨f,hf,.inl rfl⟩) hend,rfl⟩
    · rintro ⟨rfl,rfl⟩
      exact .inl ⟨rfl,.refl _⟩
  have hnone : Table.delete (fun f => direction follower following d.follows f &&
      !sameFollow follower following f) d.follows = d.follows := by
    refine List.filter_eq_self.mpr fun f hf => ?_
    simp only [hsame f hf]
    cases sameFollow follower following f <;> rfl
  have hkey : ∀ status : FollowStatus, (d.follows.countP fun f =>
      sameFollow follower following f && f.status = status) =
        if has status follower following d then 1 else 0 := by
    intro status
    refine countP_key follower following h.keys ?_
    intro f _ htrue
    exact (Bool.and_eq_true_iff.mp htrue).1
  have hk : acceptedEdgeCount follower following d =
      if has .accepted follower following d then 1 else 0 := by
    rw [← hkey .accepted]
    refine List.countP_congr fun f hf => ?_
    rw [hsame f hf]
  have heligible : eligibleContribution follower following d =
      (if has .pending follower following d then 1 else 0) +
        if has .accepted follower following d then 1 else 0 := by
    have hboth : (d.follows.countP fun f => direction follower following d.follows f &&
        (f.status = .pending || f.status = .accepted)) = eligibleContribution follower following d := by
      refine countP_key follower following h.keys ?_
      intro f hf htrue
      rw [← hsame f hf]
      exact (Bool.and_eq_true_iff.mp htrue).1
    rw [← hboth,← hkey .pending,← hkey .accepted,← countP_or]
    · refine List.countP_congr fun f hf => ?_
      rw [hsame f hf,Bool.and_or_distrib_left]
    · intro f hpending
      simp only [Bool.and_eq_true,decide_eq_true_eq] at hpending
      simp [hpending.2]
  have htally := fun column k => tally_flipped column follower following k now h.keys
  have hrows : ∀ column x, Stored d x →
      (Same x (column.endpoint follower following) →
        tally column (flipped follower following now d.follows) x +
          acceptedEdgeCount follower following d =
            tally column d.follows x + eligibleContribution follower following d) ∧
      (¬Same x (column.endpoint follower following) →
        tally column (flipped follower following now d.follows) x = tally column d.follows x) := by
    intro column x hx
    rw [htally column x,hk,heligible]
    refine ⟨?_,?_⟩
    · intro hend
      have hxend : x = column.endpoint follower following := by
        cases column with
        | followers => exact hfollowing x hx hend
        | following => exact hfollower x hx hend
      have hpending : (x = column.endpoint follower following ∧
          d.follows.any (fun f => sameFollow follower following f && f.status = .pending) = true) ↔
            has .pending follower following d = true := by
        simp [hxend,has]
      simp only [hpending]
      omega
    · intro hend
      rw [if_neg]
      · omega
      · rintro ⟨rfl,_⟩
        exact hend (.refl _)
  have hleft := h.tallies.reconcile .following (flipped follower following now d.follows) follower
    (eligibleContribution follower following d) (acceptedEdgeCount follower following d)
    fun x hx => hrows .following x (.inl hx)
  have hboth := hleft.reconcile .followers (flipped follower following now d.follows) following
    (eligibleContribution follower following d) (acceptedEdgeCount follower following d) fun x hx =>
      hrows .followers x (.inl (here_setCounts.mp hx))
  have hkept := hboth.kept (flipped follower following now d.follows)
    (by intro column; cases column <;> rfl) (keys_flipped h.keys)
  unfold acceptRetainedFollowDirection flip deleteFollows
  simp only
  change Kept { reconcile .followers following _ _ (reconcile .following follower _ _ d) with
    follows := flipped follower following now (Table.delete _ d.follows) }
  rw [hnone]
  exact hkept

end identity

section purge

variable {column : Column} {d : Db} {page : List (Text × Text)}

def Column.opposite : Column → Text × Text → Text
  | .followers,e => e.1
  | .following,e => e.2

def Column.target : Column → Text × Text → Text
  | .followers,e => e.2
  | .following,e => e.1

theorem tally_delete_of_key {cond : FollowRow → Bool} {rows : List FollowRow} {k : Text}
    (h : ∀ f ∈ rows, cond f = true → column.key f ≠ k) :
    tally column (Table.delete cond rows) k = tally column rows k := by
  refine Counter.tally_delete_of_none _ ?_
  intro f hf hcond
  rw [Bool.eq_false_iff]
  intro hof
  simp only [Counter.of,Bool.and_eq_true] at hof
  exact h f hf hcond (of_decide_eq_true hof.2)

theorem Kept.purgePage (h : Kept d) (hpage : ∀ e ∈ page, ¬Here d (column.opposite e)) :
    Kept (purgePage column page d) := by
  let follows' := Table.delete (fun f => (f.followerApId,f.followingApId) ∈ page) d.follows
  have hother : ∀ column', column' ≠ column → ∀ k, Here d k →
      tally column' follows' k = tally column' d.follows k := by
    intro column' hne k hk
    refine tally_delete_of_key fun f _ hmem hkey => ?_
    have hend := hpage _ (of_decide_eq_true hmem)
    subst hkey
    cases column <;> cases column' <;> first | exact hne rfl | exact hend hk
  have hcolumn := h.tallies.setCounts column follows' (fun a => page.any fun e =>
      column.target e = a.apId) (n := fun a => tally column follows' a.apId) fun a _ hcount => by
      cases hany : page.any fun e => column.target e = a.apId with
      | true => rw [if_pos rfl]
      | false =>
        rw [if_neg (by simp),hcount]
        refine (tally_delete_of_key fun f _ hmem hkey => ?_).symm
        refine List.any_eq_false.mp hany _ (of_decide_eq_true hmem) (decide_eq_true ?_)
        rw [← hkey]
        cases column <;> rfl
  have hexact : Exact { setCounts column (fun a => page.any fun e => column.target e = a.apId)
      (fun a => tally column follows' a.apId) d with follows := follows' } := by
    intro column'
    by_cases hne : column' = column
    · subst hne
      have hself := hcolumn column'
      rw [Function.update_self] at hself
      exact hself
    · have hold := hcolumn column'
      rw [Function.update_of_ne hne] at hold
      exact hold.of_tally fun a ha => hother column' hne a.apId (here_setCounts.mp ⟨a,ha,rfl⟩)
  have hsame : FollowCounts.purgePage column page d =
      { setCounts column (fun a => page.any fun e => column.target e = a.apId)
        (fun a => tally column follows' a.apId) d with follows := follows' } := by
    have hn : (fun a : ActorRow => follows'.countP fun f => column.key f = a.apId &&
        f.status = .accepted) = fun a => tally column follows' a.apId := by
      funext a
      unfold tally Counter.tally
      congr 1
      funext f
      exact Bool.and_comm _ _
    unfold FollowCounts.purgePage
    simp only [deleteFollows]
    change ({ setCounts column _ (fun a : ActorRow => follows'.countP fun f =>
      column.key f = a.apId && f.status = .accepted) d with follows := follows' } : Db) = _
    rw [hn]
    cases column <;> rfl
  rw [hsame]
  exact ⟨keys_delete _ h.keys,hexact⟩

end purge

section run

variable {w : Site} {s₀ s t : Pool} {l : Label}

theorem step_call {p : Nat} {i : Answer} : (machine w).step (.act p i) s = some t ↔
    allowed i s.store (s.thread p) = true ∧
      t = ⟨(work w i p s.store (s.thread p)).1,
        Function.update s.thread p (work w i p s.store (s.thread p)).2⟩ := by
  rw [machine,threads,Threads.guarded_step_act]

def Proper (w : Site) (c : Call) : Prop :=
  match c.stage with
  | .insertInbound _ _ => c.request.inbound = true
  | .insertGroup group _ => c.request = .handleGroupFollow group
  | .selectPage _ => ∃ subject, c.request = .purge subject
  | .purgePage column page =>
    (∃ subject, c.request = .purge subject) ∧
      ∀ e ∈ page, w.covers c.request.subject (column.opposite e) = true
  | _ => True

theorem mem_selectPage {subject : Text} {column : Column} {d : Db} {e : Text × Text}
    (h : e ∈ selectPage w subject column d) : w.covers subject (column.opposite e) = true := by
  obtain ⟨f,hf,rfl⟩ := List.mem_map.mp h
  have hcovers := (List.mem_filter.mp (List.mem_of_mem_take hf)).2
  cases column <;> exact hcovers

def Stage.owned : Stage → Bool
  | .insertInbound _ _ | .insertGroup _ _ | .selectPage _ | .purgePage _ _ => true
  | _ => false

theorem proper_of_not_owned {c : Call} (h : c.stage.owned = false) : Proper w c := by
  unfold Proper
  cases hstage : c.stage <;> first | trivial | (rw [hstage] at h; cases h)

theorem readFollow_not_owned (actor target : Text) (d : Db) :
    (readFollow actor target d).owned = false := by
  unfold readFollow
  split
  · rfl
  · split <;> rfl

theorem severOwn_not_owned (actor recipient : Text) (f : FollowRow) :
    (severOwn w actor recipient f).owned = false := by
  unfold severOwn
  split <;> rfl

theorem readUndo_not_owned (i : Answer) (actor recipient : Text) (followId : Option Text) (d : Db) :
    (readUndo w i actor recipient followId d).owned = false := by
  unfold readUndo
  split
  · rfl
  · exact severOwn_not_owned _ _ _

theorem readUndoById_not_owned (actor recipient followId : Text) (d : Db) :
    (readUndoById w actor recipient followId d).owned = false := by
  unfold readUndoById
  split
  · rfl
  · exact severOwn_not_owned _ _ _

theorem readGroupUndo_not_owned (i : Answer) (actor group followId : Text) (typed : Bool) (d : Db) :
    (readGroupUndo w i actor group followId typed d).owned = false := by
  unfold readGroupUndo
  split
  · exact severOwn_not_owned _ _ _
  · split
    · split <;> rfl
    · rfl

theorem proper_read {i : Answer} {c : Call} {d : Db} :
    Proper w { c with stage := read w i c.actor d c.request } := by
  cases hrequest : c.request with
  | handleFollow recipient =>
    simp only [read,readInbound]
    split
    · exact proper_of_not_owned rfl
    · split
      · exact proper_of_not_owned rfl
      · split
        · exact proper_of_not_owned rfl
        · simp only [Proper]
          rfl
  | handleGroupFollow group =>
    simp only [read]
    split
    · exact rfl
    · exact proper_of_not_owned rfl
  | purge subject => exact ⟨subject,rfl⟩
  | follow target =>
    refine proper_of_not_owned ?_
    simp only [read]
    split
    · exact readFollow_not_owned _ _ _
    · rfl
  | handleUndo recipient followId => exact proper_of_not_owned (readUndo_not_owned _ _ _ _ _)
  | handleUndoById recipient followId => exact proper_of_not_owned (readUndoById_not_owned _ _ _ _)
  | handleGroupUndo group followId typed =>
    exact proper_of_not_owned (readGroupUndo_not_owned _ _ _ _ _ _)
  | unfollow | accept | reject | handleRemove =>
    refine proper_of_not_owned ?_
    simp only [read]
    split <;> rfl
  | handleAccept | handleReject | handleAdd =>
    refine proper_of_not_owned ?_
    simp only [read]
    split
    · rfl
    · split <;> rfl
  | acceptBatch | handleBlock | block => exact proper_of_not_owned rfl

theorem proper_advance {i : Answer} {c : Call} {d : Db} (h : Proper w c) :
    Proper w { c with stage := (advance w i c d).2 } := by
  unfold advance
  cases hstage : c.stage with
  | start => exact proper_read
  | create target =>
    refine proper_of_not_owned ?_
    simp only [readTarget]
    split
    · split
      · rfl
      · split <;> rfl
    · split <;> rfl
  | accept requesters => cases requesters <;> exact proper_of_not_owned rfl
  | selectPage column =>
    simp only [Proper,hstage] at h
    simp only [readPage]
    split
    · cases column with
      | followers => exact h
      | following => exact proper_of_not_owned rfl
    · exact ⟨h,fun e he => mem_selectPage he⟩
  | purgePage column page =>
    simp only [Proper,hstage] at h
    exact h.1
  | _ => exact proper_of_not_owned rfl

theorem proper_thrown {c : Call} : Proper w { c with stage := c.stage.thrown } := by
  refine proper_of_not_owned ?_
  cases c.stage with
  | accept requesters => cases requesters <;> rfl
  | _ => rfl

structure Holds (w : Site) (s₀ s : Pool) : Prop where
  kept : Kept s.store
  here : ∀ apId, Here s.store apId → Here s₀.store apId
  call : ∀ p, (s.thread p).actor = (s₀.thread p).actor ∧
    (s.thread p).request = (s₀.thread p).request
  proper : ∀ p, Proper w (s.thread p)

theorem Start.holds (h : Start w s₀) : Holds w s₀ s₀ where
  kept := ⟨h.keys,h.exact⟩
  here _ ha := ha
  call _ := ⟨rfl,rfl⟩
  proper p := by
    unfold Proper
    rw [h.start p]
    trivial

theorem OneSpelling.canonical (h : OneSpelling s) : Canonical s.store := by
  have hstored : ∀ apId, Stored s.store apId → Retained s apId := by
    rintro apId (hhere | hedge)
    · exact .inl hhere
    · exact .inr (.inl hedge)
  exact fun apId left right hleft hright => h apId left right (hstored left hleft) (hstored right hright)

theorem here_advance {i : Answer} {c : Call} {d : Db} {apId : Text} :
    Here (advance w i c d).1 apId ↔ Here d apId := by
  unfold advance
  cases c.stage with
  | insertLocal target status =>
    simp only [insertLocal]
    split
    · rfl
    · cases status with
      | accepted =>
        have htwice : Here (increment .followers target (edgeAbsent c.actor target d)
            (increment .following c.actor (edgeAbsent c.actor target d) d)) apId ↔ Here d apId :=
          here_setCounts.trans here_setCounts
        exact htwice
      | pending => rfl
      | rejected => rfl
  | insertRemote target =>
    simp only [insertRemote]
    split <;> rfl
  | insertInbound recipient status =>
    cases status with
    | accepted =>
      have honce : Here (increment .followers recipient (edgeAbsent c.actor recipient d) d) apId ↔
          Here d apId := here_setCounts
      exact honce
    | pending => rfl
    | rejected => rfl
  | unfollow target wasAccepted =>
    have hboth : Here (if wasAccepted then
        if w.isLocal target then decrement .followers target (has .accepted c.actor target d)
          (decrement .following c.actor (has .accepted c.actor target d) d)
        else decrement .following c.actor (has .accepted c.actor target d) d
      else d) apId ↔ Here d apId := by
      split
      · split
        · exact here_setCounts.trans here_setCounts
        · exact here_setCounts
      · rfl
    exact hboth
  | accept requesters =>
    cases requesters with
    | nil => rfl
    | cons requester rest =>
      have hboth : Here (if w.isLocal requester then
          increment .following requester (has .pending requester c.actor d)
            (increment .followers c.actor (has .pending requester c.actor d) d)
        else increment .followers c.actor (has .pending requester c.actor d) d) apId ↔
          Here d apId := by
        split
        · exact here_setCounts.trans here_setCounts
        · exact here_setCounts
      exact hboth
  | acceptRetained follower following =>
    have htwice : Here (reconcile .followers following (eligibleContribution follower following d)
        (acceptedEdgeCount follower following d) (reconcile .following follower
          (eligibleContribution follower following d) (acceptedEdgeCount follower following d) d))
            apId ↔ Here d apId := here_setCounts.trans here_setCounts
    exact htwice
  | sever follower following => exact here_sever
  | severPair left right => exact here_sever.trans here_sever
  | purgePage column page =>
    have honce : Here (purgePage column page d) apId ↔
        Here (deleteFollows (fun f => (f.followerApId,f.followingApId) ∈ page) d) apId :=
      here_setCounts
    exact honce
  | _ => rfl

/-- A step that meets the condition keeps the counts. -/
theorem Holds.kept_step {p : Nat} {i : Answer} (h₀ : Start w s₀) (h : Holds w s₀ s)
    (hm : Meets s (.act p i)) (hfails : i.fails = false) :
    Kept (advance w i (s.thread p) s.store).1 := by
  obtain ⟨hspelling,huncounted⟩ := hm
  have huncounted := huncounted p i rfl hfails
  have hproper := h.proper p
  obtain ⟨hactor,hrequest⟩ := h.call p
  have hcanonical := hspelling.canonical
  have hlocal : ∀ k, Here s.store k → w.isLocal k = true := fun k hk => h₀.isLocal k (h.here k hk)
  have hsigner : (s.thread p).request.inbound = true → ¬Here s.store (s.thread p).actor := by
    rw [hactor,hrequest]
    exact fun hinbound hhere => h₀.signer p hinbound (h.here _ hhere)
  unfold advance
  cases hstage : (s.thread p).stage with
  | start | create | selectPage | done => exact h.kept
  | clear target =>
    rw [hstage] at huncounted
    exact h.kept.delete_uncounted huncounted
  | insertLocal target status => exact h.kept.insertLocal
  | insertRemote target => exact h.kept.insertRemote
  | unfollow target wasAccepted =>
    rw [hstage] at huncounted
    exact h.kept.unfollow hlocal huncounted
  | accept requesters =>
    cases requesters with
    | nil => exact h.kept
    | cons requester rest => exact h.kept.accept hlocal
  | reject requester =>
    rw [hstage] at huncounted
    exact h.kept.delete_uncounted huncounted
  | insertInbound recipient status =>
    simp only [Proper,hstage] at hproper
    exact h.kept.insertInbound (hsigner hproper)
  | insertGroup group status =>
    simp only [Proper,hstage] at hproper
    refine h.kept.insertIgnore_uncounted fun _ => ⟨hsigner (by rw [hproper]; rfl),?_⟩
    rw [hrequest] at hproper
    exact fun hhere => h₀.group p group hproper (h.here _ hhere)
  | acceptRetained follower following =>
    have hretained : ∀ x, Stored s.store x → Retained s x := by
      rintro x (hhere | hedge)
      · exact .inl hhere
      · exact .inr (.inl hedge)
    refine h.kept.acceptRetained ?_ ?_
    · intro x hx hsame
      exact hspelling follower x follower (hretained x hx)
        (.inr (.inr ⟨p,follower,following,hstage,.inl rfl⟩)) hsame (Same.refl _)
    · intro x hx hsame
      exact hspelling following x following (hretained x hx)
        (.inr (.inr ⟨p,follower,following,hstage,.inr rfl⟩)) hsame (Same.refl _)
  | sever follower following => exact h.kept.sever hcanonical
  | severPair left right => exact h.kept.severPair hcanonical
  | purgePage column page =>
    simp only [Proper,hstage] at hproper
    obtain ⟨⟨subject,hsubject⟩,hpage⟩ := hproper
    refine h.kept.purgePage fun e he hhere => ?_
    have hcovers := hpage e he
    rw [hsubject] at hcovers
    rw [hrequest] at hsubject
    have hnot := h₀.subject p subject hsubject _ (h.here _ hhere)
    rw [Request.subject,hnot] at hcovers
    cases hcovers

theorem Holds.step (h₀ : Start w s₀) (h : Holds w s₀ s) (hl : (machine w).step l s = some t)
    (hm : Meets s l) : Holds w s₀ t := by
  cases l with
  | env e => cases e
  | act p i =>
    obtain ⟨_,rfl⟩ := step_call.mp hl
    have hstore : (work w i p s.store (s.thread p)).1 = s.store ∨ i.fails = false ∧
        (work w i p s.store (s.thread p)).1 = (advance w i (s.thread p) s.store).1 := by
      unfold work
      cases hfails : i.fails with
      | true => exact .inl rfl
      | false => exact .inr ⟨rfl,rfl⟩
    refine ⟨?_,?_,?_,?_⟩
    · rcases hstore with hsame | ⟨hfails,hadvance⟩
      · simp only [hsame]
        exact h.kept
      · simp only [hadvance]
        exact h.kept_step h₀ hm hfails
    · intro apId hhere
      rcases hstore with hsame | ⟨_,hadvance⟩
      · simp only [hsame] at hhere
        exact h.here apId hhere
      · simp only [hadvance] at hhere
        exact h.here apId (here_advance.mp hhere)
    · intro q
      by_cases hq : q = p
      · subst hq
        simp only [Function.update_self]
        have hcall := h.call q
        unfold work
        cases i.fails <;> exact hcall
      · simp only [Function.update_of_ne hq]
        exact h.call q
    · intro q
      by_cases hq : q = p
      · subst hq
        simp only [Function.update_self]
        unfold work
        cases i.fails with
        | true => exact proper_thrown
        | false => exact proper_advance (h.proper q)
      · simp only [Function.update_of_ne hq]
        exact h.proper q

/-- In every run whose steps meet the condition both columns of every local actor are the numbers
of its accepted edges. -/
theorem counts_exact (h₀ : Start w s₀) (hr : (machine w).ReachesBy (fun s l _ => Meets s l) s₀ s) :
    Exact s.store := by
  have hholds := hr.invariant (P := Holds w s₀) h₀.holds fun a l b ha hl hm => ha.step h₀ hl hm
  exact hholds.kept.exact

end run

section unfollow

def here : Site where
  platform := ActorIdentity.hostless
  isLocal _ := true
  covers _ _ := false

def alice : Text := "alice".toList
def bob : Text := "bob".toList

def asked : Db :=
  ⟨[⟨alice,false,0,0⟩,⟨bob,true,0,0⟩],[⟨alice,bob,.pending,none,none⟩]⟩

def crossing : Pool :=
  ⟨asked,fun p => if p = 0 then ⟨alice,.unfollow bob,.start⟩ else ⟨bob,.accept alice,.start⟩⟩

theorem start_crossing : Start here crossing where
  keys := by decide
  exact column := by
    intro a ha
    have hmem : a = ⟨alice,false,0,0⟩ ∨ a = ⟨bob,true,0,0⟩ := by simpa [crossing,asked] using ha
    rcases hmem with rfl | rfl <;> cases column <;> decide
  isLocal _ _ := rfl
  start p := by
    simp only [crossing]
    split <;> rfl
  signer p h := by
    simp only [crossing] at h
    split at h <;> cases h
  group p group h := by
    simp only [crossing] at h
    split at h <;> cases h
  subject _ _ _ _ _ := rfl

theorem same_plain {x z : Text} (hx : ActorIdentity.Sql.normalized x = none) (h : Same x z) :
    z = x ∨ ActorIdentity.Sql.normalized z = some x := by
  have hvalues : x ∈ ActorIdentity.Sql.values z := by
    simpa [Same,activityPubActorIdentityMatchesSql,ActorIdentity.Sql.values,hx] using h
  rcases List.mem_cons.mp hvalues with heq | hnormalized
  · exact .inl heq.symm
  · exact .inr (by simpa using hnormalized)

theorem oneSpelling_pair {d : Db} {thread : Nat → Call}
    (hactors : ∀ a ∈ d.actors, a.apId ∈ [alice,bob])
    (hfollows : ∀ f ∈ d.follows, f.followerApId ∈ [alice,bob] ∧ f.followingApId ∈ [alice,bob])
    (hstage : ∀ p follower following, (thread p).stage ≠ .acceptRetained follower following) :
    OneSpelling ⟨d,thread⟩ := by
  have hplain : ∀ x, Retained ⟨d,thread⟩ x → x = alice ∨ x = bob := by
    suffices h : ∀ x, Retained ⟨d,thread⟩ x → x ∈ [alice,bob] from
      fun x hx => by simpa using h x hx
    rintro x (⟨a,ha,rfl⟩ | ⟨f,hf,rfl | rfl⟩ | ⟨p,follower,following,hp,_⟩)
    · exact hactors a ha
    · exact (hfollows f hf).1
    · exact (hfollows f hf).2
    · exact absurd hp (hstage p follower following)
  have hnone : ActorIdentity.Sql.normalized alice = none ∧
      ActorIdentity.Sql.normalized bob = none := by decide
  have hapart : ∀ z, Same alice z → Same bob z → False := by
    intro z halice hbob
    rcases same_plain hnone.1 halice with rfl | hz
    · rcases same_plain hnone.2 hbob with heq | hz
      · exact absurd heq (by decide)
      · rw [hnone.1] at hz
        cases hz
    · rcases same_plain hnone.2 hbob with rfl | hz'
      · rw [hnone.2] at hz
        cases hz
      · rw [hz] at hz'
        exact absurd (Option.some.inj hz') (by decide)
  intro z left right hleft hright hsame hsame'
  rcases hplain left hleft with rfl | rfl
  · rcases hplain right hright with rfl | rfl
    · rfl
    · exact (hapart z hsame hsame').elim
  · rcases hplain right hright with rfl | rfl
    · exact (hapart z hsame' hsame).elim
    · rfl

theorem stage_update {thread : Nat → Call} {p : Nat} {c : Call}
    (h : ∀ q follower following, (thread q).stage ≠ .acceptRetained follower following)
    (hc : ∀ follower following, c.stage ≠ .acceptRetained follower following) (q : Nat)
    (follower following : Text) :
    (Function.update thread p c q).stage ≠ .acceptRetained follower following := by
  by_cases hq : q = p
  · rw [hq,Function.update_self]
    exact hc follower following
  · rw [Function.update_of_ne hq]
    exact h q follower following

theorem stage_crossing (p : Nat) (follower following : Text) :
    (crossing.thread p).stage ≠ .acceptRetained follower following := by
  rw [start_crossing.start p]
  exact fun h => by cases h

/-- bob accepts alone. -/
theorem counts_exact_crossing : Exact
    ⟨[⟨alice,false,0,1⟩,⟨bob,true,1,0⟩],[⟨alice,bob,.accepted,none,some 0⟩]⟩ := by
  let c : Call := ⟨bob,.accept alice,.accept [alice]⟩
  have hread : (machine here).step (.act 1 {}) crossing =
      some ⟨asked,Function.update crossing.thread 1 c⟩ := rfl
  have haccept : (machine here).step (.act 1 {})
      ⟨asked,Function.update crossing.thread 1 c⟩ =
        some ⟨⟨[⟨alice,false,0,1⟩,⟨bob,true,1,0⟩],[⟨alice,bob,.accepted,none,some 0⟩]⟩,
          Function.update (Function.update crossing.thread 1 c) 1 { c with stage := .accept [] }⟩ :=
    rfl
  have hreach := ((Machine.ReachesBy.refl (C := fun s l _ => Meets s l) crossing).snoc hread
    ⟨oneSpelling_pair (by decide) (by decide) stage_crossing,?_⟩).snoc haccept
    ⟨oneSpelling_pair (by decide) (by decide)
      (stage_update stage_crossing fun _ _ h => by cases h),?_⟩
  · exact counts_exact start_crossing hreach
  · intro p i hact _
    cases hact
    trivial
  · intro p i hact _
    cases hact
    trivial

/-- The edge that bob has accepted goes with the request, and its counts stay. -/
theorem unfollow_crossing : ¬∀ (w : Site) (s₀ s : Pool), Start w s₀ →
    (machine w).ReachesBy (fun s _ t => OneSpelling s ∧ OneSpelling t) s₀ s → Exact s.store := by
  intro h
  let a : Call := ⟨alice,.unfollow bob,.unfollow bob false⟩
  let c : Call := ⟨bob,.accept alice,.accept [alice]⟩
  have hasked : ∀ {thread : Nat → Call},
      (∀ p follower following, (thread p).stage ≠ .acceptRetained follower following) →
        OneSpelling ⟨asked,thread⟩ := oneSpelling_pair (by decide) (by decide)
  have hread := stage_update (p := 0) (c := a) stage_crossing fun _ _ h => by cases h
  have hpicked := stage_update (p := 1) (c := c) hread fun _ _ h => by cases h
  have haccepted := stage_update (p := 1) (c := { c with stage := .accept [] }) hpicked
    fun _ _ h => by cases h
  have hdone := stage_update (p := 0) (c := { a with stage := .done }) haccepted
    fun _ _ h => by cases h
  have hreach : (machine here).ReachesBy (fun s _ t => OneSpelling s ∧ OneSpelling t) crossing
      ⟨⟨[⟨alice,false,0,1⟩,⟨bob,true,1,0⟩],[]⟩,_⟩ :=
    ((((Machine.ReachesBy.refl crossing).snoc (l := .act 0 {}) rfl
      ⟨hasked stage_crossing,hasked hread⟩).snoc (l := .act 1 {}) rfl
      ⟨hasked hread,hasked hpicked⟩).snoc (l := .act 1 {}) rfl
      ⟨hasked hpicked,oneSpelling_pair (by decide) (by decide) haccepted⟩).snoc (l := .act 0 {}) rfl
      ⟨oneSpelling_pair (by decide) (by decide) haccepted,
        oneSpelling_pair (by decide) (by decide) hdone⟩
  have hcount := h here crossing _ start_crossing hreach .following _ List.mem_cons_self
  revert hcount
  decide

end unfollow

end Yurucommu.FollowCounts
