import Yurucommu.Interactions

/-!
A dispatch that was stopped and is done again leaves what one dispatch leaves, exactly when it
was not stopped between its edge and the last row it owes to the edge.
-/

set_option autoImplicit false

namespace Yurucommu.Interactions

open Whatwg (Text)
open Inbox (ClaimRow Processed Outcome)

variable {w : Site} {p q : Nat} {a : Activity}

section run

variable {c c' : Store × Stage} {is : List Answer} {i : Answer} {s t : Store} {st : Stage} {d : Db}

theorem run_append (is js : List Answer) (c : Store × Stage) :
    run w p a (is ++ js) c = run w p a js (run w p a is c) := List.foldl_append

theorem run_snoc (is : List Answer) (i : Answer) (c : Store × Stage) :
    run w p a (is ++ [i]) c = next w p a i (run w p a is c) := run_append is [i] c

theorem run_cons (i : Answer) (is : List Answer) (c : Store × Stage) :
    run w p a (i :: is) c = run w p a is (next w p a i c) := rfl

theorem next_throws (h : st.halted = false) (ht : throws a i s.db st = true) :
    next w p a i (s,st) = ({ s with now := max s.now i.now },st.catch_) := by
  simp [next,h,ht]

theorem run_halted (h : c.2.halted = true) : run w p a is c = c := by
  induction is with
  | nil => rfl
  | cons i is ih =>
    have hnext : next w p a i c = c := if_pos h
    rw [run,List.foldl_cons,hnext]
    exact ih

theorem completes_done : Completes w p a (s,.done) t ↔ t = s := by
  constructor
  · rintro ⟨is,h⟩
    rw [run_halted rfl] at h
    exact ((Prod.mk.injEq _ _ _ _).mp h).1.symm
  · rintro rfl
    exact ⟨[],rfl⟩

theorem not_completes_thrown (at_ : Stage) : ¬Completes w p a (s,.thrown at_) t := by
  rintro ⟨is,h⟩
  rw [run_halted rfl] at h
  cases h

theorem completes_iff (h : c.2.halted = false) :
    Completes w p a c t ↔ ∃ i, Completes w p a (next w p a i c) t := by
  constructor
  · rintro ⟨is,hr⟩
    cases is with
    | nil =>
      rw [run,List.foldl_nil] at hr
      rw [hr] at h
      cases h
    | cons i is => exact ⟨i,is,hr⟩
  · rintro ⟨i,is,hr⟩
    exact ⟨i :: is,hr⟩

theorem Completes.of_run (h : Completes w p a c' t) (hr : run w p a is c = c') :
    Completes w p a c t := by
  obtain ⟨js,hj⟩ := h
  refine ⟨is ++ js,?_⟩
  rw [run_append,hr,hj]

theorem not_completes_retain (id : Text) : ¬Completes w p a (s,.retain id) t := by
  rw [completes_iff rfl]
  rintro ⟨i,h⟩
  unfold next at h
  simp only [Stage.halted,Bool.false_eq_true,if_false,refused,handle,Stage.catch_] at h
  split at h
  · exact not_completes_thrown _ h
  · exact not_completes_thrown _ h

theorem not_completes_catch (st : Stage) : ¬Completes w p a (s,st.catch_) t := by
  cases st with
  | isBlocked id => exact not_completes_retain id
  | _ => exact not_completes_thrown _

theorem completes_step (h : st.halted = false) (hr : ∀ s, refused p s st = none) :
    Completes w p a (s,st) t ↔ ∃ i n, s.now ≤ n ∧ throws a i s.db st = false ∧
      Completes w p a (⟨(handle w a i n s.db st).1,claimed p { s with now := n } st,n⟩,
        (handle w a i n s.db st).2) t := by
  rw [completes_iff (c := (s,st)) h]
  constructor
  · rintro ⟨i,hc⟩
    simp only [next,h,Bool.false_eq_true,if_false,hr] at hc
    split at hc
    · exact absurd hc (not_completes_catch st)
    · rename_i ht
      exact ⟨i,_,le_max_left _ _,by simpa using ht,hc⟩
  · rintro ⟨i,n,hn,ht,hc⟩
    have hthrows : throws a { i with now := n } s.db st = false := by
      cases st <;> exact ht
    have hhandle : handle w a { i with now := n } n s.db st = handle w a i n s.db st := by
      cases st <;> rfl
    refine ⟨{ i with now := n },?_⟩
    simp only [next,h,Bool.false_eq_true,if_false,hr,hthrows,max_eq_right hn,hhandle]
    exact hc

def Stage.plain : Stage → Bool
  | .fetch _ | .insertResponse _ _ _ | .insertInbox _ _ | .claim | .commit _ | .done | .thrown _ =>
    false
  | _ => true

theorem completes_plain (h : st.plain = true) : Completes w p a (s,st) t ↔ ∃ n, s.now ≤ n ∧
    Completes w p a (⟨(handle w a {} n s.db st).1,claimed p { s with now := n } st,n⟩,
      (handle w a {} n s.db st).2) t := by
  have hhalted : st.halted = false := by
    cases st <;> first | rfl | cases h
  have hrefused : ∀ s, refused p s st = none := by
    intro s
    cases st <;> first | rfl | cases h
  have hhandle : ∀ i n, handle w a i n s.db st = handle w a {} n s.db st := by
    intro i n
    cases st <;> first | rfl | cases h
  rw [completes_step hhalted hrefused]
  constructor
  · rintro ⟨i,n,hn,_,hc⟩
    rw [hhandle] at hc
    exact ⟨n,hn,hc⟩
  · rintro ⟨n,hn,hc⟩
    refine ⟨{},n,hn,?_,hc⟩
    cases st <;> first | rfl | cases h

def held (p n : Nat) : Option ClaimRow := some (Inbox.take p n ⟨none,none⟩)

theorem holds_held (n : Nat) : Statement.hits (Inbox.holds p) (held p n) = true := by
  simp [held,Inbox.take,Inbox.holds]

theorem completes_clear {n m : Nat} : Completes w p a (⟨d,held p n,m⟩,.clear) t ↔
    ∃ k, m ≤ k ∧ t = ⟨d,some ⟨none,none⟩,k⟩ := by
  have hclaim : ∀ k, claimed p ⟨d,held p n,k⟩ .clear = some ⟨none,none⟩ := by
    intro k
    simp [claimed,held,Inbox.take,Inbox.holds,Inbox.clearClaim]
  rw [completes_plain rfl]
  refine exists_congr fun k => and_congr_right fun _ => ?_
  simp only [hclaim,handle]
  exact completes_done

theorem completes_commit {n m : Nat} {state : Outcome}
    (ha : d.activities.any (sameActivity a.activityId) = true) :
    Completes w p a (⟨d,held p n,m⟩,.commit state) t ↔
      ∃ k, m ≤ k ∧ t = ⟨setProcessed a.activityId state.1 d,some ⟨none,none⟩,k⟩ := by
  have hnext : ∀ i : Answer, i.fails = false → next w p a i (⟨d,held p n,m⟩,.commit state) =
      (⟨setProcessed a.activityId state.1 d,held p n,max m i.now⟩,.clear) := by
    intro i hi
    simp [next,Stage.halted,throws,hi,ha,refused,holds_held,handle,claimed]
  rw [completes_iff rfl]
  constructor
  · rintro ⟨i,hc⟩
    cases hi : i.fails with
    | true =>
      simp only [next,Stage.halted,throws,hi,Bool.true_or,if_true,Bool.false_eq_true,if_false] at hc
      exact absurd hc (not_completes_catch _)
    | false =>
      rw [hnext i hi] at hc
      obtain ⟨k,hk,ht⟩ := completes_clear.mp hc
      exact ⟨k,le_trans (le_max_left _ _) hk,ht⟩
  · rintro ⟨k,hk,rfl⟩
    refine ⟨{ now := m },?_⟩
    rw [hnext _ rfl,completes_clear]
    exact ⟨k,by simpa using hk,rfl⟩

theorem completes_claim {m : Nat} : Completes w p a (⟨d,some ⟨none,none⟩,m⟩,.claim) t ↔
    ∃ n, m ≤ n ∧ Completes w p a (⟨d,held p n,n⟩,a.entry) t := by
  have hnext : ∀ i : Answer, i.fails = false → next w p a i (⟨d,some ⟨none,none⟩,m⟩,.claim) =
      (⟨d,held p (max m i.now),max m i.now⟩,a.entry) := by
    intro i hi
    simp [next,Stage.halted,throws,hi,refused,Inbox.free,handle,claimed,held]
  rw [completes_iff rfl]
  constructor
  · rintro ⟨i,hc⟩
    cases hi : i.fails with
    | true =>
      simp only [next,Stage.halted,throws,hi,if_true,Bool.false_eq_true,if_false] at hc
      exact absurd hc (not_completes_catch _)
    | false =>
      rw [hnext i hi] at hc
      exact ⟨_,le_max_left _ _,hc⟩
  · rintro ⟨n,hn,hc⟩
    refine ⟨{ now := n },?_⟩
    rw [hnext _ rfl]
    simpa [max_eq_right hn] using hc

theorem insert_freed (s : Store) :
    Statement.insertIgnore ⟨none,none⟩ (freed s).claim = some ⟨none,none⟩ := by
  unfold freed
  cases s.claim <;> rfl

theorem completes_blocked (h : isActorBlockedStrict w a.actor = true) :
    Completes w p a (freed s,.gate) t → t.db = s.db := by
  rw [completes_plain rfl]
  rintro ⟨n,_,hc⟩
  simp only [handle,h,if_true] at hc
  rw [completes_done.mp hc]
  rfl

theorem completes_gate (h : isActorBlockedStrict w a.actor = false) :
    Completes w p a (freed s,.gate) t ↔
      ∃ n, s.now ≤ n ∧ Completes w p a (⟨begin_ a s.db,some ⟨none,none⟩,n⟩,.readProcessed) t := by
  rw [completes_plain rfl]
  constructor
  · rintro ⟨n,hn,hc⟩
    simp only [handle,h,Bool.false_eq_true,if_false] at hc
    obtain ⟨n',hn',hc⟩ := (completes_plain rfl).mp hc
    obtain ⟨k,hk,hc⟩ := (completes_plain rfl).mp hc
    refine ⟨k,le_trans hn (le_trans hn' hk),?_⟩
    have hclaim := insert_freed s
    simp only [handle,claimed] at hc
    rw [hclaim] at hc
    exact hc
  · rintro ⟨n,hn,hc⟩
    refine ⟨n,hn,?_⟩
    simp only [handle,h,Bool.false_eq_true,if_false]
    refine (completes_plain rfl).mpr ⟨n,le_refl n,(completes_plain rfl).mpr ⟨n,le_refl n,?_⟩⟩
    have hclaim := insert_freed s
    simp only [handle,claimed]
    rw [hclaim]
    exact hc

theorem completes_start (h : isActorBlockedStrict w a.actor = false)
    (hp : processed a.activityId (begin_ a s.db) = some .unprocessed) :
    Completes w p a (freed s,.gate) t ↔
      ∃ n, s.now ≤ n ∧ Completes w p a (⟨begin_ a s.db,held p n,n⟩,a.entry) t := by
  rw [completes_gate h]
  constructor
  · rintro ⟨n,hn,hc⟩
    obtain ⟨n',hn',hc⟩ := (completes_plain rfl).mp hc
    simp only [handle,claimed,hp,if_true] at hc
    obtain ⟨k,hk,hc⟩ := completes_claim.mp hc
    exact ⟨k,le_trans hn (le_trans hn' hk),hc⟩
  · rintro ⟨n,hn,hc⟩
    refine ⟨n,hn,(completes_plain rfl).mpr ⟨n,le_refl n,?_⟩⟩
    simp only [handle,claimed,hp,if_true]
    exact completes_claim.mpr ⟨n,le_refl n,hc⟩

theorem completes_processed (h : isActorBlockedStrict w a.actor = false)
    (hp : processed a.activityId (begin_ a s.db) ≠ some .unprocessed) :
    Completes w p a (freed s,.gate) t → t.db = begin_ a s.db := by
  rw [completes_gate h]
  rintro ⟨n,_,hc⟩
  obtain ⟨n',_,hc⟩ := (completes_plain rfl).mp hc
  simp only [handle,claimed,hp,if_false] at hc
  rw [completes_done.mp hc]

def Stage.handling : Stage → Bool
  | .gate | .insertActivity | .insertClaim | .readProcessed | .claim => false
  | _ => true

theorem handling_handle {n : Nat} (h : st.handling = true) (i : Answer) :
    (handle w a i n d st).2.handling = true := by
  have hentry : a.entry.handling = true := by
    unfold Activity.entry
    cases a.kind <;> rfl
  cases st with
  | gate | insertActivity | insertClaim | readProcessed | claim => cases h
  | follow recipient =>
    simp only [handle,readFollow,processedDone]
    split
    · rfl
    · split
      · rfl
      · split <;> rfl
  | groupFollow group joinPolicy =>
    simp only [handle,readGroupFollow]
    split
    · rfl
    · split <;> rfl
  | groupResponse group status =>
    simp only [handle,readGroupResponse,processedDone]
    split
    · rfl
    · split
      · rfl
      · split <;> rfl
  | announce =>
    simp only [handle,readAnnounce]
    split
    · rfl
    · split
      · rfl
      · split
        · rfl
        · split <;> rfl
  | fetch objectId =>
    simp only [handle]
    split <;> rfl
  | interaction kind =>
    simp only [handle,readInteraction,processedDone]
    split
    · rfl
    · split
      · rfl
      · split
        · rfl
        · split <;> rfl
  | interactionEdge kind objectId existing =>
    simp only [handle]
    split <;> rfl
  | owner kind objectId =>
    simp only [handle,readOwner,processedDone]
    split
    · rfl
    · split <;> rfl
  | insertInbox recipient respond =>
    simp only [handle]
    split <;> rfl
  | isBlocked id =>
    simp only [handle]
    split <;> rfl
  | insertRequest id =>
    simp only [handle]
    split <;> rfl
  | readDue id =>
    simp only [handle]
    split <;> rfl
  | _ => rfl

def Stage.working (st : Stage) : Bool :=
  st.handling && match st with
    | .retain _ | .commit _ | .clear | .done | .thrown _ => false
    | _ => true

theorem claimed_working (h : st.working = true) (s : Store) : claimed p s st = s.claim := by
  cases st <;> first | rfl | cases h

theorem refused_working (h : st.working = true) (s : Store) : refused p s st = none := by
  cases st <;> first | rfl | cases h

theorem halted_working (h : st.working = true) : st.halted = false := by
  cases st <;> first | rfl | cases h

theorem handling_working (h : st.working = true) : st.handling = true :=
  (Bool.and_eq_true_iff.mp h).1

theorem completes_working {n m : Nat} (h : st.working = true) :
    Completes w p a (⟨d,held p n,m⟩,st) t ↔ ∃ i k, m ≤ k ∧ throws a i d st = false ∧
      Completes w p a (⟨(handle w a i k d st).1,held p n,k⟩,(handle w a i k d st).2) t := by
  rw [completes_step (halted_working h) (refused_working h)]
  simp only [claimed_working h]

theorem next_working {n m : Nat} (h : st.working = true) (ht : throws a i d st = false) :
    next w p a i (⟨d,held p n,m⟩,st) =
      (⟨(handle w a i (max m i.now) d st).1,held p n,max m i.now⟩,
        (handle w a i (max m i.now) d st).2) := by
  simp [next,halted_working h,ht,refused_working h,claimed_working h]

/-- What a handler leaves does not depend on the token, the lease or an earlier clock. -/
theorem run_withToken {n m k l : Nat} (hst : st.handling = true) (hl : l ≤ m)
    (h : run w q a is (⟨d,held q n,m⟩,st) = (t,.done)) :
    ∃ t', Completes w p a (⟨d,held p k,l⟩,st) t' ∧ t'.db = t.db := by
  induction is generalizing d m l st with
  | nil =>
    rw [run,List.foldl_nil,Prod.mk.injEq] at h
    obtain ⟨rfl,rfl⟩ := h
    exact ⟨_,completes_done.mpr rfl,rfl⟩
  | cons i is ih =>
    by_cases hw : st.working = true
    · cases ht : throws a i d st with
      | true =>
        rw [run_cons,next_throws (halted_working hw) ht] at h
        exact absurd ⟨is,h⟩ (not_completes_catch st)
      | false =>
        rw [run_cons,next_working hw ht] at h
        obtain ⟨t',hc,hdb⟩ := ih (handling_handle (handling_working hw) i) (le_refl _) h
        exact ⟨t',(completes_working hw).mpr ⟨i,_,le_trans hl (le_max_left _ _),ht,hc⟩,hdb⟩
    · cases st with
      | commit state =>
        have hc : Completes w q a (⟨d,held q n,m⟩,.commit state) t := ⟨_,h⟩
        have ha : d.activities.any (sameActivity a.activityId) = true := by
          by_contra hno
          rw [Bool.not_eq_true] at hno
          have ht : throws a i d (.commit state) = true := by simp only [throws,hno]; simp
          rw [run_cons,next_throws rfl ht] at h
          exact absurd ⟨is,h⟩ (not_completes_catch _)
        obtain ⟨j,_,rfl⟩ := (completes_commit ha).mp hc
        exact ⟨_,(completes_commit ha).mpr ⟨l,le_refl l,rfl⟩,rfl⟩
      | clear =>
        have hc : Completes w q a (⟨d,held q n,m⟩,.clear) t := ⟨_,h⟩
        obtain ⟨j,_,rfl⟩ := completes_clear.mp hc
        exact ⟨_,completes_clear.mpr ⟨l,le_refl l,rfl⟩,rfl⟩
      | done =>
        have hc : Completes w q a (⟨d,held q n,m⟩,.done) t := ⟨_,h⟩
        rw [completes_done] at hc
        exact ⟨_,completes_done.mpr rfl,by rw [hc]⟩
      | retain id => exact absurd ⟨_,h⟩ (not_completes_retain id)
      | thrown at_ => exact absurd ⟨_,h⟩ (not_completes_thrown at_)
      | gate | insertActivity | insertClaim | readProcessed | claim => cases hst
      | _ => exact absurd rfl hw

theorem Completes.withToken {n m k l : Nat} (h : Completes w q a (⟨d,held q n,m⟩,st) t)
    (hst : st.handling = true) (hl : l ≤ m) :
    ∃ t', Completes w p a (⟨d,held p k,l⟩,st) t' ∧ t'.db = t.db := by
  obtain ⟨is,h⟩ := h
  exact run_withToken hst hl h

end run

section rewind

variable {s₀ s t : Store} {st st' : Stage} {d : Db} {n m : Nat}

def Begun (a : Activity) (d : Db) : Prop :=
  d.activities.any (sameActivity a.activityId) = true ∧
    processed a.activityId d = some .unprocessed

theorem any_begin (a : Activity) (d : Db) :
    (begin_ a d).activities.any (sameActivity a.activityId) = true :=
  Table.any_insertIgnore (by simp [sameActivity]) _

theorem begin_of_any (h : d.activities.any (sameActivity a.activityId) = true) :
    begin_ a d = d := by
  have hrows := Table.insertIgnore_of_any
    (⟨a.activityId,a.kind.activityType,a.actor,a.objectId,some .inbound,.unprocessed⟩ : ActivityRow) h
  unfold begin_ upsertActivity
  rw [hrows]

theorem begin_begin (a : Activity) (d : Db) : begin_ a (begin_ a d) = begin_ a d :=
  begin_of_any (any_begin a d)

def Reached (w : Site) (p : Nat) (a : Activity) (s₀ : Store) (c : Store × Stage) : Prop :=
  ∃ is, run w p a is (freed s₀,.gate) = c

theorem Reached.completes {c : Store × Stage} (h : Reached w p a s₀ c)
    (hc : Completes w p a c t) : Completes w p a (freed s₀,.gate) t := by
  obtain ⟨is,hr⟩ := h
  exact hc.of_run hr

theorem Reached.next {c : Store × Stage} (h : Reached w p a s₀ c) (i : Answer) :
    Reached w p a s₀ (next w p a i c) := by
  obtain ⟨is,rfl⟩ := h
  exact ⟨is ++ [i],run_snoc is i _⟩

def Passes (w : Site) (a : Activity) (d : Db) (n : Nat) (st : Stage) : Prop :=
  ∀ q l m t, n ≤ m → Completes w q a (⟨d,held q l,m⟩,a.entry) t →
    ∃ k, m ≤ k ∧ Completes w q a (⟨d,held q l,k⟩,st) t

theorem passes_entry (d : Db) (n : Nat) : Passes w a d n a.entry :=
  fun _ _ m _ _ h => ⟨m,le_refl m,h⟩

theorem Passes.later (h : Passes w a d n st) (hn : n ≤ m) : Passes w a d m st :=
  fun q l k t hk => h q l k t (le_trans hn hk)

theorem Passes.step (h : Passes w a d n st) (hw : st.working = true)
    (hs : ∀ i k, n ≤ k → throws a i d st = false → handle w a i k d st = (d,st')) :
    Passes w a d n st' := by
  intro q l m t hm hc
  obtain ⟨k,hk,hc⟩ := h q l m t hm hc
  obtain ⟨i,j,hj,ht,hc⟩ := (completes_working hw).mp hc
  have hhandle := hs i j (le_trans hm (le_trans hk hj)) ht
  rw [hhandle] at hc
  exact ⟨j,le_trans hk hj,hc⟩

def Rewinds (w : Site) (p : Nat) (a : Activity) (s₀ : Store) (d : Db) (n : Nat) : Prop :=
  Begun a d ∧ ∃ l m st, st.handling = true ∧ m ≤ n ∧
    Reached w p a s₀ (⟨d,held p l,m⟩,st) ∧ Passes w a d n st

theorem Rewinds.later (h : Rewinds w p a s₀ d n) (hn : n ≤ m) : Rewinds w p a s₀ d m := by
  obtain ⟨hb,l,k,st,hst,hk,hr,hp⟩ := h
  exact ⟨hb,l,k,st,hst,le_trans hk hn,hr,hp.later hn⟩

def Retried (w : Site) (a : Activity) (s₀ s : Store) : Prop :=
  ∀ q t, Completes w q a (freed s,.gate) t →
    ∃ r t', Completes w r a (freed s₀,.gate) t' ∧ t'.db = t.db

theorem Rewinds.retried (hb : isActorBlockedStrict w a.actor = false)
    (h : Rewinds w p a s₀ s.db s.now) : Retried w a s₀ s := by
  intro q t hc
  obtain ⟨⟨hany,hun⟩,l,m,st,hst,hm,hr,hp⟩ := h
  rw [completes_start hb (by rw [begin_of_any hany]; exact hun),begin_of_any hany] at hc
  obtain ⟨n,hn,hc⟩ := hc
  obtain ⟨k,hk,hc⟩ := hp q n n t hn hc
  obtain ⟨t',hc',hdb⟩ := hc.withToken (p := p) hst (le_trans hm (le_trans hn hk))
  exact ⟨p,t',hr.completes hc',hdb⟩

/-- Stopped before its handler, a dispatch has done nothing that a retry does not do. -/
theorem retried_of_begun (hb : isActorBlockedStrict w a.actor = false)
    (h : begin_ a s.db = begin_ a s₀.db) (hn : s₀.now ≤ s.now) : Retried w a s₀ s := by
  intro q t hc
  rw [completes_gate hb,h] at hc
  obtain ⟨n,hk,hc⟩ := hc
  exact ⟨q,t,(completes_gate hb).mpr ⟨n,le_trans hn hk,hc⟩,rfl⟩

theorem retried_of_blocked (hb : isActorBlockedStrict w a.actor = true) (h : s.db = s₀.db) :
    Retried w a s₀ s := by
  intro q t hc
  refine ⟨q,freed s₀,?_,?_⟩
  · refine (completes_plain rfl).mpr ⟨s₀.now,le_refl _,?_⟩
    simp only [handle,hb,if_true]
    exact completes_done.mpr rfl
  · rw [completes_blocked hb hc,h]
    rfl

theorem retried_of_ended (hb : isActorBlockedStrict w a.actor = false)
    (hany : s.db.activities.any (sameActivity a.activityId) = true)
    (hp : processed a.activityId s.db ≠ some .unprocessed)
    (h : ∃ t, Completes w p a (freed s₀,.gate) t ∧ t.db = s.db) : Retried w a s₀ s := by
  intro q t hc
  obtain ⟨t',hc',hdb⟩ := h
  refine ⟨p,t',hc',?_⟩
  rw [completes_processed hb (by rw [begin_of_any hany]; exact hp) hc,begin_of_any hany,hdb]

end rewind

section invariant

variable {s₀ s t : Store} {st st' : Stage} {d : Db} {n m : Nat} {i : Answer}

theorem begun_upsert (h : Begun a d) (row : ActivityRow) : Begun a (upsertActivity row d) := by
  obtain ⟨hany,hun⟩ := h
  unfold upsertActivity Table.insertIgnore
  split
  · exact ⟨hany,hun⟩
  · refine ⟨by simp [hany],?_⟩
    unfold processed at hun ⊢
    obtain ⟨r,hr⟩ := Option.isSome_iff_exists.mp (List.find?_isSome.mpr (List.any_eq_true.mp hany))
    simp only [List.find?_append,hr,Option.some_or]
    rwa [hr] at hun

theorem activities_working (hw : st.working = true) : (handle w a i n d st).1.activities =
      d.activities ∨ ∃ row, (handle w a i n d st).1.activities = (upsertActivity row d).activities := by
  cases st with
  | followEdge recipient status => cases status <;> exact .inl rfl
  | interactionEdge kind objectId existing => cases kind <;> exact .inl rfl
  | persist note =>
    left
    simp only [handle,persist,recomputeReplyCount]
    split <;> rfl
  | upsertActivity type objectId recipient respond => exact .inr ⟨_,rfl⟩
  | insertResponse type actor objectId => exact .inr ⟨_,rfl⟩
  | gate | insertActivity | insertClaim | readProcessed | claim => cases hw
  | commit state | clear | done | thrown at_ => cases hw
  | _ => exact .inl rfl

theorem begun_working (h : Begun a d) (hw : st.working = true) :
    Begun a (handle w a i n d st).1 := by
  rcases activities_working (w := w) (a := a) (d := d) (n := n) (i := i) hw with heq | ⟨row,heq⟩
  · unfold Begun processed
    rw [heq]
    exact h
  · have hup := begun_upsert h row
    unfold Begun processed at hup ⊢
    rw [heq]
    exact hup

/-- What is kept of the store and the next step while a handler runs. -/
structure Keeps (w : Site) (p : Nat) (a : Activity) (s₀ : Store) (H : Store → Stage → Prop) :
    Prop where
  entry : ∀ n, s₀.now ≤ n → Begun a (begin_ a s₀.db) →
    Reached w p a s₀ (⟨begin_ a s₀.db,held p n,n⟩,a.entry) →
      H ⟨begin_ a s₀.db,held p n,n⟩ a.entry
  step : ∀ i d l m n st, isActorBlockedStrict w a.actor = false → st.working = true →
    Begun a d → H ⟨d,held p l,m⟩ st → m ≤ n → throws a i d st = false →
    Reached w p a s₀ (⟨(handle w a i n d st).1,held p l,n⟩,(handle w a i n d st).2) →
      H ⟨(handle w a i n d st).1,held p l,n⟩ (handle w a i n d st).2

def Ended (a : Activity) (H : Store → Stage → Prop) (d : Db) : Prop :=
  ∃ s state, Begun a s.db ∧ H s (.commit state) ∧ d = setProcessed a.activityId state.1 s.db

def Inv (w : Site) (p : Nat) (a : Activity) (s₀ : Store) (H : Store → Stage → Prop)
    (c : Store × Stage) : Prop :=
  s₀.now ≤ c.1.now ∧ match c.2 with
    | .gate => c.1.db = s₀.db ∧ c.1.claim = (freed s₀).claim
    | .insertActivity => isActorBlockedStrict w a.actor = false ∧ c.1.db = s₀.db ∧
      c.1.claim = (freed s₀).claim
    | .insertClaim => isActorBlockedStrict w a.actor = false ∧ c.1.db = begin_ a s₀.db ∧
      c.1.claim = (freed s₀).claim
    | .readProcessed => isActorBlockedStrict w a.actor = false ∧ c.1.db = begin_ a s₀.db ∧
      c.1.claim = some ⟨none,none⟩
    | .claim => isActorBlockedStrict w a.actor = false ∧ c.1.db = begin_ a s₀.db ∧
      c.1.claim = some ⟨none,none⟩ ∧ Begun a c.1.db
    | .retain _ | .thrown _ => True
    | .done => isActorBlockedStrict w a.actor = true ∧ c.1.db = s₀.db ∨
      isActorBlockedStrict w a.actor = false ∧ c.1.db = begin_ a s₀.db ∧
        processed a.activityId c.1.db ≠ some .unprocessed ∨
      isActorBlockedStrict w a.actor = false ∧ Ended a H c.1.db
    | .clear => isActorBlockedStrict w a.actor = false ∧ (∃ l, c.1.claim = held p l) ∧
      Ended a H c.1.db
    | st => isActorBlockedStrict w a.actor = false ∧ (∃ l, c.1.claim = held p l) ∧
      Begun a (begin_ a s₀.db) ∧ Begun a c.1.db ∧ H c.1 st

variable {H : Store → Stage → Prop}

theorem inv_handling (hw : st.working = true ∨ ∃ state, st = .commit state) :
    Inv w p a s₀ H (s,st) ↔ s₀.now ≤ s.now ∧ isActorBlockedStrict w a.actor = false ∧
      (∃ l, s.claim = held p l) ∧ Begun a (begin_ a s₀.db) ∧ Begun a s.db ∧ H s st := by
  rcases hw with hw | ⟨state,rfl⟩
  · cases st with
    | gate | insertActivity | insertClaim | readProcessed | claim => cases hw
    | retain id | commit state | clear | done | thrown at_ => cases hw
    | _ => exact Iff.rfl
  · exact Iff.rfl

theorem handled_cases (hw : st.working = true) :
    (handle w a i n d st).2.working = true ∨ ∃ state, (handle w a i n d st).2 = .commit state := by
  have hh := handling_handle (w := w) (a := a) (d := d) (n := n) (handling_working hw) i
  cases hst : (handle w a i n d st).2 with
  | gate | insertActivity | insertClaim | readProcessed | claim =>
    rw [hst] at hh
    cases hh
  | commit state => exact .inr ⟨state,rfl⟩
  | retain id | clear | done | thrown at_ =>
    cases st <;> simp only [handle,readFollow,readGroupFollow,readGroupResponse,readAnnounce,
      readInteraction,readOwner,processedDone] at hst <;> grind [Stage.working,Stage.handling]
  | _ => exact .inl rfl

theorem next_told (h : st.halted = false) (hr : refused p { s with now := max s.now i.now } st = none)
    (ht : throws a i s.db st = false) :
    next w p a i (s,st) = (⟨(handle w a i (max s.now i.now) s.db st).1,
      claimed p { s with now := max s.now i.now } st,max s.now i.now⟩,
        (handle w a i (max s.now i.now) s.db st).2) := by
  simp [next,h,ht,hr]

theorem inv_catch (hn : s₀.now ≤ s.now) (st : Stage) :
    Inv w p a s₀ H ({ s with now := max s.now i.now },st.catch_) := by
  refine ⟨le_trans hn (le_max_left _ _),?_⟩
  cases st <;> trivial

theorem Keeps.next (h : Keeps w p a s₀ H) {c : Store × Stage} (hc : Inv w p a s₀ H c)
    (hr : Reached w p a s₀ c) (i : Answer) : Inv w p a s₀ H (next w p a i c) := by
  obtain ⟨s,st⟩ := c
  have hreached := hr.next i
  have hn := hc.1
  have hmax := le_trans hn (le_max_left s.now i.now)
  by_cases hh : st.halted = true
  · have hnext : Interactions.next w p a i (s,st) = (s,st) := if_pos hh
    rw [hnext]
    exact hc
  · rw [Bool.not_eq_true] at hh
    cases ht : throws a i s.db st with
    | true =>
      rw [next_throws hh ht]
      exact inv_catch hn st
    | false =>
      by_cases hw : st.working = true
      · obtain ⟨_,hb,⟨l,hl⟩,hstart,hbegun,hH⟩ := (inv_handling (.inl hw)).mp hc
        obtain ⟨d,claim,m⟩ := s
        subst hl
        rw [next_working hw ht] at hreached ⊢
        have hbegun' := begun_working (w := w) (n := max m i.now) (i := i) hbegun hw
        refine (inv_handling (handled_cases hw)).mpr ⟨hmax,hb,⟨l,rfl⟩,hstart,hbegun',?_⟩
        exact h.step i d l m _ st hb hw hbegun hH (le_max_left _ _) ht hreached
      · cases st with
        | gate =>
          obtain ⟨_,hdb,hclaim⟩ := hc
          rw [next_told rfl rfl ht]
          cases hb : isActorBlockedStrict w a.actor with
          | true =>
            simp only [handle,hb,if_true]
            exact ⟨hmax,.inl ⟨hb,hdb⟩⟩
          | false =>
            simp only [handle,hb,Bool.false_eq_true,if_false]
            exact ⟨hmax,hb,hdb,hclaim⟩
        | insertActivity =>
          obtain ⟨_,hb,hdb,hclaim⟩ := hc
          rw [next_told rfl rfl ht]
          refine ⟨hmax,hb,?_,hclaim⟩
          simp only at hdb
          simp only [handle,hdb]
        | insertClaim =>
          obtain ⟨_,hb,hdb,hclaim⟩ := hc
          rw [next_told rfl rfl ht]
          refine ⟨hmax,hb,hdb,?_⟩
          simp only at hclaim
          simp only [claimed,hclaim,insert_freed]
        | readProcessed =>
          obtain ⟨_,hb,hdb,hclaim⟩ := hc
          rw [next_told rfl rfl ht]
          simp only at hdb
          by_cases hp : processed a.activityId s.db = some .unprocessed
          · simp only [handle,hp,if_true]
            refine ⟨hmax,hb,hdb,hclaim,?_,hp⟩
            simp only [hdb]
            exact any_begin a _
          · simp only [handle,hp,if_false]
            exact ⟨hmax,.inr (.inl ⟨hb,hdb,hp⟩)⟩
        | claim =>
          obtain ⟨_,hb,hdb,hclaim,hbegun⟩ := hc
          obtain ⟨d,claim,m⟩ := s
          simp only at hdb hclaim hbegun
          subst hdb hclaim
          have hclaimed : Interactions.next w p a i (⟨begin_ a s₀.db,some ⟨none,none⟩,m⟩,.claim) =
              (⟨begin_ a s₀.db,held p (max m i.now),max m i.now⟩,a.entry) := by
            rw [next_told rfl (by simp [refused,Inbox.free]) ht]
            simp [claimed,handle,held,Inbox.free]
          rw [hclaimed] at hreached ⊢
          have hentry : a.entry.working = true := by
            unfold Activity.entry
            cases a.kind <;> rfl
          refine (inv_handling (.inl hentry)).mpr ⟨hmax,hb,⟨_,rfl⟩,hbegun,hbegun,?_⟩
          exact h.entry _ hmax hbegun hreached
        | commit state =>
          obtain ⟨_,hb,⟨l,hl⟩,_,hbegun,hH⟩ := (inv_handling (.inr ⟨state,rfl⟩)).mp hc
          rw [next_told rfl (by simp only [refused,hl,holds_held,if_true]) ht]
          exact ⟨hmax,hb,⟨l,hl⟩,s,state,hbegun,hH,rfl⟩
        | retain id =>
          rw [next_told rfl rfl ht]
          exact ⟨hmax,trivial⟩
        | clear =>
          obtain ⟨_,hb,_,hended⟩ := hc
          rw [next_told rfl rfl ht]
          exact ⟨hmax,.inr (.inr ⟨hb,hended⟩)⟩
        | done | thrown at_ => cases hh
        | _ => exact absurd rfl hw

theorem Keeps.reached (h : Keeps w p a s₀ H) {c : Store × Stage} (hr : Reached w p a s₀ c) :
    Inv w p a s₀ H c := by
  obtain ⟨is,rfl⟩ := hr
  induction is using List.reverseRecOn with
  | nil => exact ⟨le_refl _,rfl,rfl⟩
  | append_singleton is i ih =>
    rw [run_snoc]
    exact h.next ih ⟨is,rfl⟩ i

theorem handle_thrown {at_ : Stage} (h : st.halted = false)
    (ht : (handle w a i n d st).2 = .thrown at_) : ∃ id, st = .retain id ∧ at_ = .retain id := by
  cases st with
  | retain id =>
    simp only [handle,Stage.thrown.injEq] at ht
    exact ⟨id,rfl,ht.symm⟩
  | done | thrown at_ => cases h
  | _ =>
    simp only [handle,Activity.entry,readFollow,readGroupFollow,readGroupResponse,readAnnounce,
      readInteraction,readOwner,processedDone] at ht
    grind

theorem handle_not_retain {id : Text} : (handle w a i n d st).2 ≠ .retain id := by
  intro h
  cases st <;> simp only [handle,Activity.entry,readFollow,readGroupFollow,readGroupResponse,
    readAnnounce,readInteraction,readOwner,processedDone] at h <;> grind

theorem Reached.last {c : Store × Stage} (h : Reached w p a s₀ c) : c = (freed s₀,.gate) ∨
    ∃ i c', Reached w p a s₀ c' ∧ c'.2.halted = false ∧ Interactions.next w p a i c' = c := by
  obtain ⟨is,rfl⟩ := h
  induction is using List.reverseRecOn with
  | nil => exact .inl rfl
  | append_singleton is i ih =>
    rw [run_snoc]
    cases hh : (run w p a is (freed s₀,.gate)).2.halted with
    | false => exact .inr ⟨i,_,⟨is,rfl⟩,hh,rfl⟩
    | true =>
      have hnext : Interactions.next w p a i (run w p a is (freed s₀,.gate)) =
          run w p a is (freed s₀,.gate) := if_pos hh
      rw [hnext]
      exact ih

theorem Reached.thrown {at_ : Stage} (h : Reached w p a s₀ (s,.thrown at_)) :
    ∃ s', Reached w p a s₀ (s',at_) ∧ s'.now ≤ s.now ∧ at_.halted = false ∧
      (s'.db = s.db ∨ ∃ id, at_ = .retain id ∧ s.db = insertRequest id a.actor s.now s'.db) := by
  rcases h.last with h | ⟨i,⟨s',st⟩,hc,hh,h⟩
  · cases h
  · cases ht : throws a i s'.db st with
    | true =>
      rw [next_throws hh ht,Prod.mk.injEq] at h
      obtain ⟨rfl,h⟩ := h
      cases st with
      | isBlocked id => cases h
      | _ =>
        cases h
        exact ⟨s',hc,le_max_left _ _,hh,.inl rfl⟩
    | false =>
      cases hr : refused p { s' with now := max s'.now i.now } st with
      | some stage =>
        simp only [Interactions.next,hh,ht,hr,Bool.false_eq_true,if_false,Prod.mk.injEq] at h
        obtain ⟨rfl,rfl⟩ := h
        cases st with
        | commit state =>
          simp only [refused] at hr
          split at hr <;> cases hr
          exact ⟨s',hc,le_max_left _ _,rfl,.inl rfl⟩
        | claim =>
          simp only [refused] at hr
          split at hr <;> cases hr
        | _ => cases hr
      | none =>
        rw [next_told hh hr ht,Prod.mk.injEq] at h
        obtain ⟨rfl,hst⟩ := h
        obtain ⟨id,rfl,rfl⟩ := handle_thrown hh hst
        exact ⟨s',hc,le_max_left _ _,rfl,.inr ⟨id,rfl,rfl⟩⟩

theorem Reached.retain {id : Text} (h : Reached w p a s₀ (s,.retain id)) :
    ∃ s', Reached w p a s₀ (s',.isBlocked id) ∧ s'.db = s.db ∧ s'.now ≤ s.now := by
  rcases h.last with h | ⟨i,⟨s',st⟩,hc,hh,h⟩
  · cases h
  · cases ht : throws a i s'.db st with
    | true =>
      rw [next_throws hh ht,Prod.mk.injEq] at h
      obtain ⟨rfl,h⟩ := h
      cases st with
      | isBlocked id' =>
        cases h
        exact ⟨s',hc,rfl,le_max_left _ _⟩
      | _ => cases h
    | false =>
      cases hr : refused p { s' with now := max s'.now i.now } st with
      | some stage =>
        simp only [Interactions.next,hh,ht,hr,Bool.false_eq_true,if_false,Prod.mk.injEq] at h
        obtain ⟨_,rfl⟩ := h
        cases st with
        | commit state =>
          simp only [refused] at hr
          split at hr <;> cases hr
        | claim =>
          simp only [refused] at hr
          split at hr <;> cases hr
        | _ => cases hr
      | none =>
        rw [next_told hh hr ht,Prod.mk.injEq] at h
        exact absurd h.2 handle_not_retain

end invariant

end Yurucommu.Interactions
