import Yurucommu.ActorIdentityAgree
import Yurucommu.FetchLedger
import Yurucommu.MachineTrace

/-!
Whoever has lost the row of the ledger no longer writes it, failures are counted one by one, and
neither a cached actor nor a tombstone is undone by a claim from before.
-/

set_option autoImplicit false

namespace Yurucommu.FetchLedger

open ActorIdentity (Platform plainHosts)
open RemoteActorFetchFailureKind
open Whatwg (Text)

section promise

def Stage.claimToken : Stage → Option Nat
  | .recordUpdate _ _ T _ => some T
  | .recordRemove _ T => some T
  | .clear T => T
  | _ => none

def Stage.Releases (d : Db) (T : Nat) : Stage → Prop
  | .recordUpdate _ _ T' _ | .recordRemove _ T' | .clear (some T') => T' = T
  | .clear none => True
  | .cacheWrite => d.tombstoned = false
  | .reap _ => ∀ r, d.row = some r → r.leaseExpiresAt.all (· ≤ d.now) = true
  | _ => False

structure Raised (time : Nat) (failure : ActorCacheFailure) (r r' : Row) : Prop where
  count : r'.failureCount = min (r.failureCount + 1) maxFailureCount
  kind : r'.kind = classifyFetchFailure failure
  retry : r'.kind ≠ gone → ∃ retryAt, r'.retryAt = some retryAt ∧
    time + exponentialSeconds r'.kind r'.failureCount * 1000 ≤ retryAt ∧
    time + failure.remoteRetryAfterSeconds.getD 0 * 1000 ≤ retryAt

structure Right (s : Db) (x : Stage) (t : Db) : Prop where
  granted : t.granted ≠ s.granted → ∀ r, s.row = some r → r.kind ≠ gone ∧
    r.retryAt.all (· ≤ s.now) = true ∧
      (r.processingToken = none ∨ r.leaseExpiresAt.all (· ≤ s.now) = true)
  failure : ∀ time failure T n, x = .recordUpdate time failure T n → token s.row = some T →
    s.cached = false → ∃ r r', s.row = some r ∧ t.row = some r' ∧ Raised time failure r r'
  blocked : ∀ time failure T n, x = .recordUpdate time failure T n → s.cached = true → t = s
  stale : ∀ T, x.claimToken = some T → token s.row ≠ some T → t = s
  removes : ∀ time T, x = .recordRemove time T → t ≠ s →
    token s.row = some T ∧ s.cached = true ∧ t.row = none
  released : ∀ T ∈ t.released, T ∉ s.released → x.Releases s T

def Names (P : Platform) (apId actorId : Text) : Prop :=
  canonicalRemoteActorTombstoneId P actorId = canonicalRemoteActorTombstoneId P apId ∧
    retained apId actorId = true

structure Fenced (P : Platform) (apId : Text) (d : Db) : Prop where
  claims : ∀ g ∈ d.granted, ∀ h ∈ d.granted, d.now < g.leaseExpiresAt →
    d.now < h.leaseExpiresAt → g.token ∉ d.released → h.token ∉ d.released → g = h
  counted : ∀ r, d.row = some r → r.failureCount = min r.writers.length maxFailureCount
  written : ∀ r, d.row = some r → ∀ T ∈ r.writers, ∃ g ∈ d.granted, g.token = T ∧
    g.cacheWrites = d.cacheWrites
  tombstone : ∀ actorId ∈ d.deletes, Names P apId actorId →
    d.tombstoned = true ∧ d.cached = false

end promise

section states

variable {d d' : Db} {p q T : Nat} {r : Row} {row : Option Row} {x : Stage}

structure RowOk (d : Db) (r : Row) : Prop where
  token : ∀ T, r.processingToken = some T → ∃ g ∈ d.granted, g.token = T ∧
    r.leaseExpiresAt = some g.leaseExpiresAt ∧ g.cacheWrites = d.cacheWrites
  writers : ∀ T ∈ r.writers, ∃ g ∈ d.granted, g.token = T ∧ g.cacheWrites = d.cacheWrites
  count : r.failureCount = min r.writers.length maxFailureCount

structure Inv (d : Db) : Prop where
  tokens : (d.granted.map (·.token)).Nodup
  clock : ∀ g ∈ d.granted, g.time ≤ d.now
  row : ∀ r, d.row = some r → RowOk d r
  kept : ∀ g ∈ d.granted, token d.row = some g.token ∨ g.token ∈ d.released ∨
    g.leaseExpiresAt ≤ d.now

def Barred (P : Platform) (apId : Text) (d : Db) : Prop :=
  ∀ actorId ∈ d.deletes, Names P apId actorId → d.tombstoned = true ∧ d.cached = false

theorem Inv.eq_of_token (h : Inv d) {g k : Grant} (hg : g ∈ d.granted) (hk : k ∈ d.granted)
    (heq : g.token = k.token) : g = k :=
  List.inj_on_of_nodup_map h.tokens hg hk heq

theorem Inv.fenced (h : Inv d) {P : Platform} {apId : Text} (hb : Barred P apId d) :
    Fenced P apId d := by
  refine ⟨fun g hg k hk hglive hklive hgr hkr => ?_,fun r hr => (h.row r hr).count,
    fun r hr => (h.row r hr).writers,hb⟩
  have hstored : ∀ a ∈ d.granted, d.now < a.leaseExpiresAt → a.token ∉ d.released →
      token d.row = some a.token := by
    intro a ha hlive hrel
    rcases h.kept a ha with hrow | hin | hexp
    · exact hrow
    · exact absurd hin hrel
    · omega
  have heq := (hstored g hg hglive hgr).symm.trans (hstored k hk hklive hkr)
  exact h.eq_of_token hg hk (Option.some.inj heq)

theorem mem_released_write (hnone : token row = none) :
    T ∈ (d.write row).released ↔ token d.row = some T ∨ T ∈ d.released := by
  rw [Db.write]
  simp only [hnone,if_true,List.mem_append,Option.mem_toList]

theorem Inv.write (h : Inv d) (hnone : token row = none) (hrow : ∀ r, row = some r → RowOk d r) :
    Inv (d.write row) := by
  refine ⟨h.tokens,h.clock,fun r hr => ?_,fun g hg => ?_⟩
  · have hok := hrow r hr
    exact ⟨hok.token,hok.writers,hok.count⟩
  · rcases h.kept g hg with hstored | hin | hexp
    · exact Or.inr (Or.inl ((mem_released_write hnone).mpr (Or.inl hstored)))
    · exact Or.inr (Or.inl ((mem_released_write hnone).mpr (Or.inr hin)))
    · exact Or.inr (Or.inr hexp)

/-- A claim puts its own token into the row, in place of none or of an expired one. -/
theorem Inv.grant (h : Inv d) {time : Nat} (htime : time ≤ d.now)
    (hp : ∀ g ∈ d.granted, g.token ≠ p) (htoken : r.processingToken = some p)
    (hlease : r.leaseExpiresAt = some (time + remoteActorFetchLeaseMs))
    (hwriters : ∀ T ∈ r.writers, ∃ g ∈ d.granted, g.token = T ∧ g.cacheWrites = d.cacheWrites)
    (hcount : r.failureCount = min r.writers.length maxFailureCount)
    (hexpired : ∀ g ∈ d.granted, token d.row = some g.token → g.leaseExpiresAt ≤ d.now) :
    Inv (d.grant r p time) := by
  have hreleased : (d.write (some r)).released = d.released := by
    rw [Db.write]
    simp [token,htoken]
  refine ⟨List.nodup_cons.mpr ⟨?_,h.tokens⟩,fun g hg => ?_,fun r' hr => ?_,fun g hg => ?_⟩
  · rintro hin
    obtain ⟨g,hg,heq⟩ := List.mem_map.mp hin
    exact hp g hg heq
  · rcases List.mem_cons.mp hg with rfl | hg
    · exact htime
    · exact h.clock g hg
  · cases hr
    refine ⟨fun T hT => ?_,fun T hT => ?_,hcount⟩
    · rw [htoken] at hT
      cases hT
      exact ⟨_,List.mem_cons_self,rfl,hlease,rfl⟩
    · obtain ⟨g,hg,hgT,hcache⟩ := hwriters T hT
      exact ⟨g,List.mem_cons_of_mem _ hg,hgT,hcache⟩
  · rcases List.mem_cons.mp hg with rfl | hg
    · exact Or.inl htoken
    · rcases h.kept g hg with hstored | hin | hexp
      · exact Or.inr (Or.inr (hexpired g hg hstored))
      · refine Or.inr (Or.inl ?_)
        change g.token ∈ (d.write (some r)).released
        rw [hreleased]
        exact hin
      · exact Or.inr (Or.inr hexp)

theorem Inv.cacheActor (h : Inv d) : Inv (cacheActor d) := by
  unfold FetchLedger.cacheActor
  split
  · exact h
  · have hw : Inv (d.write none) := h.write rfl fun r hr => (by cases hr)
    exact ⟨hw.tokens,hw.clock,fun r hr => (by cases hr),hw.kept⟩

theorem Inv.happen (h : Inv d) (P : Platform) (apId : Text) (e : Event) :
    Inv (happen P apId d e) := by
  cases e with
  | tick ms =>
    refine ⟨h.tokens,fun g hg => ?_,fun r hr => ?_,fun g hg => ?_⟩
    · have := h.clock g hg
      change g.time ≤ d.now + ms
      omega
    · have hok := h.row r hr
      exact ⟨hok.token,hok.writers,hok.count⟩
    · rcases h.kept g hg with hstored | hin | hexp
      · exact Or.inl hstored
      · exact Or.inr (Or.inl hin)
      · refine Or.inr (Or.inr ?_)
        change g.leaseExpiresAt ≤ d.now + ms
        omega
  | handleRemoteActorDelete actorId =>
    simp only [FetchLedger.happen,handleRemoteActorDelete]
    split
    · have hw : Inv (d.write none) := h.write rfl fun r hr => (by cases hr)
      exact ⟨hw.tokens,hw.clock,fun r hr => (by cases hr),hw.kept⟩
    · refine ⟨h.tokens,h.clock,fun r hr => ?_,h.kept⟩
      have hok := h.row r hr
      exact ⟨hok.token,hok.writers,hok.count⟩

theorem Barred.happen {P : Platform} {apId : Text} (h : Barred P apId d) (e : Event) :
    Barred P apId (happen P apId d e) := by
  cases e with
  | tick ms => exact h
  | handleRemoteActorDelete actorId =>
    intro actorId' hin hnames
    simp only [FetchLedger.happen,handleRemoteActorDelete] at hin ⊢
    rcases List.mem_cons.mp hin with rfl | hin
    · simp [hnames.1,hnames.2]
    · obtain ⟨htomb,hcached⟩ := h actorId' hin hnames
      refine ⟨by simp [htomb],?_⟩
      split
      · rfl
      · exact hcached

/-- A statement of a call caches the actor only where there is no tombstone. -/
theorem Barred.work {P : Platform} {apId : Text} {i : Bool} (h : Barred P apId d) :
    Barred P apId (FetchLedger.work i p d x).1 := by
  have hcalls : (FetchLedger.work i p d x).1.deletes = d.deletes ∧
      (FetchLedger.work i p d x).1.tombstoned = d.tombstoned ∧
        (d.tombstoned = true → (FetchLedger.work i p d x).1.cached = d.cached) := by
    cases x with
    | claimInsert time =>
      simp only [FetchLedger.work]
      split <;> exact ⟨rfl,rfl,fun _ => rfl⟩
    | claimUpdate time =>
      simp only [FetchLedger.work]
      split
      · exact ⟨rfl,rfl,fun _ => rfl⟩
      · split <;> exact ⟨rfl,rfl,fun _ => rfl⟩
    | recordUpdate time failure T n =>
      simp only [FetchLedger.work]
      split
      · exact ⟨rfl,rfl,fun _ => rfl⟩
      · split <;> exact ⟨rfl,rfl,fun _ => rfl⟩
    | recordRemove time T =>
      simp only [FetchLedger.work]
      split <;> exact ⟨rfl,rfl,fun _ => rfl⟩
    | cacheWrite =>
      simp only [FetchLedger.work,FetchLedger.cacheActor]
      split
      · exact ⟨rfl,rfl,fun _ => rfl⟩
      · rename_i htomb
        exact ⟨rfl,rfl,fun ht => absurd ht htomb⟩
    | clear o =>
      cases o with
      | none => exact ⟨rfl,rfl,fun _ => rfl⟩
      | some T =>
        simp only [FetchLedger.work]
        split <;> exact ⟨rfl,rfl,fun _ => rfl⟩
    | reap time =>
      simp only [FetchLedger.work]
      split <;> exact ⟨rfl,rfl,fun _ => rfl⟩
    | _ => exact ⟨rfl,rfl,fun _ => rfl⟩
  intro actorId hin hnames
  obtain ⟨hdeletes,htombstoned,hcached⟩ := hcalls
  obtain ⟨htomb,hnot⟩ := h actorId (hdeletes ▸ hin) hnames
  exact ⟨htombstoned.trans htomb,(hcached htomb).trans hnot⟩

end states

section calls

variable {d d' : Db} {p q T : Nat} {r : Row} {row : Option Row} {x : Stage} {i : Bool}

def Stage.time : Stage → Option Nat
  | .claimInsert time | .claimUpdate time | .claimCurrent time | .recordPrior time _ _
  | .recordUpdate time _ _ _ | .recordCached time _ | .recordRemove time _ | .recordCurrent time
  | .reapCandidates time | .reap time => some time
  | _ => none

def Stage.claiming : Stage → Bool
  | .start .claimRemoteActorFetch | .claimInsert _ | .claimUpdate _ => true
  | _ => false

def Stage.recording : Stage → Option Nat
  | .recordPrior _ _ T | .recordUpdate _ _ T _ | .recordCached _ T | .recordRemove _ T => some T
  | _ => none

structure Knows (p : Nat) (d : Db) (x : Stage) : Prop where
  time : ∀ time, x.time = some time → time ≤ d.now
  claiming : x.claiming = true → ∀ g ∈ d.granted, g.token ≠ p
  recording : ∀ T, x.recording = some T → ∃ g ∈ d.granted, g.token = T
  prior : ∀ time failure T n, x = .recordUpdate time failure T n → token d.row = some T →
    nextFailureCount d.row = n
  remove : ∀ time T, x = .recordRemove time T → token d.row = some T → d.cached = true

/-- What somebody else's statement leaves of the row of a claim that was given. -/
structure Evolves (d d' : Db) : Prop where
  now : d.now ≤ d'.now
  granted : d.granted ⊆ d'.granted
  keeps : ∀ g ∈ d.granted, token d'.row = some g.token → token d.row = some g.token ∧
    nextFailureCount d'.row = nextFailureCount d.row ∧ d'.cached = d.cached

theorem Evolves.refl (d : Db) : Evolves d d :=
  ⟨Nat.le_refl _,List.Subset.refl _,fun _ _ h => ⟨h,rfl,rfl⟩⟩

theorem Evolves.of_none (hnow : d.now ≤ d'.now) (hgranted : d.granted ⊆ d'.granted)
    (hnone : token d'.row = none) : Evolves d d' := by
  refine ⟨hnow,hgranted,fun g _ h => ?_⟩
  rw [hnone] at h
  cases h

theorem Evolves.grant {time : Nat} (hp : ∀ g ∈ d.granted, g.token ≠ p)
    (htoken : r.processingToken = some p) : Evolves d (d.grant r p time) := by
  refine ⟨Nat.le_refl _,List.subset_cons_self _ _,fun g hg h => ?_⟩
  have heq : some p = some g.token := htoken.symm.trans h
  exact absurd (Option.some.inj heq).symm (hp g hg)

theorem Knows.evolves (h : Knows q d x) (he : Evolves d d')
    (hnew : ∀ g ∈ d'.granted, g ∈ d.granted ∨ g.token ≠ q) : Knows q d' x := by
  refine ⟨fun time ht => (h.time time ht).trans he.now,fun hc g hg => ?_,fun T hT => ?_,
    fun time failure T n hx hT => ?_,fun time T hx hT => ?_⟩
  · rcases hnew g hg with hg | hne
    · exact h.claiming hc g hg
    · exact hne
  · obtain ⟨g,hg,hgT⟩ := h.recording T hT
    exact ⟨g,he.granted hg,hgT⟩
  · obtain ⟨g,hg,rfl⟩ := h.recording T (by rw [hx]; rfl)
    obtain ⟨hbefore,hcount,_⟩ := he.keeps g hg hT
    rw [hcount]
    exact h.prior time failure _ n hx hbefore
  · obtain ⟨g,hg,rfl⟩ := h.recording T (by rw [hx]; rfl)
    obtain ⟨hbefore,_,hcached⟩ := he.keeps g hg hT
    rw [hcached]
    exact h.remove time _ hx hbefore

theorem Knows.timed (hc : x.claiming = false) (hr : x.recording = none)
    (ht : ∀ time, x.time = some time → time ≤ d.now) : Knows p d x := by
  refine ⟨ht,fun h => ?_,fun T h => ?_,fun _ _ _ _ h => ?_,fun _ _ h => ?_⟩
  · rw [hc] at h
    cases h
  · rw [hr] at h
    cases h
  · rw [h] at hr
    cases hr
  · rw [h] at hr
    cases hr

theorem Knows.free {answer : Answer} : Knows p d (.done answer) :=
  Knows.timed rfl rfl fun _ h => (by cases h)

/-- What one statement does: the state that it leaves, what the call knows then, and what becomes of
the rows of others. -/
structure Spec (p : Nat) (d : Db) (x : Stage) (next : Db × Stage) : Prop where
  inv : Inv next.1
  knows : Knows p next.1 next.2
  evolves : Evolves d next.1
  new : ∀ g ∈ next.1.granted, g ∈ d.granted ∨ g.token = p
  right : Right d x next.1

theorem Right.refl (h : ∀ time failure T n, x = .recordUpdate time failure T n →
    token d.row = some T → d.cached = true) : Right d x d := by
  refine ⟨fun hne => absurd rfl hne,fun time failure T n hx hT hc => ?_,fun _ _ _ _ _ _ => rfl,
    fun _ _ _ => rfl,fun _ _ _ hne => absurd rfl hne,fun _ hin hout => absurd hin hout⟩
  rw [h time failure T n hx hT] at hc
  cases hc

theorem Spec.reads {y : Stage} (h : Inv d) (hk : Knows p d y)
    (hx : ∀ time failure T n, x = .recordUpdate time failure T n →
      token d.row = some T → d.cached = true) : Spec p d x (d,y) :=
  ⟨h,hk,Evolves.refl d,fun _ hg => Or.inl hg,Right.refl hx⟩

theorem Spec.deletes {y : Stage} (h : Inv d) (hk : Knows p (d.write none) y)
    (hx : ∀ time failure T n, x ≠ .recordUpdate time failure T n)
    (hstale : ∀ T, x.claimToken = some T → token d.row = some T)
    (hremove : ∀ time T, x = .recordRemove time T → d.cached = true)
    (hrel : ∀ T, token d.row = some T → x.Releases d T) : Spec p d x (d.write none,y) := by
  have hw : Inv (d.write none) := h.write rfl fun r hr => (by cases hr)
  refine ⟨hw,hk,Evolves.of_none (Nat.le_refl _) (List.Subset.refl _) rfl,fun _ hg => Or.inl hg,
    fun hne => absurd rfl hne,fun time failure T n heq => absurd heq (hx time failure T n),
    fun time failure T n heq => absurd heq (hx time failure T n),
    fun T hT hne => absurd (hstale T hT) hne,fun time T heq _ => ?_,fun T hin hout => ?_⟩
  · exact ⟨hstale T (by rw [heq]; rfl),hremove time T heq,rfl⟩
  · rcases (mem_released_write rfl).mp hin with hT | hin
    · exact hrel T hT
    · exact absurd hin hout

theorem released_grant {time : Nat} (htoken : r.processingToken = some p) :
    (d.grant r p time).released = d.released := by
  rw [Db.grant,Db.write]
  simp [token,htoken]

theorem Spec.grants {time : Nat} (hinv : Inv (d.grant r p time))
    (hp : ∀ g ∈ d.granted, g.token ≠ p) (htoken : r.processingToken = some p)
    (hx : x = .claimInsert time ∨ x = .claimUpdate time)
    (hrow : ∀ r, d.row = some r → r.kind ≠ gone ∧ r.retryAt.all (· ≤ d.now) = true ∧
      (r.processingToken = none ∨ r.leaseExpiresAt.all (· ≤ d.now) = true)) :
    Spec p d x (d.grant r p time,.done (.owned p)) := by
  refine ⟨hinv,Knows.free,Evolves.grant hp htoken,fun g hg => ?_,fun _ => hrow,?_,?_,?_,?_,?_⟩
  · rcases List.mem_cons.mp hg with rfl | hg
    · exact Or.inr rfl
    · exact Or.inl hg
  · rintro time' failure T n rfl
    rcases hx with hx | hx <;> cases hx
  · rintro time' failure T n rfl
    rcases hx with hx | hx <;> cases hx
  · intro T hT
    rcases hx with rfl | rfl <;> cases hT
  · rintro time' T rfl
    rcases hx with hx | hx <;> cases hx
  · intro T hin hout
    change T ∈ (d.grant r p time).released at hin
    rw [released_grant htoken] at hin
    exact absurd hin hout

theorem all_le {o : Option Nat} {a b : Nat} (h : o.all (· ≤ a) = true) (hab : a ≤ b) :
    o.all (· ≤ b) = true := by
  cases o with
  | none => rfl
  | some n =>
    have hn := of_decide_eq_true h
    exact decide_eq_true (hn.trans hab)

theorem spec_claimInsert {time : Nat} (h : Inv d) (hk : Knows p d (.claimInsert time)) :
    Spec p d (.claimInsert time) (work i p d (.claimInsert time)) := by
  have htime := hk.time time rfl
  unfold work
  cases hrow : d.row with
  | none =>
    have hinv : Inv (d.grant (claimRow p time) p time) :=
      h.grant htime (hk.claiming rfl) rfl rfl (fun _ hT => (by cases hT)) rfl
        fun g _ hT => (by rw [hrow] at hT; cases hT)
    exact Spec.grants hinv (hk.claiming rfl) rfl (Or.inl rfl) fun r hr => (by
      rw [hrow] at hr
      cases hr)
  | some r =>
    refine Spec.reads h ⟨fun _ ht => ?_,fun _ => hk.claiming rfl,fun _ ht => (by cases ht),
      fun _ _ _ _ ht => (by cases ht),fun _ _ ht => (by cases ht)⟩ fun _ _ _ _ ht => (by cases ht)
    cases ht
    exact htime

theorem spec_claimUpdate {time : Nat} (h : Inv d) (hk : Knows p d (.claimUpdate time)) :
    Spec p d (.claimUpdate time) (work i p d (.claimUpdate time)) := by
  have htime := hk.time time rfl
  have hrefused : Spec p d (.claimUpdate time) (d,.claimCurrent time) := by
    refine Spec.reads h (Knows.timed rfl rfl fun _ ht => ?_) fun _ _ _ _ ht => (by cases ht)
    cases ht
    exact htime
  unfold work
  cases hrow : d.row with
  | none => exact hrefused
  | some r =>
    dsimp only
    split
    · rename_i hclaim
      simp only [claimable,Bool.and_eq_true,Bool.or_eq_true,decide_eq_true_eq] at hclaim
      obtain ⟨⟨hkind,hretry⟩,hlease⟩ := hclaim
      have hok := h.row r hrow
      have hfree : r.processingToken = none ∨ r.leaseExpiresAt.all (· ≤ d.now) = true :=
        hlease.imp Option.isNone_iff_eq_none.mp fun hl => all_le hl htime
      have hinv : Inv (d.grant (claimed p time r) p time) := by
        refine h.grant htime (hk.claiming rfl) rfl rfl hok.writers hok.count fun g hg hT => ?_
        rw [hrow] at hT
        have hT : r.processingToken = some g.token := hT
        obtain ⟨k,hk,hkT,hkl,_⟩ := hok.token _ hT
        obtain rfl := h.eq_of_token hk hg hkT
        rcases hfree with hnone | hexp
        · rw [hnone] at hT
          cases hT
        · rw [hkl,Option.all_some,decide_eq_true_eq] at hexp
          exact hexp
      refine Spec.grants hinv (hk.claiming rfl) rfl (Or.inr rfl) fun r' hr => ?_
      rw [hrow] at hr
      cases hr
      exact ⟨hkind,all_le hretry htime,hfree⟩
    · exact hrefused

theorem raised {time n : Nat} {failure : ActorCacheFailure}
    (h : nextFailureCount (some r) = n) : Raised time failure r (failed time failure T n r) := by
  refine ⟨h.symm,rfl,fun hkind => ?_⟩
  refine ⟨time + max (exponentialSeconds (classifyFetchFailure failure) n)
    (failure.remoteRetryAfterSeconds.getD 0) * 1000,?_,?_,?_⟩
  · change (failureBackoffSeconds _ _ _).map _ = _
    have hnot : classifyFetchFailure failure ≠ gone := hkind
    rw [failureBackoffSeconds,if_neg hnot]
    rfl
  · exact Nat.add_le_add_left (Nat.mul_le_mul_right _ (Nat.le_max_left _ _)) _
  · exact Nat.add_le_add_left (Nat.mul_le_mul_right _ (Nat.le_max_right _ _)) _

theorem spec_recordUpdate {time n : Nat} {failure : ActorCacheFailure} (h : Inv d)
    (hk : Knows p d (.recordUpdate time failure T n)) :
    Spec p d (.recordUpdate time failure T n) (work i p d (.recordUpdate time failure T n)) := by
  have htime := hk.time time rfl
  have hcached : Knows p d (.recordCached time T) := by
    refine ⟨fun _ ht => ?_,fun ht => (by cases ht),fun _ ht => ?_,fun _ _ _ _ ht => (by cases ht),
      fun _ _ ht => (by cases ht)⟩
    · cases ht
      exact htime
    · cases ht
      exact hk.recording T rfl
  unfold work
  cases hrow : d.row with
  | none =>
    refine Spec.reads h hcached fun _ _ _ _ _ hT => ?_
    rw [hrow] at hT
    cases hT
  | some r =>
    dsimp only
    split
    · rename_i hcond
      obtain ⟨hT,hnot⟩ := hcond
      have hstored : token d.row = some T := by
        rw [hrow]
        exact hT
      have hok := h.row r hrow
      have hn : nextFailureCount (some r) = n := by
        rw [← hrow]
        exact hk.prior time failure T n rfl hstored
      have hinv : Inv (d.write (some (failed time failure T n r))) := by
        refine h.write rfl fun r' hr => ?_
        cases hr
        refine ⟨fun _ hT' => (by cases hT'),fun T' hT' => ?_,?_⟩
        · rcases List.mem_cons.mp hT' with rfl | hT'
          · obtain ⟨g,hg,hgT,_,hcache⟩ := hok.token _ hT
            exact ⟨g,hg,hgT,hcache⟩
          · exact hok.writers T' hT'
        · have hcount := hok.count
          simp only [nextFailureCount,Option.map_some,Option.getD_some] at hn
          simp only [failed,List.length_cons]
          omega
      refine ⟨hinv,Knows.free,Evolves.of_none (Nat.le_refl _) (List.Subset.refl _) rfl,
        fun _ hg => Or.inl hg,fun hne => absurd rfl hne,?_,?_,?_,fun _ _ ht => (by cases ht),?_⟩
      · intro time' failure' T' n' heq _ _
        cases heq
        exact ⟨r,_,hrow,rfl,raised hn⟩
      · intro _ _ _ _ heq hc
        cases heq
        rw [hnot] at hc
        cases hc
      · intro T' hT' hne
        cases hT'
        exact absurd hstored hne
      · intro T' hin hout
        rcases (mem_released_write rfl).mp hin with hT' | hin
        · exact Option.some.inj (hstored.symm.trans hT')
        · exact absurd hin hout
    · rename_i hcond
      refine Spec.reads h hcached fun _ _ T' _ heq hT' => ?_
      cases heq
      rw [hrow] at hT'
      refine Bool.eq_true_of_not_eq_false fun hc => hcond ⟨hT',hc⟩

theorem spec_begin {request : Request} (h : Inv d) (hk : Knows p d (.start request))
    (ha : request.admissible d = true) :
    Spec p d (.start request) (d,begin d.now request) := by
  have hnow : ∀ time, some d.now = some time → time ≤ d.now := fun _ ht => (by
    cases ht
    exact Nat.le_refl _)
  refine Spec.reads h ?_ fun _ _ _ _ ht => (by cases ht)
  cases request with
  | claimRemoteActorFetch =>
    exact ⟨hnow,fun _ => hk.claiming rfl,fun _ ht => (by cases ht),
      fun _ _ _ _ ht => (by cases ht),fun _ _ ht => (by cases ht)⟩
  | recordRemoteActorFetchFailure failure T =>
    refine ⟨hnow,fun ht => (by cases ht),fun T' ht => ?_,fun _ _ _ _ ht => (by cases ht),
      fun _ _ ht => (by cases ht)⟩
    cases ht
    obtain ⟨g,hg,hgT⟩ := List.any_eq_true.mp ha
    exact ⟨g,hg,of_decide_eq_true hgT⟩
  | cacheRemoteActorDocument invalid =>
    cases invalid with
    | none => exact Knows.timed rfl rfl fun _ ht => (by cases ht)
    | some failure => exact Knows.free
  | clearRemoteActorFetchFailure token => exact Knows.timed rfl rfl fun _ ht => (by cases ht)
  | reapRemoteActorFetchFailures => exact Knows.timed rfl rfl hnow

theorem spec_recordRemove {time : Nat} (h : Inv d) (hk : Knows p d (.recordRemove time T)) :
    Spec p d (.recordRemove time T) (work i p d (.recordRemove time T)) := by
  have hnext : ∀ d' : Db, d'.now = d.now → Knows p d' (.recordCurrent time) := by
    intro d' hnow
    refine Knows.timed rfl rfl fun _ ht => ?_
    cases ht
    rw [hnow]
    exact hk.time time rfl
  change Spec p d _ (if token d.row = some T then d.write none else d,.recordCurrent time)
  split
  · rename_i hstored
    refine Spec.deletes h (hnext _ rfl) (fun _ _ _ _ ht => (by cases ht)) (fun T' hT' => ?_)
      (fun time' T' ht => ?_) fun T' hT' => ?_
    · cases hT'
      exact hstored
    · cases ht
      exact hk.remove time T rfl hstored
    · exact Option.some.inj (hstored.symm.trans hT')
  · exact Spec.reads h (hnext _ rfl) fun _ _ _ _ ht => (by cases ht)

theorem spec_clear {o : Option Nat} (h : Inv d) :
    Spec p d (.clear o) (work i p d (.clear o)) := by
  cases o with
  | none =>
    exact Spec.deletes h Knows.free (fun _ _ _ _ ht => (by cases ht)) (fun _ ht => (by cases ht))
      (fun _ _ ht => (by cases ht)) fun _ _ => trivial
  | some T =>
    change Spec p d _ (if token d.row = some T then d.write none else d,.done .void)
    split
    · rename_i hstored
      refine Spec.deletes h Knows.free (fun _ _ _ _ ht => (by cases ht)) (fun T' hT' => ?_)
        (fun _ _ ht => (by cases ht)) fun T' hT' => ?_
      · cases hT'
        exact hstored
      · exact Option.some.inj (hstored.symm.trans hT')
    · exact Spec.reads h Knows.free fun _ _ _ _ ht => (by cases ht)

theorem spec_reap {time : Nat} (h : Inv d) (hk : Knows p d (.reap time)) :
    Spec p d (.reap time) (work i p d (.reap time)) := by
  change Spec p d _ (if d.row.any (reapable time) then d.write none else d,.done .void)
  split
  · rename_i hreap
    refine Spec.deletes h Knows.free (fun _ _ _ _ ht => (by cases ht)) (fun _ ht => (by cases ht))
      (fun _ _ ht => (by cases ht)) fun T hT r hr => ?_
    rw [hr,Option.any_some,reapable,Bool.and_eq_true] at hreap
    exact all_le hreap.2 (hk.time time rfl)
  · exact Spec.reads h Knows.free fun _ _ _ _ ht => (by cases ht)

theorem spec_cacheWrite (h : Inv d) : Spec p d .cacheWrite (work i p d .cacheWrite) := by
  have hinv := h.cacheActor
  have hk : ∀ d' : Db, Knows p d' .cacheTombstone := fun _ =>
    Knows.timed rfl rfl fun _ ht => (by cases ht)
  change Spec p d .cacheWrite (cacheActor d,.cacheTombstone)
  unfold cacheActor at hinv ⊢
  split
  · exact Spec.reads h (hk d) fun _ _ _ _ ht => (by cases ht)
  · rename_i htomb
    rw [if_neg htomb] at hinv
    refine ⟨hinv,hk _,Evolves.of_none (Nat.le_refl _) (List.Subset.refl _) rfl,
      fun _ hg => Or.inl hg,fun hne => absurd rfl hne,fun _ _ _ _ ht => (by cases ht),
      fun _ _ _ _ ht => (by cases ht),fun _ ht => (by cases ht),fun _ _ ht => (by cases ht),
      fun _ _ _ => Bool.eq_false_of_not_eq_true htomb⟩

theorem work_spec (h : Inv d) (hk : Knows p d x) (ha : allowed d x = true) :
    Spec p d x (work i p d x) := by
  have hfree : ∀ y answer, y = .done answer →
      (∀ time failure T n, x ≠ .recordUpdate time failure T n) →
      Spec p d x (d,y) := fun y answer hy hx =>
    Spec.reads h (hy ▸ Knows.free) fun time failure T n heq => absurd heq (hx time failure T n)
  cases x with
  | start request => exact spec_begin h hk ha
  | claimInsert time => exact spec_claimInsert h hk
  | claimUpdate time => exact spec_claimUpdate h hk
  | claimCurrent time => exact hfree _ _ rfl fun _ _ _ _ ht => (by cases ht)
  | recordPrior time failure T =>
    refine Spec.reads h ⟨fun _ ht => ?_,fun ht => (by cases ht),fun _ ht => ?_,
      fun _ _ _ _ ht _ => ?_,fun _ _ ht => (by cases ht)⟩ fun _ _ _ _ ht => (by cases ht)
    · cases ht
      exact hk.time time rfl
    · cases ht
      exact hk.recording T rfl
    · cases ht
      rfl
  | recordUpdate time failure T n => exact spec_recordUpdate h hk
  | recordCached time T =>
    have htime := hk.time time rfl
    unfold work
    refine Spec.reads h ?_ fun _ _ _ _ ht => (by cases ht)
    split
    · rename_i hc
      refine ⟨fun _ ht => ?_,fun ht => (by cases ht),fun _ ht => ?_,
        fun _ _ _ _ ht => (by cases ht),fun _ _ _ _ => hc⟩
      · cases ht
        exact htime
      · cases ht
        exact hk.recording T rfl
    · refine Knows.timed rfl rfl fun _ ht => ?_
      cases ht
      exact htime
  | recordRemove time T => exact spec_recordRemove h hk
  | recordCurrent time => exact hfree _ _ rfl fun _ _ _ _ ht => (by cases ht)
  | cacheWrite => exact spec_cacheWrite h
  | cacheTombstone =>
    unfold work
    refine Spec.reads h ?_ fun _ _ _ _ ht => (by cases ht)
    split
    · exact Knows.free
    · exact Knows.timed rfl rfl fun _ ht => (by cases ht)
  | cacheRow =>
    unfold work
    refine Spec.reads h ?_ fun _ _ _ _ ht => (by cases ht)
    split
    · exact Knows.free
    · exact Knows.timed rfl rfl fun _ ht => (by cases ht)
  | cacheRecheck => exact hfree _ _ rfl fun _ _ _ _ ht => (by cases ht)
  | clear o => exact spec_clear h
  | reapCandidates time =>
    unfold work
    refine Spec.reads h ?_ fun _ _ _ _ ht => (by cases ht)
    split
    · refine Knows.timed rfl rfl fun _ ht => ?_
      cases ht
      exact hk.time time rfl
    · exact Knows.free
  | reap time => exact spec_reap h hk
  | done answer => cases ha

theorem threads_stable (P : Platform) (apId : Text) :
    (threads P apId).Stable (fun d => Inv d ∧ Barred P apId d) fun p d x => Knows p d x where
  own i p d x d' y h hk hn := by
    obtain ⟨ha,hw⟩ := Threads.guarded_next.mp hn
    have hspec := work_spec (i := i) h.1 hk ha
    have hb := @Barred.work d p x P apId i h.2
    rw [hw] at hspec hb
    exact ⟨⟨hspec.inv,hb⟩,hspec.knows⟩
  other i p q d x d' y z h hk hq hpq hn := by
    obtain ⟨ha,hw⟩ := Threads.guarded_next.mp hn
    have hspec := work_spec (i := i) h.1 hk ha
    rw [hw] at hspec
    refine hq.evolves hspec.evolves fun g hg => (hspec.new g hg).imp_right fun heq hgq => ?_
    exact hpq (heq.symm.trans hgq)
  env e d d' h hn := by
    obtain ⟨_,rfl⟩ := Threads.guarded_env.mp hn
    refine ⟨⟨h.1.happen P apId e,h.2.happen e⟩,fun q z hz => ?_⟩
    cases e with
    | tick ms =>
      exact hz.evolves ⟨Nat.le_add_right _ _,List.Subset.refl _,fun _ _ ht => ⟨ht,rfl,rfl⟩⟩
        fun _ hg => Or.inl hg
    | handleRemoteActorDelete actorId =>
      simp only [happen,handleRemoteActorDelete]
      split
      · exact hz.evolves (Evolves.of_none (Nat.le_refl _) (List.Subset.refl _) rfl)
          fun _ hg => Or.inl hg
      · exact hz.evolves ⟨Nat.le_refl _,List.Subset.refl _,fun _ _ ht => ⟨ht,rfl,rfl⟩⟩
          fun _ hg => Or.inl hg

end calls

section results

/-- Nothing is in the ledger, and whom a Delete has named is not cached. -/
structure Start (P : Platform) (apId : Text) (s : Pool) : Prop where
  row : s.store.row = none
  granted : s.store.granted = []
  released : s.store.released = []
  deletes : ∀ actorId ∈ s.store.deletes, Names P apId actorId →
    s.store.tombstoned = true ∧ s.store.cached = false
  entry : ∀ p, ∃ request, s.thread p = .start request

theorem Start.holds {P : Platform} {apId : Text} {s : Pool} (h : Start P apId s) :
    Threads.Holds (fun d => Inv d ∧ Barred P apId d) (fun p d x => Knows p d x) s := by
  have hno : ∀ g, g ∉ s.store.granted := by
    intro g hg
    rw [h.granted] at hg
    cases hg
  refine ⟨⟨⟨?_,fun g hg => absurd hg (hno g),fun r hr => ?_,fun g hg => absurd hg (hno g)⟩,
    h.deletes⟩,fun p => ?_⟩
  · rw [h.granted]
    exact List.nodup_nil
  · rw [h.row] at hr
    cases hr
  · obtain ⟨request,hp⟩ := h.entry p
    rw [hp]
    exact ⟨fun _ ht => (by cases ht),fun _ g hg => absurd hg (hno g),fun _ ht => (by cases ht),
      fun _ _ _ _ ht => (by cases ht),fun _ _ ht => (by cases ht)⟩

theorem fetches_fenced (P : Platform) (apId : Text) (s₀ s : Pool) (h : Start P apId s₀)
    (hr : (threads P apId).machine.Reaches s₀ s) :
    Fenced P apId s.store ∧ ∀ p i t, (threads P apId).machine.step (.act p i) s = some t →
      Right s.store (s.thread p) t.store := by
  obtain ⟨⟨hinv,hbarred⟩,hknows⟩ := (threads_stable P apId).reaches hr h.holds
  refine ⟨hinv.fenced hbarred,fun p i t ht => ?_⟩
  rw [threads,Threads.guarded_step_act] at ht
  obtain ⟨ha,rfl⟩ := ht
  exact (work_spec hinv (hknows p) ha).right

theorem start_fresh (P : Platform) (apId : Text) (now : Nat) (requests : Nat → Request) :
    Start P apId (fresh now requests) :=
  ⟨rfl,rfl,rfl,fun _ h => (by cases h),fun p => ⟨requests p,rfl⟩⟩

def overlapping (p : Nat) : Request :=
  if p < 2 then .claimRemoteActorFetch else .cacheRemoteActorDocument none

def overlap : List (Threads.Label Bool Event) :=
  [.act 0 false,.act 0 false,.env (.tick 1000),.act 2 false,.act 2 false,.act 1 false,.act 1 false]

def remoteActor : Text := "https://remote.example/users/x".toList

def ledger (apId : Text) (ls : List (Threads.Label Bool Event)) : Pool :=
  ((threads plainHosts apId).machine.run ls (fresh 0 overlapping)).getD (fresh 0 overlapping)

def deleted : List (Threads.Label Bool Event) :=
  overlap ++ [.env (.handleRemoteActorDelete "https://REMOTE.example/users/x/".toList),
    .act 3 false,.act 3 false]

theorem fetches_fenced_deleted :
    (ledger remoteActor overlap).store.granted = [⟨1,1000,1⟩,⟨0,0,0⟩] ∧
      Fenced plainHosts remoteActor (ledger remoteActor overlap).store ∧
      (ledger remoteActor deleted).store.deletes = ["https://REMOTE.example/users/x/".toList] ∧
      Names plainHosts remoteActor "https://REMOTE.example/users/x/".toList ∧
      Fenced plainHosts remoteActor (ledger remoteActor deleted).store := by
  refine ⟨by decide +kernel,(fetches_fenced _ _ _ _ (start_fresh _ _ 0 overlapping)
    (Machine.reaches_run (by decide +kernel))).1,by decide +kernel,
    ⟨by decide +kernel,by decide +kernel⟩,(fetches_fenced _ _ _ _
      (start_fresh _ _ 0 overlapping) (Machine.reaches_run (by decide +kernel))).1⟩

def dotted : Text := "https://remote.example/users/./x".toList

/-- What is not promised: that no other claim is given before the lease of one is over, and that
a tombstone goes with the cached actor where SQL has another identity. -/
theorem claims_overlap :
    (¬∀ P apId (s₀ s : Pool), Start P apId s₀ → (threads P apId).machine.Reaches s₀ s →
      ∀ g ∈ s.store.granted, ∀ k ∈ s.store.granted, s.store.now < g.leaseExpiresAt →
        s.store.now < k.leaseExpiresAt → g = k) ∧
    ¬∀ P apId (s₀ s : Pool), Start P apId s₀ → (threads P apId).machine.Reaches s₀ s →
      s.store.tombstoned = true → s.store.cached = false := by
  refine ⟨fun h => ?_,fun h => ?_⟩
  · have heq := h plainHosts remoteActor _ (ledger remoteActor overlap)
      (start_fresh _ _ 0 overlapping) (Machine.reaches_run (by decide +kernel)) ⟨1,1000,1⟩
      (by decide +kernel) ⟨0,0,0⟩ (by decide +kernel) (by decide +kernel) (by decide +kernel)
    cases heq
  · have hnot := h plainHosts dotted _
      (ledger dotted (overlap ++ [.env (.handleRemoteActorDelete remoteActor)]))
      (start_fresh _ _ 0 overlapping) (Machine.reaches_run (by decide +kernel))
      (by decide +kernel)
    exact absurd hnot (by decide +kernel)

end results

end Yurucommu.FetchLedger
