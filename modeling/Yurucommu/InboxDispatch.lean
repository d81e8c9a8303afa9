import Yurucommu.Machine
import Yurucommu.Statement

/-!
Deliveries of one inbound activity: the dedup insert, the dispatch claim, the handler and
the commit or release of the claim, one statement at a time. A delivery whose isolate
dies, or that throws outside its `try`, is one that takes no further step.
-/

set_option autoImplicit false

namespace Yurucommu.Inbox

/-- The `processed` ledger values 0, 1 and 2. -/
inductive Processed where
  | unprocessed | done | undeliverable
deriving DecidableEq, Repr

theorem Processed.done_ne : Processed.done ≠ .unprocessed := nofun

theorem Processed.undeliverable_ne : Processed.undeliverable ≠ .unprocessed := nofun

abbrev Outcome := { state : Processed // state ≠ .unprocessed }

structure ClaimRow where
  processingToken : Option Nat
  leaseExpiresAt : Option Nat
deriving DecidableEq, Repr

/-- The `activities` row and the `inbound_activity_claims` row of the activity. -/
structure Store where
  now : Nat
  activity : Option Processed
  claim : Option ClaimRow
deriving DecidableEq, Repr

def inboundDispatchLeaseMs : Nat := 2 * 60 * 1000

inductive Delivery where
  | insertActivity
  | insertClaim
  | readProcessed
  | claim
  | dispatch
  | commit (state : Outcome)
  | clear
  | release
  | done
deriving DecidableEq, Repr

/-- What a statement learns from outside: the clock reading of the claim, how the handler
ended (`none` when it threw) and whether the statement failed. -/
structure Answer where
  now : Nat := 0
  handler : Option Outcome := some ⟨.done,Processed.done_ne⟩
  fails : Bool := false
deriving DecidableEq, Repr

/-- `processing_token IS NULL OR lease_expires_at <= now`. -/
def free (now : Nat) (r : ClaimRow) : Bool :=
  r.processingToken.isNone || r.leaseExpiresAt.any fun at_ => at_ ≤ now

def take (token now : Nat) (_ : ClaimRow) : ClaimRow where
  processingToken := some token
  leaseExpiresAt := some (now + inboundDispatchLeaseMs)

def holds (token : Nat) (r : ClaimRow) : Bool := r.processingToken == some token

def clearClaim (_ : ClaimRow) : ClaimRow := ⟨none,none⟩

def commitActivity (token : Nat) (state : Outcome) (s : Store) : Store :=
  let held := Statement.hits (holds token) s.claim
  { s with activity := Statement.update (fun _ => held) (fun _ => state.1) s.activity }

def releaseActivity (token : Nat) (s : Store) : Store :=
  { s with claim := Statement.update (holds token) clearClaim s.claim }

def work (i : Answer) (p : Nat) (s : Store) : Delivery → Store × Delivery
  | .insertActivity =>
    ({ s with activity := Statement.insertIgnore .unprocessed s.activity }, .insertClaim)
  | .insertClaim =>
    ({ s with claim := Statement.insertIgnore ⟨none,none⟩ s.claim }, .readProcessed)
  | .readProcessed => (s, if s.activity = some .unprocessed then .claim else .done)
  | .claim =>
    ({ s with claim := Statement.update (free i.now) (take p i.now) s.claim },
      if Statement.hits (free i.now) s.claim then .dispatch else .done)
  | .dispatch =>
    (s, match i.handler with
      | some state => .commit state
      | none => .release)
  | .commit state =>
    if i.fails then (s, .release)
    else
      (commitActivity p state s,
        if s.activity.isSome && Statement.hits (holds p) s.claim then .clear else .release)
  | .clear => if i.fails then (s, .release) else (releaseActivity p s, .done)
  | .release => (releaseActivity p s, .done)
  | .done => (s, .done)

def allowed (i : Answer) (s : Store) (d : Delivery) : Bool := d != .done && i.now ≤ s.now

def tick (ms : Nat) (s : Store) : Store := { s with now := s.now + ms }

def threads : Threads Store Delivery Answer Nat := .guarded allowed work (fun _ _ => true) tick

abbrev machine : Machine (Threads.Pool Store Delivery) (Threads.Label Answer Nat) :=
  threads.machine

abbrev Pool := Threads.Pool Store Delivery

abbrev Label := Threads.Label Answer Nat

def start : Pool := ⟨⟨0,none,none⟩,fun _ => .insertActivity⟩

theorem step_delivery {p : Nat} {i : Answer} {s t : Pool} :
    machine.step (.act p i) s = some t ↔
      (s.thread p ≠ .done ∧ i.now ≤ s.store.now) ∧
      t = ⟨(work i p s.store (s.thread p)).1,
        Function.update s.thread p (work i p s.store (s.thread p)).2⟩ := by
  rw [machine,threads,Threads.guarded_step_act]
  simp only [allowed,Bool.and_eq_true,bne_iff_ne,decide_eq_true_eq]

theorem step_tick {ms : Nat} {s t : Pool} :
    machine.step (.env ms) s = some t ↔ t = ⟨tick ms s.store,s.thread⟩ := by
  rw [machine,threads,Threads.guarded_step_env]
  simp only [true_and]

def Obtains (p : Nat) (l : Label) (s : Pool) : Prop :=
  ∃ i r, l = .act p i ∧ i.now ≤ s.store.now ∧ s.thread p = .claim ∧
    s.store.claim = some r ∧ free i.now r = true

def HoldsLease (p : Nat) (s : Pool) : Prop :=
  ∃ r at_, s.store.claim = some r ∧ r.processingToken = some p ∧
    r.leaseExpiresAt = some at_ ∧ s.store.now < at_

def Commits (p : Nat) (l : Label) (s : Pool) : Prop :=
  ∃ i state r, l = .act p i ∧ s.thread p = .commit state ∧ i.fails = false ∧
    s.store.activity.isSome = true ∧ s.store.claim = some r ∧ r.processingToken = some p

structure OnceAt (s : Pool) (l : Label) (t : Pool) : Prop where
  /-- Whoever obtains a claim finds the activity unprocessed. -/
  claimed : ∀ p, Obtains p l s → s.store.activity = some .unprocessed
  /-- `processed` leaves 0 by the holder of the stored token, and changes in no other way. -/
  committed : ∀ a b, s.store.activity = some a → t.store.activity = some b → a ≠ b →
    a = .unprocessed ∧ ∃ p i r, l = .act p i ∧ s.store.claim = some r ∧
      r.processingToken = some p
  /-- An unexpired lease keeps everybody else out. -/
  exclusive : ∀ p q, HoldsLease p s → ¬Obtains q l s

def DispatchedOnce (s₀ : Pool) (ls : List Label) : Prop :=
  ∀ as l bs s t, ls = as ++ l :: bs → machine.run as s₀ = some s →
    machine.step l s = some t → OnceAt s l t

/-- In the run `ls` some delivery `q` obtains a claim although a commit has taken effect
since it read `processed`. -/
def Overtaken (s₀ : Pool) (ls : List Label) : Prop :=
  ∃ q i as bs cs ds l k s₁ s₂ s₃,
    ls = as ++ .act q i :: bs ++ l :: cs ++ k :: ds ∧
    machine.run as s₀ = some s₁ ∧ s₁.thread q = .readProcessed ∧
    machine.run (as ++ .act q i :: bs) s₀ = some s₂ ∧ (∃ p, Commits p l s₂) ∧
    machine.run (as ++ .act q i :: bs ++ l :: cs) s₀ = some s₃ ∧ Obtains q k s₃

end Yurucommu.Inbox
