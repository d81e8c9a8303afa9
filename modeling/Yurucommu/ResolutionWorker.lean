import Yurucommu.Fanout

/-!
One row of `delivery_resolutions` and the runs that work on it, one statement or queue send
at a time: `processResolveActor` with its claim, and the two publishers. A run that throws,
or whose isolate dies, is one that takes no further step. A timestamp is the number of
milliseconds its ISO text prints.
-/

set_option autoImplicit false

namespace Yurucommu.Resolution

open Fanout (ResolutionStatus)

structure ResolutionRow where
  status : ResolutionStatus
  processingToken : Option Nat
  attempts : Nat
  nextAttemptAt : Nat
  lastError : Option String
  createdAt : Nat
  updatedAt : Nat
  resolvedAt : Option Nat
deriving DecidableEq, Repr

def staleResolutionMs : Nat := 2 * 60 * 1000
def terminalRetentionMs : Nat := 30 * 24 * 60 * 60 * 1000
def maxResolveAttempts : Nat := 8

def terminal : ResolutionStatus → Bool
  | .resolved | .failed | .discarded => true
  | .pending | .queued | .processing | .retryWait => false

/-- The row `prepareDeliveryResolutionJobs` inserts. -/
def newRow (now : Nat) : ResolutionRow :=
  ⟨.pending,none,0,now,none,now,now,none⟩

def waiting (r : ResolutionRow) : Bool := r.status = .pending || r.status = .retryWait

def due (now : Nat) (r : ResolutionRow) : Bool := waiting r && r.nextAttemptAt ≤ now

def claimable (now : Nat) (r : ResolutionRow) : Bool :=
  r.status = .pending || r.status = .queued ||
    (r.status = .retryWait && r.nextAttemptAt ≤ now) ||
      (r.status = .processing && r.updatedAt + staleResolutionMs ≤ now)

def claim (token now : Nat) (r : ResolutionRow) : ResolutionRow :=
  { r with status := .processing, processingToken := some token, updatedAt := now }

def owns (token : Nat) (r : ResolutionRow) : Bool := r.processingToken = some token

def retry (attempts delaySeconds now : Nat) (error : String) (r : ResolutionRow) :
    ResolutionRow :=
  { r with
    status := if maxResolveAttempts ≤ attempts then .failed else .retryWait
    processingToken := none
    attempts := attempts
    nextAttemptAt := now + delaySeconds * 1000
    lastError := some error
    updatedAt := now
    resolvedAt := if maxResolveAttempts ≤ attempts then some now else none }

def defer (delaySeconds now : Nat) (error : String) (r : ResolutionRow) : ResolutionRow :=
  { r with
    status := .retryWait
    processingToken := none
    nextAttemptAt := now + delaySeconds * 1000
    lastError := some error
    updatedAt := now
    resolvedAt := none }

inductive Completion where
  | resolved | discarded
deriving DecidableEq, Repr

def Completion.status : Completion → ResolutionStatus
  | .resolved => .resolved
  | .discarded => .discarded

def complete (status : Completion) (reason : Option String) (now : Nat) (r : ResolutionRow) :
    ResolutionRow :=
  { r with
    status := status.status
    processingToken := none
    lastError := reason
    updatedAt := now
    resolvedAt := some now }

def markQueued (now : Nat) (r : ResolutionRow) : ResolutionRow :=
  { r with status := .queued, processingToken := none, updatedAt := now }

def stale (now : Nat) (r : ResolutionRow) : Bool :=
  (r.status = .queued || r.status = .processing) && r.updatedAt + staleResolutionMs ≤ now

def sweep (now : Nat) (r : ResolutionRow) : ResolutionRow :=
  { r with status := .pending, processingToken := none, updatedAt := now }

def reopenTerminal (now : Nat) (r : ResolutionRow) : ResolutionRow :=
  { r with
    status := .pending
    processingToken := none
    attempts := 0
    nextAttemptAt := now
    lastError := none
    updatedAt := now
    resolvedAt := none }

def purgeable (now : Nat) (r : ResolutionRow) : Bool :=
  terminal r.status && r.updatedAt + terminalRetentionMs ≤ now

/-- The last two fields are history: the retries that took effect since the row was
inserted, and the latest time that a retry or a defer has put it off to. -/
structure Store where
  now : Nat
  row : Option ResolutionRow
  tombstoned : Bool
  retried : Nat
  backoff : Nat

inductive Outcome where
  | retry (error : String) (delaySeconds : Nat)
  | defer (error : String) (delaySeconds : Nat)
  | complete (status : Completion) (reason : Option String)
deriving DecidableEq, Repr

/-- A run of `processResolveActor`, of `enqueueDeliveryResolutionJobs` or of
`enqueuePendingDeliveryResolutionJobs`, and what it remembers. The token of a claim is the
number of its run. -/
inductive Worker where
  | start
  | select (now : Nat)
  | claim (now attempts : Nat)
  | holding (now attempts : Nat)
  | enqueue (reopenTerminal : Bool)
  | enqueued (reopenTerminal : Bool)
  | reopen (now : Nat)
  | sweep
  | staleSweep (now : Nat)
  | selectDue (now : Nat)
  | publish (now : Nat)
  | mark (now : Nat)
  | done
deriving DecidableEq, Repr

structure Answer where
  now : Nat
  outcome : Outcome

def finish (i : Answer) (p attempts : Nat) (s : Store) : Store :=
  let owned := Statement.hits (owns p) s.row
  match i.outcome with
  | .retry error delaySeconds =>
    { s with
      row := Statement.update (owns p) (retry (attempts + 1) delaySeconds i.now error) s.row
      retried := if owned then s.retried + 1 else s.retried
      backoff := if owned then max s.backoff (i.now + delaySeconds * 1000) else s.backoff }
  | .defer error delaySeconds =>
    { s with
      row := Statement.update (owns p) (defer delaySeconds i.now error) s.row
      backoff := if owned then max s.backoff (i.now + delaySeconds * 1000) else s.backoff }
  | .complete status reason =>
    { s with row := Statement.update (owns p) (complete status reason i.now) s.row }

/-- The insert of `persistDeliveryResolutionJobs`; the trigger removes the row of a
tombstoned actor. -/
def persist (now : Nat) (s : Store) : Store :=
  match s.row with
  | some _ => s
  | none =>
    if s.tombstoned then s else { s with row := some (newRow now), retried := 0, backoff := 0 }

def work (i : Answer) (p : Nat) (s : Store) : Worker → Store × Worker
  | .start => (s, .select s.now)
  | .select now =>
    (s, match s.row with
      | none => .done
      | some r =>
        if terminal r.status then .done
        else if r.status = .retryWait ∧ now < r.nextAttemptAt then .done
        else .claim now r.attempts)
  | .claim now attempts =>
    ({ s with row := Statement.update (claimable now) (claim p now) s.row },
      if Statement.hits (claimable now) s.row then .holding now attempts else .done)
  | .holding _ attempts => (finish i p attempts s, .done)
  | .enqueue reopenTerminal => (persist i.now s, .enqueued reopenTerminal)
  | .enqueued reopenTerminal => (s, if reopenTerminal then .reopen s.now else .selectDue s.now)
  | .reopen now =>
    ({ s with
      row := Statement.update (fun r => terminal r.status) (Resolution.reopenTerminal now) s.row },
      .selectDue now)
  | .sweep => (s, .staleSweep s.now)
  | .staleSweep now =>
    ({ s with row := Statement.update (stale now) (Resolution.sweep now) s.row }, .selectDue now)
  | .selectDue now => (s, if Statement.hits (due now) s.row then .publish now else .done)
  | .publish now => (s, .mark now)
  | .mark now => ({ s with row := Statement.update waiting (markQueued now) s.row }, .done)
  | .done => (s, .done)

def clockAllowed (i : Answer) (s : Store) : Worker → Bool
  | .holding now _ => now ≤ i.now && i.now ≤ s.now
  | .enqueue _ => i.now ≤ s.now
  | _ => true

def allowed (i : Answer) (s : Store) (x : Worker) : Bool := x != .done && clockAllowed i s x

/-- The clock, and who deletes the row: the purge, the deletion of the activity, and that of
the recipient. -/
inductive Event where
  | tick (ms : Nat)
  | purgeTerminal (now : Nat)
  | deleteActivity
  | deleteRemoteActor
deriving DecidableEq, Repr

def Event.deletes : Event → Bool
  | .tick _ => false
  | .purgeTerminal _ | .deleteActivity | .deleteRemoteActor => true

def happen (e : Event) (s : Store) : Store :=
  match e with
  | .tick ms => { s with now := s.now + ms }
  | .purgeTerminal now => { s with row := Statement.deleteWhere (purgeable now) s.row }
  | .deleteActivity => { s with row := none }
  | .deleteRemoteActor => { s with row := none, tombstoned := true }

/-- `deletions` is whether others delete the row. -/
def threads (deletions : Bool) : Threads Store Worker Answer Event :=
  .guarded allowed work (fun e _ => !e.deletes || deletions) happen

abbrev Pool := Threads.Pool Store Worker

abbrev Label := Threads.Label Answer Event

abbrev machine (deletions : Bool) : Machine Pool Label := (threads deletions).machine

/-- The runs to come: `reopens` and `sweeps` are whether there are publishers that reopen a
terminal row, or sweep a stale one. -/
inductive Worker.Entry (reopens sweeps : Bool) : Worker → Prop where
  | start : Worker.Entry reopens sweeps .start
  | enqueue : Worker.Entry reopens sweeps (.enqueue false)
  | reopen (h : reopens = true) : Worker.Entry reopens sweeps (.enqueue true)
  | sweep (h : sweeps = true) : Worker.Entry reopens sweeps .sweep

/-- The row has not been inserted. -/
structure Start (reopens sweeps : Bool) (s : Pool) : Prop where
  row : s.store.row = none
  history : s.store.retried = 0 ∧ s.store.backoff = 0
  entry : ∀ p, (s.thread p).Entry reopens sweeps

theorem step_worker {deletions : Bool} {p : Nat} {i : Answer} {s t : Pool} :
    (machine deletions).step (.act p i) s = some t ↔
      (s.thread p ≠ .done ∧ clockAllowed i s.store (s.thread p) = true) ∧
      t = ⟨(work i p s.store (s.thread p)).1,
        Function.update s.thread p (work i p s.store (s.thread p)).2⟩ := by
  rw [machine,threads,Threads.guarded_step_act]
  simp only [allowed,Bool.and_eq_true,bne_iff_ne]

theorem step_event {deletions : Bool} {e : Event} {s t : Pool} :
    (machine deletions).step (.env e) s = some t ↔
      (e.deletes = true → deletions = true) ∧ t = ⟨happen e s.store,s.thread⟩ := by
  rw [machine,threads,Threads.guarded_step_env]
  cases e.deletes <;> simp

end Yurucommu.Resolution
