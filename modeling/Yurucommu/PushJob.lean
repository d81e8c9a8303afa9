import Mathlib
import Yurucommu.Machine
import Yurucommu.Statement

/-!
One row of `notification_push_jobs` and the runs that work on it, one statement or network call at
a time: `processNotificationPushJob`, the sweep and the dead-letter recovery. A run whose isolate
dies takes no further step. What is read of other tables, and what a gateway or a push service
answers, are answers from outside.
-/

set_option autoImplicit false

namespace Yurucommu.PushJob

inductive JobStatus where
  | pending | queued | processing | retryWait | delivered | failed
deriving DecidableEq, Repr

structure JobRow where
  status : JobStatus
  processingToken : Option Nat
  attempts : Nat
  pendingPusherIds : Option (List String)
  nextAttemptAt : Nat
  lastError : Option String
  createdAt : Nat
  updatedAt : Nat
  deliveredAt : Option Nat
deriving DecidableEq, Repr

def maxNotificationPushAttempts : Nat := 5
def staleProcessingMs : Nat := 2 * 60 * 1000
def staleInflightReclaimMs : Nat := 15 * 60 * 1000

def JobStatus.terminal : JobStatus → Bool
  | .delivered | .failed => true
  | .pending | .queued | .processing | .retryWait => false

def newRow (now : Nat) : JobRow := ⟨.pending,none,0,none,now,none,now,now,none⟩

section statements

def stale (cutoffAt : Nat) (r : JobRow) : Bool :=
  (r.status = .queued || r.status = .processing) &&
    r.updatedAt + staleInflightReclaimMs ≤ cutoffAt

def exhausted (attempts : Nat) (status : JobStatus) : JobStatus :=
  if maxNotificationPushAttempts ≤ attempts then .failed else status

def reclaimStale (now : Nat) (r : JobRow) : JobRow :=
  { r with
    status := exhausted (r.attempts + 1) .pending
    attempts := r.attempts + 1
    processingToken := none
    lastError := r.lastError.or (some "reclaimed stale in-flight push job")
    updatedAt := now }

def waiting (r : JobRow) : Bool := r.status = .pending || r.status = .retryWait

def due (now : Nat) (r : JobRow) : Bool := waiting r && r.nextAttemptAt ≤ now

def markQueued (now : Nat) (r : JobRow) : JobRow :=
  { r with status := .queued, processingToken := none, updatedAt := now }

def recoverable (r : JobRow) : Bool := !r.status.terminal

/-- The update of `recoverDeadLetteredNotificationPushJob`. -/
def recover (now : Nat) (r : JobRow) : JobRow :=
  { r with
    status := exhausted (r.attempts + 1) .retryWait
    attempts := r.attempts + 1
    processingToken := none
    nextAttemptAt := now
    lastError := r.lastError.or (some "queue message dead-lettered")
    updatedAt := now }

def seen (job r : JobRow) : Bool := r.status = job.status && r.updatedAt = job.updatedAt

/-- The processing row that a message finds stale goes back to the queue. -/
def reclaim (reclaimedAt : Nat) (r : JobRow) : JobRow :=
  { r with status := .queued, processingToken := none, updatedAt := reclaimedAt }

def claimable (job : JobRow) (now : Nat) (r : JobRow) : Bool :=
  seen job r && r.nextAttemptAt ≤ now

def claim (token now : Nat) (r : JobRow) : JobRow :=
  { r with status := .processing, processingToken := some token, updatedAt := now }

def leased (token : Nat) (r : JobRow) : Bool :=
  r.status = .processing && r.processingToken = some token

def setPendingPusherIds (ids : List String) (now : Nat) (r : JobRow) : JobRow :=
  { r with pendingPusherIds := some ids, updatedAt := now }

def refresh (now : Nat) (r : JobRow) : JobRow := { r with updatedAt := now }

def finish (lastError : Option String) (now : Nat) (r : JobRow) : JobRow :=
  { r with
    status := .delivered
    processingToken := none
    pendingPusherIds := some []
    lastError := lastError
    deliveredAt := some now
    updatedAt := now }

def backoff (attempts : Nat) : Nat := min (12 * 60 * 60) (30 * 2 ^ (attempts - 1))

/-- The failing or retrying write of a run; a `remaining` of `none` leaves the ids. -/
def retry (attempts delaySeconds : Nat) (remaining : Option (List String)) (error : String)
    (readAt now : Nat) (r : JobRow) : JobRow :=
  { r with
    status := exhausted attempts .retryWait
    processingToken := none
    attempts := attempts
    pendingPusherIds := remaining.or r.pendingPusherIds
    nextAttemptAt :=
      if maxNotificationPushAttempts ≤ attempts then r.nextAttemptAt
      else readAt + delaySeconds * 1000
    lastError := some error
    updatedAt := now }

end statements

structure GatewayResult where
  retryIds : List String
  retryAfterSeconds : Nat
  error : Option String
deriving DecidableEq, Repr

structure Dispatch where
  dispatchIds : List String
  settled : List String
  retryIds : List String
  retryAfterSeconds : Nat
  errors : List String
deriving DecidableEq, Repr

def Dispatch.start (ids : List String) : Dispatch := ⟨ids,[],[],0,[]⟩

def Dispatch.record (ids : List String) (outcome : GatewayResult) (d : Dispatch) : Dispatch :=
  { d with
    settled := d.settled ++ ids.filter (· ∉ outcome.retryIds)
    retryIds := d.retryIds ++ outcome.retryIds
    retryAfterSeconds := max d.retryAfterSeconds outcome.retryAfterSeconds
    errors := d.errors ++ (outcome.error.filter (· ≠ "")).toList }

def thrown (ids : List String) (error : String) : GatewayResult := ⟨ids,0,some error⟩

def Dispatch.remaining (d : Dispatch) : Option (List String) :=
  if d.settled = [] then none else some (d.dispatchIds.filter (· ∉ d.settled))

def joined (errors : List String) : String := "; ".intercalate errors

def clipped (error : String) : String := String.ofList (error.toList.take 1024)

/-- A run and where it is: `job` is the row as its `SELECT` found it, and the numbers are clock
readings for the statement to come. The token of a claim is the number of its run. -/
inductive Worker where
  | select
  | reclaim (job : JobRow) (reclaimedAt : Nat)
  | claim (job : JobRow) (now : Nat)
  | loadPushEvent (job : JobRow) (now : Nat)
  | selectPending (job : JobRow) (now : Nat)
  | persistPending (job : JobRow) (now : Nat) (ids : List String)
  | selectPushers (job : JobRow) (d : Dispatch)
  | unreadCount (job : JobRow) (d : Dispatch) (web : List String) (groups : List (List String))
  | buildContent (job : JobRow) (d : Dispatch) (web : List String) (groups : List (List String))
  | refresh (job : JobRow) (d : Dispatch) (ids : List String) (rest : List (List String))
      (now : Nat)
  | send (job : JobRow) (d : Dispatch) (ids : List String) (rest : List (List String))
  | finish (job : JobRow) (d : Dispatch) (lastError : Option String) (now : Nat)
  | retry (job : JobRow) (d : Dispatch) (readAt now : Nat)
  | caught (job : JobRow) (remaining : Option (List String)) (error : String) (readAt now : Nat)
  | recoverDeadLettered
  | recover (now : Nat)
  | sweep
  | reclaimStale (now cutoffAt : Nat)
  | selectDue (now : Nat)
  | sendBatch (now : Nat)
  | mark (now : Nat)
  | done
deriving DecidableEq, Repr

/-- Two clock readings after the statement, in order; what it reads of other tables; what a network
call ends with; and whether it throws. -/
structure Answer where
  first : Nat
  second : Nat
  eligible : Bool := true
  pusherIds : List String := []
  web : List String := []
  groups : List (List String) := []
  result : GatewayResult := ⟨[],0,none⟩
  hasPusher : Bool := true
  fails : Bool := false
  error : String := ""
deriving DecidableEq, Repr

def Worker.held : Worker → Option (JobRow × Dispatch)
  | .loadPushEvent job _ | .selectPending job _ | .persistPending job _ _ =>
    some (job,.start [])
  | .selectPushers job d | .unreadCount job d _ _ | .buildContent job d _ _
  | .refresh job d _ _ _ | .send job d _ _ | .finish job d _ _ | .retry job d _ _ => some (job,d)
  | _ => none

section run

variable (i : Answer) (p : Nat)

def conclude (job : JobRow) (d : Dispatch) : Worker :=
  if d.retryIds = [] then
    .finish job d (if d.errors = [] then none else some (joined d.errors)) i.second
  else .retry job d i.first i.second

def nextCall (job : JobRow) (d : Dispatch) : List (List String) → Worker
  | [] => conclude i job d
  | ids :: rest => .refresh job d ids rest i.second

def dispatch (job : JobRow) (ids : List String) : Worker :=
  if ids = [] then .finish job (.start []) none i.second else .selectPushers job (.start ids)

def retryError (d : Dispatch) : String :=
  if clipped (joined d.errors) = "" then "retryable gateway failure" else clipped (joined d.errors)

def statement (row : Option JobRow) : Worker → Option JobRow × Worker
  | .select =>
    (row,match row with
      | none => .done
      | some job =>
        if job.status.terminal then .done
        else if job.status = .processing then
          if i.first < job.updatedAt + staleProcessingMs then .done else .reclaim job i.second
        else .claim job i.second)
  | .reclaim job reclaimedAt =>
    (Statement.update (seen job) (reclaim reclaimedAt) row,
      if Statement.hits (seen job) row then .claim (reclaim reclaimedAt job) i.second else .done)
  | .claim job now =>
    (Statement.update (claimable job now) (claim p now) row,
      if Statement.hits (claimable job now) row then .loadPushEvent job now else .done)
  | .loadPushEvent job now =>
    (row,
      if i.eligible then
        match job.pendingPusherIds with
        | none => .selectPending job now
        | some ids => dispatch i job ids
      else .finish job (.start []) (some "notification is no longer eligible") i.second)
  | .selectPending job now => (row,.persistPending job now i.pusherIds)
  | .persistPending job now ids =>
    (Statement.update (leased p) (setPendingPusherIds ids now) row,
      if Statement.hits (leased p) row then dispatch i job ids else .done)
  | .selectPushers job d =>
    (row,
      if i.web = [] ∧ i.groups = [] then .finish job d none i.second
      else .unreadCount job d i.web i.groups)
  | .unreadCount job d web groups =>
    let d := { d with settled := d.dispatchIds.filter (· ∉ web ++ groups.flatten) }
    (row,if web = [] then nextCall i job d groups else .buildContent job d web groups)
  | .buildContent job d web groups => (row,nextCall i job d (web.map ([·]) ++ groups))
  | .refresh job d ids rest now =>
    (Statement.update (leased p) (refresh now) row,
      if Statement.hits (leased p) row then .send job d ids rest else .done)
  | .send job d ids rest => (row,nextCall i job (d.record ids i.result) rest)
  | .finish _ _ lastError now =>
    (Statement.update (leased p) (finish lastError now) row,.done)
  | .retry job d readAt now =>
    (Statement.update (leased p)
      (retry (job.attempts + 1) (max d.retryAfterSeconds (backoff (job.attempts + 1)))
        (some d.retryIds.eraseDups) (retryError d) readAt now) row,.done)
  | .caught job remaining error readAt now =>
    (Statement.update (leased p)
      (retry (job.attempts + 1) (backoff (job.attempts + 1)) remaining (clipped error) readAt now)
        row,.done)
  | .recoverDeadLettered => (row,.recover i.second)
  | .recover now => (Statement.update recoverable (recover now) row,.done)
  | .sweep => (row,.reclaimStale i.first i.second)
  | .reclaimStale now cutoffAt =>
    (Statement.update (stale cutoffAt) (reclaimStale now) row,.selectDue now)
  | .selectDue now =>
    (row,if Statement.hits (due now) row && i.hasPusher then .sendBatch now else .done)
  | .sendBatch now => (row,.mark now)
  | .mark now => (Statement.update waiting (markQueued now) row,.done)
  | .done => (row,.done)

/-- Where the run goes when the statement throws: to its `catch`, or out. A content that cannot be
built and a call that throws are results. -/
def threw : Worker → Worker
  | .buildContent job d web groups => nextCall i job (d.record web (thrown web i.error)) groups
  | .send job d ids rest => nextCall i job (d.record ids (thrown ids i.error)) rest
  | x =>
    match x.held with
    | some (job,d) => .caught job d.remaining i.error i.first i.second
    | none => .done

def advance (row : Option JobRow) (x : Worker) : Option JobRow × Worker :=
  if i.fails then (row,threw i x) else statement i p row x

end run

structure Version where
  status : JobStatus
  updatedAt : Nat
  attempts : Nat
deriving DecidableEq, Repr

def JobRow.version (r : JobRow) : Version := ⟨r.status,r.updatedAt,r.attempts⟩

/-- The last two fields are history: who has read which clock, and what the row has been. -/
structure Store where
  row : Option JobRow
  now : Nat
  readings : List (Nat × Nat)
  versions : List Version
deriving DecidableEq, Repr

def Store.write (row : Option JobRow) (s : Store) : Store :=
  { s with row := row, versions := (row.map JobRow.version).toList ++ s.versions }

def work (i : Answer) (p : Nat) (s : Store) (x : Worker) : Store × Worker :=
  ({ (s.write (advance i p s.row x).1) with
      now := i.second
      readings := (i.first,p) :: (i.second,p) :: s.readings },(advance i p s.row x).2)

/-- No two readings of the clock are the same. -/
def allowed (i : Answer) (s : Store) (x : Worker) : Bool :=
  x ≠ .done && s.now < i.first && i.first < i.second

/-- The clock, the trigger's insert, and who deletes the row: the purge, the deletion of the inbox
row or of the activity, and that of the account. -/
inductive Event where
  | tick (ms : Nat)
  | insert (now : Nat)
  | delete
deriving DecidableEq, Repr

def possible (e : Event) (s : Store) : Bool :=
  match e with
  | .insert now => s.now < now && s.row.isNone
  | _ => true

def happen (e : Event) (s : Store) : Store :=
  match e with
  | .tick ms => { s with now := s.now + ms }
  | .insert now => { (s.write (some (newRow now))) with now := now }
  | .delete => { s with row := none }

def threads : Threads Store Worker Answer Event := .guarded allowed work possible happen

abbrev Pool := Threads.Pool Store Worker

abbrev Label := Threads.Label Answer Event

abbrev machine : Machine Pool Label := threads.machine

inductive Worker.Entry : Worker → Prop where
  | select : Worker.Entry .select
  | recoverDeadLettered : Worker.Entry .recoverDeadLettered
  | sweep : Worker.Entry .sweep

/-- The row has not been inserted. -/
structure Start (s : Pool) : Prop where
  row : s.store.row = none
  history : s.store.readings = [] ∧ s.store.versions = []
  entry : ∀ p, (s.thread p).Entry

theorem step_worker {p : Nat} {i : Answer} {s t : Pool} :
    machine.step (.act p i) s = some t ↔ allowed i s.store (s.thread p) = true ∧
      t = ⟨(work i p s.store (s.thread p)).1,
        Function.update s.thread p (work i p s.store (s.thread p)).2⟩ := by
  rw [machine,threads,Threads.guarded_step_act]

theorem step_event {e : Event} {s t : Pool} :
    machine.step (.env e) s = some t ↔
      possible e s.store = true ∧ t = ⟨happen e s.store,s.thread⟩ := by
  rw [machine,threads,Threads.guarded_step_env]

end Yurucommu.PushJob
