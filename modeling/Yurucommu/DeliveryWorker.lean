import Yurucommu.Machine
import Yurucommu.DeliveryRow

/-!
The runs that work on one delivery job: `processDeliverEndpoint` and
`processReconcileJob`, one database statement, queue send or HTTP request at a time.
A run that throws, or whose isolate dies, is one that takes no further step.
-/

set_option autoImplicit false

namespace Yurucommu.Delivery

/-- A JavaScript number; `other` is a fraction, an infinity or `NaN`. -/
inductive JsNumber where
  | integer : Int → JsNumber
  | other : JsNumber
deriving DecidableEq, Repr

def maxSafeInteger : Int := 9007199254740991

def JsNumber.isSafeInteger : JsNumber → Bool
  | .integer n => -maxSafeInteger ≤ n && n ≤ maxSafeInteger
  | .other => false

/-- Bodies on the main queue. The job id is the one of the modelled row. -/
inductive QueueMessage where
  | deliverEndpoint (reconcileAttempt : Nat) (scheduledAt : Nat)
  | reconcileJob (reconcileAttempt : Nat) (scheduledAt : Nat)
deriving DecidableEq, Repr

structure DlqMessage where
  activityId : String
  endpoint : String
  attempts : Nat
  lastError : Option String
  reconcileAttempt : Nat
  deadLetteredAt : Nat
deriving DecidableEq, Repr

/-- What a run shares with the others. `posts` are the HTTP requests issued, each with
the run that issued it, the URL and whether it was the shadow probe. -/
structure Store where
  now : Nat
  row : Option DeliveryRow
  recipients : List String
  tombstones : List String
  sent : List (QueueMessage × Nat)
  dlq : List DlqMessage
  posts : List (Nat × String × Bool)
deriving DecidableEq, Repr

def Store.setRow (s : Store) (row : Option DeliveryRow) : Store := { s with row := row }

def Store.send (s : Store) (body : QueueMessage) (delaySeconds : Nat) : Store :=
  { s with sent := (body,delaySeconds) :: s.sent }

def Store.sendDlq (s : Store) (body : DlqMessage) : Store := { s with dlq := body :: s.dlq }

def Store.post (s : Store) (run : Nat) (url : String) (probe : Bool) : Store :=
  { s with posts := (run,url,probe) :: s.posts }

@[simp] theorem Store.setRow_row (s : Store) (row : Option DeliveryRow) :
    (s.setRow row).row = row := rfl

@[simp] theorem Store.setRow_posts (s : Store) (row : Option DeliveryRow) :
    (s.setRow row).posts = s.posts := rfl

@[simp] theorem Store.setRow_now (s : Store) (row : Option DeliveryRow) :
    (s.setRow row).now = s.now := rfl

@[simp] theorem Store.send_row (s : Store) (body : QueueMessage) (d : Nat) :
    (s.send body d).row = s.row := rfl

@[simp] theorem Store.send_posts (s : Store) (body : QueueMessage) (d : Nat) :
    (s.send body d).posts = s.posts := rfl

@[simp] theorem Store.send_now (s : Store) (body : QueueMessage) (d : Nat) :
    (s.send body d).now = s.now := rfl

@[simp] theorem Store.sendDlq_row (s : Store) (body : DlqMessage) :
    (s.sendDlq body).row = s.row := rfl

@[simp] theorem Store.sendDlq_posts (s : Store) (body : DlqMessage) :
    (s.sendDlq body).posts = s.posts := rfl

@[simp] theorem Store.sendDlq_now (s : Store) (body : DlqMessage) :
    (s.sendDlq body).now = s.now := rfl

@[simp] theorem Store.post_row (s : Store) (run : Nat) (url : String) (b : Bool) :
    (s.post run url b).row = s.row := rfl

@[simp] theorem Store.post_now (s : Store) (run : Nat) (url : String) (b : Bool) :
    (s.post run url b).now = s.now := rfl

abbrev LiveJob := { job : DeliveryRow // job.status.terminal = false }

abbrev ReconcileAttempt := { n : Nat // 1 ≤ n ∧ n ≤ maxReconcileAttempts }

/-- Where a run stands: the next statement it will issue and what it remembers. -/
inductive Task where
  | select
  | resendDlq (job : DeliveryRow)
  | requeue (job : LiveJob) (delaySeconds : Nat)
  | failInvalid (job : LiveJob)
  | checkCircuit (job : LiveJob)
  | claim (job : LiveJob)
  | loadActivity (job : LiveJob)
  | resolveSigningActor (job : LiveJob)
  | post (job : LiveJob)
  | markDelivered (job : LiveJob)
  | shadowProbe (job : LiveJob)
  | invalidateEndpoint (job : LiveJob) (status : Nat) (error : String)
  | failJob (job : LiveJob) (error : String)
  | incrementAttempts (job : LiveJob) (error : String)
  | deadLetter (job : LiveJob) (error : String) (nextAttempts : Nat)
  | sendDlq (job : LiveJob) (error : String) (nextAttempts : Nat) (deadLetteredAt : Nat)
  | retryWait (job : LiveJob) (error : String) (nextAttempts : Nat)
  | sendRetry (job : LiveJob) (delaySeconds : Nat)
  | selectReconcile (reconcileAttempt : JsNumber)
  | revive (reconcileAttempt : ReconcileAttempt) (now : Nat)
  | requeueReconcile (reconcileAttempt : ReconcileAttempt) (delaySeconds : Nat)
  | sendRevived (reconcileAttempt : ReconcileAttempt)
  | done
deriving DecidableEq, Repr

/-- What a statement learns from outside: three readings of the clock in the order the
code takes them, and the answers of the other tables, the queue and the network. -/
structure Answer where
  first : Nat := 0
  second : Nat := 0
  third : Nat := 0
  queueAvailable : Bool := true
  endpointHost : Bool := true
  circuitDefer : Option Nat := none
  found : Bool := true
  probe : Option String := none
  response : Option Nat := none
  error : String := "delivery_error"
  delaySeconds : Nat := 0
deriving DecidableEq, Repr

def Answer.admissible (i : Answer) (now : Nat) : Bool :=
  i.first ≤ i.second && i.second ≤ i.third && i.third ≤ now

def Answer.ok (i : Answer) : Bool := i.response.any fun code => 200 ≤ code && code < 300

def Answer.errorMessage (i : Answer) : String :=
  match i.response with
  | some code => s!"HTTP {code}"
  | none => i.error

def afterSelect (i : Answer) : Option DeliveryRow → Task
  | none => .done
  | some job =>
    if h : job.status.terminal = false then
      if i.first < job.nextAttemptAt then
        .requeue ⟨job,h⟩ (secondsUntil job.nextAttemptAt i.second)
      else if job.status = .processing ∧
          (job.processingStartedAt.any fun at_ => i.second < at_ + staleProcessingMs) then
        .requeue ⟨job,h⟩ 30
      else if i.endpointHost then .checkCircuit ⟨job,h⟩
      else .failInvalid ⟨job,h⟩
    else if job.status = .deadLetter ∧ job.dlqPending then .resendDlq job
    else .done

/-- What follows a POST that was not accepted. -/
def afterRejection (job : LiveJob) (response : Option Nat) (error : String) : Task :=
  if isPermanentDeliveryFailure response then .failJob job error
  else .incrementAttempts job error

def afterPost (i : Answer) (job : LiveJob) : Task :=
  if i.ok then .markDelivered job
  else
    match i.response with
    | some code =>
      if code = 404 ∨ code = 410 then .invalidateEndpoint job code i.errorMessage
      else afterRejection job (some code) i.errorMessage
    | none => afterRejection job none i.errorMessage

def afterIncrement (p : Nat) (job : LiveJob) (error : String) : Option DeliveryRow → Task
  | none => .done
  | some r =>
    if ownership job.1.reconcileAttempt p r then
      if deliveryMaxAttempts ≤ r.attempts + 1 then .deadLetter job error (r.attempts + 1)
      else .retryWait job error (r.attempts + 1)
    else .done

def afterSelectReconcile (i : Answer) (attempt : ReconcileAttempt) : Option DeliveryRow → Task
  | none => .done
  | some job =>
    if job.status = .deadLetter ∧ job.dlqPending ∧ attempt.1 = job.reconcileAttempt + 1 then
      if i.second < job.nextAttemptAt then
        .requeueReconcile attempt (min (12 * 60 * 60) (secondsUntil job.nextAttemptAt i.third))
      else .revive attempt i.first
    else .done

def checkReconcileAttempt (attempt : JsNumber) : Option ReconcileAttempt :=
  match attempt with
  | .integer n =>
    if h : attempt.isSafeInteger = true ∧ 1 ≤ n ∧ n ≤ maxReconcileAttempts then
      some ⟨n.toNat,by omega⟩
    else none
  | .other => none

/-- The statement a run is at, and where it stands afterwards. -/
def work (i : Answer) (p : Nat) (s : Store) : Task → Store × Task
  | .select => (s, if i.queueAvailable then afterSelect i s.row else .done)
  | .resendDlq job =>
    (s.sendDlq
      { activityId := job.activityApId
        endpoint := job.inboxUrl
        attempts := job.attempts
        lastError := job.error
        reconcileAttempt := job.reconcileAttempt
        deadLetteredAt := job.lastAttemptAt.getD i.first }, .done)
  | .requeue job delaySeconds =>
    (s.send (.deliverEndpoint job.1.reconcileAttempt i.first) delaySeconds, .done)
  | .failInvalid job =>
    (s.setRow (Statement.update (unchangedSince job)
      (failJob "invalid_endpoint" i.first) s.row), .done)
  | .checkCircuit job =>
    match i.circuitDefer with
    | some delaySeconds => (s, .requeue job delaySeconds)
    | none => (s, .claim job)
  | .claim job =>
    (s.setRow (Statement.update (claimable job i.first i.third) (claim p i.second) s.row),
      if Statement.hits (claimable job i.first i.third) s.row then .loadActivity job else .done)
  | .loadActivity job =>
    (s, if i.found then .resolveSigningActor job else .failJob job "activity_not_found")
  | .resolveSigningActor job =>
    (s, if i.found then .post job else .failJob job "signing_actor_not_found")
  | .post job => (s.post p job.1.inboxUrl false, afterPost i job)
  | .markDelivered job =>
    (s.setRow (Statement.update (ownership job.1.reconcileAttempt p)
      (markDelivered i.first) s.row),
      if job.1.attempts = 0 then .shadowProbe job else .done)
  | .shadowProbe _ =>
    match i.probe with
    | some inbox => (s.post p inbox true, .done)
    | none => (s, .done)
  | .invalidateEndpoint job code error => (s, afterRejection job (some code) error)
  | .failJob job error =>
    (s.setRow (Statement.update (ownership job.1.reconcileAttempt p)
      (failJob error i.first) s.row), .done)
  | .incrementAttempts job error =>
    (s.setRow (Statement.update (ownership job.1.reconcileAttempt p)
      incrementDeliveryAttempts s.row), afterIncrement p job error s.row)
  | .deadLetter job error nextAttempts =>
    (s.setRow (Statement.update (ownership job.1.reconcileAttempt p)
      (deadLetter job.1.reconcileAttempt error i.first i.second) s.row),
      if Statement.hits (ownership job.1.reconcileAttempt p) s.row then
        .sendDlq job error nextAttempts i.first
      else .done)
  | .sendDlq job error nextAttempts deadLetteredAt =>
    (s.sendDlq
      { activityId := job.1.activityApId
        endpoint := job.1.inboxUrl
        attempts := nextAttempts
        lastError := some error
        reconcileAttempt := job.1.reconcileAttempt
        deadLetteredAt := deadLetteredAt }, .done)
  | .retryWait job error _ =>
    (s.setRow (Statement.update (ownership job.1.reconcileAttempt p)
      (retryWait error i.second (i.first + i.delaySeconds * 1000)) s.row),
      .sendRetry job i.delaySeconds)
  | .sendRetry job delaySeconds =>
    (s.send (.deliverEndpoint job.1.reconcileAttempt i.first) delaySeconds, .done)
  | .selectReconcile attempt =>
    (s, match checkReconcileAttempt attempt with
      | some n => if i.queueAvailable then afterSelectReconcile i n s.row else .done
      | none => .done)
  | .revive attempt now =>
    (s.setRow (Statement.update (revivable attempt.1 now) (revive attempt.1 now) s.row),
      if Statement.hits (revivable attempt.1 now) s.row then .sendRevived attempt else .done)
  | .requeueReconcile attempt delaySeconds =>
    (s.send (.reconcileJob attempt.1 i.first) delaySeconds, .done)
  | .sendRevived attempt => (s.send (.deliverEndpoint attempt.1 i.first) 0, .done)
  | .done => (s, .done)

/-- The delay of a retry is the one answer that is not free. -/
def delayAllowed (i : Answer) : Task → Bool
  | .retryWait _ _ nextAttempts => isRetryDelaySeconds nextAttempts i.delaySeconds
  | _ => true

def allowed (i : Answer) (s : Store) (task : Task) : Bool :=
  task != .done && i.admissible s.now && delayAllowed i task

inductive Event where
  | tick (ms : Nat)
  | upsertDeliveryJob (activityId endpoint : String) (recipients : List String) (now : Nat)
  | purgeTerminal (now : Nat)
  | deleteActivity
  | deleteRemoteActor (actor : String)
  | sweepRepairs (now : Nat)
  | sweepJobs (now : Nat) (includeFreshPending includeDeferred : Bool)
  | handleDlqMessage (reconcileAttempt : Nat) (now : Nat)
deriving DecidableEq, Repr

/-- The recipient rows an insert leaves: no duplicate and no tombstoned actor. -/
def insertRecipients (tombstones kept new : List String) : List String :=
  kept ++ (new.eraseDups.filter fun actor => !kept.contains actor && !tombstones.contains actor)

def upsertRow (retained : Bool) (activityId endpoint : String) (now : Nat)
    (row : Option DeliveryRow) : Option DeliveryRow :=
  Statement.deleteWhere (abandoned retained)
    (Statement.update (retargetable retained) (retarget activityId endpoint)
      (Statement.insertIgnore (newJob activityId endpoint now) row))

/-- The one batch of `upsertDeliveryJob`. -/
def upsertDeliveryJob (activityId endpoint : String) (recipients : List String) (now : Nat)
    (s : Store) : Store :=
  if recipients = [] then s
  else
    let kept := insertRecipients s.tombstones s.recipients recipients
    let left := upsertRow (!kept.isEmpty) activityId endpoint now s.row
    { s with row := left, recipients := if left.isSome then kept else [] }

/-- Deleting the row takes its recipient rows with it. -/
def deleteRow (cond : DeliveryRow → Bool) (s : Store) : Store :=
  let left := Statement.deleteWhere cond s.row
  { s with row := left, recipients := if left.isSome then s.recipients else [] }

def deleteRemoteActor (actor : String) (s : Store) : Store :=
  let kept := s.recipients.filter (· != actor)
  deleteRow (abandoned (!kept.isEmpty))
    { s with tombstones := actor :: s.tombstones, recipients := kept }

def repairDue (now : Nat) (r : DeliveryRow) : Bool :=
  r.status == .deadLetter && r.dlqPending && r.reconcileAttempt < maxReconcileAttempts &&
    r.nextAttemptAt ≤ now

def wakeable (now : Nat) (includeFreshPending includeDeferred : Bool) (r : DeliveryRow) : Bool :=
  (r.status == .pending &&
      (includeFreshPending || dayStart r.createdAt + staleProcessingMs ≤ now)) ||
    (r.status == .retryWait && (includeDeferred || r.nextAttemptAt ≤ now)) ||
      (r.status == .processing && startedBefore now r)

def sendForRow (cond : DeliveryRow → Bool) (body : DeliveryRow → QueueMessage) (s : Store) :
    Store :=
  match s.row with
  | some r => if cond r then s.send (body r) 0 else s
  | none => s

def happen (e : Event) (s : Store) : Store :=
  match e with
  | .tick ms => { s with now := s.now + ms }
  | .upsertDeliveryJob activityId endpoint recipients now =>
    upsertDeliveryJob activityId endpoint recipients now s
  | .purgeTerminal now => deleteRow (purgeable now) s
  | .deleteActivity => deleteRow (fun _ => true) s
  | .deleteRemoteActor actor => deleteRemoteActor actor s
  | .sweepRepairs now =>
    sendForRow (repairDue now) (fun r => .reconcileJob (r.reconcileAttempt + 1) now) s
  | .sweepJobs now includeFreshPending includeDeferred =>
    sendForRow (wakeable now includeFreshPending includeDeferred)
      (fun r => .deliverEndpoint r.reconcileAttempt now) s
  | .handleDlqMessage attempt now =>
    if maxReconcileAttempts ≤ attempt then s
    else s.send (.reconcileJob (attempt + 1) now) deliveryReconcileDelaySeconds

def Event.reads : Event → Nat
  | .upsertDeliveryJob _ _ _ now | .purgeTerminal now | .sweepRepairs now
  | .sweepJobs now _ _ | .handleDlqMessage _ now => now
  | _ => 0

def threads : Threads Store Task Answer Event :=
  .guarded allowed work (fun e s => e.reads ≤ s.now) happen

abbrev machine : Machine (Threads.Pool Store Task) (Threads.Label Answer Event) :=
  threads.machine

abbrev Pool := Threads.Pool Store Task

/-- The messages a run can begin with: any wakeup, whoever sent it and whenever. -/
inductive Task.Entry : Task → Prop where
  | select : Task.Entry .select
  | selectReconcile (attempt : JsNumber) : Task.Entry (.selectReconcile attempt)

def Start (s : Pool) : Prop := ∀ p, (s.thread p).Entry

theorem step_worker {p : Nat} {i : Answer} {s t : Pool} :
    machine.step (.act p i) s = some t ↔
      (s.thread p ≠ .done ∧ i.admissible s.store.now = true ∧
        delayAllowed i (s.thread p) = true) ∧
      t = ⟨(work i p s.store (s.thread p)).1,
        Function.update s.thread p (work i p s.store (s.thread p)).2⟩ := by
  rw [machine,threads,Threads.guarded_step_act]
  simp only [allowed,Bool.and_eq_true,bne_iff_ne,and_assoc]

theorem step_event {e : Event} {s t : Pool} :
    machine.step (.env e) s = some t ↔
      e.reads ≤ s.store.now ∧ t = ⟨happen e s.store,s.thread⟩ := by
  rw [machine,threads,Threads.guarded_step_env,decide_eq_true_eq]

end Yurucommu.Delivery
