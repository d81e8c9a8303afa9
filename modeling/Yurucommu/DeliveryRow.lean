import Yurucommu.Statement

/-!
One row of `delivery_queue` and the statements that read and write it. A timestamp is
the number of milliseconds its ISO text prints, which is also how the text compares, but for
`created_at`.
-/

set_option autoImplicit false

namespace Yurucommu.Delivery

inductive JobStatus where
  | pending | processing | retryWait | delivered | failed | deadLetter
deriving DecidableEq, Repr

/-- `TERMINAL_JOB_STATUSES`. -/
def JobStatus.terminal : JobStatus → Bool
  | .delivered | .deadLetter | .failed => true
  | _ => false

structure DeliveryRow where
  activityApId : String
  inboxUrl : String
  status : JobStatus
  attempts : Nat
  reconcileAttempt : Nat
  dlqPending : Bool
  processingToken : Option Nat
  lastAttemptAt : Option Nat
  processingStartedAt : Option Nat
  nextAttemptAt : Nat
  deliveredAt : Option Nat
  error : Option String
  recipientAttributionComplete : Bool
  createdAt : Nat
deriving DecidableEq, Repr

def staleProcessingMs : Nat := 2 * 60 * 1000
def maxReconcileAttempts : Nat := 5
def deliveryReconcileDelaySeconds : Nat := 6 * 60 * 60
def backoffSeriesSeconds : List Nat := [60,120,240,480,960,1920,3840,7680]
def deliveryMaxAttempts : Nat := backoffSeriesSeconds.length
def terminalDeliveryRetentionMs : Nat := 30 * 24 * 60 * 60 * 1000
def transientDelivery4xx : List Nat := [401,404,408,425,429]

def isPermanentDeliveryFailure (status : Option Nat) : Bool :=
  match status with
  | none => false
  | some code => 400 ≤ code && code < 500 && !transientDelivery4xx.contains code

/-- The values `computeRetryDelaySeconds` can return: the base with a jitter of a fifth
either way. Every base is a multiple of five, so rounding stays inside. -/
def isRetryDelaySeconds (nextAttempt delay : Nat) : Bool :=
  let base := backoffSeriesSeconds.getD (min (nextAttempt - 1) (backoffSeriesSeconds.length - 1)) 0
  1 ≤ delay && 4 * base ≤ 5 * delay && 5 * delay ≤ 6 * base

/-- Whole seconds from `now` until `due`, rounded up, at least one. -/
def secondsUntil (due now : Nat) : Nat := max 1 ((due - now + 999) / 1000)

/-- The `ownership` fence of a worker that claimed generation `generation`. -/
def ownership (generation token : Nat) (r : DeliveryRow) : Bool :=
  r.reconcileAttempt == generation && r.status == .processing && r.processingToken == some token

/-- The fence of the `invalid_endpoint` failure, which comes before any claim. -/
def unchangedSince (job r : DeliveryRow) : Bool :=
  r.reconcileAttempt == job.reconcileAttempt && r.status == job.status &&
    r.inboxUrl == job.inboxUrl && r.activityApId == job.activityApId &&
    r.processingToken == job.processingToken

/-- `processing_started_at < stale`, which a null never satisfies. -/
def startedBefore (stale : Nat) (r : DeliveryRow) : Bool :=
  r.processingStartedAt.any fun at_ => at_ + staleProcessingMs < stale

def claimable (job : DeliveryRow) (stale due : Nat) (r : DeliveryRow) : Bool :=
  r.reconcileAttempt == job.reconcileAttempt && r.inboxUrl == job.inboxUrl &&
    r.activityApId == job.activityApId && r.nextAttemptAt ≤ due &&
    ((r.status != .processing && !r.status.terminal) ||
      (r.status == .processing && startedBefore stale r))

def claim (token started : Nat) (r : DeliveryRow) : DeliveryRow :=
  { r with
    status := .processing
    processingStartedAt := some started
    processingToken := some token }

def failJob (error : String) (now : Nat) (r : DeliveryRow) : DeliveryRow :=
  { r with
    status := .failed
    error := some error
    lastAttemptAt := some now
    processingStartedAt := none
    processingToken := none
    dlqPending := false }

def markDelivered (now : Nat) (r : DeliveryRow) : DeliveryRow :=
  { r with
    status := .delivered
    deliveredAt := some now
    error := none
    lastAttemptAt := some now
    processingStartedAt := none
    processingToken := none
    dlqPending := false }

def incrementDeliveryAttempts (r : DeliveryRow) : DeliveryRow :=
  { r with attempts := r.attempts + 1 }

def deadLetter (generation : Nat) (error : String) (now due : Nat) (r : DeliveryRow) :
    DeliveryRow :=
  { r with
    status := .deadLetter
    error := some error
    lastAttemptAt := some now
    processingStartedAt := none
    processingToken := none
    dlqPending := generation < maxReconcileAttempts
    nextAttemptAt := due + deliveryReconcileDelaySeconds * 1000 }

def retryWait (error : String) (now next : Nat) (r : DeliveryRow) : DeliveryRow :=
  { r with
    status := .retryWait
    error := some error
    lastAttemptAt := some now
    processingStartedAt := none
    processingToken := none
    nextAttemptAt := next }

def revivable (attempt now : Nat) (r : DeliveryRow) : Bool :=
  r.status == .deadLetter && r.dlqPending && r.reconcileAttempt == attempt - 1 &&
    r.nextAttemptAt ≤ now

def revive (attempt now : Nat) (r : DeliveryRow) : DeliveryRow :=
  { r with
    status := .pending
    reconcileAttempt := attempt
    dlqPending := false
    attempts := 0
    error := none
    lastAttemptAt := none
    processingStartedAt := none
    processingToken := none
    nextAttemptAt := now }

/-- The row `upsertDeliveryJob` inserts. -/
def newJob (activityId endpoint : String) (now : Nat) : DeliveryRow where
  activityApId := activityId
  inboxUrl := endpoint
  status := .pending
  attempts := 0
  reconcileAttempt := 0
  dlqPending := false
  processingToken := none
  lastAttemptAt := none
  processingStartedAt := none
  nextAttemptAt := now
  deliveredAt := none
  error := none
  recipientAttributionComplete := true
  createdAt := now

def retargetable (retained : Bool) (r : DeliveryRow) : Bool :=
  r.status != .processing && r.status != .delivered && retained

def retarget (activityId endpoint : String) (r : DeliveryRow) : DeliveryRow :=
  { r with inboxUrl := endpoint, activityApId := activityId }

/-- A recipient-aware job that represents nobody any more. -/
def abandoned (retained : Bool) (r : DeliveryRow) : Bool :=
  r.recipientAttributionComplete && !retained

/-- The start of the day. `created_at` is written with a space where a cutoff has a `T`, so its text
is before every cutoff of its day. -/
def dayStart (ms : Nat) : Nat := ms / (24 * 60 * 60 * 1000) * (24 * 60 * 60 * 1000)

def purgeable (now : Nat) (r : DeliveryRow) : Bool :=
  r.status.terminal && !r.dlqPending && dayStart r.createdAt + terminalDeliveryRetentionMs ≤ now

theorem ownership_iff {generation token : Nat} {r : DeliveryRow} :
    ownership generation token r = true ↔
      r.reconcileAttempt = generation ∧ r.status = .processing ∧
        r.processingToken = some token := by
  simp [ownership,and_assoc]

theorem unchangedSince_iff {job r : DeliveryRow} :
    unchangedSince job r = true ↔
      r.reconcileAttempt = job.reconcileAttempt ∧ r.status = job.status ∧
        r.inboxUrl = job.inboxUrl ∧ r.activityApId = job.activityApId ∧
          r.processingToken = job.processingToken := by
  simp [unchangedSince,and_assoc]

theorem claimable_iff {job r : DeliveryRow} {stale due : Nat} :
    claimable job stale due r = true ↔
      r.reconcileAttempt = job.reconcileAttempt ∧ r.inboxUrl = job.inboxUrl ∧
        r.activityApId = job.activityApId ∧ r.nextAttemptAt ≤ due ∧
          (r.status ≠ .processing ∧ r.status.terminal = false ∨
            r.status = .processing ∧ startedBefore stale r = true) := by
  simp [claimable,and_assoc]

theorem revivable_iff {attempt now : Nat} {r : DeliveryRow} :
    revivable attempt now r = true ↔
      r.status = .deadLetter ∧ r.dlqPending = true ∧
        r.reconcileAttempt = attempt - 1 ∧ r.nextAttemptAt ≤ now := by
  simp [revivable,and_assoc]

theorem claimable_not_terminal {job r : DeliveryRow} {stale due : Nat}
    (h : claimable job stale due r = true) : r.status.terminal = false := by
  obtain ⟨_,_,_,_,h⟩ := claimable_iff.mp h
  rcases h with ⟨_,h⟩ | ⟨h,_⟩
  · exact h
  · rw [h]
    rfl

end Yurucommu.Delivery
