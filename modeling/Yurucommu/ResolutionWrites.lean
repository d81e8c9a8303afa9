import Yurucommu.ResolutionWorker

/-!
All that can happen to a row of `delivery_resolutions`, each write with the condition its
statement carries.
-/

set_option autoImplicit false

namespace Yurucommu.Resolution

inductive Write (i : Answer) (p : Nat) (s : Store) : Worker → Store → Prop where
  | same (x : Worker) : Write i p s x s
  | insert (reopenTerminal : Bool) (hr : s.row = none) :
      Write i p s (.enqueue reopenTerminal)
        { s with row := some (newRow i.now), retried := 0, backoff := 0 }
  | claim {now attempts : Nat} {r : ResolutionRow} (hr : s.row = some r)
      (free : claimable now r = true) :
      Write i p s (.claim now attempts) { s with row := some (claim p now r) }
  | retry {now attempts delaySeconds : Nat} {error : String} {r : ResolutionRow}
      (hi : i.outcome = .retry error delaySeconds) (hr : s.row = some r)
      (owner : r.processingToken = some p) :
      Write i p s (.holding now attempts)
        { s with
          row := some (retry (attempts + 1) delaySeconds i.now error r)
          retried := s.retried + 1
          backoff := max s.backoff (i.now + delaySeconds * 1000) }
  | defer {now attempts delaySeconds : Nat} {error : String} {r : ResolutionRow}
      (hi : i.outcome = .defer error delaySeconds) (hr : s.row = some r)
      (owner : r.processingToken = some p) :
      Write i p s (.holding now attempts)
        { s with
          row := some (defer delaySeconds i.now error r)
          backoff := max s.backoff (i.now + delaySeconds * 1000) }
  | complete {now attempts : Nat} {status : Completion} {reason : Option String}
      {r : ResolutionRow} (hi : i.outcome = .complete status reason) (hr : s.row = some r)
      (owner : r.processingToken = some p) :
      Write i p s (.holding now attempts)
        { s with row := some (complete status reason i.now r) }
  | reopen {now : Nat} {r : ResolutionRow} (hr : s.row = some r)
      (settled : terminal r.status = true) :
      Write i p s (.reopen now) { s with row := some (reopenTerminal now r) }
  | sweep {now : Nat} {r : ResolutionRow} (hr : s.row = some r) (old : stale now r = true) :
      Write i p s (.staleSweep now) { s with row := some (sweep now r) }
  | mark {now : Nat} {r : ResolutionRow} (hr : s.row = some r) (waits : waiting r = true) :
      Write i p s (.mark now) { s with row := some (markQueued now r) }

theorem update_write {i : Answer} {p : Nat} {s : Store} {x : Worker}
    {cond : ResolutionRow → Bool} {set : ResolutionRow → ResolutionRow}
    (h : ∀ r, s.row = some r → cond r = true → Write i p s x { s with row := some (set r) }) :
    Write i p s x { s with row := Statement.update cond set s.row } := by
  rcases Statement.update_cases cond set s.row with hu | ⟨r,hr,hc,hu⟩
  · rw [hu]
    exact .same x
  · rw [hu]
    exact h r hr hc

theorem finish_of_not_owner {i : Answer} {p attempts : Nat} {s : Store}
    (h : Statement.hits (owns p) s.row = false) : finish i p attempts s = s := by
  unfold finish
  cases i.outcome <;> simp only [h,Statement.update_of_not_hits,Bool.false_eq_true,if_false]

theorem finish_write {i : Answer} {p now attempts : Nat} (s : Store) :
    Write i p s (.holding now attempts) (finish i p attempts s) := by
  cases hh : Statement.hits (owns p) s.row with
  | false =>
    rw [finish_of_not_owner hh]
    exact .same _
  | true =>
    obtain ⟨r,hr,hp⟩ := Statement.hits_iff.mp hh
    have owner : r.processingToken = some p := of_decide_eq_true hp
    unfold finish
    cases hi : i.outcome with
    | retry error delaySeconds =>
      simp only [hr,Statement.hits_some,Statement.update_some,hp,if_true]
      exact .retry hi hr owner
    | defer error delaySeconds =>
      simp only [hr,Statement.hits_some,Statement.update_some,hp,if_true]
      exact .defer hi hr owner
    | complete status reason =>
      simp only [hr,Statement.update_some,hp,if_true]
      exact .complete hi hr owner

theorem work_write (i : Answer) (p : Nat) (s : Store) (x : Worker) :
    Write i p s x (work i p s x).1 := by
  cases x with
  | enqueue reopenTerminal =>
    simp only [work,persist]
    cases hr : s.row with
    | some r => exact .same _
    | none =>
      by_cases ht : s.tombstoned = true
      · rw [if_pos ht]
        exact .same _
      · rw [if_neg ht]
        exact .insert reopenTerminal hr
  | claim now attempts => exact update_write fun _ hr hc => .claim hr hc
  | holding now attempts => exact finish_write s
  | reopen now => exact update_write fun _ hr hc => .reopen hr hc
  | staleSweep now => exact update_write fun _ hr hc => .sweep hr hc
  | mark now => exact update_write fun _ hr hc => .mark hr hc
  | start | select | enqueued | sweep | selectDue | publish | done => exact .same _

def Worker.Plain (reopens sweeps : Bool) : Worker → Prop
  | .enqueue b | .enqueued b => b = true → reopens = true
  | .reopen _ => reopens = true
  | .sweep | .staleSweep _ => sweeps = true
  | _ => True

theorem plain_work {i : Answer} {p : Nat} {s : Store} {x : Worker} {reopens sweeps : Bool}
    (h : x.Plain reopens sweeps) : (work i p s x).2.Plain reopens sweeps := by
  cases x with
  | enqueued b =>
    simp only [work]
    split
    · exact h ‹_›
    · trivial
  | select now =>
    simp only [work]
    split
    · trivial
    · split
      · trivial
      · split <;> trivial
  | claim now attempts =>
    simp only [work]
    split <;> trivial
  | selectDue now =>
    simp only [work]
    split <;> trivial
  | enqueue b => exact h
  | sweep => exact h
  | start | holding | reopen | staleSweep | publish | mark | done => trivial

theorem Worker.Entry.plain {x : Worker} {reopens sweeps : Bool} (h : x.Entry reopens sweeps) :
    x.Plain reopens sweeps := by
  cases h with
  | start => trivial
  | enqueue => exact fun h => by cases h
  | reopen h => exact fun _ => h
  | sweep h => exact h

end Yurucommu.Resolution
