import Yurucommu.Machine
import Mathlib.Data.Finset.Card

/-!
The semaphores of the delivery bulkhead. A task runs up to its next `await` in one step, and
a promise that is resolved is continued in a later one.
-/

set_option autoImplicit false

namespace Yurucommu.Bulkhead

/-- `waiters` are the tasks whose promise is pending, oldest first, and `woken` those whose
promise is resolved but whose continuation has not run. -/
structure Semaphore where
  available : Int
  waiters : List Nat
  woken : List Nat
deriving DecidableEq, Repr

namespace Semaphore

def new (limit : Int) : Semaphore := ⟨limit,[],[]⟩

/-- `acquire` up to its `await`: whether the task has a unit, or waits. -/
def acquire (p : Nat) (sem : Semaphore) : Semaphore × Bool :=
  if 0 < sem.available then ({ sem with available := sem.available - 1 }, true)
  else ({ sem with waiters := sem.waiters ++ [p] }, false)

/-- The end of `acquire` after its `await`. -/
def resume (p : Nat) (sem : Semaphore) : Semaphore :=
  { sem with available := sem.available - 1, woken := sem.woken.erase p }

def release (sem : Semaphore) : Semaphore where
  available := sem.available + 1
  waiters := sem.waiters.tail
  woken := sem.woken ++ sem.waiters.head?.toList

end Semaphore

structure Store where
  global : Semaphore
  perHost : String → Option Semaphore
  perHostLimit : Int

/-- The semaphore of a host, which is made when it is first asked for. -/
def Store.host (s : Store) (host : String) : Semaphore :=
  (s.perHost host).getD (.new s.perHostLimit)

def Store.setHost (s : Store) (host : String) (sem : Semaphore) : Store :=
  { s with perHost := Function.update s.perHost host (some sem) }

/-- Where a task is: before `acquire`, at the promise of a semaphore, between two
continuations of `acquire`, or after it and before `release`. -/
inductive Task where
  | idle
  | globalWait (host : String)
  | globalHeld (host : String)
  | hostWait (host : String)
  | hostHeld (host : String)
  | holding (host : String)
deriving DecidableEq, Repr

def Task.hasGlobal : Task → Bool
  | .globalHeld _ | .hostWait _ | .hostHeld _ | .holding _ => true
  | .idle | .globalWait _ => false

def Task.hasHost (host : String) : Task → Bool
  | .hostHeld h | .holding h => h = host
  | .idle | .globalWait _ | .globalHeld _ | .hostWait _ => false

def release (host : String) (s : Store) : Store :=
  let s := match s.perHost host with
    | some sem => s.setHost host sem.release
    | none => s
  { s with global := s.global.release }

/-- One continuation of task `p`; an idle task acquires for `i`. -/
def work (i : String) (p : Nat) (s : Store) : Task → Store × Task
  | .idle =>
    let (sem,has) := s.global.acquire p
    ({ s with global := sem }, if has then .globalHeld i else .globalWait i)
  | .globalWait host => ({ s with global := s.global.resume p }, .globalHeld host)
  | .globalHeld host =>
    let (sem,has) := (s.host host).acquire p
    (s.setHost host sem, if has then .hostHeld host else .hostWait host)
  | .hostWait host => (s.setHost host ((s.host host).resume p), .hostHeld host)
  | .hostHeld host => (s, .holding host)
  | .holding host => (release host s, .idle)

def allowed (p : Nat) (s : Store) : Task → Bool
  | .globalWait _ => p ∈ s.global.woken
  | .hostWait host => p ∈ (s.host host).woken
  | _ => true

def threads : Threads Store Task String Empty where
  next i p s x := if allowed p s x then some (work i p s x) else none
  env e _ := nomatch e

abbrev Pool := Threads.Pool Store Task

abbrev Label := Threads.Label String Empty

abbrev machine : Machine Pool Label := threads.machine

def start (globalLimit perHostLimit : Int) : Pool where
  store := ⟨.new globalLimit,fun _ => none,perHostLimit⟩
  thread _ := .idle

theorem step_task {p : Nat} {i : String} {s t : Pool} :
    machine.step (.act p i) s = some t ↔
      allowed p s.store (s.thread p) = true ∧
        t = ⟨(work i p s.store (s.thread p)).1,
          Function.update s.thread p (work i p s.store (s.thread p)).2⟩ := by
  rw [Threads.step_act]
  constructor
  · rintro ⟨x,hn,hth⟩
    simp only [threads,Option.ite_none_right_eq_some,Option.some.injEq] at hn
    refine ⟨hn.1,?_⟩
    cases t
    simp_all
  · rintro ⟨ha,rfl⟩
    exact ⟨_,by simp [threads,ha],rfl⟩

structure Within (globalLimit perHostLimit : Int) (s : Pool) : Prop where
  total : ∀ tasks : Finset Nat, (∀ p ∈ tasks, ∃ host, s.thread p = .holding host) →
    (tasks.card : Int) ≤ globalLimit
  perHost : ∀ (host : String) (tasks : Finset Nat), (∀ p ∈ tasks, s.thread p = .holding host) →
    (tasks.card : Int) ≤ perHostLimit
  global : 0 ≤ s.store.global.available
  host : ∀ host, 0 ≤ (s.store.host host).available
  globalBack : (∀ p, (s.thread p).hasGlobal = false) → s.store.global.available = globalLimit
  hostBack : ∀ host, (∀ p, (s.thread p).hasHost host = false) →
    (s.store.host host).available = perHostLimit

def HardLimits (globalLimit perHostLimit : Int) (ls : List Label) : Prop :=
  ∀ as bs s, ls = as ++ bs → machine.run as (start globalLimit perHostLimit) = some s →
    Within globalLimit perHostLimit s

def Robbed (p : Nat) (s : Pool) : Prop :=
  (∃ host, s.thread p = .globalWait host ∧ s.store.global.available ≤ 0) ∨
    ∃ host, s.thread p = .hostWait host ∧ (s.store.host host).available ≤ 0

def Undisturbed (globalLimit perHostLimit : Int) (ls : List Label) : Prop :=
  ∀ as p i bs s t, ls = as ++ .act p i :: bs →
    machine.run as (start globalLimit perHostLimit) = some s →
    machine.step (.act p i) s = some t → ¬Robbed p s

end Yurucommu.Bulkhead
