import Mathlib.Data.List.Basic

/-!
Batches of statements, run in order as one; a statement under a guard acts where the guard holds of
the state that it finds.
-/

set_option autoImplicit false

namespace Batch

variable {σ : Type}

def run (statements : List (σ → σ)) (s : σ) : σ := statements.foldl (fun s f => f s) s

def guarded (guard : σ → Bool) (f : σ → σ) (s : σ) : σ := if guard s then f s else s

variable {guard : σ → Bool} {statements : List (σ → σ)} {s : σ}

@[simp] theorem run_nil (s : σ) : run [] s = s := rfl

@[simp] theorem run_cons (f : σ → σ) (statements : List (σ → σ)) (s : σ) :
    run (f :: statements) s = run statements (f s) := rfl

theorem run_append (fs gs : List (σ → σ)) (s : σ) : run (fs ++ gs) s = run gs (run fs s) :=
  List.foldl_append

theorem guarded_of_true {f : σ → σ} (h : guard s = true) : guarded guard f s = f s := if_pos h

theorem guarded_of_false {f : σ → σ} (h : guard s = false) : guarded guard f s = s := by
  simp [guarded,h]

theorem run_invariant {P : σ → Prop} (hs : P s) (h : ∀ f ∈ statements, ∀ s, P s → P (f s)) :
    P (run statements s) := by
  induction statements generalizing s with
  | nil => exact hs
  | cons f statements ih =>
    rw [List.forall_mem_cons] at h
    exact ih (h.1 s hs) h.2

/-- A preorder that every statement follows. -/
theorem run_related {R : σ → σ → Prop} (hr : ∀ s, R s s) (ht : ∀ a b c, R a b → R b c → R a c)
    (h : ∀ f ∈ statements, ∀ s, R s (f s)) : R s (run statements s) :=
  run_invariant (P := R s) (hr s) fun f hf t hst => ht s t (f t) hst (h f hf t)

theorem run_guarded_of_false (h : guard s = false) :
    run (statements.map (guarded guard)) s = s := by
  induction statements with
  | nil => rfl
  | cons f statements ih => rw [List.map_cons,run_cons,guarded_of_false h,ih]

theorem run_guarded_of_true (h : guard s = true)
    (hkeep : ∀ f ∈ statements, ∀ s, guard s = true → guard (f s) = true) :
    run (statements.map (guarded guard)) s = run statements s := by
  induction statements generalizing s with
  | nil => rfl
  | cons f statements ih =>
    rw [List.forall_mem_cons] at hkeep
    rw [List.map_cons,run_cons,run_cons,guarded_of_true h,ih (hkeep.1 s h) hkeep.2]

/-- The last statement may break it. -/
theorem run_guarded_snoc {last : σ → σ} (h : guard s = true)
    (hkeep : ∀ f ∈ statements, ∀ s, guard s = true → guard (f s) = true) :
    run ((statements ++ [last]).map (guarded guard)) s = last (run statements s) := by
  have hguard : guard (run statements s) = true :=
    run_invariant (P := fun s => guard s = true) h hkeep
  rw [List.map_append,run_append,run_guarded_of_true h hkeep,List.map_singleton,run_cons,run_nil,
    guarded_of_true hguard]

end Batch
