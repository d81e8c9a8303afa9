import Yurucommu.JsMap
import Mathlib.Data.List.Perm.Basic

/-!
Grouping a list into a map from keys to the lists of what came in under each key.
-/

set_option autoImplicit false

namespace JsMap

variable {κ α : Type} [DecidableEq κ] {m : JsMap κ (List α)} {k : κ} {x : α}

def push (m : JsMap κ (List α)) (k : κ) (x : α) : JsMap κ (List α) :=
  match m.get k with
  | some xs => m.set k (xs ++ [x])
  | none => m.set k [x]

theorem get_push (m : JsMap κ (List α)) (k l : κ) (x : α) : (m.push k x).get l =
    if l = k then some ((m.get k).getD [] ++ [x]) else m.get l := by
  unfold push
  cases h : m.get k with
  | none => exact get_set ..
  | some xs => exact get_set ..

theorem values_set_new {v : α} {m : JsMap κ α} (h : m.get k = none) :
    (m.set k v).values = m.values ++ [v] := by
  have hkeys : k ∉ m.entries.map Prod.fst := by
    rw [← has_iff,has,h]
    exact Bool.false_ne_true
  simp only [values,set]
  clear h
  generalize m.entries = es at hkeys ⊢
  induction es with
  | nil => rfl
  | cons e es ih =>
    rw [List.map_cons,List.mem_cons,not_or] at hkeys
    rw [setEntries,if_neg (Ne.symm hkeys.1),List.map_cons,ih hkeys.2]
    rfl

theorem values_set_grown {v : List α} (h : m.get k = some v) :
    ((m.set k (v ++ [x])).values.flatten).Perm (m.values.flatten ++ [x]) := by
  simp only [get,Option.map_eq_some_iff] at h
  obtain ⟨found,hfound,rfl⟩ := h
  simp only [values,set]
  generalize m.entries = es at hfound ⊢
  induction es with
  | nil => cases hfound
  | cons e es ih =>
    by_cases he : e.1 = k
    · rw [List.find?_cons_of_pos (by simpa using he)] at hfound
      cases hfound
      rw [setEntries,if_pos he]
      simp only [List.map_cons,List.flatten_cons,List.append_assoc]
      exact List.perm_append_comm.append_left _
    · rw [List.find?_cons_of_neg (by simpa using he)] at hfound
      rw [setEntries,if_neg he]
      simp only [List.map_cons,List.flatten_cons,List.append_assoc]
      exact (ih hfound).append_left e.2

theorem perm_push (m : JsMap κ (List α)) (k : κ) (x : α) :
    ((m.push k x).values.flatten).Perm (m.values.flatten ++ [x]) := by
  unfold push
  cases h : m.get k with
  | none =>
    simp only [values_set_new h,List.flatten_append,List.flatten_cons,List.flatten_nil,
      List.append_nil]
    exact .refl _
  | some xs => exact values_set_grown h

end JsMap
