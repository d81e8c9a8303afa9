import Mathlib.Data.List.Basic
import Mathlib.Data.List.Nodup

/-!
A map that remembers the order in which its keys came in: setting a key it has keeps the
key's place, setting a new one appends it, and a deleted key that returns comes last.
-/

set_option autoImplicit false

structure JsMap (κ ν : Type) where
  entries : List (κ × ν)
  nodup : (entries.map Prod.fst).Nodup
deriving DecidableEq

namespace JsMap

variable {κ ν : Type} [DecidableEq κ]

def empty : JsMap κ ν := ⟨[],List.nodup_nil⟩

def get (m : JsMap κ ν) (k : κ) : Option ν :=
  (m.entries.find? fun e => e.1 = k).map Prod.snd

def has (m : JsMap κ ν) (k : κ) : Bool := (m.get k).isSome

def values (m : JsMap κ ν) : List ν := m.entries.map Prod.snd

def setEntries (k : κ) (v : ν) : List (κ × ν) → List (κ × ν)
  | [] => [(k,v)]
  | e :: es => if e.1 = k then (k,v) :: es else e :: setEntries k v es

theorem mem_keys_setEntries {k k' : κ} {v : ν} {es : List (κ × ν)} :
    k' ∈ (setEntries k v es).map Prod.fst ↔ k' = k ∨ k' ∈ es.map Prod.fst := by
  induction es with
  | nil => simp [setEntries]
  | cons e es ih =>
    by_cases h : e.1 = k
    · simp [setEntries,h]
    · simp only [setEntries,h,if_false,List.map_cons,List.mem_cons,ih]
      tauto

theorem nodup_setEntries {k : κ} {v : ν} {es : List (κ × ν)}
    (h : (es.map Prod.fst).Nodup) : ((setEntries k v es).map Prod.fst).Nodup := by
  induction es with
  | nil => simp [setEntries]
  | cons e es ih =>
    rw [List.map_cons,List.nodup_cons] at h
    by_cases he : e.1 = k
    · simp only [setEntries,he,if_true,List.map_cons,List.nodup_cons]
      exact ⟨he ▸ h.1,h.2⟩
    · simp only [setEntries,he,if_false,List.map_cons,List.nodup_cons]
      refine ⟨fun hm => ?_,ih h.2⟩
      rcases mem_keys_setEntries.mp hm with hk | hk
      · exact he hk
      · exact h.1 hk

def set (m : JsMap κ ν) (k : κ) (v : ν) : JsMap κ ν :=
  ⟨setEntries k v m.entries,nodup_setEntries m.nodup⟩

def delete (m : JsMap κ ν) (k : κ) : JsMap κ ν :=
  ⟨m.entries.filter fun e => e.1 ≠ k,
    m.nodup.sublist ((List.filter_sublist).map Prod.fst)⟩

@[simp] theorem get_empty (k : κ) : (empty : JsMap κ ν).get k = none := rfl

theorem get_eq_some_iff {m : JsMap κ ν} {k : κ} {v : ν} :
    m.get k = some v ↔ (k,v) ∈ m.entries := by
  obtain ⟨es,h⟩ := m
  simp only [get]
  induction es with
  | nil => simp
  | cons e es ih =>
    rw [List.map_cons,List.nodup_cons] at h
    by_cases he : e.1 = k
    · subst he
      simp only [List.find?_cons,decide_true,Option.map_some,Option.some.injEq,List.mem_cons]
      constructor
      · rintro rfl
        exact .inl rfl
      · rintro (hv | hm)
        · exact (congrArg Prod.snd hv).symm
        · exact absurd (List.mem_map_of_mem (f := Prod.fst) hm) h.1
    · simp only [List.find?_cons,he,decide_false,List.mem_cons]
      rw [ih h.2]
      constructor
      · exact .inr
      · rintro (hv | hm)
        · exact absurd (congrArg Prod.fst hv).symm he
        · exact hm

theorem has_iff {m : JsMap κ ν} {k : κ} : m.has k = true ↔ k ∈ m.entries.map Prod.fst := by
  simp only [has,Option.isSome_iff_exists,get_eq_some_iff,List.mem_map,Prod.exists,
    exists_and_right,exists_eq_right]

theorem mem_keys_set {m : JsMap κ ν} {k k' : κ} {v : ν} :
    k' ∈ (m.set k v).entries.map Prod.fst ↔ k' = k ∨ k' ∈ m.entries.map Prod.fst :=
  mem_keys_setEntries

theorem mem_values_iff {m : JsMap κ ν} {v : ν} : v ∈ m.values ↔ ∃ k, m.get k = some v := by
  simp only [values,List.mem_map,get_eq_some_iff,Prod.exists]
  constructor
  · rintro ⟨k,w,hm,rfl⟩
    exact ⟨k,hm⟩
  · rintro ⟨k,hm⟩
    exact ⟨k,v,hm,rfl⟩

@[simp] theorem get_set_self (m : JsMap κ ν) (k : κ) (v : ν) : (m.set k v).get k = some v := by
  rw [get_eq_some_iff]
  simp only [set]
  induction m.entries with
  | nil => simp [setEntries]
  | cons e es ih =>
    by_cases he : e.1 = k
    · simp [setEntries,he]
    · simp [setEntries,he,ih]

theorem get_set_of_ne {m : JsMap κ ν} {k k' : κ} {v : ν} (h : k' ≠ k) :
    (m.set k v).get k' = m.get k' := by
  simp only [get,set]
  induction m.entries with
  | nil => simp [setEntries,h.symm]
  | cons e es ih =>
    by_cases he : e.1 = k
    · simp [setEntries,he,h.symm]
    · by_cases hk : e.1 = k'
      · simp [setEntries,hk,hk ▸ he]
      · simpa [setEntries,he,hk] using ih

theorem get_set (m : JsMap κ ν) (k k' : κ) (v : ν) :
    (m.set k v).get k' = if k' = k then some v else m.get k' := by
  by_cases h : k' = k
  · subst h
    simp
  · rw [if_neg h,get_set_of_ne h]

theorem get_foldl_set {α : Type} {key : α → κ} {value : α → ν} {k : κ} {v : ν}
    {rows : List α} (m : JsMap κ ν) (hsame : ∀ r ∈ rows, key r = k → value r = v)
    (h : m.get k = some v ∨ ∃ r ∈ rows, key r = k) :
    (rows.foldl (fun m r => m.set (key r) (value r)) m).get k = some v := by
  induction rows generalizing m with
  | nil => simpa using h
  | cons r rows ih =>
    rw [List.forall_mem_cons] at hsame
    refine ih _ hsame.2 ?_
    dsimp only
    by_cases hr : key r = k
    · rw [hr,hsame.1 hr]
      exact .inl (get_set_self ..)
    · rw [get_set_of_ne (Ne.symm hr)]
      refine h.imp_right ?_
      rintro ⟨x,hx,hkey⟩
      rcases List.mem_cons.mp hx with rfl | hx
      · exact absurd hkey hr
      · exact ⟨x,hx,hkey⟩

theorem get_foldl_of_forall_ne {α : Type} {key : α → κ} {value : α → ν} {k : κ} {rows : List α}
    (m : JsMap κ ν) (h : ∀ r ∈ rows, key r ≠ k) :
    (rows.foldl (fun m r => m.set (key r) (value r)) m).get k = m.get k := by
  induction rows generalizing m with
  | nil => rfl
  | cons r rows ih =>
    rw [List.forall_mem_cons] at h
    rw [List.foldl_cons,ih _ h.2,get_set_of_ne (Ne.symm h.1)]

@[simp] theorem get_delete_self (m : JsMap κ ν) (k : κ) : (m.delete k).get k = none := by
  simp [get,delete]

theorem get_delete_of_ne {m : JsMap κ ν} {k k' : κ} (h : k' ≠ k) :
    (m.delete k).get k' = m.get k' := by
  simp only [get,delete]
  induction m.entries with
  | nil => rfl
  | cons e es ih =>
    by_cases he : e.1 = k
    · simpa [List.filter_cons,he,h.symm] using ih
    · by_cases hk : e.1 = k'
      · simp [hk,h]
      · simpa [List.filter_cons,he,hk] using ih

theorem get_delete (m : JsMap κ ν) (k k' : κ) :
    (m.delete k).get k' = if k' = k then none else m.get k' := by
  by_cases h : k' = k
  · subst h
    simp
  · rw [if_neg h,get_delete_of_ne h]

theorem entries_eq_singleton {m : JsMap κ ν} {k : κ} {v : ν} (hg : m.get k = some v)
    (hk : ∀ k', k' ≠ k → m.get k' = none) : m.entries = [(k,v)] := by
  have only : ∀ e ∈ m.entries, e = (k,v) := by
    intro e he
    have hge : m.get e.1 = some e.2 := get_eq_some_iff.mpr he
    by_cases h : e.1 = k
    · rw [h,hg] at hge
      exact Prod.ext h (Option.some.inj hge).symm
    · rw [hk e.1 h] at hge
      cases hge
  have hmem := get_eq_some_iff.mp hg
  have hnodup := m.nodup
  generalize m.entries = es at only hmem hnodup
  cases es with
  | nil => cases hmem
  | cons e es =>
    have hhead := only e List.mem_cons_self
    cases es with
    | nil => rw [hhead]
    | cons e' es =>
      have hnext := only e' (List.mem_cons_of_mem e List.mem_cons_self)
      rw [hhead,hnext] at hnodup
      simp at hnodup

theorem values_nodup {m : JsMap κ ν}
    (h : ∀ k k' v, m.get k = some v → m.get k' = some v → k = k') : m.values.Nodup := by
  refine List.Nodup.map_on (fun e he e' he' hv => ?_) (.of_map Prod.fst m.nodup)
  have hk := h e.1 e'.1 e.2 (get_eq_some_iff.mpr he) (get_eq_some_iff.mpr (by rw [hv]; exact he'))
  exact Prod.ext hk hv

end JsMap
