import Yurucommu.Table

/-!
The insert that updates the row it meets, on tables whose rows have keys of their own.
-/

set_option autoImplicit false

namespace Table

variable {ρ κ : Type} [DecidableEq κ] {key : ρ → κ}

def upsert (key : ρ → κ) (new : ρ) (set : ρ → ρ) (rows : List ρ) : List ρ :=
  if rows.any fun r => key r = key new then update (fun r => key r = key new) set rows
  else rows ++ [new]

theorem upsert_of_ne {new : ρ} {rows : List ρ} (set : ρ → ρ)
    (h : ∀ r ∈ rows, key r ≠ key new) : upsert key new set rows = rows ++ [new] := by
  refine if_neg fun hany => ?_
  obtain ⟨r,hr,hkey⟩ := List.any_eq_true.mp hany
  exact h r hr (of_decide_eq_true hkey)

theorem upsert_of_mem {new r : ρ} {rows : List ρ} (set : ρ → ρ) (hr : r ∈ rows)
    (h : key r = key new) :
    upsert key new set rows = update (fun r => key r = key new) set rows :=
  if_pos (List.any_eq_true.mpr ⟨r,hr,decide_eq_true h⟩)

theorem nodup_upsert {new : ρ} {set : ρ → ρ} {rows : List ρ} (hset : ∀ r, key (set r) = key r)
    (h : (rows.map key).Nodup) : ((upsert key new set rows).map key).Nodup := by
  by_cases hex : ∃ r ∈ rows, key r = key new
  · obtain ⟨r,hr,hkey⟩ := hex
    rw [upsert_of_mem set hr hkey,map_update hset]
    exact h
  · have hne : ∀ r ∈ rows, key r ≠ key new := fun r hr hkey => hex ⟨r,hr,hkey⟩
    rw [upsert_of_ne set hne,List.map_append,List.nodup_append]
    refine ⟨h,List.nodup_singleton _,?_⟩
    rintro a ha b hb rfl
    obtain ⟨r,hr,hkey⟩ := List.mem_map.mp ha
    rw [List.map_singleton,List.mem_singleton] at hb
    exact hne r hr (hkey.trans hb)

theorem find_update_key {set : ρ → ρ} {rows : List ρ} {r : ρ} {p : ρ → Bool}
    (h : (rows.map key).Nodup) (hset : ∀ r, key (set r) = key r) (hr : r ∈ rows)
    (hp : ∀ q, p q = true → key q = key r) :
    (update (fun q => key q = key r) set rows).find? p =
      if p (set r) then some (set r) else none := by
  induction rows with
  | nil => cases hr
  | cons a rows ih =>
    rw [List.map_cons,List.nodup_cons] at h
    unfold update
    rw [List.map_cons,List.find?_cons]
    by_cases hkey : key a = key r
    · have hsame : a = r := by
        rcases List.mem_cons.mp hr with rfl | hr'
        · rfl
        · exact (h.1 (hkey ▸ List.mem_map_of_mem hr')).elim
      subst hsame
      have hnone :
          (rows.map fun q => if decide (key q = key a) then set q else q).find? p = none := by
        rw [List.find?_eq_none]
        intro q hq hpq
        obtain ⟨b,hb,rfl⟩ := List.mem_map.mp hq
        have hkeyb := hp _ hpq
        split at hkeyb
        · exact h.1 (List.mem_map.mpr ⟨b,hb,(hset b).symm.trans hkeyb⟩)
        · exact h.1 (List.mem_map.mpr ⟨b,hb,hkeyb⟩)
      simp only [decide_true,if_true]
      split
      · rename_i hps
        rw [if_pos hps]
      · rename_i hps
        rw [hnone,if_neg (by simp [hps])]
    · have hpa : p a = false := by
        rw [Bool.eq_false_iff]
        exact fun hpa => hkey (hp a hpa)
      have hr' : r ∈ rows := (List.mem_cons.mp hr).resolve_left fun he => hkey (he ▸ rfl)
      have hfalse : decide (key a = key r) = false := decide_eq_false hkey
      simp only [hfalse,Bool.false_eq_true,if_false,hpa]
      exact ih h.2 hr'

omit [DecidableEq κ] in
theorem eq_of_key {rows : List ρ} {r q : ρ} (h : (rows.map key).Nodup) (hr : r ∈ rows)
    (hq : q ∈ rows) (hkey : key r = key q) : r = q :=
  List.inj_on_of_nodup_map h hr hq hkey

theorem filter_update_key {set : ρ → ρ} {rows : List ρ} {r : ρ} {p : ρ → Bool}
    (h : (rows.map key).Nodup) (hr : r ∈ rows) (hp : p r = false) (hset : p (set r) = false) :
    (update (fun q => key q = key r) set rows).filter p = rows.filter p := by
  have hall : ∀ q ∈ rows, p (if decide (key q = key r) then set q else q) = p q ∧
      (p q = true → (if decide (key q = key r) then set q else q) = q) := by
    intro q hq
    by_cases hkey : key q = key r
    · obtain rfl := eq_of_key h hq hr hkey
      simp [hp,hset]
    · simp [hkey]
  clear h hr
  induction rows with
  | nil => rfl
  | cons q rows ih =>
    obtain ⟨hsame,hkept⟩ := hall q List.mem_cons_self
    have hrest := ih fun s hs => hall s (List.mem_cons_of_mem _ hs)
    unfold update at hrest ⊢
    rw [List.map_cons,List.filter_cons,List.filter_cons,hsame,hrest]
    split
    · rename_i hpq
      rw [hkept hpq]
    · rfl

end Table
