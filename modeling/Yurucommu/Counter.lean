import Mathlib
import Yurucommu.Table

/-!
A column that counts the rows of another table: each parent row carries the number of the rows that
have its key and are counted.
-/

set_option autoImplicit false

/-- `set` writes the column. -/
structure Counter (π κ ρ : Type) where
  id : π → κ
  count : π → Nat
  set : Nat → π → π
  key : ρ → κ
  counted : ρ → Bool
  count_set : ∀ n p, count (set n p) = n
  id_set : ∀ n p, id (set n p) = id p

namespace Counter

variable {π κ ρ : Type} [DecidableEq κ] (c : Counter π κ ρ)

def of (k : κ) (r : ρ) : Bool := c.counted r && decide (c.key r = k)

def tally (rows : List ρ) (k : κ) : Nat := rows.countP (c.of k)

def Exact (parents : List π) (rows : List ρ) : Prop :=
  ∀ p ∈ parents, c.count p = c.tally rows (c.id p)

/-- `UPDATE … SET count = n WHERE cond`. -/
def adjust (cond : π → Bool) (n : π → Nat) (parents : List π) : List π :=
  Table.update cond (fun p => c.set (n p) p) parents

section tally

theorem tally_append (as bs : List ρ) (k : κ) :
    c.tally (as ++ bs) k = c.tally as k + c.tally bs k := List.countP_append

theorem tally_singleton (r : ρ) (k : κ) : c.tally [r] k = if c.of k r then 1 else 0 := by
  unfold tally
  rw [List.countP_singleton]

theorem tally_delete (cond : ρ → Bool) (rows : List ρ) (k : κ) :
    c.tally rows k =
      c.tally (Table.delete cond rows) k + rows.countP fun r => c.of k r && cond r := by
  unfold tally Table.delete
  induction rows with
  | nil => rfl
  | cons r rows ih =>
    rw [List.countP_cons,List.countP_cons,ih,List.filter_cons]
    cases hc : cond r with
    | true =>
      simp only [Bool.not_true,Bool.false_eq_true,if_false,Bool.and_true]
      omega
    | false =>
      simp only [Bool.not_false,if_true,List.countP_cons,Bool.and_false,Bool.false_eq_true,if_false]
      omega

theorem tally_delete_of_none {cond : ρ → Bool} {rows : List ρ} {k : κ}
    (h : ∀ r ∈ rows, cond r = true → c.of k r = false) :
    c.tally (Table.delete cond rows) k = c.tally rows k := by
  rw [c.tally_delete cond rows k]
  have hnone : (rows.countP fun r => c.of k r && cond r) = 0 := by
    rw [List.countP_eq_zero]
    intro r hr htrue
    rw [Bool.and_eq_true] at htrue
    rw [h r hr htrue.2] at htrue
    cases htrue.1
  omega

theorem tally_eq_zero {rows : List ρ} {k : κ} (h : ∀ r ∈ rows, c.key r ≠ k) :
    c.tally rows k = 0 := by
  unfold tally
  rw [List.countP_eq_zero]
  intro r hr hof
  simp only [of,Bool.and_eq_true,decide_eq_true_eq] at hof
  exact h r hr hof.2

theorem tally_pos {rows : List ρ} {r : ρ} (hr : r ∈ rows) (hc : c.counted r = true) :
    0 < c.tally rows (c.key r) := by
  unfold tally
  rw [List.countP_pos_iff]
  exact ⟨r,hr,by simp [of,hc]⟩

theorem countP_le_one {κ' : Type} {key : ρ → κ'} {rows : List ρ} (h : (rows.map key).Nodup)
    {q : ρ → Bool} (hq : ∀ r ∈ rows, ∀ r' ∈ rows, q r = true → q r' = true → key r = key r') :
    rows.countP q ≤ 1 := by
  induction rows with
  | nil => exact Nat.zero_le 1
  | cons r rows ih =>
    rw [List.map_cons,List.nodup_cons] at h
    have hrest := ih h.2 fun a ha b hb =>
      hq a (List.mem_cons_of_mem _ ha) b (List.mem_cons_of_mem _ hb)
    rw [List.countP_cons]
    cases hr : q r with
    | false => simpa using hrest
    | true =>
      have hzero : rows.countP q = 0 := by
        rw [List.countP_eq_zero]
        intro b hb hqb
        have heq := hq r List.mem_cons_self b (List.mem_cons_of_mem _ hb) hr hqb
        exact h.1 (heq ▸ List.mem_map_of_mem hb)
      rw [hzero]
      simp

theorem countP_eq_any {κ' : Type} {key : ρ → κ'} {rows : List ρ} (h : (rows.map key).Nodup)
    {q : ρ → Bool} (hq : ∀ r ∈ rows, ∀ r' ∈ rows, q r = true → q r' = true → key r = key r') :
    rows.countP q = if rows.any q then 1 else 0 := by
  have hle := countP_le_one h hq
  cases hany : rows.any q with
  | true =>
    obtain ⟨r,hr,hqr⟩ := List.any_eq_true.mp hany
    have hpos := List.countP_pos_iff.mpr ⟨r,hr,hqr⟩
    rw [if_pos rfl]
    omega
  | false =>
    rw [if_neg (by simp),List.countP_eq_zero]
    exact List.any_eq_false.mp hany

theorem sum_tally {keys : List κ} (h : keys.Nodup) (rows : List ρ) :
    (keys.map (c.tally rows)).sum = rows.countP fun r => c.counted r && decide (c.key r ∈ keys) := by
  induction keys with
  | nil => simp
  | cons k keys ih =>
    rw [List.nodup_cons] at h
    rw [List.map_cons,List.sum_cons,ih h.2]
    clear ih
    unfold tally
    induction rows with
    | nil => rfl
    | cons r rows ihr =>
      simp only [List.countP_cons]
      have hone : (if c.of k r = true then 1 else 0) +
          (if (c.counted r && decide (c.key r ∈ keys)) = true then 1 else 0) =
            if (c.counted r && decide (c.key r ∈ k :: keys)) = true then 1 else 0 := by
        unfold of
        cases c.counted r with
        | false => simp
        | true =>
          by_cases hk : c.key r = k
          · simp [hk,h.1]
          · simp [hk]
      omega

theorem sum_tally_of {keys : List κ} (h : keys.Nodup) {rows : List ρ} {p : ρ → Bool}
    (hp : ∀ r, p r = true ↔ c.counted r = true ∧ c.key r ∈ keys) :
    (keys.map (c.tally rows)).sum = rows.countP p := by
  rw [c.sum_tally h]
  refine List.countP_congr fun r _ => ?_
  rw [hp,Bool.and_eq_true,decide_eq_true_eq]

theorem tally_update {cond : ρ → Bool} {set : ρ → ρ} (h : ∀ r, cond r = true →
    c.counted r = false ∧ c.counted (set r) = true ∧ c.key (set r) = c.key r) (rows : List ρ)
    (k : κ) : c.tally (Table.update cond set rows) k =
      c.tally rows k + rows.countP fun r => cond r && decide (c.key r = k) := by
  unfold tally Table.update
  induction rows with
  | nil => rfl
  | cons r rows ih =>
    rw [List.map_cons,List.countP_cons,List.countP_cons,List.countP_cons,ih]
    cases hc : cond r with
    | true =>
      obtain ⟨hcounted,hset,hkey⟩ := h r hc
      simp only [of,if_true,hcounted,hset,hkey,Bool.true_and,Bool.false_and,Bool.false_eq_true,
        if_false]
      omega
    | false =>
      simp only [Bool.false_eq_true,if_false,Bool.false_and]
      omega

theorem tally_update_same {set : ρ → ρ} (hcounted : ∀ r, c.counted (set r) = c.counted r)
    (hkey : ∀ r, c.key (set r) = c.key r) (cond : ρ → Bool) (rows : List ρ) (k : κ) :
    c.tally (Table.update cond set rows) k = c.tally rows k := by
  unfold tally Table.update
  rw [List.countP_map]
  congr 1
  funext r
  simp only [Function.comp_apply]
  split
  · simp only [of,hcounted,hkey]
  · rfl

end tally

section exact

variable {c} {parents : List π} {rows rows' : List ρ}

theorem Exact.adjust {cond : π → Bool} {n : π → Nat} (h : c.Exact parents rows)
    (hn : ∀ p ∈ parents, c.count p = c.tally rows (c.id p) →
      (if cond p then n p else c.count p) = c.tally rows' (c.id p)) :
    c.Exact (c.adjust cond n parents) rows' := by
  intro p' hp'
  obtain ⟨p,hp,rfl⟩ := List.mem_map.mp hp'
  have hkeep := hn p hp (h p hp)
  cases hc : cond p with
  | true =>
    simp only [hc,if_true] at hkeep ⊢
    rw [c.count_set,c.id_set]
    exact hkeep
  | false =>
    simpa only [hc,Bool.false_eq_true,if_false] using hkeep

theorem Exact.of_tally (h : c.Exact parents rows)
    (hn : ∀ p ∈ parents, c.tally rows' (c.id p) = c.tally rows (c.id p)) :
    c.Exact parents rows' := by
  intro p hp
  rw [hn p hp]
  exact h p hp

theorem Exact.update {cond : π → Bool} {set : π → π} (h : c.Exact parents rows)
    (hcount : ∀ p, c.count (set p) = c.count p) (hid : ∀ p, c.id (set p) = c.id p) :
    c.Exact (Table.update cond set parents) rows := by
  intro p' hp'
  obtain ⟨p,hp,rfl⟩ := List.mem_map.mp hp'
  cases cond p with
  | true =>
    rw [if_pos rfl,hcount,hid]
    exact h p hp
  | false => exact h p hp

/-- `SET count = count + 1 WHERE id = k`, beside the insert of a counted row of key `k`. -/
theorem Exact.increment (h : c.Exact parents rows) {r : ρ} (hr : c.counted r = true) :
    c.Exact (c.adjust (fun p => c.id p = c.key r) (fun p => c.count p + 1) parents)
      (rows ++ [r]) := by
  refine h.adjust ?_
  intro p _ hp
  rw [tally_append,tally_singleton,of,hr]
  by_cases hid : c.id p = c.key r
  · simp [hid,hp]
  · simp [hid,Ne.symm hid,hp]

end exact

section but

variable {c} {stale : κ → Prop} {parents : List π} {rows : List ρ}

/-- `Exact` at the parents whose key is not in `stale`. -/
def ExactBut (c : Counter π κ ρ) (stale : κ → Prop) (parents : List π) (rows : List ρ) : Prop :=
  ∀ p ∈ parents, ¬stale (c.id p) → c.count p = c.tally rows (c.id p)

theorem Exact.but (h : c.Exact parents rows) (stale : κ → Prop) : c.ExactBut stale parents rows :=
  fun p hp _ => h p hp

theorem ExactBut.exact (h : c.ExactBut stale parents rows) (hoff : ∀ p ∈ parents, ¬stale (c.id p)) :
    c.Exact parents rows := fun p hp => h p hp (hoff p hp)

theorem ExactBut.recompute (h : c.ExactBut stale parents rows) (k : κ) :
    c.ExactBut (fun k' => stale k' ∧ k' ≠ k)
      (c.adjust (fun p => c.id p = k) (fun _ => c.tally rows k) parents) rows := by
  intro p' hp' hoff
  obtain ⟨p,hp,rfl⟩ := List.mem_map.mp hp'
  by_cases hid : c.id p = k
  · simp only [hid,decide_true,if_true,c.count_set,c.id_set]
  · simp only [hid,decide_false,Bool.false_eq_true,if_false] at hoff ⊢
    exact h p hp fun htrue => hoff ⟨htrue,hid⟩

/-- A `DELETE` makes the parents of what it takes stale. -/
theorem ExactBut.delete (h : c.ExactBut stale parents rows) (cond : ρ → Bool) :
    c.ExactBut (fun k => stale k ∨ ∃ r ∈ rows, cond r = true ∧ c.of k r = true) parents
      (Table.delete cond rows) := by
  intro p hp hoff
  have hnone : ∀ r ∈ rows, cond r = true → c.of (c.id p) r = false := by
    intro r hr hc
    by_contra hof
    exact hoff (.inr ⟨r,hr,hc,by simpa using hof⟩)
  rw [c.tally_delete_of_none hnone]
  exact h p hp fun htrue => hoff (.inl htrue)

theorem ExactBut.append (h : c.ExactBut stale parents rows) (r : ρ) :
    c.ExactBut (fun k => stale k ∨ c.of k r = true) parents (rows ++ [r]) := by
  intro p hp hoff
  have hof : c.of (c.id p) r = false := by
    by_contra htrue
    exact hoff (.inr (by simpa using htrue))
  rw [tally_append,tally_singleton,hof]
  exact h p hp fun htrue => hoff (.inl htrue)

end but

end Counter
