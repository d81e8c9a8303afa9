import Mathlib

/-!
Numbers that are not negative, as the nearest doubles. There is no largest double here: a number
beyond it is no double, and comes out larger than every one.
-/

set_option autoImplicit false

namespace Binary64

/-- The nearest integer, and an even one halfway between two. -/
def roundEven (q : ℚ) : ℤ :=
  if q - ⌊q⌋ < 1 / 2 then ⌊q⌋
  else if 1 / 2 < q - ⌊q⌋ then ⌊q⌋ + 1
  else if ⌊q⌋ % 2 = 0 then ⌊q⌋
  else ⌊q⌋ + 1

def unit (q : ℚ) : ℤ := max (Int.log 2 q) (-1022) - 52

def round (q : ℚ) : ℚ := roundEven (q / 2 ^ unit q) * 2 ^ unit q

variable {q r : ℚ}

theorem floor_le_roundEven (q : ℚ) : ⌊q⌋ ≤ roundEven q := by
  unfold roundEven
  split
  · exact le_refl _
  · split
    · omega
    · split <;> omega

theorem roundEven_le_floor (q : ℚ) : roundEven q ≤ ⌊q⌋ + 1 := by
  unfold roundEven
  split
  · omega
  · split
    · exact le_refl _
    · split <;> omega

theorem roundEven_mono (h : q ≤ r) : roundEven q ≤ roundEven r := by
  rcases lt_or_eq_of_le (Int.floor_mono h) with hlt | heq
  · have hq := roundEven_le_floor q
    have hr := floor_le_roundEven r
    omega
  · unfold roundEven
    rw [heq]
    split_ifs
    all_goals first | omega | (exfalso; linarith)

theorem roundEven_intCast (n : ℤ) : roundEven n = n := by
  unfold roundEven
  rw [Int.floor_intCast,sub_self,if_pos (by norm_num)]

theorem abs_roundEven_sub_le (q : ℚ) : |(roundEven q : ℚ) - q| ≤ 1 / 2 := by
  have hfloor := Int.floor_le q
  have hlt := Int.lt_floor_add_one q
  rw [abs_le]
  unfold roundEven
  split
  · constructor <;> linarith
  · split
    · push_cast
      constructor <;> linarith
    · split
      · constructor <;> linarith
      · push_cast
        constructor <;> linarith

theorem two_zpow_pos (k : ℤ) : (0 : ℚ) < 2 ^ k := zpow_pos (by norm_num) k

theorem abs_round_sub_le (q : ℚ) : |round q - q| ≤ 2 ^ unit q / 2 := by
  have hpos := two_zpow_pos (unit q)
  have herror := abs_roundEven_sub_le (q / 2 ^ unit q)
  have hsplit : round q - q =
      ((roundEven (q / 2 ^ unit q) : ℚ) - q / 2 ^ unit q) * 2 ^ unit q := by
    unfold round
    rw [sub_mul,div_mul_cancel₀ _ hpos.ne']
  rw [hsplit,abs_mul,abs_of_pos hpos]
  calc |(roundEven (q / 2 ^ unit q) : ℚ) - q / 2 ^ unit q| * 2 ^ unit q
      ≤ 1 / 2 * 2 ^ unit q := mul_le_mul_of_nonneg_right herror hpos.le
    _ = 2 ^ unit q / 2 := by ring

@[simp] theorem round_zero : round 0 = 0 := by
  unfold round
  rw [zero_div]
  have hzero := roundEven_intCast 0
  rw [Int.cast_zero] at hzero
  rw [hzero]
  simp

theorem round_of_mul {n : ℤ} (h : q = n * 2 ^ unit q) : round q = q := by
  have hdiv : q / 2 ^ unit q = n := by
    rw [div_eq_iff (two_zpow_pos _).ne']
    exact h
  unfold round
  rw [hdiv,roundEven_intCast]
  exact h.symm

theorem round_natCast_mul {m : ℕ} {k : ℤ} (hm : m < 2 ^ 53) (hk : -1074 ≤ k)
    (h : q = m * 2 ^ k) : round q = q := by
  rcases Nat.eq_zero_or_pos m with rfl | hpos
  · rw [h]
    simp
  · have hq : 0 < q := by
      rw [h]
      exact mul_pos (by exact_mod_cast hpos) (two_zpow_pos k)
    have hlt : q < 2 ^ (53 + k) := by
      rw [h,zpow_add₀ (by norm_num)]
      exact mul_lt_mul_of_pos_right (by exact_mod_cast hm) (two_zpow_pos k)
    have hlog : Int.log 2 q < 53 + k := by
      rw [← Int.lt_zpow_iff_log_lt (by norm_num) hq]
      exact_mod_cast hlt
    have hunit : unit q ≤ k := by
      unfold unit
      omega
    obtain ⟨j,hj⟩ : ∃ j : ℕ, k = unit q + j := ⟨(k - unit q).toNat,by omega⟩
    have hfactor : (m : ℚ) * 2 ^ k = ((m * 2 ^ j : ℤ) : ℚ) * 2 ^ unit q := by
      rw [hj,zpow_add₀ (by norm_num),zpow_natCast]
      push_cast
      ring
    exact round_of_mul (h.trans hfactor)

theorem two_zpow_unit_le (h : 0 < q) : 2 ^ (unit q + 52) ≤ q ∨ unit q + 52 = -1022 := by
  unfold unit
  rcases le_total (Int.log 2 q) (-1022) with hle | hle
  · right
    omega
  · left
    have hlog := Int.zpow_log_le_self (by norm_num : 1 < 2) h
    rw [max_eq_left hle,sub_add_cancel]
    exact_mod_cast hlog

theorem lt_two_zpow_unit (q : ℚ) : q < 2 ^ (unit q + 53) := by
  have hlog : q < 2 ^ (Int.log 2 q + 1) := by
    exact_mod_cast Int.lt_zpow_succ_log_self (by norm_num : 1 < 2) q
  refine lt_of_lt_of_le hlog (zpow_le_zpow_right₀ (by norm_num) ?_)
  unfold unit
  omega

theorem round_le_two_zpow (q : ℚ) : round q ≤ 2 ^ (unit q + 53) := by
  have hpos := two_zpow_pos (unit q)
  have hle : q / 2 ^ unit q ≤ ((2 ^ 53 : ℤ) : ℚ) := by
    rw [div_le_iff₀ hpos]
    have hlt := lt_two_zpow_unit q
    rw [add_comm,zpow_add₀ (by norm_num)] at hlt
    push_cast
    exact_mod_cast hlt.le
  have hround := roundEven_mono hle
  rw [roundEven_intCast] at hround
  unfold round
  rw [add_comm (unit q),zpow_add₀ (by norm_num)]
  exact mul_le_mul_of_nonneg_right (by exact_mod_cast hround) hpos.le

theorem two_zpow_le_round (h : 2 ^ (unit q + 52) ≤ q) : 2 ^ (unit q + 52) ≤ round q := by
  have hpos := two_zpow_pos (unit q)
  have hle : ((2 ^ 52 : ℤ) : ℚ) ≤ q / 2 ^ unit q := by
    rw [le_div_iff₀ hpos]
    rw [add_comm,zpow_add₀ (by norm_num)] at h
    push_cast
    exact_mod_cast h
  have hround := roundEven_mono hle
  rw [roundEven_intCast] at hround
  unfold round
  rw [add_comm (unit q),zpow_add₀ (by norm_num)]
  exact mul_le_mul_of_nonneg_right (by exact_mod_cast hround) hpos.le

theorem unit_mono (h : 0 < q) (hle : q ≤ r) : unit q ≤ unit r := by
  have hlog := Int.log_mono_right h hle (b := 2)
  unfold unit
  omega

theorem round_nonneg (h : 0 ≤ q) : 0 ≤ round q := by
  have hle : ((0 : ℤ) : ℚ) ≤ q / 2 ^ unit q := by
    rw [Int.cast_zero]
    exact div_nonneg h (two_zpow_pos _).le
  have hround := roundEven_mono hle
  rw [roundEven_intCast] at hround
  exact mul_nonneg (by exact_mod_cast hround) (two_zpow_pos _).le

theorem round_mono (h : 0 ≤ q) (hle : q ≤ r) : round q ≤ round r := by
  rcases h.eq_or_lt with rfl | hpos
  · rw [round_zero]
    exact round_nonneg hle
  · rcases (unit_mono hpos hle).eq_or_lt with heq | hlt
    · unfold round
      rw [heq]
      have hunit := two_zpow_pos (unit r)
      have hround := roundEven_mono (div_le_div_of_nonneg_right hle hunit.le)
      exact mul_le_mul_of_nonneg_right (by exact_mod_cast hround) hunit.le
    · have hbelow := round_le_two_zpow q
      have hmin : -1074 ≤ unit q := by
        unfold unit
        omega
      rcases two_zpow_unit_le (hpos.trans_le hle) with hnormal | hsub
      · calc round q ≤ 2 ^ (unit q + 53) := hbelow
          _ ≤ 2 ^ (unit r + 52) := zpow_le_zpow_right₀ (by norm_num) (by omega)
          _ ≤ round r := two_zpow_le_round hnormal
      · omega

theorem round_round (h : 0 ≤ q) : round (round q) = round q := by
  have hpos := two_zpow_pos (unit q)
  have hle := round_le_two_zpow q
  have hnonneg : 0 ≤ roundEven (q / 2 ^ unit q) := by
    have hzero := roundEven_mono (div_nonneg h hpos.le)
    have hcast := roundEven_intCast 0
    rw [Int.cast_zero] at hcast
    omega
  have hbound : roundEven (q / 2 ^ unit q) ≤ 2 ^ 53 := by
    unfold round at hle
    rw [add_comm,zpow_add₀ (by norm_num)] at hle
    have hcast := le_of_mul_le_mul_right hle hpos
    exact_mod_cast hcast
  have hmin : -1074 ≤ unit q := by
    unfold unit
    omega
  obtain ⟨m,hm⟩ := Int.eq_ofNat_of_zero_le hnonneg
  rw [hm] at hbound
  rcases hbound.lt_or_eq with hlt | heq
  · refine @round_natCast_mul _ m (unit q) (by exact_mod_cast hlt) hmin ?_
    unfold round
    rw [hm]
    rfl
  · refine @round_natCast_mul _ (2 ^ 52) (unit q + 1) (by norm_num) (by omega) ?_
    unfold round
    rw [hm,heq,zpow_add₀ (by norm_num)]
    push_cast
    ring

end Binary64
