import Yurucommu.FeedCursor

/-!
The order of dates as `toISOString` writes them: where the later one has a year of four digits, the
texts compare as the times do. Each time has a text of its own.
-/

set_option autoImplicit false

namespace Yurucommu.IsoDates

open Whatwg (Text)
open FeedCursor (civil digit pad toISOString yearText)

section digits

variable {k a b : ℕ} {s t : Text}

theorem digit_lt (h : a % 10 < b % 10) : digit a < digit b := by
  have hall : ∀ i j : Fin 10, i < j →
      "0123456789".toList.getD i '0' < "0123456789".toList.getD j '0' := by decide +kernel
  exact hall ⟨a % 10,Nat.mod_lt _ (by norm_num)⟩ ⟨b % 10,Nat.mod_lt _ (by norm_num)⟩ h

theorem length_pad (k n : ℕ) : (pad k n).length = k := by
  induction k generalizing n with
  | zero => rfl
  | succ k ih => rw [pad,List.length_append,ih,List.length_singleton]

theorem pad_append_lt (hb : b < 10 ^ k) (h : a < b) : pad k a ++ s < pad k b ++ t := by
  induction k generalizing a b s t with
  | zero => omega
  | succ k ih =>
    rw [pad,pad,List.append_assoc,List.append_assoc,List.singleton_append,List.singleton_append]
    have hb' : b / 10 < 10 ^ k := by
      rw [pow_succ] at hb
      omega
    rcases Nat.lt_or_ge (a / 10) (b / 10) with hlt | hge
    · exact ih hb' hlt
    · have heq : a / 10 = b / 10 := by omega
      rw [heq]
      refine List.append_left_lt (List.cons_lt_cons_iff.mpr (Or.inl (digit_lt ?_)))
      omega

theorem pad_inj (ha : a < 10 ^ k) (hb : b < 10 ^ k) (h : pad k a = pad k b) : a = b := by
  rcases Nat.lt_trichotomy a b with hlt | heq | hgt
  · have hno := @pad_append_lt k a b [] [] hb hlt
    rw [h] at hno
    exact absurd hno (lt_irrefl _)
  · exact heq
  · have hno := @pad_append_lt k b a [] [] ha hgt
    rw [h] at hno
    exact absurd hno (lt_irrefl _)

theorem pad_append_lt_of_le (hb : b < 10 ^ k) (h : a ≤ b) (hrest : a = b → s < t) :
    pad k a ++ s < pad k b ++ t := by
  rcases Nat.lt_or_eq_of_le h with hlt | heq
  · exact pad_append_lt hb hlt
  · rw [heq]
    exact List.append_left_lt (hrest heq)

end digits

section civil

def eraDays (d : ℕ) : ℕ := d - d / 1460 + d / 36524 - d / 146096

theorem eraDays_add (d : ℕ) : eraDays d + d / 1460 + d / 146096 = d + d / 36524 := by
  have h1 : d / 1460 ≤ d := by omega
  have h2 : d / 146096 ≤ d / 36524 := by omega
  unfold eraDays
  generalize d / 1460 = x at *
  generalize d / 36524 = y at *
  generalize d / 146096 = z at *
  omega

theorem eraDays_mono {a b : ℕ} (h : a < b) (hb : b < 146097) : eraDays a ≤ eraDays b := by
  have ha := eraDays_add a
  have hb' := eraDays_add b
  have h1 : b / 1460 ≤ a / 1460 + (b - a) := by omega
  have h2 : a / 36524 ≤ b / 36524 := by omega
  have h3 : b / 146096 = 0 ∨ b / 36524 = 4 := by omega
  have h4 : a / 36524 ≤ 3 := by omega
  have h5 : b / 146096 ≤ 1 := by omega
  generalize eraDays a = u at *
  generalize eraDays b = v at *
  generalize a / 1460 = x at *
  generalize a / 36524 = y at *
  generalize a / 146096 = z at *
  generalize b / 1460 = x' at *
  generalize b / 36524 = y' at *
  generalize b / 146096 = z' at *
  omega

theorem eraDays_le {d : ℕ} (h : d < 146097) : eraDays d ≤ 145999 := by
  rcases Nat.lt_or_eq_of_le (Nat.le_of_lt_succ h) with hlt | rfl
  · exact eraDays_mono hlt (by norm_num)
  · decide

theorem year_of_eraDays {d y : ℕ} (h : d < 146097) (hlow : 365 * y ≤ eraDays d)
    (hhigh : eraDays d < 365 * y + 365) :
    365 * y + y / 4 - y / 100 ≤ d ∧ d - (365 * y + y / 4 - y / 100) ≤ 365 := by
  have hadd := eraDays_add d
  have h146 : d / 146096 ≤ 1 := by omega
  have hy : y ≤ 399 := by
    have hle := eraDays_le h
    omega
  have hcen : d / 36524 ≤ d / 1460 := by omega
  generalize eraDays d = X at *
  have hw : 25 * (y / 100) ≤ y / 4 := by omega
  constructor
  · by_contra hno
    have hleap : y / 4 ≤ d / 1460 := by 
      have hle : 365 * y ≤ d := by omega
      clear hno hadd hlow hhigh
      omega
    have hcentury : d / 36524 ≤ y / 100 := by
      have hle : d < 365 * y + y / 4 - y / 100 := by omega
      clear hno hadd hlow hhigh hleap
      omega
    clear hw
    generalize d / 36524 = p at *
    generalize d / 1460 = q at *
    generalize d / 146096 = r at *
    generalize y / 4 = s at *
    generalize y / 100 = t at *
    omega
  · by_contra hno
    have hleap : d / 1460 ≤ y / 4 + 1 := by
      have hlt : d < 365 * y + 365 + d / 1460 + 1 := by
        have hle : d / 146096 ≤ d / 36524 := by omega
        omega
      clear hno hadd hlow hhigh
      omega
    have hcentury : y / 100 ≤ d / 36524 := by
      have hge : 365 * y + y / 4 - y / 100 ≤ d := by omega
      clear hno hadd hlow hhigh hleap
      omega
    have hlast : d / 146096 = 0 ∨ d / 36524 = 4 := by omega
    have hless : y / 100 ≤ 3 := by omega
    generalize d / 36524 = p at *
    generalize d / 1460 = q at *
    generalize d / 146096 = r at *
    generalize y / 4 = s at *
    generalize y / 100 = t at *
    omega

/-- The year of an era, and the day of it, where years begin on the first of March. -/
def yearOfEra (d : ℕ) : ℕ := eraDays d / 365

def dayOfYear (d : ℕ) : ℕ :=
  d - (365 * yearOfEra d + yearOfEra d / 4 - yearOfEra d / 100)

theorem yearOfEra_spec {d : ℕ} (h : d < 146097) :
    365 * yearOfEra d + yearOfEra d / 4 - yearOfEra d / 100 ≤ d ∧ dayOfYear d ≤ 365 := by
  refine year_of_eraDays h ?_ ?_
  · exact Nat.mul_div_le _ _
  · have hlt := Nat.lt_mul_div_succ (eraDays d) (by norm_num : 0 < 365)
    rw [Nat.mul_add] at hlt
    exact hlt

theorem yearOfEra_mono {a b : ℕ} (h : a < b) (hb : b < 146097) : yearOfEra a ≤ yearOfEra b :=
  Nat.div_le_div_right (eraDays_mono h hb)

theorem yearOfEra_le {d : ℕ} (h : d < 146097) : yearOfEra d ≤ 399 := by
  have hle := eraDays_le h
  unfold yearOfEra
  omega

def Before (a b : ℤ × ℕ × ℕ) : Prop :=
  a.1 < b.1 ∨ (a.1 = b.1 ∧ (a.2.1 < b.2.1 ∨ (a.2.1 = b.2.1 ∧ a.2.2 < b.2.2)))

def calendar (year : ℤ) (day : ℕ) : ℤ × ℕ × ℕ :=
  let shifted := (5 * day + 2) / 153
  let month := if shifted < 10 then shifted + 3 else shifted - 9
  (if month ≤ 2 then year + 1 else year,month,day - (153 * shifted + 2) / 5 + 1)

def marchYear (days : ℤ) : ℤ :=
  yearOfEra ((days + 719468) % 146097).toNat + (days + 719468) / 146097 * 400

def marchDay (days : ℤ) : ℕ := dayOfYear ((days + 719468) % 146097).toNat

theorem civil_eq (days : ℤ) : civil days = calendar (marchYear days) (marchDay days) := rfl

theorem marchDay_le (days : ℤ) : marchDay days ≤ 365 := (yearOfEra_spec (by omega)).2

theorem march_before {a b : ℤ} (h : a < b) : marchYear a < marchYear b ∨
    (marchYear a = marchYear b ∧ marchDay a < marchDay b) := by
  have hadays : ((a + 719468) % 146097).toNat < 146097 := by omega
  have hbdays : ((b + 719468) % 146097).toNat < 146097 := by omega
  unfold marchYear marchDay
  rcases lt_or_ge ((a + 719468) / 146097) ((b + 719468) / 146097) with hera | hera
  · left
    have hle := yearOfEra_le hadays
    generalize yearOfEra ((a + 719468) % 146097).toNat = y at *
    generalize (a + 719468) / 146097 = e at *
    generalize (b + 719468) / 146097 = e' at *
    omega
  · have hsame : (a + 719468) / 146097 = (b + 719468) / 146097 := by omega
    have hday : ((a + 719468) % 146097).toNat < ((b + 719468) % 146097).toNat := by omega
    have haspec := (yearOfEra_spec hadays).1
    rw [hsame]
    generalize ((a + 719468) % 146097).toNat = c at *
    generalize ((b + 719468) % 146097).toNat = d at *
    rcases Nat.lt_or_eq_of_le (yearOfEra_mono hday hbdays) with hlt | heq
    · left
      omega
    · right
      refine ⟨by rw [heq],?_⟩
      unfold dayOfYear
      rw [heq] at haspec ⊢
      omega

theorem calendar_before {a b : ℤ} {c d : ℕ} (hc : c ≤ 365) (hd : d ≤ 365)
    (h : a < b ∨ (a = b ∧ c < d)) : Before (calendar a c) (calendar b d) := by
  have hlowc : 153 * ((5 * c + 2) / 153) ≤ 5 * c + 2 := by omega
  have hlowd : 153 * ((5 * d + 2) / 153) ≤ 5 * d + 2 := by omega
  have hbc : (5 * c + 2) / 153 ≤ 11 := by omega
  have hbd : (5 * d + 2) / 153 ≤ 11 := by omega
  have hmono : c ≤ d → (5 * c + 2) / 153 ≤ (5 * d + 2) / 153 := by omega
  unfold Before calendar
  generalize (5 * c + 2) / 153 = m at *
  generalize (5 * d + 2) / 153 = n at *
  dsimp only
  rcases h with hlt | ⟨rfl,hlt⟩
  · split_ifs <;> omega
  · rcases Nat.lt_or_eq_of_le (hmono hlt.le) with hmn | rfl
    · split_ifs <;> omega
    · right
      refine ⟨rfl,Or.inr ⟨rfl,?_⟩⟩
      omega

theorem civil_bounds (days : ℤ) : (civil days).2.1 < 100 ∧ (civil days).2.2 < 100 := by
  have hday := marchDay_le days
  rw [civil_eq]
  unfold calendar
  dsimp only
  constructor
  · split <;> omega
  · omega

theorem civil_before {a b : ℤ} (h : a < b) : Before (civil a) (civil b) :=
  calendar_before (marchDay_le a) (marchDay_le b) (march_before h)

end civil

section texts

variable {a b : ℤ}

def yearOf (ms : ℤ) : ℤ := (civil (ms / 86400000)).1

theorem yearOf_mono (h : a ≤ b) : yearOf a ≤ yearOf b := by
  rcases (Int.ediv_le_ediv (by norm_num : (0 : ℤ) < 86400000) h).eq_or_lt with heq | hlt
  · unfold yearOf
    rw [heq]
  · rcases civil_before hlt with hyear | ⟨hyear,_⟩
    · exact hyear.le
    · exact hyear.le

theorem yearText_of_neg {year : ℤ} (h : year < 0) : yearText year = '-' :: pad 6 year.natAbs :=
  if_pos h

theorem yearText_of_four {year : ℤ} (h : 0 ≤ year) (h' : year ≤ 9999) :
    yearText year = pad 4 year.natAbs := by
  unfold yearText
  rw [if_neg (by omega),if_neg (by omega)]

theorem minus_lt_pad {k n : ℕ} {s t : Text} : '-' :: s < pad (k + 1) n ++ t := by
  induction k generalizing n t with
  | zero =>
    have hall : ∀ i : Fin 10, '-' < "0123456789".toList.getD i '0' := by decide +kernel
    exact List.cons_lt_cons_iff.mpr (Or.inl (hall ⟨n % 10,Nat.mod_lt _ (by norm_num)⟩))
  | succ k ih =>
    rw [pad,List.append_assoc]
    exact ih

theorem timeText_lt {s t : ℕ} (h : s < t) (ht : t < 86400000) :
    pad 2 (s / 3600000) ++ ':' :: pad 2 (s / 60000 % 60) ++
        ':' :: pad 2 (s / 1000 % 60) ++ '.' :: pad 3 (s % 1000) ++ ['Z'] <
      pad 2 (t / 3600000) ++ ':' :: pad 2 (t / 60000 % 60) ++
        ':' :: pad 2 (t / 1000 % 60) ++ '.' :: pad 3 (t % 1000) ++ ['Z'] := by
  simp only [List.append_assoc,List.cons_append]
  refine pad_append_lt_of_le (by omega) (by omega) fun hhour => ?_
  refine List.cons_lt_cons_iff.mpr (Or.inr ⟨rfl,?_⟩)
  refine pad_append_lt_of_le (by omega) (by omega) fun hminute => ?_
  refine List.cons_lt_cons_iff.mpr (Or.inr ⟨rfl,?_⟩)
  refine pad_append_lt_of_le (by omega) (by omega) fun hsecond => ?_
  refine List.cons_lt_cons_iff.mpr (Or.inr ⟨rfl,?_⟩)
  exact pad_append_lt (by omega) (by omega)

theorem toISOString_lt (h : a < b) (hyear : 0 ≤ yearOf b) (hyear' : yearOf b ≤ 9999) :
    toISOString a < toISOString b := by
  have hmono := yearOf_mono h.le
  unfold toISOString
  simp only [List.append_assoc,List.cons_append]
  change yearText (yearOf a) ++ _ < yearText (yearOf b) ++ _
  rw [yearText_of_four hyear hyear']
  rcases lt_or_ge (yearOf a) 0 with hneg | hpos
  · rw [yearText_of_neg hneg]
    exact minus_lt_pad
  · have hbounds := civil_bounds (b / 86400000)
    rw [yearText_of_four hpos (hmono.trans hyear')]
    unfold yearOf at *
    have hdays : a / 86400000 ≤ b / 86400000 := Int.ediv_le_ediv (by norm_num) h.le
    rcases hdays.lt_or_eq with hlt | heq
    · have hbefore := civil_before hlt
      unfold Before at hbefore
      refine pad_append_lt_of_le (by omega) (by omega) fun hsame => ?_
      refine List.cons_lt_cons_iff.mpr (Or.inr ⟨rfl,?_⟩)
      refine pad_append_lt_of_le (by omega) (by omega) fun hmonth => ?_
      refine List.cons_lt_cons_iff.mpr (Or.inr ⟨rfl,?_⟩)
      exact pad_append_lt (by omega) (by omega)
    · rw [heq]
      refine List.append_left_lt (List.cons_lt_cons_iff.mpr (Or.inr ⟨rfl,?_⟩))
      refine List.append_left_lt (List.cons_lt_cons_iff.mpr (Or.inr ⟨rfl,?_⟩))
      refine List.append_left_lt (List.cons_lt_cons_iff.mpr (Or.inr ⟨rfl,?_⟩))
      have htime := timeText_lt (s := (a % 86400000).toNat) (t := (b % 86400000).toNat)
        (by omega) (by omega)
      simp only [List.append_assoc,List.cons_append] at htime
      exact htime

/-- Where the year of a date has four digits, its text compares with another one of the kind, or
with an earlier one, as the times do. -/
theorem toISOString_lt_iff (ha : 0 ≤ yearOf a) (ha' : yearOf a ≤ 9999) (hb : yearOf b ≤ 9999) :
    (toISOString b < toISOString a ↔ b < a) ∧ (toISOString a < toISOString b ↔ a < b) := by
  have hless : a < b → toISOString a < toISOString b := fun h =>
    toISOString_lt h (ha.trans (yearOf_mono h.le)) hb
  have hmore : b < a → toISOString b < toISOString a := fun h => toISOString_lt h ha ha'
  refine ⟨⟨fun h => ?_,hmore⟩,⟨fun h => ?_,hless⟩⟩
  · by_contra hno
    rcases (not_lt.mp hno).eq_or_lt with heq | hlt
    · rw [heq] at h
      exact lt_irrefl _ h
    · exact lt_asymm h (hless hlt)
  · by_contra hno
    rcases (not_lt.mp hno).eq_or_lt with heq | hlt
    · rw [heq] at h
      exact lt_irrefl _ h
    · exact lt_asymm h (hmore hlt)

def afterYear (ms : ℤ) : Text :=
  '-' :: (pad 2 (civil (ms / 86400000)).2.1 ++ '-' :: (pad 2 (civil (ms / 86400000)).2.2 ++
    'T' :: (pad 2 ((ms % 86400000).toNat / 3600000) ++
      ':' :: (pad 2 ((ms % 86400000).toNat / 60000 % 60) ++
        ':' :: (pad 2 ((ms % 86400000).toNat / 1000 % 60) ++
          '.' :: (pad 3 ((ms % 86400000).toNat % 1000) ++ ['Z']))))))

theorem toISOString_eq (ms : ℤ) : toISOString ms = yearText (yearOf ms) ++ afterYear ms := by
  unfold toISOString afterYear yearOf
  simp only [List.append_assoc,List.cons_append]

theorem length_afterYear (ms : ℤ) : (afterYear ms).length = 20 := by
  simp [afterYear,length_pad]

theorem pad_append_inj {k m n : ℕ} {c : Char} {s t : Text} (hm : m < 10 ^ k) (hn : n < 10 ^ k)
    (h : c :: (pad k m ++ s) = c :: (pad k n ++ t)) : m = n ∧ s = t := by
  obtain ⟨hpad,hrest⟩ := List.append_inj (List.cons.inj h).2 (by rw [length_pad,length_pad])
  exact ⟨pad_inj hm hn hpad,hrest⟩

theorem afterYear_inj (h : afterYear a = afterYear b) :
    (civil (a / 86400000)).2 = (civil (b / 86400000)).2 ∧ a % 86400000 = b % 86400000 := by
  have ha := civil_bounds (a / 86400000)
  have hb := civil_bounds (b / 86400000)
  obtain ⟨hmonth,h⟩ := pad_append_inj (by omega) (by omega) h
  obtain ⟨hday,h⟩ := pad_append_inj (by omega) (by omega) h
  obtain ⟨hhour,h⟩ := pad_append_inj (by omega) (by omega) h
  obtain ⟨hminute,h⟩ := pad_append_inj (by omega) (by omega) h
  obtain ⟨hsecond,h⟩ := pad_append_inj (by omega) (by omega) h
  obtain ⟨hms,_⟩ := pad_append_inj (by omega) (by omega) h
  exact ⟨Prod.ext hmonth hday,by omega⟩

theorem yearText_inj {y z : ℤ} (hy : y.natAbs < 10 ^ 6) (hz : z.natAbs < 10 ^ 6)
    (h : yearText y = yearText z) : y = z := by
  have hlength := congrArg List.length h
  have hhead := congrArg List.head? h
  unfold yearText at h hlength hhead
  split_ifs at h hlength hhead
  · have heq := pad_inj hy hz (List.cons.inj h).2
    omega
  · simp at hhead
  · simp [length_pad] at hlength
  · simp at hhead
  · have heq := pad_inj hy hz (List.cons.inj h).2
    omega
  · simp [length_pad] at hlength
  · simp [length_pad] at hlength
  · simp [length_pad] at hlength
  · have heq := pad_inj (by omega) (by omega) h
    omega

theorem toISOString_inj (ha : (yearOf a).natAbs < 10 ^ 6) (hb : (yearOf b).natAbs < 10 ^ 6)
    (h : toISOString a = toISOString b) : a = b := by
  rw [toISOString_eq,toISOString_eq] at h
  obtain ⟨hyear,hafter⟩ := List.append_inj' h (by rw [length_afterYear,length_afterYear])
  obtain ⟨hdate,htime⟩ := afterYear_inj hafter
  have hsame : civil (a / 86400000) = civil (b / 86400000) :=
    Prod.ext (yearText_inj ha hb hyear) hdate
  have hirrefl : ∀ x, ¬Before x x := by
    unfold Before
    intro x hx
    omega
  have hdays : a / 86400000 = b / 86400000 := by
    rcases lt_trichotomy (a / 86400000) (b / 86400000) with hlt | heq | hgt
    · have hbefore := civil_before hlt
      rw [hsame] at hbefore
      exact (hirrefl _ hbefore).elim
    · exact heq
    · have hbefore := civil_before hgt
      rw [hsame] at hbefore
      exact (hirrefl _ hbefore).elim
  omega

end texts

section range

def InRange (ms : ℤ) : Prop := -8640000000000000 ≤ ms ∧ ms ≤ 8640000000000000

instance (ms : ℤ) : Decidable (InRange ms) := inferInstanceAs (Decidable (_ ∧ _))

/-- The result of `toISOString` is none where it throws. -/
def isoText (ms : ℤ) : Option Text := if InRange ms then some (toISOString ms) else none

theorem isoText_some {ms : ℤ} {text : Text} (h : isoText ms = some text) :
    InRange ms ∧ text = toISOString ms := by
  unfold isoText at h
  split at h
  · rename_i hrange
    exact ⟨hrange,(Option.some.inj h).symm⟩
  · cases h

theorem yearOf_inRange {ms : ℤ} (h : InRange ms) : (yearOf ms).natAbs < 10 ^ 6 := by
  have hlow := yearOf_mono h.1
  have hhigh := yearOf_mono h.2
  have hfirst : yearOf (-8640000000000000) = -271821 := by decide +kernel
  have hlast : yearOf 8640000000000000 = 275760 := by decide +kernel
  omega

end range

end Yurucommu.IsoDates
