import Yurucommu.DeclarativePush
import Yurucommu.Utf16Cuts

/-!
Every limit but NaN ends the loop: a message that fits, on the app's origin, or none where not even
the first code point of the title fits.
-/

set_option autoImplicit false

namespace Yurucommu.DeclarativePush

open JsonText (Units commas quoted stringify)
open JsString (units)
open StoryProjection (isSpace)
open Utf16 (isLeading isTrailing utf8)

section numbers

variable {n removed : ℕ} {m : ℚ} {x : Number}

theorem two_le_unit (h : 2 ≤ m) : -51 ≤ Binary64.unit m := by
  have hlog : 1 ≤ Int.log 2 m := by
    rw [← Int.zpow_le_iff_le_log (by norm_num) (by linarith)]
    norm_num
    exact h
  unfold Binary64.unit
  omega

theorem double_gap (hn : 3 ≤ n) (hm : Binary64.round |m| = |m|) (hlt : m < n) :
    (2 : ℚ) ^ (-51 : ℤ) ≤ n - m := by
  have hthree : (3 : ℚ) ≤ n := by exact_mod_cast hn
  rcases lt_or_ge m 2 with hsmall | hlarge
  · have hone : (2 : ℚ) ^ (-51 : ℤ) ≤ 1 := by norm_num
    linarith
  · rw [abs_of_nonneg (by linarith)] at hm
    obtain ⟨j,hj⟩ : ∃ j : ℕ, Binary64.unit m = -51 + j :=
      ⟨(Binary64.unit m + 51).toNat,by have := two_le_unit hlarge; omega⟩
    obtain ⟨i,hi⟩ : ∃ i : ℤ, m = i * (2 : ℚ) ^ Binary64.unit m := ⟨_,hm.symm⟩
    obtain ⟨k,hk⟩ : ∃ k : ℤ, m = k * (2 : ℚ) ^ (-51 : ℤ) := by
      refine ⟨i * 2 ^ j,?_⟩
      rw [hj,zpow_add₀ (by norm_num),zpow_natCast] at hi
      rw [hi]
      push_cast
      ring
    have hpos : (0 : ℚ) < 2 ^ (-51 : ℤ) := Binary64.two_zpow_pos _
    have hsplit : (n : ℚ) - m = ((n * 2 ^ 51 - k : ℤ) : ℚ) * 2 ^ (-51 : ℤ) := by
      rw [hk]
      push_cast
      norm_num
      ring
    have hone : (1 : ℤ) ≤ n * 2 ^ 51 - k := by
      have hgt : (0 : ℚ) < ((n * 2 ^ 51 - k : ℤ) : ℚ) * 2 ^ (-51 : ℤ) := by
        rw [← hsplit]
        linarith
      have hint := pos_of_mul_pos_left hgt hpos.le
      exact_mod_cast hint
    rw [hsplit]
    exact le_mul_of_one_le_left hpos.le (by exact_mod_cast hone)

theorem above_of_over (hx : x.IsDouble) (hnan : x ≠ .nan) (hn : 3 ≤ n) (hover : x.atLeast n = false)
    (hremoved : removed ≤ 3) : ((x.under n).plus 3).above removed = true := by
  cases x with
  | nan => exact absurd rfl hnan
  | infinite negative =>
    cases negative with
    | true => rfl
    | false => cases hover
  | finite m =>
    have hlt : m < n := by
      simpa [Number.atLeast] using hover
    have hgap := double_gap hn hx hlt
    have hpos : (0 : ℚ) < 2 ^ (-51 : ℤ) := Binary64.two_zpow_pos _
    have hstep : Binary64.round ((2 : ℚ) ^ (-51 : ℤ)) = 2 ^ (-51 : ℤ) :=
      @Binary64.round_natCast_mul _ 1 (-51) (by norm_num) (by norm_num) (by simp)
    have hsum : Binary64.round ((2 : ℚ) ^ (-51 : ℤ) + 3) = 2 ^ (-51 : ℤ) + 3 :=
      @Binary64.round_natCast_mul _ (3 * 2 ^ 51 + 1) (-51) (by norm_num) (by norm_num)
        (by norm_num)
    have hunder := Binary64.round_mono hpos.le hgap
    rw [hstep] at hunder
    have hplus : (2 : ℚ) ^ (-51 : ℤ) + 3 ≤ Binary64.round (n - m) + 3 := by linarith
    have hround := Binary64.round_mono (by linarith) hplus
    rw [hsum] at hround
    have hthree : (removed : ℚ) ≤ 3 := by exact_mod_cast hremoved
    simp only [Number.under,Number.plus,Number.above,decide_eq_true_eq]
    push_cast
    linarith

end numbers

section codePoints

variable {s t : Units} {ps : List Units}

theorem flatten_codePoints (t : Units) : (codePoints t).flatten = t := by
  induction t using codePoints.induct with
  | case1 u v rest hpair ih => rw [codePoints,if_pos hpair,List.flatten_cons,ih]; rfl
  | case2 u v rest hno ih => rw [codePoints,if_neg hno,List.flatten_cons,ih]; rfl
  | case3 u => rfl
  | case4 => rfl

theorem codePoints_append (ht : ∀ v ∈ t.head?, isTrailing v = false) :
    codePoints (s ++ t) = codePoints s ++ codePoints t := by
  induction s using codePoints.induct with
  | case1 u v rest hpair ih =>
    rw [List.cons_append,List.cons_append,codePoints,if_pos hpair,ih,codePoints,if_pos hpair]
    rfl
  | case2 u v rest hno ih =>
    rw [List.cons_append] at ih
    rw [List.cons_append,List.cons_append,codePoints,if_neg hno,ih,codePoints,if_neg hno]
    rfl
  | case3 u =>
    cases t with
    | nil => rfl
    | cons v t =>
      have hno : ¬(isLeading u = true ∧ isTrailing v = true) := fun h => by
        rw [ht v rfl] at h
        cases h.2
      rw [List.singleton_append,codePoints,if_neg hno]
      rfl
  | case4 => rfl

theorem codePoints_flatten (h : ps <+: codePoints t) : codePoints ps.flatten = ps := by
  induction t using codePoints.induct generalizing ps with
  | case1 u v rest hpair ih =>
    rw [codePoints,if_pos hpair] at h
    cases ps with
    | nil => rfl
    | cons p ps =>
      obtain ⟨rfl,hps⟩ := List.cons_prefix_cons.1 h
      rw [List.flatten_cons,List.cons_append,List.cons_append,List.nil_append,codePoints,
        if_pos hpair,ih hps]
  | case2 u v rest hno ih =>
    rw [codePoints,if_neg hno] at h
    cases ps with
    | nil => rfl
    | cons p ps =>
      obtain ⟨rfl,hps⟩ := List.cons_prefix_cons.1 h
      have hrest := ih hps
      have hflat : ps.flatten <+: v :: rest := by
        obtain ⟨qs,hqs⟩ := hps
        refine ⟨qs.flatten,?_⟩
        rw [← List.flatten_append,hqs,flatten_codePoints]
      rw [List.flatten_cons,List.singleton_append]
      cases hw : ps.flatten with
      | nil =>
        rw [hw] at hrest
        rw [← hrest]
        rfl
      | cons w r =>
        rw [hw] at hflat hrest
        obtain ⟨rfl,_⟩ := List.cons_prefix_cons.1 hflat
        rw [codePoints,if_neg hno,hrest]
  | case3 u =>
    obtain rfl | rfl : ps = [] ∨ ps = [[u]] := by
      rw [codePoints] at h
      simpa [List.prefix_cons_iff] using h
    · rfl
    · rfl
  | case4 =>
    rw [codePoints,List.prefix_nil] at h
    rw [h]
    rfl

theorem codePoints_ne_nil (ht : t ≠ []) : codePoints t ≠ [] := by
  intro hnil
  have hflat := flatten_codePoints t
  rw [hnil] at hflat
  exact ht hflat.symm

theorem codePoints_firstPoint (ht : t ≠ []) : codePoints (firstPoint t) = [firstPoint t] := by
  cases hps : codePoints t with
  | nil => exact absurd hps (codePoints_ne_nil ht)
  | cons p ps =>
    have hone : [p] <+: codePoints t := hps ▸ ⟨ps,rfl⟩
    have hp := codePoints_flatten hone
    rw [List.flatten_singleton] at hp
    rw [firstPoint,hps]
    exact hp

theorem not_trailing_of_isSpace {u : ℕ} (h : isSpace u = true) : isTrailing u = false := by
  simp only [isSpace,Bool.or_eq_true,decide_eq_true_eq,Bool.and_eq_true,List.mem_cons,
    List.not_mem_nil,or_false] at h
  simp only [isTrailing,Bool.and_eq_false_iff,decide_eq_false_iff_not]
  omega

theorem codePoints_rdropWhile (t : Units) :
    codePoints (t.rdropWhile isSpace) <+: codePoints t := by
  have hsplit := List.rdropWhile_append_rtakeWhile (p := isSpace) (l := t)
  conv_rhs => rw [← hsplit]
  rw [codePoints_append fun v hv =>
    not_trailing_of_isSpace (List.mem_rtakeWhile_imp (List.mem_of_mem_head? hv))]
  exact List.prefix_append _ _

end codePoints

section shorten

variable {value text t out : Units} {e : Number} {removed bound : ℕ} {ps : List Units}

def weigh (ps : List Units) : ℕ := (ps.map fun p => (utf8 p).length).sum

theorem weigh_append (ps qs : List Units) : weigh (ps ++ qs) = weigh ps + weigh qs := by
  simp [weigh]

theorem weigh_reverse (ps : List Units) : weigh ps.reverse = weigh ps := by
  simp [weigh,List.sum_reverse]

theorem weigh_le_of_prefix {qs : List Units} (h : ps <+: qs) : weigh ps ≤ weigh qs := by
  obtain ⟨rest,rfl⟩ := h
  rw [weigh_append]
  exact Nat.le_add_right _ _

theorem pop_spec (e : Number) (removed : ℕ) (ps : List Units) :
    ∃ popped, ps = popped ++ pop e removed ps ∧
      (pop e removed ps ≠ [] → (e.plus 3).above (removed + weigh popped) = false) := by
  induction ps generalizing removed with
  | nil => exact ⟨[],rfl,fun h => absurd rfl h⟩
  | cons p ps ih =>
    rw [pop]
    cases hmore : (e.plus 3).above removed with
    | true =>
      obtain ⟨popped,hps,henough⟩ := ih (removed + (utf8 p).length)
      refine ⟨p :: popped,?_,fun hne => ?_⟩
      · rw [if_pos rfl,List.cons_append,← hps]
      · have hweigh : removed + weigh (p :: popped) = removed + (utf8 p).length + weigh popped := by
          simp [weigh,Nat.add_assoc]
        rw [hweigh]
        exact henough hne
    | false => exact ⟨[],rfl,fun _ => hmore⟩

theorem shorten_some (bound : Nat) (h : shorten value e = some out) :
    ∃ kept, kept ≠ [] ∧ codePoints kept <+: codePoints value ∧ out = kept ++ ellipsis ∧
      ((∀ r ≤ bound, (e.plus 3).above r = true) →
        weigh (codePoints kept) + bound < weigh (codePoints value)) := by
  unfold shorten at h
  obtain ⟨popped,hpopped,henough⟩ := pop_spec e 0 (codePoints value).reverse
  generalize pop e 0 (codePoints value).reverse = left at h hpopped henough
  have hvalue : codePoints value = left.reverse ++ popped.reverse := by
    rw [← List.reverse_append,← hpopped,List.reverse_reverse]
  have hleft : codePoints left.reverse.flatten = left.reverse :=
    codePoints_flatten (t := value) (hvalue ▸ List.prefix_append _ _)
  have hkept := codePoints_rdropWhile left.reverse.flatten
  rw [hleft] at hkept
  simp only at h
  split at h
  · cases h
  · rename_i hne
    refine ⟨_,hne,hkept.trans (hvalue ▸ List.prefix_append _ _),(Option.some.inj h).symm,
      fun hbound => ?_⟩
    have hleftne : left ≠ [] := by
      rintro rfl
      exact hne rfl
    have hweigh := weigh_le_of_prefix hkept
    have hpoppedgt : bound < weigh popped := by
      by_contra hle
      have habove := hbound (weigh popped) (by omega)
      have hnot := henough hleftne
      rw [Nat.zero_add,habove] at hnot
      cases hnot
    rw [hvalue,weigh_append,weigh_reverse popped]
    omega

def Cut (text out : Units) : Prop :=
  ∃ kept, kept ≠ [] ∧ codePoints kept <+: codePoints text ∧ out = kept ++ ellipsis

theorem codePoints_ellipsis (kept : Units) :
    codePoints (kept ++ ellipsis) = codePoints kept ++ [ellipsis] :=
  codePoints_append fun v hv => by
    obtain rfl := Option.some.inj hv
    rfl

theorem weigh_ellipsis (kept : Units) :
    weigh (codePoints (kept ++ ellipsis)) = weigh (codePoints kept) + 3 := by
  rw [codePoints_ellipsis,weigh_append]
  rfl

theorem Cut.shorten (h : t = text ∨ Cut text t) (hout : shorten t e = some out)
    (hmore : ∀ r ≤ 3, (e.plus 3).above r = true) :
    Cut text out ∧ weigh (codePoints out) < weigh (codePoints t) := by
  obtain ⟨kept,hne,hkept,rfl,hbound⟩ := shorten_some 3 hout
  have hlt := hbound hmore
  refine ⟨⟨kept,hne,?_,rfl⟩,?_⟩
  · obtain rfl | ⟨before,_,hbefore,rfl⟩ := h
    · exact hkept
    · rw [codePoints_ellipsis,List.prefix_concat_iff] at hkept
      rw [weigh_ellipsis] at hlt
      obtain hall | hkept := hkept
      · rw [hall,weigh_append] at hlt
        omega
      · exact hkept.trans hbefore
  · rw [weigh_ellipsis]
    exact hlt

end shorten

section loop

variable {limit : Number} {start m : Notification} {body text t out : Units} {n : ℕ}

theorem firstPoint_of_cut (h : Cut text out) : firstPoint out = firstPoint text := by
  obtain ⟨kept,hne,⟨rest,hrest⟩,rfl⟩ := h
  cases hps : codePoints kept with
  | nil => exact absurd hps (codePoints_ne_nil hne)
  | cons p ps => rw [firstPoint,codePoints_ellipsis,firstPoint,← hrest,hps]; rfl

theorem firstPoint_firstPoint (t : Units) : firstPoint (firstPoint t) = firstPoint t := by
  by_cases ht : t = []
  · rw [ht]
    rfl
  · rw [firstPoint,codePoints_firstPoint ht]
    rfl

theorem firstPoint_of_short (h : ¬1 < (codePoints t).length) : firstPoint t = t := by
  have hflat := flatten_codePoints t
  cases hps : codePoints t with
  | nil =>
    rw [hps] at hflat
    rw [firstPoint,hps]
    exact hflat
  | cons p ps =>
    rw [hps] at h hflat
    obtain rfl : ps = [] := List.length_eq_zero_iff.1 (by simp only [List.length_cons] at h; omega)
    rw [List.flatten_singleton] at hflat
    rw [firstPoint,hps]
    exact hflat

theorem length_le_utf8 (t : Units) : t.length ≤ 2 * (utf8 t).length := by
  induction t using Utf16.decode.induct with
  | case1 u v rest hpair ih =>
    have hsize :=
      (Char.ofNat (0x10000 + (u - 0xd800) * 0x400 + (v - 0xdc00))).utf8Size_pos
    rw [utf8] at ih
    rw [utf8,Utf16.decode,if_pos hpair,List.flatMap_cons,List.length_append,
      String.length_utf8EncodeChar,List.length_cons,List.length_cons]
    omega
  | case2 u v rest hno ih =>
    have hsize := (if Utf16.isSurrogate u then '\uFFFD' else Char.ofNat u).utf8Size_pos
    rw [utf8] at ih
    rw [utf8,Utf16.decode,if_neg hno,List.flatMap_cons,List.length_append,
      String.length_utf8EncodeChar,List.length_cons]
    omega
  | case3 u =>
    have hsize := (if Utf16.isSurrogate u then '\uFFFD' else Char.ofNat u).utf8Size_pos
    rw [utf8,Utf16.decode,List.flatMap_singleton,String.length_utf8EncodeChar,List.length_singleton]
    omega
  | case4 => exact Nat.zero_le _

theorem three_le_bytes (m : Notification) : 3 ≤ m.bytes.length := by
  have hunits := length_le_utf8 (stringify integers m.toJson)
  have hlong : 5 ≤ (stringify integers m.toJson).length := by
    simp only [Notification.toJson,stringify,JsonText.stringifyMembers,commas,quoted,
      List.length_append,List.length_cons]
    omega
  unfold Notification.bytes
  omega

/-- Only the title and the body are shortened, and the title only when no body is left. -/
structure Trimmed (start m : Notification) : Prop where
  title : m.title = start.title ∨
    m.body = none ∧ (Cut start.title m.title ∨ m.title = firstPoint start.title)
  body : ∀ b ∈ m.body, ∃ whole ∈ start.body, b = whole ∨ Cut whole b
  others : m.navigate = start.navigate ∧ m.lang = start.lang ∧ m.tag = start.tag ∧
    m.appBadge = start.appBadge

def Notification.barest (m : Notification) : Notification :=
  { m with
    title := firstPoint m.title
    body := none }

def Settled (limit : Number) (start : Notification) : Outcome → Prop
  | .returned m bytes => Trimmed start m ∧ bytes = m.bytes ∧ limit.atLeast bytes.length = true
  | .cannotFit => limit.atLeast start.barest.bytes.length = false
  | .invalidUrl => False

def Settles (limit : Number) (start m : Notification) : Prop :=
  ∃ fuel outcome, (∀ n, fuel ≤ n → fit limit n m = some outcome) ∧ Settled limit start outcome

theorem Trimmed.refl (start : Notification) : Trimmed start start :=
  ⟨.inl rfl,fun b hb => ⟨b,hb,.inl rfl⟩,rfl,rfl,rfl,rfl⟩

theorem Trimmed.firstPoint (h : Trimmed start m) : firstPoint m.title = firstPoint start.title := by
  obtain heq | ⟨_,hcut | heq⟩ := h.title
  · rw [heq]
  · exact firstPoint_of_cut hcut
  · rw [heq,firstPoint_firstPoint]

theorem Trimmed.barest (h : Trimmed start m) (hbody : m.body = none)
    (hshort : ¬1 < (codePoints m.title).length) : m = start.barest := by
  obtain ⟨hnavigate,hlang,htag,hbadge⟩ := h.others
  have htitle : m.title = DeclarativePush.firstPoint start.title :=
    (firstPoint_of_short hshort).symm.trans h.firstPoint
  cases m
  simp only at hnavigate hlang htag hbadge htitle hbody
  rw [hnavigate,hlang,htag,hbadge,htitle,hbody]
  rfl

theorem settles_next {next : Notification}
    (hfit : ∀ n, fit limit (n + 1) m = fit limit n next) (h : Settles limit start next) :
    Settles limit start m := by
  obtain ⟨fuel,outcome,hends,hsettled⟩ := h
  refine ⟨fuel + 1,outcome,fun n hn => ?_,hsettled⟩
  obtain ⟨k,rfl⟩ := Nat.exists_eq_add_of_le' hn
  rw [← Nat.add_assoc,hfit]
  exact hends _ (Nat.le_add_left fuel k)

theorem settles_of_fits (h : Trimmed start m) (hfits : limit.atLeast m.bytes.length = true) :
    Settles limit start m := by
  refine ⟨1,.returned m m.bytes,fun n hn => ?_,h,rfl,hfits⟩
  obtain ⟨k,rfl⟩ := Nat.exists_eq_add_of_le' hn
  rw [fit,if_pos hfits]

theorem more_of_over (hx : limit.IsDouble) (hnan : limit ≠ .nan)
    (hfits : limit.atLeast m.bytes.length = false) :
    ∀ r ≤ 3, ((limit.under m.bytes.length).plus 3).above r = true :=
  fun _ hr => above_of_over hx hnan (three_le_bytes m) hfits hr

theorem settles_of_short (h : Trimmed start m) (hbody : m.body = none)
    (hshort : ¬1 < (codePoints m.title).length) : Settles limit start m := by
  cases hfits : limit.atLeast m.bytes.length with
  | true => exact settles_of_fits h hfits
  | false =>
    refine ⟨1,.cannotFit,fun n hn => ?_,?_⟩
    · obtain ⟨k,rfl⟩ := Nat.exists_eq_add_of_le' hn
      rw [fit,if_neg (by rw [hfits]; exact Bool.false_ne_true),hbody]
      simp only [if_neg hshort]
    · rw [Settled,← h.barest hbody hshort]
      exact hfits

theorem length_codePoints_firstPoint (t : Units) : (codePoints (firstPoint t)).length ≤ 1 := by
  by_cases ht : t = []
  · rw [ht]
    exact Nat.zero_le 1
  · rw [codePoints_firstPoint ht]
    exact Nat.le_refl 1

theorem settles_title (hx : limit.IsDouble) (hnan : limit ≠ .nan) (h : Trimmed start m)
    (hbody : m.body = none) : Settles limit start m := by
  induction hw : weigh (codePoints m.title) using Nat.strong_induction_on generalizing m with
  | _ w ih =>
    by_cases hlong : 1 < (codePoints m.title).length
    · cases hfits : limit.atLeast m.bytes.length with
      | true => exact settles_of_fits h hfits
      | false =>
        have hwas : m.title = start.title ∨ Cut start.title m.title := by
          obtain heq | ⟨_,hcut | hfirst⟩ := h.title
          · exact .inl heq
          · exact .inr hcut
          · have hone := length_codePoints_firstPoint start.title
            rw [hfirst] at hlong
            omega
        have hfit (n : ℕ) : fit limit (n + 1) m = fit limit n { m with
            title :=
              (shorten m.title (limit.under m.bytes.length)).getD (firstPoint m.title) } := by
          rw [fit,if_neg (by rw [hfits]; exact Bool.false_ne_true),hbody]
          simp only [if_pos hlong]
        cases hshorten : shorten m.title (limit.under m.bytes.length) with
        | none =>
          rw [hshorten,Option.getD_none] at hfit
          refine settles_next hfit (settles_of_short
            ⟨.inr ⟨hbody,.inr h.firstPoint⟩,h.body,h.others⟩ hbody ?_)
          exact Nat.not_lt.2 (length_codePoints_firstPoint m.title)
        | some out =>
          rw [hshorten,Option.getD_some] at hfit
          obtain ⟨hcut,hlt⟩ := Cut.shorten hwas hshorten (more_of_over hx hnan hfits)
          have hnext : Trimmed start { m with title := out } :=
            ⟨.inr ⟨hbody,.inl hcut⟩,h.body,h.others⟩
          exact settles_next hfit (ih _ (hw ▸ hlt) hnext hbody rfl)
    · exact settles_of_short h hbody hlong

theorem settles_body (hx : limit.IsDouble) (hnan : limit ≠ .nan) (h : Trimmed start m)
    (hbody : m.body = some body) : Settles limit start m := by
  induction hw : weigh (codePoints body) using Nat.strong_induction_on generalizing m body with
  | _ w ih =>
    cases hfits : limit.atLeast m.bytes.length with
    | true => exact settles_of_fits h hfits
    | false =>
      have htitle : m.title = start.title := by
        obtain heq | ⟨hnone,_⟩ := h.title
        · exact heq
        · rw [hbody] at hnone
          cases hnone
      have hfit (n : ℕ) : fit limit (n + 1) m = fit limit n { m with
          body := shorten body (limit.under m.bytes.length) } := by
        rw [fit,if_neg (by rw [hfits]; exact Bool.false_ne_true),hbody]
      cases hshorten : shorten body (limit.under m.bytes.length) with
      | none =>
        rw [hshorten] at hfit
        exact settles_next hfit
          (settles_title hx hnan ⟨.inl htitle,fun b hb => (by cases hb),h.others⟩ rfl)
      | some out =>
        rw [hshorten] at hfit
        obtain ⟨whole,hwhole,hwas⟩ := h.body body hbody
        obtain ⟨hcut,hlt⟩ := Cut.shorten hwas hshorten (more_of_over hx hnan hfits)
        have hnext : Trimmed start { m with body := some out } := by
          refine ⟨.inl htitle,fun b hb => ?_,h.others⟩
          obtain rfl := Option.some.inj hb
          exact ⟨whole,hwhole,.inr hcut⟩
        exact settles_next hfit (ih _ (hw ▸ hlt) hnext rfl rfl)

theorem settles (hx : limit.IsDouble) (hnan : limit ≠ .nan) (start : Notification) :
    Settles limit start start := by
  cases hbody : start.body with
  | none => exact settles_title hx hnan (.refl start) hbody
  | some body => exact settles_body hx hnan (.refl start) hbody

end loop

section navigation

variable {P : UrlParser} {app : URL} {input base : Units}

def Stays (P : UrlParser) (app : URL) (navigate : Units) : Prop :=
  ∃ url, P.parse navigate none = some url ∧ url.origin = app.origin ∧ url.username = [] ∧
    url.password = [] ∧ (url.protocol = app.protocol ∨ url.protocol = units "blob:")

theorem protocol_of_origin {p q x y : Units} (hp : 47 ∉ p) (hq : 47 ∉ q)
    (h : p ++ units "//" ++ x = q ++ units "//" ++ y) : p = q := by
  have htake {r : Units} (hr : 47 ∉ r) (z : Units) :
      (r ++ units "//" ++ z).takeWhile (· ≠ 47) = r := by
    have hall : ∀ u ∈ r, decide (u ≠ 47) = true := fun u hu =>
      decide_eq_true fun heq => hr (heq ▸ hu)
    rw [List.append_assoc,List.takeWhile_append_of_pos hall]
    exact List.append_nil r
  rw [← htake hp x,h,htake hq y]

theorem http_ne_null {url : URL} {host : Units} (h : url.IsHttp) :
    units "null" ≠ url.protocol ++ units "//" ++ host := by
  intro heq
  obtain hp | hp := h
  · rw [hp] at heq
    cases heq
  · rw [hp] at heq
    cases heq

theorem sameOriginUrl_stays {s : Option Units} (happ : P.parse input s = some app)
    (hhttp : app.IsHttp) (value : Units) : Stays P app (sameOriginUrl P value app.origin) := by
  have hroot : Stays P app (app.origin ++ units "/") := by
    obtain ⟨root,horigin,hprotocol,_,hname,hpassword,_,hparse⟩ := P.root happ hhttp
    exact ⟨root,hparse,horigin,hname,hpassword,.inl hprotocol⟩
  unfold sameOriginUrl
  cases hparse : P.parse value (some (app.origin ++ units "/")) with
  | none => exact hroot
  | some url =>
    simp only
    split
    · rename_i hsame
      refine ⟨url,P.reparse hparse,hsame.1,hsame.2.1,hsame.2.2,?_⟩
      obtain ⟨host,hhost⟩ := P.http_origin happ hhttp
      obtain hnull | hblob | ⟨other,hother⟩ := P.origin hparse
      · rw [hsame.1,hhost] at hnull
        exact absurd hnull.symm (http_ne_null hhttp)
      · exact .inr hblob
      · rw [hsame.1,hhost] at hother
        exact .inl (protocol_of_origin (P.protocol happ) (P.protocol hparse) hother).symm
    · exact hroot

end navigation

section message

variable {P : UrlParser} {app : URL}

theorem isDouble_natCast {n : ℕ} (h : n < 2 ^ 53) : (Number.finite n).IsDouble :=
  @Binary64.round_natCast_mul _ n 0 h (by norm_num) (by simp)

theorem double_limit (input : DeclarativeWebPushInput) : input.limit.IsDouble := by
  unfold DeclarativeWebPushInput.limit
  cases hmax : input.maxBytes with
  | none => exact isDouble_natCast (by norm_num [maxDeclarativeWebPushBytes])
  | some x => exact input.double x hmax

/-- A message of an http or https app always comes to its end, unless the limit is NaN: it fits and
stays on the app, or none does because its least form is too large. -/
theorem message_settles (P : UrlParser) (input : DeclarativeWebPushInput)
    (happ : P.parse input.appOrigin none = some app) (hhttp : app.IsHttp)
    (hnan : input.maxBytes ≠ some .nan) :
    ∃ title, normalizedTitle P input.title app.origin = some title ∧
      ∃ fuel outcome,
        (∀ n, fuel ≤ n → buildDeclarativeWebPushMessage P input n = some outcome) ∧
        Settled input.limit (draft P input app.origin title) outcome ∧
        ∀ m bytes, outcome = .returned m bytes → Stays P app m.navigate := by
  have hlimit : input.limit ≠ .nan := by
    unfold DeclarativeWebPushInput.limit
    cases hmax : input.maxBytes with
    | none => exact Number.noConfusion
    | some x => exact fun hx => hnan (by rw [hmax]; exact congrArg some hx)
  obtain ⟨title,htitle⟩ : ∃ title, normalizedTitle P input.title app.origin = some title := by
    unfold normalizedTitle
    split
    · obtain ⟨root,_,_,_,_,_,hparse,_⟩ := P.root happ hhttp
      exact ⟨root.hostname,by rw [hparse]; rfl⟩
    · exact ⟨_,rfl⟩
  obtain ⟨fuel,outcome,hends,hsettled⟩ :=
    settles (double_limit input) hlimit (draft P input app.origin title)
  refine ⟨title,htitle,fuel,outcome,fun n hn => ?_,hsettled,?_⟩
  · unfold buildDeclarativeWebPushMessage
    simp only [happ,htitle]
    exact hends n hn
  · rintro m bytes rfl
    rw [hsettled.1.others.1]
    exact sameOriginUrl_stays happ hhttp input.navigate

def al : URL where
  href := units "https://al.example/"
  origin := units "https://al.example"
  protocol := units "https:"
  username := []
  password := []
  hostname := units "al.example"

def alParse (input : Units) (base : Option Units) : Option URL :=
  if input = al.origin ∨ input = al.href ∨ (input = units "/" ∧ base = some al.href) then some al
  else none

theorem alParse_some {input : Units} {base : Option Units} {url : URL}
    (h : alParse input base = some url) : al = url :=
  Option.some.inj (Option.ite_none_right_eq_some.1 h).2

def alParser : UrlParser where
  parse := alParse
  reparse h := by
    obtain rfl := alParse_some h
    rfl
  origin h := by
    obtain rfl := alParse_some h
    exact .inr (.inr ⟨units "al.example",rfl⟩)
  http_origin h _ := by
    obtain rfl := alParse_some h
    exact ⟨units "al.example",rfl⟩
  protocol h := by
    obtain rfl := alParse_some h
    decide
  root h _ := by
    obtain rfl := alParse_some h
    exact ⟨al,rfl,rfl,rfl,rfl,rfl,rfl,rfl⟩

/-- The body goes and the title is cut before it fits. -/
def greeting : DeclarativeWebPushInput where
  appOrigin := al.origin
  title := units "Alice asks whether you come"
  navigate := units "/"
  body := some (units "to tea")
  lang := none
  tag := none
  appBadge := none
  maxBytes := some (.finite (100 : ℕ))
  double _ h := Option.some.inj h ▸ isDouble_natCast (by norm_num)

theorem message_settles_greeting :
    ∃ title, normalizedTitle alParser greeting.title al.origin = some title ∧
      ∃ fuel outcome,
        (∀ n, fuel ≤ n → buildDeclarativeWebPushMessage alParser greeting n = some outcome) ∧
        Settled greeting.limit (draft alParser greeting al.origin title) outcome ∧
        ∀ m bytes, outcome = .returned m bytes → Stays alParser al m.navigate :=
  message_settles alParser greeting rfl (.inr rfl) fun h => (by cases h)

end message

end Yurucommu.DeclarativePush
