import Yurucommu.JsonText

/-!
The texts of proper values have no surrogate without its other half, and what a text is parsed to
is proper.
-/

set_option autoImplicit false

namespace JsonText

open Utf16 (IsUnits Paired isLeading isTrailing isSurrogate)

section units

variable {ν : Type} [Zero ν] {F : NumberFormat ν} {v : Json ν} {t : Units} {u : Nat}

theorem paired_escaped (h : u < 0x10000) : Paired (escaped u) := by
  have hhex (n : Nat) : hexDigit (n % 16) < 0xd800 := by
    have hlt := Nat.mod_lt n (show 0 < 16 by decide)
    unfold hexDigit
    split <;> omega
  unfold escaped
  split_ifs with h₁ h₂ h₃ h₄ h₅ h₆ h₇ h₈
  · exact Utf16.paired_of_small (by decide)
  · exact Utf16.paired_of_small (by decide)
  · exact Utf16.paired_of_small (by decide)
  · exact Utf16.paired_of_small (by decide)
  · exact Utf16.paired_of_small (by decide)
  · exact Utf16.paired_of_small (by decide)
  · exact Utf16.paired_of_small (by decide)
  · refine Utf16.paired_of_small fun w hw => ?_
    simp only [unicodeEscape,List.mem_cons,List.not_mem_nil,or_false] at hw
    obtain rfl | rfl | rfl | rfl | rfl | rfl := hw
    · decide
    · decide
    · exact hhex _
    · exact hhex _
    · exact hhex _
    · exact hhex _
  · exact .plain h (Bool.eq_false_iff.mpr fun hu => h₈ (.inr hu)) .nil

theorem paired_escapeAll (h : IsUnits t) : Paired (escapeAll t) := by
  induction t using escapeAll.induct with
  | case1 u v rest hpair ih =>
    rw [escapeAll,if_pos hpair]
    exact .pair hpair.1 hpair.2 (ih fun w hw => h w (by simp [hw]))
  | case2 u v rest hno ih =>
    rw [escapeAll,if_neg hno]
    exact (paired_escaped (h u List.mem_cons_self)).append
      (ih fun w hw => h w (List.mem_cons_of_mem u hw))
  | case3 u => exact paired_escaped (h u List.mem_cons_self)
  | case4 => exact .nil

theorem paired_quoted (h : IsUnits t) : Paired (quoted t) :=
  .plain (by decide) rfl ((paired_escapeAll h).append (.plain (by decide) rfl .nil))

theorem paired_commas {ts : List Units} (h : ∀ t ∈ ts, Paired t) : Paired (commas ts) := by
  induction ts with
  | nil => exact .nil
  | cons t ts ih =>
    cases ts with
    | nil => exact h t List.mem_cons_self
    | cons t' ts =>
      rw [commas_cons_cons]
      exact (h t List.mem_cons_self).append
        (.plain (by decide) rfl (ih fun t ht => h t (List.mem_cons_of_mem _ ht)))

theorem paired_stringify (h : Proper v) : Paired (stringify F v) := by
  have hclosed {first last : Nat} {ts : List Units} (hfirst : first < 0xd800)
      (hlast : last < 0xd800) (hts : ∀ t ∈ ts, Paired t) :
      Paired (first :: commas ts ++ [last]) := by
    have hends : ∀ u < 0xd800, Paired [u] := fun u hu =>
      Utf16.paired_of_small fun w hw => List.mem_singleton.mp hw ▸ hu
    exact ((hends first hfirst).append (paired_commas hts)).append (hends last hlast)
  have hfinite (x : ν) : Paired (F.text x) := by
    refine Utf16.paired_of_small fun u hu => ?_
    have hnumeral := F.text_numeral x u hu
    simp only [isNumeral,Bool.or_eq_true,Bool.and_eq_true,decide_eq_true_eq] at hnumeral
    omega
  have hnull : Paired nullText := Utf16.paired_of_small (by decide)
  have htrue : Paired trueText := Utf16.paired_of_small (by decide)
  have hfalse : Paired falseText := Utf16.paired_of_small (by decide)
  induction h with
  | null => exact hnull
  | bool value =>
    cases value with
    | true => exact htrue
    | false => exact hfalse
  | number value =>
    cases value with
    | finite x => exact hfinite x
    | minusZero => exact hfinite 0
    | infinite => exact hnull
  | string units => exact paired_quoted units
  | array _ ih =>
    rw [stringify,stringifyAll_eq]
    refine hclosed (by decide) (by decide) fun t ht => ?_
    obtain ⟨e,he,rfl⟩ := List.mem_map.mp ht
    exact ih e he
  | object _ units _ ih =>
    rw [stringify,stringifyMembers_eq]
    refine hclosed (by decide) (by decide) fun t ht => ?_
    obtain ⟨m,hm,rfl⟩ := List.mem_map.mp ht
    exact (paired_quoted (units m hm)).append (.plain (by decide) rfl (ih m hm))

end units

section accepted

variable {α ν : Type} {F : NumberFormat ν} {v : Json ν} {n close : Nat} {s t rest : Units}
  {key other : Units} {item : Units → Option (α × Units)} {members : List (Units × α)}

theorem isUnits_skipSpace (h : IsUnits t) : IsUnits (skipSpace t) :=
  fun u hu => h u (List.dropWhile_subset _ hu)

theorem prepend_some {u : Nat} {read : Option (Units × Units)}
    (h : prepend u read = some (s,rest)) :
    ∃ s', s = u :: s' ∧ read = some (s',rest) := by
  obtain ⟨⟨s',rest'⟩,hread,hcons⟩ := Option.map_eq_some_iff.mp h
  cases hcons
  exact ⟨s',rfl,hread⟩

theorem hexUnit_lt {a b c d u : Nat} (h : hexUnit a b c d = some u) : u < 0x10000 := by
  have hvalue {w x : Nat} (hw : hexValue w = some x) : x < 16 := by
    unfold hexValue at hw
    split_ifs at hw <;> cases hw <;> omega
  simp only [hexUnit,Option.bind_eq_some_iff,Option.map_eq_some_iff] at h
  obtain ⟨a,ha,b,hb,c,hc,d,hd,rfl⟩ := h
  have h₁ := hvalue ha
  have h₂ := hvalue hb
  have h₃ := hvalue hc
  have h₄ := hvalue hd
  omega

theorem unescape_lt {u w : Nat} (h : unescape u = some w) : w < 0x10000 := by
  unfold unescape at h
  split_ifs at h <;> cases h <;> omega

theorem parseString_units (ht : IsUnits t) (h : parseString t = some (s,rest)) :
    IsUnits s ∧ IsUnits rest := by
  have hcons {u : Nat} {s : Units} (hu : u < 0x10000) (hs : IsUnits s) : IsUnits (u :: s) :=
    List.forall_mem_cons.mpr ⟨hu,hs⟩
  induction t using parseString.induct generalizing s with
  | case1 => cases h
  | case2 rest =>
    cases h
    exact ⟨fun _ hu => absurd hu List.not_mem_nil,fun u hu => ht u (List.mem_cons_of_mem _ hu)⟩
  | case3 a b c d t ih =>
    rw [parseString] at h
    obtain ⟨u,hu,h⟩ := Option.bind_eq_some_iff.mp h
    obtain ⟨s,rfl,hread⟩ := prepend_some h
    obtain ⟨hs,hrest⟩ := ih (fun w hw => ht w (by simp [hw])) hread
    exact ⟨hcons (hexUnit_lt hu) hs,hrest⟩
  | case4 u t hno ih =>
    rw [parseString.eq_4 _ _ hno] at h
    obtain ⟨w,hw,h⟩ := Option.bind_eq_some_iff.mp h
    obtain ⟨s,rfl,hread⟩ := prepend_some h
    obtain ⟨hs,hrest⟩ := ih (fun w hw => ht w (by simp [hw])) hread
    exact ⟨hcons (unescape_lt hw) hs,hrest⟩
  | case5 u t _ _ _ hbad =>
    rw [parseString.eq_def] at h
    simp_all
  | case6 u t _ _ _ hplain ih =>
    rw [parseString_plain (by omega) (by assumption) (by omega)] at h
    obtain ⟨s,rfl,hread⟩ := prepend_some h
    obtain ⟨hs,hrest⟩ := ih (fun w hw => ht w (List.mem_cons_of_mem _ hw)) hread
    exact ⟨hcons (ht u List.mem_cons_self) hs,hrest⟩

theorem parseItems_all {P : α → Prop} {xs : List α}
    (hitem : ∀ t x rest, IsUnits t → item t = some (x,rest) → P x ∧ IsUnits rest)
    (ht : IsUnits t) (h : parseItems close item n t = some (xs,rest)) :
    (∀ x ∈ xs, P x) ∧ IsUnits rest := by
  induction n generalizing t xs with
  | zero => cases h
  | succ n ih =>
    rw [parseItems] at h
    obtain ⟨⟨x,behind⟩,hx,h⟩ := Option.bind_eq_some_iff.mp h
    obtain ⟨hp,hbehind⟩ := hitem t x behind ht hx
    have hspace := isUnits_skipSpace hbehind
    split at h
    · cases h
    · rename_i u tail htail
      simp only at htail
      rw [htail] at hspace
      have htail : IsUnits tail := fun w hw => hspace w (List.mem_cons_of_mem u hw)
      split at h
      · cases h
        exact ⟨fun y hy => List.mem_singleton.mp hy ▸ hp,htail⟩
      · split at h
        · obtain ⟨⟨ys,last⟩,hys,h⟩ := Option.map_eq_some_iff.mp h
          cases h
          obtain ⟨hall,hrest⟩ := ih htail hys
          exact ⟨List.forall_mem_cons.mpr ⟨hp,hall⟩,hrest⟩
        · cases h

theorem parseSequence_all {P : α → Prop} {xs : List α}
    (hitem : ∀ t x rest, IsUnits t → item t = some (x,rest) → P x ∧ IsUnits rest)
    (ht : IsUnits t) (h : parseSequence close item n t = some (xs,rest)) :
    (∀ x ∈ xs, P x) ∧ IsUnits rest := by
  have hspace := isUnits_skipSpace ht
  unfold parseSequence at h
  split at h
  · cases h
  · rename_i u tail htail
    rw [htail] at hspace
    split at h
    · cases h
      exact ⟨fun _ hx => absurd hx List.not_mem_nil,
        fun w hw => hspace w (List.mem_cons_of_mem u hw)⟩
    · exact parseItems_all hitem ht h

theorem parseMember_all {P : α → Prop} {m : Units × α}
    (hitem : ∀ t x rest, IsUnits t → item t = some (x,rest) → P x ∧ IsUnits rest)
    (ht : IsUnits t) (h : parseMember item t = some (m,rest)) :
    (IsUnits m.1 ∧ P m.2) ∧ IsUnits rest := by
  have hspace := isUnits_skipSpace ht
  unfold parseMember at h
  split at h
  · rename_i tail htail
    rw [htail] at hspace
    obtain ⟨⟨key,behind⟩,hkey,h⟩ := Option.bind_eq_some_iff.mp h
    obtain ⟨hunits,hbehind⟩ :=
      parseString_units (fun w hw => hspace w (List.mem_cons_of_mem _ hw)) hkey
    have hcolon := isUnits_skipSpace hbehind
    split at h
    · rename_i tail htail
      simp only at htail
      rw [htail] at hcolon
      obtain ⟨⟨x,last⟩,hx,h⟩ := Option.map_eq_some_iff.mp h
      cases h
      obtain ⟨hp,hrest⟩ := hitem _ x last (fun w hw => hcolon w (List.mem_cons_of_mem _ hw)) hx
      exact ⟨⟨hunits,hp⟩,hrest⟩
    · cases h
  · cases h

theorem arrayIndex_inj {n : Nat} (hk : arrayIndex key = some n) (ho : arrayIndex other = some n) :
    key = other := by
  have hdecimal {t : Units} (h : arrayIndex t = some n) : decimal n = t := by
    simp only [arrayIndex] at h
    split at h
    · rename_i hdec
      cases h
      exact hdec.1
    · cases h
  rw [← hdecimal hk,hdecimal ho]

theorem before_of_precedes (h : precedes key other = true) : Before key other := by
  unfold precedes at h
  unfold Before
  cases hk : arrayIndex key with
  | none =>
    rw [hk] at h
    cases h
  | some n =>
    cases ho : arrayIndex other with
    | none => trivial
    | some m =>
      rw [hk,ho] at h
      exact of_decide_eq_true h

theorem before_of_precedes_trans {last : Units} (h : precedes key other = true)
    (hlast : Before other last) : Before key last := by
  unfold precedes at h
  unfold Before at hlast ⊢
  cases hk : arrayIndex key with
  | none =>
    rw [hk] at h
    cases h
  | some n =>
    cases hl : arrayIndex last with
    | none => trivial
    | some l =>
      cases ho : arrayIndex other with
      | none =>
        rw [ho,hl] at hlast
        exact hlast.elim
      | some m =>
        rw [hk,ho] at h
        rw [ho,hl] at hlast
        exact (of_decide_eq_true h : n < m).trans hlast

theorem before_of_not_precedes (hne : other ≠ key) (h : ¬precedes key other = true) :
    Before other key := by
  unfold precedes at h
  unfold Before
  cases hk : arrayIndex key with
  | none =>
    cases ho : arrayIndex other with
    | none => exact hne
    | some m => trivial
  | some n =>
    cases ho : arrayIndex other with
    | none =>
      rw [hk,ho] at h
      exact h rfl
    | some m =>
      rw [hk,ho] at h
      have hle : m ≤ n := by simpa using h
      refine lt_of_le_of_ne hle fun hsame => hne ?_
      subst hsame
      exact arrayIndex_inj ho hk

theorem mem_setMember {value : α} {m : Units × α} (h : m ∈ setMember key value members) :
    m = (key,value) ∨ m ∈ members := by
  induction members with
  | nil => exact .inl (List.mem_singleton.mp h)
  | cons m' members ih =>
    rw [setMember] at h
    split_ifs at h
    · exact (List.mem_cons.mp h).imp_right (List.mem_cons_of_mem m')
    · exact List.mem_cons.mp h
    · obtain rfl | h := List.mem_cons.mp h
      · exact .inr List.mem_cons_self
      · exact (ih h).imp_right (List.mem_cons_of_mem m')

theorem setMember_ordered {value : α} (h : (members.map Prod.fst).Pairwise Before) :
    ((setMember key value members).map Prod.fst).Pairwise Before := by
  induction members with
  | nil => exact List.pairwise_singleton _ _
  | cons m members ih =>
    obtain ⟨hm,hrest⟩ := List.pairwise_cons.mp h
    rw [setMember]
    split_ifs with hsame hbefore
    · rw [List.map_cons,← hsame]
      exact h
    · refine List.pairwise_cons.mpr ⟨fun k hk => ?_,h⟩
      obtain rfl | hk := List.mem_cons.mp hk
      · exact before_of_precedes hbefore
      · exact before_of_precedes_trans hbefore (hm k hk)
    · refine List.pairwise_cons.mpr ⟨fun k hk => ?_,ih hrest⟩
      obtain ⟨m',hm',rfl⟩ := List.mem_map.mp hk
      obtain rfl | hm' := mem_setMember hm'
      · exact before_of_not_precedes hsame hbefore
      · exact hm m'.1 (List.mem_map_of_mem hm')

theorem toObject_all {P : Units × α → Prop} (h : ∀ m ∈ members, P m) :
    ((toObject members).map Prod.fst).Pairwise Before ∧ ∀ m ∈ toObject members, P m := by
  refine List.foldlRecOn (motive := fun object : List (Units × α) =>
    (object.map Prod.fst).Pairwise Before ∧ ∀ m ∈ object, P m) members _
      ⟨.nil,fun _ hm => absurd hm List.not_mem_nil⟩ fun object hobject m hm => ?_
  refine ⟨setMember_ordered hobject.1,fun m' hm' => ?_⟩
  obtain rfl | hm' := mem_setMember hm'
  · exact h m hm
  · exact hobject.2 m' hm'

theorem parseValue_proper (ht : IsUnits t) (h : parseValue F n t = some (v,rest)) :
    Proper v ∧ IsUnits rest := by
  induction n generalizing t v rest with
  | zero => cases h
  | succ n ih =>
    have hspace := isUnits_skipSpace ht
    have htail {u : Nat} {tail : Units} (htail : skipSpace t = u :: tail) : IsUnits tail :=
      fun w hw => hspace w (htail ▸ List.mem_cons_of_mem u hw)
    rw [parseValue] at h
    split at h
    · rename_i tail hstart
      obtain ⟨⟨s,last⟩,hs,h⟩ := Option.map_eq_some_iff.mp h
      cases h
      obtain ⟨hunits,hrest⟩ := parseString_units (htail hstart) hs
      exact ⟨.string hunits,hrest⟩
    · rename_i tail hstart
      obtain ⟨⟨xs,last⟩,hxs,h⟩ := Option.map_eq_some_iff.mp h
      cases h
      obtain ⟨hall,hrest⟩ := parseSequence_all (P := Proper)
        (fun t x rest ht hx => ih ht hx) (htail hstart) hxs
      exact ⟨.array hall,hrest⟩
    · rename_i tail hstart
      obtain ⟨⟨ms,last⟩,hms,h⟩ := Option.map_eq_some_iff.mp h
      cases h
      obtain ⟨hall,hrest⟩ := parseSequence_all
        (P := fun m : Units × Json ν => IsUnits m.1 ∧ Proper m.2)
        (fun t m rest ht hm => parseMember_all (fun t x rest ht hx => ih ht hx) ht hm)
        (htail hstart) hms
      obtain ⟨hordered,hall⟩ := toObject_all hall
      exact ⟨.object hordered (fun m hm => (hall m hm).1) fun m hm => (hall m hm).2,hrest⟩
    · rename_i tail hstart
      cases h
      exact ⟨.null,fun w hw => hspace w (hstart ▸ by simp [hw])⟩
    · rename_i tail hstart
      cases h
      exact ⟨.bool true,fun w hw => hspace w (hstart ▸ by simp [hw])⟩
    · rename_i tail hstart
      cases h
      exact ⟨.bool false,fun w hw => hspace w (hstart ▸ by simp [hw])⟩
    · obtain ⟨x,_,h⟩ := Option.map_eq_some_iff.mp h
      cases h
      exact ⟨.number x,fun w hw => hspace w (List.dropWhile_subset _ hw)⟩

theorem parse_proper (ht : IsUnits t) (h : parse F t = some v) : Proper v := by
  obtain ⟨⟨w,rest⟩,hread,h⟩ := Option.bind_eq_some_iff.mp h
  split at h
  · cases h
    exact (parseValue_proper ht hread).1
  · cases h

end accepted

end JsonText
