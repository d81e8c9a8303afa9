import Yurucommu.ActorSpelling
import Yurucommu.IpClassifierReads

/-!
Small letters for capital ones change nothing that the parser reads, so it reads every spelling.
-/

set_option autoImplicit false

namespace Yurucommu.IpClassifier

open ActorIdentity (Platform parseIPv4 toLower_eq_of_not_isLower)
open IpText (hexValue HexGroup Groups Hextets NoneOr NoDouble Octet Quad isFormChar)
open Whatwg (Text lower)

section letters

theorem isHex_bounds {c : Char} (h : IpText.isHex c = true) :
    48 ≤ c.toNat ∧ c.toNat ≤ 57 ∨ 97 ≤ c.toNat ∧ c.toNat ≤ 102 ∨ 65 ≤ c.toNat ∧ c.toNat ≤ 70 := by
  simp only [IpText.isHex,Char.isDigit,Bool.or_eq_true,Bool.and_eq_true,decide_eq_true_eq,
    Char.le_def,UInt32.le_iff_toNat_le] at h
  have h0 : ('a' : Char).val.toNat = 97 := rfl
  have h1 : ('f' : Char).val.toNat = 102 := rfl
  have h2 : ('A' : Char).val.toNat = 65 := rfl
  have h3 : ('F' : Char).val.toNat = 70 := rfl
  have h4 : ('0' : Char).val.toNat = 48 := rfl
  have h5 : ('9' : Char).val.toNat = 57 := rfl
  simp only [Char.toNat]
  omega

theorem toNat_lt_of_isAddressChar {c : Char} (h : isAddressChar c = true) : c.toNat < 128 := by
  simp only [isAddressChar,Bool.or_eq_true,decide_eq_true_eq] at h
  rcases h with ((((h | rfl) | rfl) | rfl) | rfl) | rfl
  · have := isHex_bounds h
    omega
  all_goals decide

theorem isAddressChar_of_isFormChar {c : Char} (h : isFormChar c = true) :
    isAddressChar c = true := by
  simp only [isFormChar,Bool.or_eq_true,decide_eq_true_eq] at h
  rcases h with (h | rfl) | rfl
  · simp [isAddressChar,h]
  all_goals decide

theorem Piece.mem_iff {c d : Char} {piece : Text} (h : Piece c piece)
    (hd : isAddressChar d = true) (hl : d.isLower = false) (hu : d.isUpper = false) :
    d ∈ piece ↔ c = d := by
  rcases h with ⟨-,rfl⟩ | ⟨hc,-,hpiece⟩
  · rw [List.mem_singleton]
    constructor
    · exact fun h => toLower_eq_of_not_isLower h.symm hl
    · rintro rfl
      rw [Char.toLower_eq_of_not_isUpper (by simp [hu])]
  · constructor
    · intro hmem
      rw [hpiece d hmem] at hd
      contradiction
    · rintro rfl
      exact absurd (toNat_lt_of_isAddressChar hd) (Nat.not_lt.2 hc)

theorem Piece.ne_nil {c : Char} {piece : Text} (h : Piece c piece) : piece ≠ [] := by
  rcases h with ⟨-,rfl⟩ | ⟨-,hne,-⟩
  · simp
  · exact hne

structure IsMark (d : Char) : Prop where
  address : isAddressChar d = true
  lower : d.isLower = false
  upper : d.isUpper = false

theorem Piece.of_mark {d : Char} {piece : Text} (hd : IsMark d) (h : Piece d piece) :
    piece = [d] := by
  rcases h with ⟨-,rfl⟩ | ⟨hc,-⟩
  · rw [Char.toLower_eq_of_not_isUpper (by simp [hd.upper])]
  · exact absurd (toNat_lt_of_isAddressChar hd.address) (Nat.not_lt.2 hc)

theorem Piece.mark_free {c d : Char} {piece : Text} (hd : IsMark d) (h : Piece c piece)
    (hne : c ≠ d) : d ∉ piece := fun hmem =>
  hne ((h.mem_iff hd.address hd.lower hd.upper).1 hmem)

theorem Lowered.cons {c : Char} {t piece u : Text} (hc : Piece c piece) (h : Lowered t u) :
    Lowered (c :: t) (piece ++ u) := by
  obtain ⟨pieces,hp,rfl⟩ := h
  exact ⟨piece :: pieces,.cons hc hp,rfl⟩

theorem Lowered.cases {c : Char} {t u : Text} (h : Lowered (c :: t) u) :
    ∃ piece v, Piece c piece ∧ Lowered t v ∧ u = piece ++ v := by
  obtain ⟨pieces,hp,rfl⟩ := h
  cases hp with
  | cons hc hrest => exact ⟨_,_,hc,⟨_,hrest,rfl⟩,rfl⟩

theorem Lowered.eq_nil {u : Text} (h : Lowered [] u) : u = [] := by
  obtain ⟨pieces,hp,rfl⟩ := h
  cases hp
  rfl

theorem Lowered.dropFirst {t u : Text} {d : Char} (hd : IsMark d) (h : Lowered t u) :
    Lowered (if t.head? = some d then t.tail else t) (if u.head? = some d then u.tail else u) := by
  cases t with
  | nil =>
    rw [h.eq_nil]
    simpa [h.eq_nil] using h
  | cons c t =>
    obtain ⟨piece,v,hc,hv,rfl⟩ := h.cases
    by_cases hcd : c = d
    · subst hcd
      rw [hc.of_mark hd]
      simpa using hv
    · have hne : ¬ (piece ++ v).head? = some d := by
        obtain ⟨x,xs,rfl⟩ := List.exists_cons_of_ne_nil hc.ne_nil
        intro hx
        have hx : x = d := by simpa using hx
        exact hc.mark_free hd hcd (by simp [hx])
      rw [if_neg (by simpa using hcd),if_neg hne]
      exact hv.cons hc

theorem Lowered.snoc_cases {c : Char} {t u : Text} (h : Lowered (t ++ [c]) u) :
    ∃ piece v, Piece c piece ∧ Lowered t v ∧ u = v ++ piece := by
  obtain ⟨pieces,hp,rfl⟩ := h
  have hr := List.forall₂_reverse_iff.2 hp
  rw [List.reverse_append,List.reverse_singleton,List.singleton_append] at hr
  obtain ⟨piece,rest,hc,hrest,heq⟩ := List.forall₂_cons_left_iff.1 hr
  refine ⟨piece,rest.reverse.flatten,hc,⟨rest.reverse,?_,rfl⟩,?_⟩
  · rw [← List.forall₂_reverse_iff,List.reverse_reverse]
    exact hrest
  · have hpieces : pieces = rest.reverse ++ [piece] := by
      rw [← List.reverse_reverse pieces,heq,List.reverse_cons]
    rw [hpieces]
    simp

theorem Lowered.snoc {c : Char} {t piece u : Text} (hc : Piece c piece) (h : Lowered t u) :
    Lowered (t ++ [c]) (u ++ piece) := by
  obtain ⟨pieces,hp,rfl⟩ := h
  refine ⟨pieces ++ [piece],?_,by simp⟩
  rw [← List.forall₂_reverse_iff]
  simpa using ⟨hc,hp⟩

theorem Lowered.dropFinal {t u : Text} {d : Char} (hd : IsMark d) (h : Lowered t u) :
    Lowered (if t.getLast? = some d then t.dropLast else t)
      (if u.getLast? = some d then u.dropLast else u) := by
  obtain rfl | ⟨t,c,rfl⟩ := List.eq_nil_or_concat' t
  · rw [h.eq_nil]
    simpa [h.eq_nil] using h
  · obtain ⟨piece,v,hc,hv,rfl⟩ := h.snoc_cases
    by_cases hcd : c = d
    · subst hcd
      rw [hc.of_mark hd]
      simpa using hv
    · have hne : ¬ (v ++ piece).getLast? = some d := by
        intro hx
        refine hc.mark_free hd hcd ?_
        rw [List.getLast?_append_of_ne_nil _ hc.ne_nil] at hx
        exact List.mem_of_getLast? hx
      rw [if_neg (by simpa using hcd),if_neg hne]
      exact hv.snoc hc

theorem Lowered.takeWhile {t u : Text} {d : Char} (hd : IsMark d) (h : Lowered t u) :
    Lowered (t.takeWhile (· ≠ d)) (u.takeWhile (· ≠ d)) := by
  induction t generalizing u with
  | nil =>
    rw [h.eq_nil]
    simpa [h.eq_nil] using h
  | cons c t ih =>
    obtain ⟨piece,v,hc,hv,rfl⟩ := h.cases
    by_cases hcd : c = d
    · subst hcd
      rw [hc.of_mark hd]
      simp only [ne_eq,List.singleton_append,List.takeWhile_cons,not_true,decide_false]
      exact ⟨[],.nil,rfl⟩
    · have hall : ∀ x ∈ piece, decide (x ≠ d) = true := by
        intro x hx
        rw [decide_eq_true_eq]
        rintro rfl
        exact hc.mark_free hd hcd hx
      rw [List.takeWhile_append_of_pos hall,List.takeWhile_cons_of_pos (by simpa using hcd)]
      exact (ih hv).cons hc

theorem isMark_of_decide {d : Char} (h : isAddressChar d = true ∧ d.isLower = false ∧
    d.isUpper = false) : IsMark d := ⟨h.1,h.2.1,h.2.2⟩

theorem Lowered.stripBrackets {t u : Text} (h : Lowered t u) :
    Lowered (stripBrackets t) (stripBrackets u) :=
  (h.dropFirst (isMark_of_decide (by decide))).dropFinal (isMark_of_decide (by decide))

end letters

section spellings

theorem ascii_cases {p : Char → Prop} (hp : ∀ n < 128, p (Char.ofNat n)) {c : Char}
    (hc : c.toNat < 128) : p c := by
  have h := hp _ hc
  rwa [Char.ofNat_toNat] at h

theorem toLower_of_not_ascii {c : Char} (hc : ¬ c.toNat < 128) : c.toLower = c := by
  refine Char.toLower_eq_of_not_isUpper fun h => hc ?_
  simp only [Char.isUpper,decide_eq_true_eq,UInt32.le_iff_toNat_le] at h
  have h2 : ('Z' : Char).val.toNat = 90 := rfl
  simp only [Char.toNat]
  omega

theorem toLower_ascii {c : Char} (hc : c.toNat < 128) :
    (IpText.isHex c.toLower = IpText.isHex c ∧ IpText.hexDigit c.toLower = IpText.hexDigit c) ∧
      (c.isDigit = true → c.isLower = false ∧ c.toLower = c) ∧
      (IpText.isHex c.toLower = true → isLowerHex c.toLower = true) :=
  ascii_cases (p := fun c => (IpText.isHex c.toLower = IpText.isHex c ∧
    IpText.hexDigit c.toLower = IpText.hexDigit c) ∧
    (c.isDigit = true → c.isLower = false ∧ c.toLower = c) ∧
    (IpText.isHex c.toLower = true → isLowerHex c.toLower = true)) (by decide +kernel) hc

theorem isHex_toLower (c : Char) : IpText.isHex c.toLower = IpText.isHex c := by
  by_cases hc : c.toNat < 128
  · exact (toLower_ascii hc).1.1
  · rw [toLower_of_not_ascii hc]

theorem hexDigit_toLower (c : Char) : IpText.hexDigit c.toLower = IpText.hexDigit c := by
  by_cases hc : c.toNat < 128
  · exact (toLower_ascii hc).1.2
  · rw [toLower_of_not_ascii hc]

theorem toLower_eq_iff {c d : Char} (hl : d.isLower = false) (hu : d.isUpper = false) :
    c.toLower = d ↔ c = d := by
  constructor
  · exact fun h => toLower_eq_of_not_isLower h hl
  · rintro rfl
    exact Char.toLower_eq_of_not_isUpper (by simp [hu])

theorem hexGroup_lower {t : Text} {n : Nat} : HexGroup (lower t) n ↔ HexGroup t n := by
  have hvalue : hexValue (lower t) = hexValue t := by
    simp only [hexValue,lower,List.map_map]
    congr 1
    exact List.map_congr_left fun c _ => hexDigit_toLower c
  rw [HexGroup,HexGroup,hvalue]
  simp only [lower,List.length_map,List.mem_map,forall_exists_index,and_imp,
    forall_apply_eq_imp_iff₂,isHex_toLower]

theorem lower_eq_self {t : Text} (h : ∀ c ∈ lower t, c.isLower = false) : lower t = t := by
  conv_rhs => rw [← List.map_id t]
  refine List.map_congr_left fun c hc => ?_
  exact (toLower_eq_of_not_isLower rfl (h _ (List.mem_map_of_mem hc))).symm

theorem isLower_of_isDigit {c : Char} (h : c.isDigit = true) : c.isLower = false := by
  have hc := isHex_bounds (IpText.isHex_of_isDigit h)
  exact ((toLower_ascii (by omega)).2.1 h).1

theorem isLower_of_quad {t : Text} {a b c d : Nat} (h : Quad t a b c d) :
    ∀ x ∈ t, x.isLower = false := by
  intro x hx
  rcases h.chars x hx with hdigit | rfl
  · exact isLower_of_isDigit hdigit
  · decide

theorem quad_lower {t : Text} {a b c d : Nat} : Quad (lower t) a b c d ↔ Quad t a b c d := by
  constructor
  · intro h
    rwa [lower_eq_self (isLower_of_quad h)] at h
  · intro h
    have heq : lower t = t := by
      conv_rhs => rw [← List.map_id t]
      refine List.map_congr_left fun x hx => ?_
      rcases h.chars x hx with hdigit | rfl
      · have hc := isHex_bounds (IpText.isHex_of_isDigit hdigit)
        exact ((toLower_ascii (by omega)).2.1 hdigit).2
      · decide
    rwa [heq]

theorem lower_split {t x y : Text} : lower t = x ++ ':' :: y ↔
    ∃ v w, t = v ++ ':' :: w ∧ lower v = x ∧ lower w = y := by
  rw [lower,List.map_eq_append_iff]
  constructor
  · rintro ⟨v,rest,rfl,hv,hrest⟩
    obtain ⟨c,w,rfl,hc,hw⟩ := List.map_eq_cons_iff.1 hrest
    rw [toLower_eq_iff (by decide) (by decide)] at hc
    exact ⟨v,w,by rw [hc],hv,hw⟩
  · rintro ⟨v,w,rfl,hv,hw⟩
    refine ⟨v,':' :: w,rfl,hv,?_⟩
    rw [List.map_cons]
    exact congrArg₂ _ (by decide) hw

theorem groups_lower {q : Bool} {t : Text} {ns : List Nat} :
    Groups q (lower t) ns ↔ Groups q t ns := by
  constructor
  · intro h
    generalize htext : lower t = text at h
    induction h generalizing t with
    | last h =>
      rw [← htext,hexGroup_lower] at h
      exact .last h
    | quad h =>
      rw [← htext,quad_lower] at h
      exact .quad h
    | cons h hrest ih =>
      obtain ⟨v,w,rfl,hv,hw⟩ := lower_split.1 htext
      rw [← hv,hexGroup_lower] at h
      exact .cons h (ih hw)
  · intro h
    induction h with
    | last h => exact .last (hexGroup_lower.2 h)
    | quad h => exact .quad (quad_lower.2 h)
    | cons h hrest ih =>
      rw [lower_split.2 ⟨_,_,rfl,rfl,rfl⟩]
      exact .cons (hexGroup_lower.2 h) ih

theorem noneOr_lower {q : Bool} {t : Text} {ns : List Nat} :
    NoneOr (Groups q) (lower t) ns ↔ NoneOr (Groups q) t ns := by
  rw [NoneOr,NoneOr,groups_lower,lower,List.map_eq_nil_iff]

theorem hextets_lower {q : Bool} {t : Text} {groups : List Nat} :
    Hextets q (lower t) groups ↔ Hextets q t groups := by
  constructor
  · intro h
    generalize htext : lower t = text at h
    cases h with
    | full h hlen =>
      rw [← htext,groups_lower] at h
      exact .full h hlen
    | compressed h₁ h₂ hlen =>
      obtain ⟨v,rest,rfl,rfl,hrest⟩ := lower_split.1 htext
      obtain ⟨x,w,rfl,hx,rfl⟩ := lower_split.1 (hrest.trans (List.nil_append _).symm)
      obtain rfl := List.map_eq_nil_iff.1 hx
      exact .compressed (noneOr_lower.1 h₁) (noneOr_lower.1 h₂) hlen
  · intro h
    cases h with
    | full h hlen => exact .full (groups_lower.2 h) hlen
    | @compressed t u ms ns h₁ h₂ hlen =>
      have hrest : lower (':' :: u) = ':' :: lower u :=
        lower_split.2 ⟨[],u,rfl,rfl,rfl⟩
      rw [lower_split.2 ⟨_,_,rfl,rfl,rfl⟩,hrest]
      exact .compressed (noneOr_lower.2 h₁) (noneOr_lower.2 h₂) hlen

end spellings

section parser

variable {P : Platform}

theorem Piece.noCapital {c : Char} {piece : Text} (h : Piece c piece) : NoCapital piece := by
  intro d hd hhex
  rcases h with ⟨hc,rfl⟩ | ⟨-,-,hpiece⟩
  · rw [List.mem_singleton.1 hd] at hhex ⊢
    exact (toLower_ascii hc).2.2 hhex
  · have hmem := hpiece d hd
    simp [isAddressChar,hhex] at hmem

theorem Lowered.noCapital {t u : Text} (h : Lowered t u) : NoCapital u := by
  induction t generalizing u with
  | nil =>
    rw [h.eq_nil]
    exact fun c hc => absurd hc List.not_mem_nil
  | cons c t ih =>
    obtain ⟨piece,v,hc,hv,rfl⟩ := h.cases
    intro d hd
    rcases List.mem_append.1 hd with hd | hd
    · exact hc.noCapital d hd
    · exact ih hv d hd

theorem Lowered.eq_lower {t u : Text} (h : Lowered t u)
    (hall : (∀ c ∈ t, c.toNat < 128) ∨ ∀ d ∈ u, isAddressChar d = true) : u = lower t := by
  induction t generalizing u with
  | nil => rw [h.eq_nil,lower,List.map_nil]
  | cons c t ih =>
    obtain ⟨piece,v,hc,hv,rfl⟩ := h.cases
    have hpiece : piece = [c.toLower] := by
      rcases hc with ⟨-,h⟩ | ⟨hc,hne,hpiece⟩
      · exact h
      · obtain ⟨d,ds,rfl⟩ := List.exists_cons_of_ne_nil hne
        rcases hall with hall | hall
        · have := hall c List.mem_cons_self
          omega
        · have hd := hpiece d List.mem_cons_self
          rw [hall d (by simp)] at hd
          cases hd
    have hrest : v = lower t := ih hv <| by
      rcases hall with hall | hall
      · exact .inl fun c hc => hall c (List.mem_cons_of_mem _ hc)
      · exact .inr fun d hd => hall d (List.mem_append_right _ hd)
    rw [hpiece,hrest,List.singleton_append,lower,lower,List.map_cons]

theorem Lowered.hextets {t u : Text} {groups : List Nat} (h : Lowered t u) :
    Hextets true u groups ↔ Hextets true t groups := by
  constructor
  · intro hu
    have heq := h.eq_lower (.inr fun d hd => isAddressChar_of_isFormChar (hu.chars d hd))
    rwa [heq,hextets_lower] at hu
  · intro ht
    have heq := h.eq_lower (.inl fun c hc =>
      toNat_lt_of_isAddressChar (isAddressChar_of_isFormChar (ht.chars c hc)))
    rwa [heq,hextets_lower]

/-- The parser reads exactly the texts of the grammar, behind the brackets. -/
theorem expandIPv6_eq_some {s : Text} {groups : List Nat}
    (h : Lowered s (P.toLowerCase s)) :
    expandIPv6 P s = some groups ↔
      Hextets true (IpText.withoutZone (stripBrackets s)) groups := by
  have hlow := h.stripBrackets.takeWhile (d := '%') (isMark_of_decide (by decide))
  rw [IpText.withoutZone,← hlow.hextets,expandIPv6]
  exact expand_eq_some hlow.noCapital

end parser

end Yurucommu.IpClassifier
