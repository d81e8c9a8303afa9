import Yurucommu.IpClassifierReads

/-!
The tests on the parts of an address are the blocks of addresses.
-/

set_option autoImplicit false

namespace Yurucommu.IpClassifier

open ActorIdentity (Platform parseIPv4 isPrivateIPv4)
open IpText (Block IsPrivateV4 IsPrivateV6 Octet Quad quad hextets ofParts)
open Whatwg (Text)

section v4

variable {a b c d : Nat}

theorem toNat_quad (ha : a ≤ 255) (hb : b ≤ 255) (hc : c ≤ 255) (hd : d ≤ 255) :
    (quad a b c d).toNat = ((a * 256 + b) * 256 + c) * 256 + d := by
  simp only [quad,ofParts,List.foldl_cons,List.foldl_nil,BitVec.toNat_ofNat]
  omega

theorem isPrivateV4_iff (n : BitVec 32) : IsPrivateV4 n ↔
    n.toNat / 2 ^ 24 = 0 ∨ n.toNat / 2 ^ 24 = 10 ∨ n.toNat / 2 ^ 24 = 127 ∨
      n.toNat / 2 ^ 16 = 169 * 256 + 254 ∨ n.toNat / 2 ^ 20 = 172 * 16 + 1 ∨
      n.toNat / 2 ^ 16 = 192 * 256 + 168 ∨ n.toNat / 2 ^ 22 = 100 * 4 + 1 ∨
      n.toNat / 2 ^ 8 = 192 * 65536 ∨ n.toNat / 2 ^ 8 = 192 * 65536 + 2 ∨
      n.toNat / 2 ^ 17 = 198 * 128 + 9 ∨ n.toNat / 2 ^ 8 = (198 * 256 + 51) * 256 + 100 ∨
      n.toNat / 2 ^ 8 = 203 * 65536 + 113 ∨ n.toNat / 2 ^ 29 = 7 := by
  simp only [IsPrivateV4,IpText.privateV4,List.mem_cons,List.not_mem_nil,or_false,exists_eq_or_imp,
    exists_eq_left]
  exact Iff.rfl

theorem isPrivateIPv4_iff {t : Text} (h : Quad t a b c d) :
    isPrivateIPv4 t = true ↔ IsPrivateV4 (quad a b c d) := by
  obtain ⟨ha,hb,hc,hd⟩ := h.bounds
  rw [isPrivateIPv4,parseIPv4_of_quad h,isPrivateV4_iff,toNat_quad ha hb hc hd]
  simp only [Bool.or_eq_true,Bool.and_eq_true,decide_eq_true_eq,or_assoc,and_assoc]
  have h24 : (((a * 256 + b) * 256 + c) * 256 + d) / 2 ^ 24 = a := by omega
  have h16 : (((a * 256 + b) * 256 + c) * 256 + d) / 2 ^ 16 = a * 256 + b := by omega
  have h20 : (((a * 256 + b) * 256 + c) * 256 + d) / 2 ^ 20 = a * 16 + b / 16 := by omega
  have h22 : (((a * 256 + b) * 256 + c) * 256 + d) / 2 ^ 22 = a * 4 + b / 64 := by omega
  have h8 : (((a * 256 + b) * 256 + c) * 256 + d) / 2 ^ 8 = (a * 256 + b) * 256 + c := by omega
  have h17 : (((a * 256 + b) * 256 + c) * 256 + d) / 2 ^ 17 = a * 128 + b / 2 := by omega
  have h29 : (((a * 256 + b) * 256 + c) * 256 + d) / 2 ^ 29 = a / 32 := by omega
  rw [h24,h16,h20,h22,h8,h17,h29]
  refine or_congr Iff.rfl (or_congr Iff.rfl (or_congr Iff.rfl ?_))
  refine or_congr (by omega) (or_congr (by omega) (or_congr (by omega) (or_congr (by omega) ?_)))
  refine or_congr (by omega) (or_congr (by omega) (or_congr (by omega) (or_congr (by omega) ?_)))
  exact or_congr (by omega) (by omega)

theorem octet_toDigits {n : Nat} (h : n ≤ 255) : Octet (Nat.toDigits 10 n) n := by
  refine ⟨Nat.length_toDigits_pos,?_,fun c hc => ?_,?_,h⟩
  · exact (Nat.length_toDigits_le_iff (by decide) (by decide)).2 (by omega)
  · exact Nat.isDigit_of_mem_toDigits (by decide) (by decide) hc
  · exact (Nat.ofDigitChars_ten_toDigits).symm

theorem quad_dottedQuad (ha : a ≤ 255) (hb : b ≤ 255) (hc : c ≤ 255) (hd : d ≤ 255) :
    Quad (dottedQuad a b c d) a b c d :=
  .intro (octet_toDigits ha) (octet_toDigits hb) (octet_toDigits hc) (octet_toDigits hd)

theorem embeddedV4IsPrivate_iff {hi lo : Nat} (hhi : hi < 65536) (hlo : lo < 65536) :
    embeddedV4IsPrivate hi lo = true ↔ IsPrivateV4 (.ofNat 32 (hi * 65536 + lo)) := by
  have hand : ∀ n : Nat, n &&& 0xff = n % 256 := fun n => Nat.and_two_pow_sub_one_eq_mod n 8
  have hshift : ∀ n : Nat, n >>> 8 = n / 256 := fun n => Nat.shiftRight_eq_div_pow n 8
  simp only [embeddedV4IsPrivate,hand,hshift]
  have h₁ : hi / 256 % 256 ≤ 255 := by omega
  have h₂ : hi % 256 ≤ 255 := by omega
  have h₃ : lo / 256 % 256 ≤ 255 := by omega
  have h₄ : lo % 256 ≤ 255 := by omega
  rw [isPrivateIPv4_iff (quad_dottedQuad h₁ h₂ h₃ h₄)]
  have heq : quad (hi / 256 % 256) (hi % 256) (lo / 256 % 256) (lo % 256) =
      .ofNat 32 (hi * 65536 + lo) := by
    rw [← BitVec.toNat_inj,toNat_quad h₁ h₂ h₃ h₄,BitVec.toNat_ofNat]
    omega
  rw [heq]

end v4

section v6

variable {g₀ g₁ g₂ g₃ g₄ g₅ g₆ g₇ : Nat}

theorem toNat_hextets (h₀ : g₀ < 65536) (h₁ : g₁ < 65536) (h₂ : g₂ < 65536) (h₃ : g₃ < 65536)
    (h₄ : g₄ < 65536) (h₅ : g₅ < 65536) (h₆ : g₆ < 65536) (h₇ : g₇ < 65536) :
    (hextets [g₀,g₁,g₂,g₃,g₄,g₅,g₆,g₇]).toNat =
      ((((((g₀ * 65536 + g₁) * 65536 + g₂) * 65536 + g₃) * 65536 + g₄) * 65536 + g₅) * 65536 +
        g₆) * 65536 + g₇ := by
  simp only [hextets,ofParts,List.foldl_cons,List.foldl_nil,BitVec.toNat_ofNat]
  omega

theorem isPrivateV6_iff (n : BitVec 128) : IsPrivateV6 n ↔
    (n.toNat / 2 ^ 0 = 0 ∨ n.toNat / 2 ^ 0 = 1 ∨ n.toNat / 2 ^ 121 = 0xfc / 2 ∨
      n.toNat / 2 ^ 118 = 0xfe80 / 64 ∨ n.toNat / 2 ^ 118 = 0xfec0 / 64 ∨
      n.toNat / 2 ^ 120 = 0xff) ∨
    (n.toNat / 2 ^ 32 = 0xffff ∨ n.toNat / 2 ^ 32 = 0 ∨
      n.toNat / 2 ^ 32 = (0x64 * 65536 + 0xff9b) * 2 ^ 64) ∧ IsPrivateV4 (IpText.lastV4 n) ∨
    n.toNat / 2 ^ 112 = 0x2002 ∧ IsPrivateV4 (IpText.secondV4 n) := by
  simp only [IsPrivateV6,IpText.privateV6,List.mem_cons,List.not_mem_nil,or_false,exists_eq_or_imp,
    exists_eq_left]
  exact Iff.rfl

theorem and_ffc0 {n : Nat} (h : n < 65536) : n &&& 0xffc0 = n / 64 * 64 := by
  have hdiv : (n &&& 0xffc0) / 2 ^ 6 = n / 2 ^ 6 % 2 ^ 10 := by
    rw [Nat.and_div_two_pow,← Nat.and_two_pow_sub_one_eq_mod]
  have hmod : (n &&& 0xffc0) % 2 ^ 6 = 0 := by
    rw [Nat.and_mod_two_pow,show 0xffc0 % 2 ^ 6 = 0 from rfl,Nat.and_zero]
  omega

theorem ladder_iff {a b c d e f g h i : Prop} [Decidable a] [Decidable b] [Decidable c]
    [Decidable d] [Decidable e] [Decidable f] [Decidable g] [Decidable h] [Decidable i] {x y : Bool}
    (hi : f ∨ g ∨ h → ¬i) :
    (if a then true else if b then true else if c then true else if d then true
      else if e then true else if f then x else if g then x else if h then x
      else if i then y else false) = true ↔
    a ∨ (b ∨ c ∨ d ∨ e) ∨ (f ∨ g ∨ h) ∧ x = true ∨ i ∧ y = true := by
  by_cases hfgh : f ∨ g ∨ h
  · have hno := hi hfgh
    rcases hfgh with hf | hg | hh
    · simp [hf,hno,or_assoc]
    · simp [hg,hno,or_assoc]
    · simp [hh,hno,or_assoc]
  · obtain ⟨hf,hg,hh⟩ : ¬f ∧ ¬g ∧ ¬h := by simpa only [not_or] using hfgh
    simp [hf,hg,hh,or_assoc]

theorem isPrivateGroups_eq_true : isPrivateGroups g₀ g₁ g₂ g₃ g₄ g₅ g₆ g₇ = true ↔
    (g₀ = 0 ∧ g₁ = 0 ∧ g₂ = 0 ∧ g₃ = 0 ∧ g₄ = 0 ∧ g₅ = 0 ∧ g₆ = 0 ∧ (g₇ = 0 ∨ g₇ = 1)) ∨
    (g₀ / 256 = 0xfc ∨ g₀ / 256 = 0xfd ∨ g₀ &&& 0xffc0 = 0xfe80 ∨ g₀ &&& 0xffc0 = 0xfec0 ∨
      g₀ / 256 = 0xff) ∨
    (g₀ = 0 ∧ g₁ = 0 ∧ g₂ = 0 ∧ g₃ = 0 ∧ g₄ = 0 ∧ (g₅ = 0xffff ∨ g₅ = 0) ∨
      g₀ = 0x64 ∧ g₁ = 0xff9b) ∧ embeddedV4IsPrivate g₆ g₇ = true ∨
    g₀ = 0x2002 ∧ embeddedV4IsPrivate g₁ g₂ = true := by
  have hshift : g₀ >>> 8 = g₀ / 256 := Nat.shiftRight_eq_div_pow g₀ 8
  unfold isPrivateGroups
  refine (ladder_iff fun h => ?_).trans ?_
  · simp only [Bool.and_eq_true,decide_eq_true_eq] at h
    omega
  · simp only [hshift,Bool.and_eq_true,Bool.or_eq_true,decide_eq_true_eq,and_assoc,or_assoc,
      and_or_left]

/-- The tests on the groups are the blocks, but for the addresses of the first 32 bits of the NAT64
block whose next 64 bits are not zero. -/
theorem isPrivateGroups_iff (h₀ : g₀ < 65536) (h₁ : g₁ < 65536) (h₂ : g₂ < 65536)
    (h₃ : g₃ < 65536) (h₄ : g₄ < 65536) (h₅ : g₅ < 65536) (h₆ : g₆ < 65536) (h₇ : g₇ < 65536)
    (hnat : g₀ = 0x64 → g₁ = 0xff9b → g₂ = 0 ∧ g₃ = 0 ∧ g₄ = 0 ∧ g₅ = 0) :
    isPrivateGroups g₀ g₁ g₂ g₃ g₄ g₅ g₆ g₇ = true ↔
      IsPrivateV6 (hextets [g₀,g₁,g₂,g₃,g₄,g₅,g₆,g₇]) := by
  have hn := toNat_hextets h₀ h₁ h₂ h₃ h₄ h₅ h₆ h₇
  have hlast : IpText.lastV4 (hextets [g₀,g₁,g₂,g₃,g₄,g₅,g₆,g₇]) =
      .ofNat 32 (g₆ * 65536 + g₇) := by
    rw [IpText.lastV4,hn,← BitVec.toNat_inj,BitVec.toNat_ofNat,BitVec.toNat_ofNat]
    omega
  have hsecond : IpText.secondV4 (hextets [g₀,g₁,g₂,g₃,g₄,g₅,g₆,g₇]) =
      .ofNat 32 (g₁ * 65536 + g₂) := by
    rw [IpText.secondV4,hn,← BitVec.toNat_inj,BitVec.toNat_ofNat,BitVec.toNat_ofNat]
    omega
  rw [isPrivateGroups_eq_true,isPrivateV6_iff,hlast,hsecond,and_ffc0 h₀,
    embeddedV4IsPrivate_iff h₆ h₇,embeddedV4IsPrivate_iff h₁ h₂,← or_assoc]
  clear hlast hsecond
  generalize (hextets [g₀,g₁,g₂,g₃,g₄,g₅,g₆,g₇]).toNat = n at hn ⊢
  have h121 : n / 2 ^ 121 = g₀ / 512 := by omega
  have h118 : n / 2 ^ 118 = g₀ / 64 := by omega
  have h120 : n / 2 ^ 120 = g₀ / 256 := by omega
  have h112 : n / 2 ^ 112 = g₀ := by omega
  have h32 : n / 2 ^ 32 =
      ((((g₀ * 65536 + g₁) * 65536 + g₂) * 65536 + g₃) * 65536 + g₄) * 65536 + g₅ := by omega
  rw [h121,h118,h120,h112,h32,pow_zero,Nat.div_one]
  clear h121 h118 h120 h112 h32
  refine or_congr ?_ (or_congr (and_congr ?_ Iff.rfl) Iff.rfl)
  · have hzero : n = 0 ∨ n = 1 ↔ g₀ = 0 ∧ g₁ = 0 ∧ g₂ = 0 ∧ g₃ = 0 ∧ g₄ = 0 ∧ g₅ = 0 ∧ g₆ = 0 ∧
        (g₇ = 0 ∨ g₇ = 1) := by omega
    rw [← hzero,or_assoc]
    clear hzero hn hnat
    refine or_congr Iff.rfl (or_congr Iff.rfl ?_)
    omega
  · clear hn
    constructor
    · rintro (⟨rfl,rfl,rfl,rfl,rfl,rfl | rfl⟩ | ⟨rfl,rfl⟩)
      · exact .inl (by omega)
      · exact .inr (.inl (by omega))
      · obtain ⟨rfl,rfl,rfl,rfl⟩ := hnat rfl rfl
        exact .inr (.inr (by omega))
    · rintro (h | h | h)
      · exact .inl (by omega)
      · exact .inl (by omega)
      · exact .inr (by omega)

end v6

end Yurucommu.IpClassifier
