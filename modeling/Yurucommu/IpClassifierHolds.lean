import Yurucommu.ActorIdentityAgree
import Yurucommu.IpClassifierBlocks
import Yurucommu.IpClassifierExpands

/-!
What is taken for an address denotes one address, its verdict is that of the address, and no
private address is resolved to.
-/

set_option autoImplicit false

namespace Yurucommu.IpClassifier

open ActorIdentity (Platform parseIPv4 isPrivateIPv4)
open IpText (Address Block Denotes Groups Hextets HexGroup IsPrivateV6 NoneOr Quad hextets hexValue
  quad withoutZone)
open Whatwg (Text URL lower)

section bounds

theorem hexDigit_lt {c : Char} (h : IpText.isHex c = true) : IpText.hexDigit c < 16 := by
  have hc := isHex_bounds h
  refine ascii_cases (p := fun c => IpText.isHex c = true → IpText.hexDigit c < 16)
    (by decide +kernel) ?_ h
  omega

theorem hexValue_lt (t : Text) (h : ∀ c ∈ t, IpText.isHex c = true) :
    hexValue t < 16 ^ t.length := by
  induction t using List.reverseRecOn with
  | nil => simp [hexValue,IpText.ofParts]
  | append_singleton t c ih =>
    have hlt := ih fun x hx => h x (List.mem_append_left _ hx)
    have hdigit := hexDigit_lt (h c (by simp))
    rw [hexValue_append,List.length_append,List.length_singleton,pow_succ]
    omega

theorem HexGroup.lt {t : Text} {n : Nat} (h : HexGroup t n) : n < 65536 := by
  obtain ⟨-,hlen,hhex,rfl⟩ := h
  calc
    hexValue t < 16 ^ t.length := hexValue_lt t hhex
    _ ≤ 16 ^ 4 := Nat.pow_le_pow_right (by decide) hlen

theorem Groups.lt {q : Bool} {t : Text} {ns : List Nat} (h : Groups q t ns) :
    ∀ n ∈ ns, n < 65536 := by
  induction h with
  | last h => simpa using HexGroup.lt h
  | quad h =>
    obtain ⟨ha,hb,hc,hd⟩ := h.bounds
    simp only [List.mem_cons,List.not_mem_nil,or_false,forall_eq_or_imp,forall_eq]
    omega
  | cons h _ ih => simpa using ⟨HexGroup.lt h,ih⟩

theorem NoneOr.lt {q : Bool} {t : Text} {ns : List Nat} (h : NoneOr (Groups q) t ns) :
    ∀ n ∈ ns, n < 65536 := by
  rcases h with ⟨-,rfl⟩ | h
  · simp
  · exact Groups.lt h

theorem Hextets.lt {q : Bool} {t : Text} {groups : List Nat} (h : Hextets q t groups) :
    ∀ n ∈ groups, n < 65536 := by
  cases h with
  | full h _ => exact Groups.lt h
  | compressed h₁ h₂ _ =>
    intro n hn
    simp only [List.mem_append,List.mem_replicate] at hn
    rcases hn with (hn | ⟨-,rfl⟩) | hn
    · exact NoneOr.lt h₁ n hn
    · decide
    · exact NoneOr.lt h₂ n hn

theorem Hextets.groups {q : Bool} {t : Text} {groups : List Nat} (h : Hextets q t groups) :
    ∃ g₀ g₁ g₂ g₃ g₄ g₅ g₆ g₇, groups = [g₀,g₁,g₂,g₃,g₄,g₅,g₆,g₇] ∧
      (g₀ < 65536 ∧ g₁ < 65536 ∧ g₂ < 65536 ∧ g₃ < 65536) ∧
        g₄ < 65536 ∧ g₅ < 65536 ∧ g₆ < 65536 ∧ g₇ < 65536 := by
  have hlt := Hextets.lt h
  match groups, h.length_eq with
  | [g₀,g₁,g₂,g₃,g₄,g₅,g₆,g₇], _ =>
    refine ⟨g₀,g₁,g₂,g₃,g₄,g₅,g₆,g₇,rfl,⟨?_,?_,?_,?_⟩,?_,?_,?_,?_⟩ <;> exact hlt _ (by simp)

end bounds

section unique

theorem noCapital_lower (t : Text) : NoCapital (lower t) := by
  intro d hd hhex
  obtain ⟨c,-,rfl⟩ := List.mem_map.1 hd
  have hc := isHex_bounds hhex
  rw [isHex_toLower] at hhex
  have hascii := isHex_bounds hhex
  refine ascii_cases (p := fun c => IpText.isHex c = true → isLowerHex c.toLower = true)
    (by decide +kernel) ?_ hhex
  omega

theorem hextets_unique {t : Text} {groups groups' : List Nat} (h : Hextets true t groups)
    (k : Hextets true t groups') : groups = groups' := by
  rw [← hextets_lower] at h k
  have hcap := noCapital_lower t
  exact Option.some.inj (((expand_eq_some hcap).2 h).symm.trans ((expand_eq_some hcap).2 k))

theorem not_quad_of_hextets {t : Text} {groups : List Nat} {a b c d : Nat}
    (h : Hextets true (withoutZone t) groups) : ¬ Quad t a b c d := fun hq =>
  hq.colon_free ((List.takeWhile_prefix _).subset h.colon_mem)

/-- A text denotes one address at most. -/
theorem denotes_unique {t : Text} {a b : Address} (h : Denotes t a) (k : Denotes t b) : a = b := by
  cases h with
  | v4 h =>
    cases k with
    | v4 k =>
      obtain ⟨rfl,rfl,rfl,rfl⟩ := quad_unique h k
      rfl
    | v6 k => exact absurd h (not_quad_of_hextets k)
  | v6 h =>
    cases k with
    | v4 k => exact absurd k (not_quad_of_hextets h)
    | v6 k => rw [hextets_unique h k]

theorem hextets_injective {p q : Bool} {t u : Text} {ms ns : List Nat} (h : Hextets p t ms)
    (k : Hextets q u ns) (heq : hextets ms = hextets ns) : ms = ns := by
  obtain ⟨a₀,a₁,a₂,a₃,a₄,a₅,a₆,a₇,rfl,⟨ha₀,ha₁,ha₂,ha₃⟩,ha₄,ha₅,ha₆,ha₇⟩ := Hextets.groups h
  obtain ⟨b₀,b₁,b₂,b₃,b₄,b₅,b₆,b₇,rfl,⟨hb₀,hb₁,hb₂,hb₃⟩,hb₄,hb₅,hb₆,hb₇⟩ := Hextets.groups k
  rw [← BitVec.toNat_inj,toNat_hextets ha₀ ha₁ ha₂ ha₃ ha₄ ha₅ ha₆ ha₇,
    toNat_hextets hb₀ hb₁ hb₂ hb₃ hb₄ hb₅ hb₆ hb₇] at heq
  obtain rfl : a₇ = b₇ := by omega
  obtain rfl : a₆ = b₆ := by omega
  obtain rfl : a₅ = b₅ := by omega
  obtain rfl : a₄ = b₄ := by omega
  obtain rfl : a₃ = b₃ := by omega
  obtain rfl : a₂ = b₂ := by omega
  obtain rfl : a₁ = b₁ := by omega
  obtain rfl : a₀ = b₀ := by omega
  rfl

end unique

section verdict

def nat64Prefix : Block 128 := ⟨hextets [0x64,0xff9b,0,0,0,0,0,0],32⟩

def OutsideNat64 : Address → Prop
  | .v4 _ => False
  | .v6 n => nat64Prefix.Mem n ∧ ¬ IpText.nat64.Mem n

instance : DecidablePred OutsideNat64
  | .v4 _ => inferInstanceAs (Decidable False)
  | .v6 n => inferInstanceAs (Decidable (nat64Prefix.Mem n ∧ ¬ IpText.nat64.Mem n))

variable {P : Platform}

theorem stripBrackets_quad {s : Text} {a b c d : Nat} (h : Quad s a b c d) :
    stripBrackets s = s := by
  have hfree : ∀ x, x.isDigit = false → x ≠ '.' → x ∉ s := by
    intro x hx hne hmem
    rcases h.chars x hmem with hdigit | rfl
    · rw [hx] at hdigit
      cases hdigit
    · exact hne rfl
  have hopen : ¬ s.head? = some '[' := fun hx =>
    hfree '[' (by decide) (by decide) (List.mem_of_head? hx)
  have hclose : ¬ s.getLast? = some ']' := fun hx =>
    hfree ']' (by decide) (by decide) (List.mem_of_getLast? hx)
  simp only [stripBrackets,if_neg hopen,if_neg hclose]

theorem isWellFormedIp_cases (hP : ∀ t, Lowered t (P.toLowerCase t)) {s : Text}
    (h : isWellFormedIp P s = true) : (∃ a b c d, Quad s a b c d) ∨
      parseIPv4 s = none ∧ ':' ∈ s ∧ ∃ groups, expandIPv6 P s = some groups ∧
        Hextets true (withoutZone (stripBrackets s)) groups := by
  rw [isWellFormedIp] at h
  cases hparse : parseIPv4 s with
  | some ns =>
    obtain ⟨a,b,c,d,-,hq⟩ := quad_of_parseIPv4 hparse
    exact .inl ⟨a,b,c,d,hq⟩
  | none =>
    rw [hparse,Option.isSome_none,if_neg Bool.false_ne_true] at h
    split at h
    next hcolon =>
      obtain ⟨groups,hg⟩ := Option.isSome_iff_exists.1 h
      exact .inr ⟨rfl,hcolon,groups,hg,(expandIPv6_eq_some (hP s)).1 hg⟩
    next => cases h

theorem isPrivateIpAddress_quad {s : Text} {a b c d : Nat} (h : Quad s a b c d) :
    isPrivateIpAddress P s = isPrivateIPv4 s := by
  rw [isPrivateIpAddress,if_neg h.colon_free]
  cases isPrivateIPv4 s <;> rfl

theorem isPrivateIpAddress_hextets {s : Text} {g₀ g₁ g₂ g₃ g₄ g₅ g₆ g₇ : Nat}
    (hparse : parseIPv4 s = none) (hcolon : ':' ∈ s)
    (h : expandIPv6 P s = some [g₀,g₁,g₂,g₃,g₄,g₅,g₆,g₇]) :
    isPrivateIpAddress P s = isPrivateGroups g₀ g₁ g₂ g₃ g₄ g₅ g₆ g₇ := by
  have hv4 : isPrivateIPv4 s = false := by rw [isPrivateIPv4,hparse]
  rw [isPrivateIpAddress,hv4,if_neg Bool.false_ne_true,if_pos hcolon,isPrivateIPv6,h]

theorem isWellFormedIp_denotes (hP : ∀ t, Lowered t (P.toLowerCase t)) {s : Text}
    (h : isWellFormedIp P s = true) : ∃! a, Denotes (stripBrackets s) a := by
  rcases isWellFormedIp_cases hP h with ⟨a,b,c,d,hq⟩ | ⟨-,-,groups,-,hg⟩
  · rw [stripBrackets_quad hq]
    exact ⟨_,.v4 hq,fun b hb => denotes_unique hb (.v4 hq)⟩
  · exact ⟨_,.v6 hg,fun b hb => denotes_unique hb (.v6 hg)⟩

theorem not_outsideNat64 {g₀ g₁ g₂ g₃ g₄ g₅ g₆ g₇ : Nat}
    (hlow : g₀ < 65536 ∧ g₁ < 65536 ∧ g₂ < 65536 ∧ g₃ < 65536)
    (hhigh : g₄ < 65536 ∧ g₅ < 65536 ∧ g₆ < 65536 ∧ g₇ < 65536)
    (h : ¬ OutsideNat64 (.v6 (hextets [g₀,g₁,g₂,g₃,g₄,g₅,g₆,g₇]))) :
    g₀ = 0x64 → g₁ = 0xff9b → g₂ = 0 ∧ g₃ = 0 ∧ g₄ = 0 ∧ g₅ = 0 := by
  obtain ⟨h₀,h₁,h₂,h₃⟩ := hlow
  obtain ⟨h₄,h₅,h₆,h₇⟩ := hhigh
  have hn := toNat_hextets h₀ h₁ h₂ h₃ h₄ h₅ h₆ h₇
  rintro rfl rfl
  have hfirst : nat64Prefix.Mem (hextets [0x64,0xff9b,g₂,g₃,g₄,g₅,g₆,g₇]) := by
    change (hextets [0x64,0xff9b,g₂,g₃,g₄,g₅,g₆,g₇]).toNat / 2 ^ 96 = 0x64 * 65536 + 0xff9b
    omega
  have hmem : (hextets [0x64,0xff9b,g₂,g₃,g₄,g₅,g₆,g₇]).toNat / 2 ^ 32 =
      (0x64 * 65536 + 0xff9b) * 2 ^ 64 := by
    by_contra hmem
    exact h ⟨hfirst,hmem⟩
  generalize (hextets [0x64,0xff9b,g₂,g₃,g₄,g₅,g₆,g₇]).toNat = n at hn hmem
  have h32 : n / 2 ^ 32 =
      ((((0x64 * 65536 + 0xff9b) * 65536 + g₂) * 65536 + g₃) * 65536 + g₄) * 65536 + g₅ := by omega
  rw [h32] at hmem
  omega

/-- The verdict is that of the address. -/
theorem isPrivateIpAddress_iff (hP : ∀ t, Lowered t (P.toLowerCase t)) {s : Text} {a : Address}
    (h : isWellFormedIp P s = true) (ha : Denotes (stripBrackets s) a) (hout : ¬ OutsideNat64 a) :
    isPrivateIpAddress P s = true ↔ a.IsPrivate := by
  rcases isWellFormedIp_cases hP h with ⟨w,x,y,z,hq⟩ | ⟨hparse,hcolon,groups,hexp,hg⟩
  · rw [stripBrackets_quad hq] at ha
    obtain rfl := denotes_unique ha (.v4 hq)
    rw [isPrivateIpAddress_quad hq]
    exact isPrivateIPv4_iff hq
  · obtain rfl := denotes_unique ha (.v6 hg)
    obtain ⟨g₀,g₁,g₂,g₃,g₄,g₅,g₆,g₇,rfl,hlow,hhigh⟩ := Hextets.groups hg
    have hnat := not_outsideNat64 hlow hhigh hout
    obtain ⟨h₀,h₁,h₂,h₃⟩ := hlow
    obtain ⟨h₄,h₅,h₆,h₇⟩ := hhigh
    rw [isPrivateIpAddress_hextets hparse hcolon hexp]
    exact isPrivateGroups_iff h₀ h₁ h₂ h₃ h₄ h₅ h₆ h₇ hnat

theorem hextets_of_outsideNat64 (hP : ∀ t, Lowered t (P.toLowerCase t)) {s : Text} {a : Address}
    (h : isWellFormedIp P s = true) (ha : Denotes (stripBrackets s) a) (hout : OutsideNat64 a) :
    ∃ groups, a = .v6 (hextets groups) ∧ parseIPv4 s = none ∧ ':' ∈ s ∧
      expandIPv6 P s = some groups ∧ Hextets true (withoutZone (stripBrackets s)) groups := by
  rcases isWellFormedIp_cases hP h with ⟨w,x,y,z,hq⟩ | ⟨hparse,hcolon,groups,hexp,hg⟩
  · rw [stripBrackets_quad hq] at ha
    obtain rfl := denotes_unique ha (.v4 hq)
    exact hout.elim
  · exact ⟨groups,denotes_unique ha (.v6 hg),hparse,hcolon,hexp,hg⟩

theorem isPrivateIpAddress_eq (hP : ∀ t, Lowered t (P.toLowerCase t)) {s t : Text} {a : Address}
    (hs : isWellFormedIp P s = true) (ht : isWellFormedIp P t = true)
    (ha : Denotes (stripBrackets s) a) (hb : Denotes (stripBrackets t) a) :
    isPrivateIpAddress P s = isPrivateIpAddress P t := by
  by_cases hout : OutsideNat64 a
  · obtain ⟨groups,rfl,hparse,hcolon,hexp,hg⟩ := hextets_of_outsideNat64 hP hs ha hout
    obtain ⟨groups',heq,hparse',hcolon',hexp',hg'⟩ := hextets_of_outsideNat64 hP ht hb hout
    obtain rfl := hextets_injective hg hg' (Address.v6.inj heq)
    obtain ⟨g₀,g₁,g₂,g₃,g₄,g₅,g₆,g₇,rfl,-⟩ := Hextets.groups hg
    rw [isPrivateIpAddress_hextets hparse hcolon hexp,
      isPrivateIpAddress_hextets hparse' hcolon' hexp']
  · rw [Bool.eq_iff_iff,isPrivateIpAddress_iff hP hs ha hout,isPrivateIpAddress_iff hP ht hb hout]

end verdict

section resolve

variable {P : Platform}

theorem checkAll_eq_ok {refuses : Text → Option Refusal} {ips ips' : List Text}
    (h : checkAll refuses ips = .ok ips') : ips' = ips ∧ ∀ ip ∈ ips, refuses ip = none := by
  rw [checkAll] at h
  cases hfind : ips.findSome? refuses with
  | some refusal =>
    rw [hfind] at h
    cases h
  | none =>
    rw [hfind] at h
    exact ⟨(Except.ok.inj h).symm,List.findSome?_eq_none_iff.1 hfind⟩

theorem assertRemote_eq_ok {options : RemoteUrlSafetyOptions} {hostname : Text}
    {ips : List Text} (h : assertRemote P options hostname = .ok ips) :
    ∀ ip ∈ ips, isWellFormedIp P ip = true ∧ isPrivateIpAddress P ip = false := by
  rw [assertRemote] at h
  cases hanswer : options.remoteResolver hostname with
  | none =>
    rw [hanswer] at h
    cases h
  | some resolvedIps =>
    rw [hanswer] at h
    dsimp only at h
    split at h
    next => cases h
    next =>
      obtain ⟨rfl,hall⟩ := checkAll_eq_ok h
      intro ip hip
      have hip := hall ip hip
      cases hwell : isWellFormedIp P ip with
      | false => simp [hwell] at hip
      | true => simpa [hwell] using hip

theorem assertLocalSubstrate_eq_ok {options : RemoteUrlSafetyOptions} {url hostname : Text}
    {parsed : URL} {ips : List Text}
    (h : assertLocalSubstrate options url hostname parsed = .ok ips) :
    ∀ ip ∈ ips, isAllowedLocalSubstrateIp ip = true := by
  rw [assertLocalSubstrate] at h
  split at h
  next => cases h
  next =>
    split at h
    next aRecords aaaaRecords _ _ =>
      dsimp only at h
      split at h
      next => cases h
      next =>
        obtain ⟨rfl,hall⟩ := checkAll_eq_ok h
        exact fun ip hip => by simpa using hall ip hip
    next => cases h

theorem isAllowedLocalSubstrateIp_quad {ip : Text} (h : isAllowedLocalSubstrateIp ip = true) :
    ∃ a b c d, Quad ip a b c d ∧ (a = 127 ∧ b = 0 ∧ c = 0 ∧ d = 1 ∨ a = 172 ∧ 16 ≤ b ∧ b ≤ 31) := by
  rw [isAllowedLocalSubstrateIp] at h
  cases hparse : parseIPv4 ip with
  | none => simp [hparse] at h
  | some ns =>
    obtain ⟨a,b,c,d,rfl,hq⟩ := quad_of_parseIPv4 hparse
    rw [hparse] at h
    exact ⟨a,b,c,d,hq,by simpa [and_assoc] using h⟩

theorem assertSafeRemoteUrlResolved_eq_ok {options : RemoteUrlSafetyOptions} {url : Text}
    {ips : List Text} (h : assertSafeRemoteUrlResolved P options url = .ok ips) :
    ∃ parsed, Whatwg.parse P.parseHost url = some parsed ∧
      if usesLocalSubstrate P options parsed = true then
        ∀ ip ∈ ips, isAllowedLocalSubstrateIp ip = true
      else ∀ ip ∈ ips, isWellFormedIp P ip = true ∧ isPrivateIpAddress P ip = false := by
  rw [assertSafeRemoteUrlResolved] at h
  split at h
  next => cases h
  next =>
    cases hparse : Whatwg.parse P.parseHost url with
    | none =>
      rw [hparse] at h
      cases h
    | some parsed =>
      rw [hparse] at h
      dsimp only at h
      refine ⟨parsed,rfl,?_⟩
      split at h
      next hlocal =>
        rw [if_pos hlocal]
        exact assertLocalSubstrate_eq_ok h
      next hlocal =>
        rw [if_neg hlocal]
        exact assertRemote_eq_ok h

end resolve

section classifies

/-- Addresses are told by what they denote, but for what is in the first 32 bits of the NAT64 block
and not in the block. -/
structure Classifies (P : Platform) : Prop where
  denotes : ∀ s, isWellFormedIp P s = true → ∃! a, Denotes (stripBrackets s) a
  expanded : ∀ s groups, expandIPv6 P s = some groups ↔
    Hextets true (withoutZone (stripBrackets s)) groups
  eight : ∀ s groups, expandIPv6 P s = some groups →
    Denotes (stripBrackets s) (.v6 (hextets groups)) ∧ groups.length = 8 ∧
      ∀ group ∈ groups, group < 65536
  verdict : ∀ s a, isWellFormedIp P s = true → Denotes (stripBrackets s) a → ¬ OutsideNat64 a →
    (isPrivateIpAddress P s = true ↔ a.IsPrivate)
  spellings : ∀ s t a, isWellFormedIp P s = true → isWellFormedIp P t = true →
    Denotes (stripBrackets s) a → Denotes (stripBrackets t) a →
      isPrivateIpAddress P s = isPrivateIpAddress P t
  remote : ∀ options url parsed ips, assertSafeRemoteUrlResolved P options url = .ok ips →
    Whatwg.parse P.parseHost url = some parsed → usesLocalSubstrate P options parsed = false →
      ∀ ip ∈ ips, ∃! a, Denotes (stripBrackets ip) a ∧ (¬ OutsideNat64 a → ¬ a.IsPrivate)
  substrate : ∀ options url parsed ips, assertSafeRemoteUrlResolved P options url = .ok ips →
    Whatwg.parse P.parseHost url = some parsed → usesLocalSubstrate P options parsed = true →
      ∀ ip ∈ ips, ∃ a b c d, Quad ip a b c d ∧
        (a = 127 ∧ b = 0 ∧ c = 0 ∧ d = 1 ∨ a = 172 ∧ 16 ≤ b ∧ b ≤ 31)

/-- The classifier depends on the address alone. -/
theorem classifier_address_only (P : Platform) (hP : ∀ t, Lowered t (P.toLowerCase t)) :
    Classifies P where
  denotes _ h := isWellFormedIp_denotes hP h
  expanded s _ := expandIPv6_eq_some (hP s)
  eight s _ h := by
    have hg := (expandIPv6_eq_some (hP s)).1 h
    exact ⟨.v6 hg,hg.length_eq,Hextets.lt hg⟩
  verdict _ _ h ha hout := isPrivateIpAddress_iff hP h ha hout
  spellings _ _ _ hs ht ha hb := isPrivateIpAddress_eq hP hs ht ha hb
  remote options url parsed ips h hparse hlocal := by
    obtain ⟨parsed',hparse',hall⟩ := assertSafeRemoteUrlResolved_eq_ok h
    obtain rfl := Option.some.inj (hparse.symm.trans hparse')
    rw [if_neg (Bool.eq_false_iff.1 hlocal)] at hall
    intro ip hip
    obtain ⟨hwell,hpublic⟩ := hall ip hip
    obtain ⟨a,ha,huniq⟩ := isWellFormedIp_denotes hP hwell
    refine ⟨a,⟨ha,fun hout hprivate => ?_⟩,fun b hb => huniq b hb.1⟩
    rw [(isPrivateIpAddress_iff hP hwell ha hout).2 hprivate] at hpublic
    cases hpublic
  substrate options url parsed ips h hparse hlocal := by
    obtain ⟨parsed',hparse',hall⟩ := assertSafeRemoteUrlResolved_eq_ok h
    obtain rfl := Option.some.inj (hparse.symm.trans hparse')
    rw [if_pos hlocal] at hall
    exact fun ip hip => isAllowedLocalSubstrateIp_quad (hall ip hip)

theorem lowered_lower (t : Text) : Lowered t (lower t) := by
  induction t with
  | nil => exact ⟨[],.nil,rfl⟩
  | cons c t ih =>
    have hc : Piece c [c.toLower] := by
      by_cases hascii : c.toNat < 128
      · exact .inl ⟨hascii,rfl⟩
      · refine .inr ⟨Nat.not_lt.1 hascii,List.cons_ne_nil _ _,fun d hd => ?_⟩
        rw [List.mem_singleton.1 hd,toLower_of_not_ascii hascii]
        by_contra haddr
        exact hascii (toNat_lt_of_isAddressChar (by simpa using haddr))
    exact ih.cons hc

theorem classifier_address_only_plain : Classifies ActorIdentity.plainHosts :=
  classifier_address_only ActorIdentity.plainHosts lowered_lower

def substrateOptions : RemoteUrlSafetyOptions where
  allowLocalSubstrateRemoteFetches := true
  localResolver _ recordType := if recordType = "A".toList then some ["127.0.0.1".toList] else some []
  remoteResolver _ := none

theorem brackets_not_denoted : ¬ ∃ a, Denotes "[::1]".toList a := by
  rintro ⟨a,h⟩
  cases h with
  | v4 h => exact absurd (h.chars '[' (by decide)) (by decide)
  | v6 h => exact absurd (h.chars '[' (by decide)) (by decide)

/-- A text in brackets is taken for an address that the grammar does not have, and the local
substrate answers with a private one. -/
theorem brackets_wellFormed_substrate_private :
    (isWellFormedIp ActorIdentity.plainHosts "[::1]".toList = true ∧
      ¬ ∃ a, Denotes "[::1]".toList a) ∧
    assertSafeRemoteUrlResolved ActorIdentity.plainHosts substrateOptions
        "https://takos.test/users/ada".toList = .ok ["127.0.0.1".toList] ∧
      isPrivateIpAddress ActorIdentity.plainHosts "127.0.0.1".toList = true := by
  refine ⟨⟨by decide +kernel,brackets_not_denoted⟩,?_,by decide +kernel⟩
  rfl

end classifies

end Yurucommu.IpClassifier
