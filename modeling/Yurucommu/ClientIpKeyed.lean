import Yurucommu.ClientIp
import Yurucommu.IpClassifierHolds

/-!
When the key of a request is a matter of its peer's address alone.
-/

set_option autoImplicit false

namespace Yurucommu.ClientIp

open Whatwg (Text)
open ActorIdentity (trim parseIPv4)
open IpText (Address Denotes Groups Hextets Quad isHex mapped lastV4 hextets quad withoutZone)

section spellings

variable {t : Text} {a b : Address}

/-- The address of a host: an IPv4-mapped address is that of the IPv4 host. -/
def unmapped : Address → Address
  | .v4 n => .v4 n
  | .v6 n => if mapped.Mem n then .v4 (lastV4 n) else .v6 n

def Spells (t : Text) (a : Address) : Prop :=
  '%' ∉ t ∧ ∃ written, Denotes t written ∧ unmapped written = a

theorem Spells.unique (h : Spells t a) (h' : Spells t b) : a = b := by
  obtain ⟨_,written,hwritten,rfl⟩ := h
  obtain ⟨_,written',hwritten',rfl⟩ := h'
  rw [IpClassifier.denotes_unique hwritten hwritten']

def Plain (t : Text) : Prop := ¬ ('.' ∈ t ∧ ':' ∈ t)

theorem isValidIP_quad {a b c d : Nat} (h : Quad t a b c d) : isValidIP t = true := by
  have hread := IpClassifier.parseIPv4_of_quad h
  simp only [parseIPv4] at hread
  rw [Option.ite_none_right_eq_some,Option.ite_none_left_eq_some] at hread
  obtain ⟨hparts,hsmall,_⟩ := hread
  unfold isValidIP
  rw [if_pos (show ipv4Pattern t = true from hparts),List.all_eq_true]
  intro part hpart
  rw [decide_eq_true_eq]
  by_contra hbig
  refine hsmall (List.any_eq_true.mpr ⟨_,List.mem_map_of_mem hpart,?_⟩)
  simpa using hbig

theorem exists_quad_of_isValidIP (h : isValidIP t = true) (hpattern : ipv4Pattern t = true) :
    ∃ a b c d, Quad t a b c d := by
  unfold isValidIP at h
  rw [if_pos hpattern,List.all_eq_true] at h
  have hread : parseIPv4 t = some ((t.splitOn '.').map fun part => Nat.ofDigitChars 10 part 0) := by
    simp only [ipv4Pattern] at hpattern
    simp only [parseIPv4]
    rw [if_pos hpattern,if_neg]
    intro hbig
    obtain ⟨n,hn,hlt⟩ := List.any_eq_true.mp hbig
    obtain ⟨part,hpart,rfl⟩ := List.mem_map.mp hn
    have hle := h part hpart
    rw [decide_eq_true_eq] at hle hlt
    omega
  obtain ⟨a,b,c,d,_,hquad⟩ := IpClassifier.quad_of_parseIPv4 hread
  exact ⟨a,b,c,d,hquad⟩

theorem plain_of_isValidIP (h : isValidIP t = true) : Plain t := by
  rintro ⟨hdot,hcolon⟩
  by_cases hpattern : ipv4Pattern t = true
  · obtain ⟨a,b,c,d,hquad⟩ := exists_quad_of_isValidIP h hpattern
    exact hquad.colon_free hcolon
  · unfold isValidIP at h
    rw [if_neg hpattern,Bool.and_eq_true,ipv6Pattern,Bool.and_eq_true,List.all_eq_true] at h
    have hno := h.1.2 '.' hdot
    exact absurd hno (by decide)

theorem isValidIP_hextets {groups : List Nat} (h : Hextets true t groups) (hdot : '.' ∉ t) :
    isValidIP t = true := by
  have hpattern : ¬ ipv4Pattern t = true := by
    rw [ipv4Pattern,List.splitOn_eq_singleton hdot]
    simp
  unfold isValidIP
  rw [if_neg hpattern,Bool.and_eq_true,ipv6Pattern,Bool.and_eq_true,List.all_eq_true]
  refine ⟨⟨decide_eq_true h.ne_nil,fun c hc => ?_⟩,List.contains_iff_mem.mpr h.colon_mem⟩
  have hform := h.chars c hc
  rw [IpText.isFormChar,Bool.or_eq_true,Bool.or_eq_true,decide_eq_true_eq,
    decide_eq_true_eq] at hform
  rw [Bool.or_eq_true,decide_eq_true_eq]
  rcases hform with hleft | rfl
  · exact hleft
  · exact absurd hc hdot

/-- A spelling is admitted exactly where it is plain. -/
theorem Spells.isValidIP_iff (h : Spells t a) : isValidIP t = true ↔ Plain t := by
  refine ⟨plain_of_isValidIP,fun hplain => ?_⟩
  obtain ⟨hzone,written,hwritten,_⟩ := h
  cases hwritten with
  | v4 hquad => exact isValidIP_quad hquad
  | v6 hhextets =>
    have hwhole : withoutZone t = t := by
      rw [withoutZone,List.takeWhile_eq_self_iff]
      intro c hc
      rw [decide_eq_true_eq]
      rintro rfl
      exact hzone hc
    rw [hwhole] at hhextets
    exact isValidIP_hextets hhextets fun hdot => hplain ⟨hdot,hhextets.colon_mem⟩

end spellings

section keys

variable {flag : Option Text} {s own ip : Text} {sent : Headers}

theorem not_isValidIP_unknown : isValidIP unknown = false := by decide

theorem valid_some (s : Text) : valid (some s) = if isValidIP s then some s else none := by
  rw [valid,Option.filter_some]

@[simp] theorem valid_none : valid none = none := rfl

theorem valid_stamp (s : Text) : valid (stamp (some s)) = valid (some s) := by
  by_cases hs : s = []
  · subst hs
    decide
  · rw [stamp,Option.filter_some,if_pos (decide_eq_true hs)]

theorem getClientIP_untrusted {c : Context} (htrust : proxyTrust c.trustProxy = .none)
    (hedge : c.cf = false) : getClientIP c = (valid c.socketIp).getD unknown := by
  unfold getClientIP fromCloudflare fromProxy fromLegacy isCloudflareEdge stampedSocketIp
  simp [htrust,hedge]

theorem keyOf_direct (htrust : proxyTrust flag = .none) :
    keyOf .direct flag s sent = (valid (some s)).getD unknown := by
  rw [← valid_stamp]
  exact getClientIP_untrusted htrust rfl

theorem keyOf_proxy (htrust : proxyTrust flag = .none) :
    keyOf (.proxy own) flag s sent = (valid (some own)).getD unknown := by
  rw [← valid_stamp]
  exact getClientIP_untrusted htrust rfl

theorem keyOf_edge (hs : isValidIP s = true) : keyOf .edge flag s sent = s := by
  unfold keyOf getClientIP fromCloudflare isCloudflareEdge arrive
  simp [valid_some,hs]

def silent : Headers := ⟨none,none,none⟩

theorem keyOf_edge_silent (hs : isValidIP s = false) : keyOf .edge flag s silent = unknown := by
  have hno : valid (some s) = none := by
    rw [valid_some,if_neg (Bool.eq_false_iff.mp hs)]
  unfold keyOf getClientIP fromCloudflare fromProxy fromLegacy isCloudflareEdge stampedSocketIp
    arrive
  simp [hno,silent,leftmost]

def forged (ip : Text) : Headers := ⟨none,some ip,none⟩

/-- An address that reads the same before a comma. -/
structure Bait (ip : Text) : Prop where
  valid : isValidIP ip = true
  comma : ',' ∉ ip
  trimmed : trim ip = ip

theorem leftmost_bait (h : Bait ip) (rest : Text) (hrest : rest = [] ∨ ∃ r, rest = ',' :: r) :
    valid (leftmost (some (ip ++ rest))) = some ip := by
  have hclean : ∀ c ∈ ip, decide (c ≠ ',') = true := by
    intro c hc
    rw [decide_eq_true_eq]
    rintro rfl
    exact h.comma hc
  have htake : (ip ++ rest).takeWhile (· ≠ ',') = ip := by
    rw [List.takeWhile_append_of_pos hclean]
    rcases hrest with rfl | ⟨r,rfl⟩
    · simp
    · simp
  rw [leftmost,Option.map_some,htake,h.trimmed,valid_some,if_pos h.valid]

theorem getClientIP_forged {c : Context} (htrust : proxyTrust c.trustProxy ≠ .none)
    (hedge : c.cf = false) (hcf : c.headers.cfConnectingIp = none)
    (hxff : valid (leftmost c.headers.xForwardedFor) = some ip) : getClientIP c = ip := by
  unfold getClientIP fromCloudflare fromProxy isCloudflareEdge
  cases hcase : proxyTrust c.trustProxy with
  | none => exact absurd hcase htrust
  | cf => simp [hedge,hcf,hxff]
  | generic => simp [hedge,hxff]
  | legacy => simp [hedge,hxff]

theorem keyOf_forged {shape : Shape} (hshape : shape = .direct ∨ ∃ own, shape = .proxy own)
    (htrust : proxyTrust flag ≠ .none) (h : Bait ip) : keyOf shape flag s (forged ip) = ip := by
  rcases hshape with rfl | ⟨own,rfl⟩
  · refine getClientIP_forged htrust rfl rfl ?_
    have hleft := leftmost_bait h [] (.inl rfl)
    rwa [List.append_nil] at hleft
  · refine getClientIP_forged htrust rfl rfl ?_
    have hleft := leftmost_bait h (", ".toList ++ s) (.inr ⟨_,rfl⟩)
    rwa [← List.append_assoc] at hleft

end keys

section identities

variable {flag : Option Text} {s t own ip : Text} {a b : Address} {shape : Shape} {sent : Headers}

theorem isFormChar_of_isValidIP (h : isValidIP s = true) : ∀ c ∈ s, IpText.isFormChar c = true := by
  intro c hc
  by_cases hpattern : ipv4Pattern s = true
  · obtain ⟨a,b,c',d,hquad⟩ := exists_quad_of_isValidIP h hpattern
    have hgroups : Groups true s [a * 256 + b,c' * 256 + d] := .quad hquad
    exact hgroups.chars c hc
  · unfold isValidIP at h
    rw [if_neg hpattern,Bool.and_eq_true,ipv6Pattern,Bool.and_eq_true,List.all_eq_true] at h
    have hchar := h.1.2 c hc
    rw [IpText.isFormChar,hchar,Bool.true_or]

theorem not_space_of_isFormChar {c : Char} (h : IpText.isFormChar c = true) :
    ActorIdentity.isJsSpace c = false := by
  rw [IpText.isFormChar,Bool.or_eq_true,Bool.or_eq_true,decide_eq_true_eq,decide_eq_true_eq] at h
  rcases h with (hhex | rfl) | rfl
  · have hbounds := IpClassifier.isHex_bounds hhex
    simp [ActorIdentity.isJsSpace]
    omega
  · decide
  · decide

theorem bait_of_isValidIP (h : isValidIP s = true) : Bait s := by
  have hchars := isFormChar_of_isValidIP h
  refine ⟨h,fun hcomma => absurd (hchars ',' hcomma) (by decide),?_⟩
  have hclean : ∀ c ∈ s, ActorIdentity.isJsSpace c = false :=
    fun c hc => not_space_of_isFormChar (hchars c hc)
  rw [trim,Whatwg.rdropWhile_of_avoids]
  · cases s with
    | nil => rfl
    | cons c s => rw [List.dropWhile_cons_of_neg (by simp [hclean c List.mem_cons_self])]
  · intro c hc
    exact hclean c (List.dropWhile_subset _ hc)

def Unforged (sent : Headers) : Prop :=
  ∀ xff, sent.xForwardedFor = some xff → isValidIP (trim (xff.takeWhile (· ≠ ','))) = false

theorem takeWhile_comma (x rest : Text) :
    (x ++ ',' :: rest).takeWhile (· ≠ ',') = x.takeWhile (· ≠ ',') := by
  induction x with
  | nil => simp
  | cons c x ih =>
    rw [List.cons_append,List.takeWhile_cons,List.takeWhile_cons,ih]

theorem getClientIP_proxied {c : Context}
    (htrust : proxyTrust c.trustProxy = .generic ∨ proxyTrust c.trustProxy = .legacy)
    (hedge : c.cf = false) (hsource : (valid (leftmost c.headers.xForwardedFor) <|>
      valid c.headers.xRealIp) = some ip) : getClientIP c = ip := by
  have hcloudflare : fromCloudflare c (proxyTrust c.trustProxy) = none := by
    unfold fromCloudflare isCloudflareEdge
    rcases htrust with htrust | htrust
    · simp [hedge,htrust]
    · simp [hedge,htrust]
  have hproxy : fromProxy c (proxyTrust c.trustProxy) = some ip := by
    unfold fromProxy
    rw [hsource]
    rcases htrust with htrust | htrust
    · simp [htrust]
    · simp [htrust]
  unfold getClientIP
  dsimp only
  rw [hcloudflare,hproxy]
  rfl

theorem keyOf_unforged (htrust : proxyTrust flag = .generic ∨ proxyTrust flag = .legacy)
    (hs : isValidIP s = true) (h : Unforged sent) : keyOf (.proxy own) flag s sent = s := by
  have hpeer : valid (some s) = some s := by rw [valid_some,if_pos hs]
  have hproxy : (valid (leftmost (some (sent.xForwardedFor.elim s fun xff =>
      xff ++ ", ".toList ++ s))) <|> valid (some s)) = some s := by
    cases hxff : sent.xForwardedFor with
    | none =>
      have hleft := leftmost_bait (bait_of_isValidIP hs) [] (.inl rfl)
      rw [List.append_nil] at hleft
      rw [Option.elim_none,hleft]
      rfl
    | some xff =>
      have hfirst : (xff ++ ", ".toList ++ s).takeWhile (· ≠ ',') = xff.takeWhile (· ≠ ',') := by
        rw [List.append_assoc]
        exact takeWhile_comma xff (' ' :: s)
      rw [Option.elim_some,leftmost,Option.map_some,hfirst,valid_some,
        if_neg (Bool.eq_false_iff.mp (h xff hxff)),hpeer]
      rfl
  exact getClientIP_proxied htrust rfl hproxy

/-- Whatever of the allowed headers they send, requests of one address have one key, requests of two
have two, and none has the key that strangers share. -/
structure Identifies (allowed : Headers → Prop) (shape : Shape) (flag : Option Text) (s : Text)
    (a : Address) (t : Text) (b : Address) : Prop where
  same : a = b → ∀ sent sent', allowed sent → allowed sent' →
    keyOf shape flag s sent = keyOf shape flag t sent'
  other : a ≠ b → ∀ sent sent', allowed sent → allowed sent' →
    keyOf shape flag s sent ≠ keyOf shape flag t sent'
  known : ∀ sent, allowed sent →
    keyOf shape flag s sent ≠ unknown ∧ keyOf shape flag t sent ≠ unknown

/-- No proxy is trusted where the peers come directly, no address is written with a quad behind
colons, and an address is always written alike; behind a proxy all share the key of the proxy. -/
def Sound (flag : Option Text) (s : Text) (a : Address) (t : Text) (b : Address) : Shape → Prop
  | .direct => proxyTrust flag = .none ∧ Plain s ∧ Plain t ∧ (a = b → s = t)
  | .edge => Plain s ∧ Plain t ∧ (a = b → s = t)
  | .proxy own => proxyTrust flag = .none ∧ isValidIP own = true ∧ a = b

/-- Where every key is the spelling of its peer, the spellings have to be admitted and fixed. -/
theorem identifies_of_spelled {allowed : Headers → Prop} (hs : Spells s a) (ht : Spells t b)
    (hkeys : ∀ sent, allowed sent → keyOf shape flag s sent = s)
    (hkeyt : ∀ sent, allowed sent → keyOf shape flag t sent = t)
    (hps : Plain s) (hpt : Plain t) (hfixed : a = b → s = t) :
    Identifies allowed shape flag s a t b := by
  have hunknown : ∀ {u : Text}, isValidIP u = true → u ≠ unknown := by
    rintro u hu rfl
    rw [not_isValidIP_unknown] at hu
    cases hu
  constructor
  · intro hab sent sent' h h'
    rw [hkeys sent h,hkeyt sent' h',hfixed hab]
  · intro hab sent sent' h h' heq
    rw [hkeys sent h,hkeyt sent' h'] at heq
    subst heq
    exact hab (hs.unique ht)
  · intro sent h
    rw [hkeys sent h,hkeyt sent h]
    exact ⟨hunknown (hs.isValidIP_iff.mpr hps),hunknown (ht.isValidIP_iff.mpr hpt)⟩

/-- Clients that choose their keys are not told apart. -/
theorem not_identifies_of_forged
    (hforged : ∀ {u ip : Text}, Bait ip → keyOf shape flag u (forged ip) = ip) :
    ¬ Identifies (fun _ => True) shape flag s a t b := by
  intro h
  have hone : Bait "1.1.1.1".toList := bait_of_isValidIP (by decide)
  have htwo : Bait "2.2.2.2".toList := bait_of_isValidIP (by decide)
  by_cases hab : a = b
  · have hsame := h.same hab (forged "1.1.1.1".toList) (forged "2.2.2.2".toList) trivial trivial
    rw [hforged hone,hforged htwo] at hsame
    exact absurd hsame (by decide)
  · have hother := h.other hab (forged "1.1.1.1".toList) (forged "1.1.1.1".toList) trivial trivial
    rw [hforged hone,hforged hone] at hother
    exact hother rfl

theorem isValidIP_of_known (h : (valid (some s)).getD unknown ≠ unknown) : isValidIP s = true := by
  by_contra hno
  rw [valid_some,if_neg hno] at h
  exact h rfl

theorem getD_valid (h : isValidIP s = true) : (valid (some s)).getD unknown = s := by
  rw [valid_some,if_pos h]
  rfl

theorem spelled_of_identifies {allowed : Headers → Prop} (sent : Headers) (hallowed : allowed sent)
    (hkeys : keyOf shape flag s sent = (valid (some s)).getD unknown)
    (hkeyt : keyOf shape flag t sent = (valid (some t)).getD unknown)
    (h : Identifies allowed shape flag s a t b) : Plain s ∧ Plain t ∧ (a = b → s = t) := by
  obtain ⟨hknown,hknown'⟩ := h.known sent hallowed
  rw [hkeys] at hknown
  rw [hkeyt] at hknown'
  have hs := isValidIP_of_known hknown
  have ht := isValidIP_of_known hknown'
  refine ⟨plain_of_isValidIP hs,plain_of_isValidIP ht,fun hab => ?_⟩
  have hsame := h.same hab sent sent hallowed hallowed
  rwa [hkeys,hkeyt,getD_valid hs,getD_valid ht] at hsame

theorem identifies_direct_iff (hs : Spells s a) (ht : Spells t b) :
    Identifies (fun _ => True) .direct flag s a t b ↔ Sound flag s a t b .direct := by
  constructor
  · intro h
    have htrust : proxyTrust flag = .none := by
      by_contra hno
      exact not_identifies_of_forged (fun hip => keyOf_forged (.inl rfl) hno hip) h
    have hkey : ∀ {u : Text}, keyOf .direct flag u silent = (valid (some u)).getD unknown :=
      keyOf_direct htrust
    exact ⟨htrust,spelled_of_identifies silent trivial hkey hkey h⟩
  · rintro ⟨htrust,hps,hpt,hfixed⟩
    refine identifies_of_spelled hs ht (fun _ _ => ?_) (fun _ _ => ?_) hps hpt hfixed
    · rw [keyOf_direct htrust,getD_valid (hs.isValidIP_iff.mpr hps)]
    · rw [keyOf_direct htrust,getD_valid (ht.isValidIP_iff.mpr hpt)]

theorem keyOf_edge_silent_eq : keyOf .edge flag s silent = (valid (some s)).getD unknown := by
  cases hs : isValidIP s with
  | true => rw [keyOf_edge hs,getD_valid hs]
  | false =>
    rw [keyOf_edge_silent hs,valid_some,if_neg (Bool.eq_false_iff.mp hs)]
    rfl

theorem identifies_edge_iff (hs : Spells s a) (ht : Spells t b) :
    Identifies (fun _ => True) .edge flag s a t b ↔ Sound flag s a t b .edge := by
  constructor
  · exact spelled_of_identifies silent trivial keyOf_edge_silent_eq keyOf_edge_silent_eq
  · rintro ⟨hps,hpt,hfixed⟩
    exact identifies_of_spelled hs ht (fun _ _ => keyOf_edge (hs.isValidIP_iff.mpr hps))
      (fun _ _ => keyOf_edge (ht.isValidIP_iff.mpr hpt)) hps hpt hfixed

theorem identifies_proxy_iff :
    Identifies (fun _ => True) (.proxy own) flag s a t b ↔ Sound flag s a t b (.proxy own) := by
  constructor
  · intro h
    have htrust : proxyTrust flag = .none := by
      by_contra hno
      exact not_identifies_of_forged (fun hip => keyOf_forged (.inr ⟨own,rfl⟩) hno hip) h
    have hkey : ∀ u, keyOf (.proxy own) flag u silent = (valid (some own)).getD unknown :=
      fun _ => keyOf_proxy htrust
    have hknown := (h.known silent trivial).1
    rw [hkey] at hknown
    refine ⟨htrust,isValidIP_of_known hknown,?_⟩
    by_contra hab
    exact h.other hab silent silent trivial trivial ((hkey s).trans (hkey t).symm)
  · rintro ⟨htrust,hown,hab⟩
    have hkey : ∀ u sent, keyOf (.proxy own) flag u sent = own := by
      intro u sent
      rw [keyOf_proxy htrust,getD_valid hown]
    have hknown : own ≠ unknown := by
      rintro rfl
      rw [not_isValidIP_unknown] at hown
      cases hown
    constructor
    · intro _ sent sent' _ _
      rw [hkey,hkey]
    · intro hne
      exact absurd hab hne
    · intro sent _
      rw [hkey,hkey]
      exact ⟨hknown,hknown⟩

/-- The key is that of the address alone exactly where the deployment is sound; behind a trusted
proxy it is so where no client puts an address first in the header. -/
theorem client_keys_iff (flag : Option Text) (shape : Shape) (s t : Text) (a b : Address)
    (hs : Spells s a) (ht : Spells t b) :
    (Identifies (fun _ => True) shape flag s a t b ↔ Sound flag s a t b shape) ∧
    (∀ own, shape = .proxy own → proxyTrust flag = .generic ∨ proxyTrust flag = .legacy →
      Plain s → Plain t → (a = b → s = t) → Identifies Unforged shape flag s a t b) := by
  constructor
  · cases shape with
    | direct => exact identifies_direct_iff hs ht
    | edge => exact identifies_edge_iff hs ht
    | proxy own => exact identifies_proxy_iff
  · rintro own rfl htrust hps hpt hfixed
    exact identifies_of_spelled hs ht
      (fun _ h => keyOf_unforged htrust (hs.isValidIP_iff.mpr hps) h)
      (fun _ h => keyOf_unforged htrust (ht.isValidIP_iff.mpr hpt) h) hps hpt hfixed

end identities

section peers

theorem quad_of_read {t : Text} {a b c d : Nat} (h : parseIPv4 t = some [a,b,c,d]) :
    Quad t a b c d := by
  obtain ⟨a',b',c',d',hnumbers,hquad⟩ := IpClassifier.quad_of_parseIPv4 h
  cases hnumbers
  exact hquad

theorem quad_peer : Quad "192.0.2.1".toList 192 0 2 1 := quad_of_read rfl

theorem hexGroup_ffff : IpText.HexGroup "ffff".toList 65535 :=
  ⟨by decide,by decide,by simp [isHex],rfl⟩

theorem spells_peer : Spells "192.0.2.1".toList (.v4 (quad 192 0 2 1)) :=
  ⟨by decide,_,.v4 quad_peer,rfl⟩

theorem spells_mapped : Spells "::ffff:192.0.2.1".toList (.v4 (quad 192 0 2 1)) := by
  have hgroups : Groups true "ffff:192.0.2.1".toList [65535,192 * 256 + 0,2 * 256 + 1] :=
    .cons hexGroup_ffff (.quad quad_peer)
  have hhextets := Hextets.compressed (.inl ⟨rfl,rfl⟩) (.inr hgroups) (by decide)
  exact ⟨by decide,_,.v6 hhextets,by decide⟩

theorem client_keys_two_peers : Identifies (fun _ => True) .direct none
    "192.0.2.1".toList (.v4 (quad 192 0 2 1)) "192.0.2.2".toList (.v4 (quad 192 0 2 2)) :=
  (client_keys_iff none .direct _ _ _ _ spells_peer
    ⟨by decide,_,.v4 (quad_of_read rfl),rfl⟩).1.mpr
      ⟨by decide,fun h => absurd h.2 (by decide),fun h => absurd h.2 (by decide),
        fun h => absurd h (by decide)⟩

/-- A peer that comes directly and is written as an IPv4-mapped address shares the key of strangers,
and behind a generic proxy a peer has the key that it names. -/
theorem mapped_unknown_and_forged :
    ¬ Identifies (fun _ => True) .direct none
      "::ffff:192.0.2.1".toList (.v4 (quad 192 0 2 1))
      "::ffff:192.0.2.1".toList (.v4 (quad 192 0 2 1)) ∧
    ¬ Identifies (fun _ => True) (.proxy "10.0.0.1".toList) (some "generic".toList)
      "192.0.2.1".toList (.v4 (quad 192 0 2 1)) "192.0.2.1".toList (.v4 (quad 192 0 2 1)) := by
  constructor
  · intro h
    obtain ⟨_,hplain,_⟩ := (identifies_direct_iff spells_mapped spells_mapped).mp h
    exact hplain ⟨by decide,by decide⟩
  · intro h
    obtain ⟨htrust,_⟩ := identifies_proxy_iff.mp h
    exact absurd htrust (by decide)

end peers

end Yurucommu.ClientIp
