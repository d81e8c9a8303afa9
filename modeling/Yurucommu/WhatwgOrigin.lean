import Yurucommu.Whatwg

/-!
The origin of a URL: parsed again it is the same origin and nothing else.
-/

set_option autoImplicit false

namespace Whatwg

def fragmentSet (c : Char) : Bool :=
  c0ControlSet c || [0x20,0x22,0x3c,0x3e,0x60].contains c.toNat

/-- The parser finds the fragment behind the first number sign. -/
def hash (input : Text) : Text :=
  let input := (input.dropWhile isC0ControlOrSpace).rdropWhile isC0ControlOrSpace
  let input := input.filter fun c => !isTabOrNewline c
  match input.dropWhile (· ≠ '#') with
  | [] | [_] => []
  | _ :: fragment => '#' :: encode fragmentSet fragment

def URL.origin (url : URL) : Text := url.protocol ++ "//".toList ++ url.host

/-- A host as it is serialized: nothing in it ends the authority, and a colon stands in brackets. -/
structure Serialized (host : Text) : Prop where
  nonempty : host ≠ []
  chars : ∀ c ∈ host, 0x20 < c.toNat ∧ isSlash c = false ∧ c ≠ '#' ∧ c ≠ '?' ∧ c ≠ '@'
  colons : (∀ c ∈ host, c ≠ ':' ∧ c ≠ '[') ∨
    ∃ x, host = '[' :: (x ++ [']']) ∧ ∀ c ∈ x, c ≠ '[' ∧ c ≠ ']'

/-- A host parser: what it answers with is serialized, and is parsed to itself. -/
structure HostParser where
  parse : Text → Option Text
  serialized : ∀ t host, parse t = some host → Serialized host
  stable : ∀ t host, parse t = some host → parse host = some host

section host

variable {host x : Text}

def portText : Option Nat → Text
  | none => []
  | some port => ':' :: Nat.toDigits 10 port

def portDigits : Option Nat → Text
  | none => []
  | some port => Nat.toDigits 10 port

theorem host_eq (url : URL) : url.host = url.hostname ++ portText url.port := by
  unfold URL.host
  cases url.port with
  | none => simp [portText]
  | some port => rfl

theorem hostState_portText (port : Option Nat) :
    hostState false (portText port) = ([],portDigits port) := by
  cases port with
  | none => rfl
  | some port => simp [portText,portDigits,hostState]

theorem hostState_plain (h : ∀ c ∈ x, c ≠ ':' ∧ c ≠ '[') (port : Option Nat) :
    hostState false (x ++ portText port) = (x,portDigits port) := by
  induction x with
  | nil => exact hostState_portText port
  | cons c x ih =>
    simp only [List.forall_mem_cons] at h
    obtain ⟨⟨hcolon,hbracket⟩,hx⟩ := h
    have hrest := ih hx
    simp [hostState,hcolon,hbracket,hrest]

theorem hostState_brackets (h : ∀ c ∈ x, c ≠ '[' ∧ c ≠ ']') (port : Option Nat) :
    hostState true (x ++ ']' :: portText port) = (x ++ [']'],portDigits port) := by
  induction x with
  | nil => simp [hostState,hostState_portText]
  | cons c x ih =>
    simp only [List.forall_mem_cons] at h
    obtain ⟨⟨hopen,hclose⟩,hx⟩ := h
    have hrest := ih hx
    simp [hostState,hopen,hclose,hrest]

theorem Serialized.hostState (h : Serialized host) (port : Option Nat) :
    hostState false (host ++ portText port) = (host,portDigits port) := by
  rcases h.colons with hplain | ⟨x,rfl,hx⟩
  · exact hostState_plain hplain port
  · have hrest := hostState_brackets hx port
    simp only [List.cons_append,List.append_assoc,List.nil_append]
    simp [Whatwg.hostState,hrest]

theorem isDigit_of_mem_portDigits (port : Option Nat) :
    ∀ c ∈ portDigits port, c.isDigit = true := by
  intro c hc
  cases port with
  | none => cases hc
  | some n => exact Nat.isDigit_of_mem_toDigits (by decide) (by decide) hc

theorem portState_portDigits {scheme : Text} {port : Option Nat}
    (h : ∀ n, port = some n → n ≤ 65535 ∧ n ≠ defaultPort scheme) :
    portState scheme (portDigits port) = some port := by
  have hall : (portDigits port).all Char.isDigit = true :=
    List.all_eq_true.mpr (isDigit_of_mem_portDigits port)
  unfold portState
  rw [if_pos hall]
  cases port with
  | none => rfl
  | some n =>
    obtain ⟨hle,hne⟩ := h n rfl
    have hnil : portDigits (some n) ≠ [] := Nat.toDigits_ne_nil
    have hvalue : Nat.ofDigitChars 10 (portDigits (some n)) 0 = n :=
      Nat.ofDigitChars_ten_toDigits
    rw [if_neg hnil]
    simp only [hvalue,if_neg hne]
    rw [if_neg (by omega)]

end host

section origin

variable {H : HostParser} {url : URL} {input : Text}

def URL.bare (url : URL) : URL :=
  { url with username := [],password := [],path := [[]],query := none }

theorem origin_bare (url : URL) : url.bare.origin = url.origin := rfl

theorem authority_chars (hv : url.Valid H.parse) :
    ∀ c ∈ url.host, 0x20 < c.toNat ∧ isSlash c = false ∧ c ≠ '#' ∧ c ≠ '?' ∧ c ≠ '@' := by
  obtain ⟨t,ht⟩ := hv.hostname
  intro c hc
  rw [host_eq] at hc
  rcases List.mem_append.mp hc with hc | hc
  · exact (H.serialized t _ ht).chars c hc
  · have hport : c = ':' ∨ c.isDigit = true := by
      cases hp : url.port with
      | none => simp [hp,portText] at hc
      | some n =>
        simp only [hp,portText,List.mem_cons] at hc
        exact hc.imp id fun hc => isDigit_of_mem_portDigits (some n) c hc
    rcases hport with rfl | hdigit
    · decide
    · simp only [Char.isDigit,Bool.and_eq_true,decide_eq_true_eq,ge_iff_le,
        UInt32.le_iff_toNat_le] at hdigit
      have htoNat : c.toNat = c.val.toNat := rfl
      have h0 : '0'.val.toNat = 48 := rfl
      have h9 : '9'.val.toNat = 57 := rfl
      have hne : ∀ d : Char, (d.toNat < 48 ∨ 57 < d.toNat) → c ≠ d := by
        rintro d hd rfl
        omega
      refine ⟨by omega,?_,hne _ (by decide),hne _ (by decide),hne _ (by decide)⟩
      simp [isSlash,hne '/' (by decide),hne '\\' (by decide)]

theorem lower_scheme (hv : url.Valid H.parse) : lower url.scheme = url.scheme := by
  rcases hv.scheme with h | h
  · rw [h]
    decide
  · rw [h]
    decide

/-- An origin is parsed to itself alone. -/
theorem parse_origin (h : parse H.parse input = some url) :
    parse H.parse url.origin = some url.bare := by
  have hv := parse_valid h
  obtain ⟨t,ht⟩ := hv.hostname
  have hserialized := H.serialized t _ ht
  have hchars := authority_chars hv
  have hne : url.host ≠ [] := by
    rw [host_eq]
    simp [hserialized.nonempty]
  have hwritten : parse H.parse (url.scheme ++ "://".toList ++ url.host ++ [] ++ []) =
      parseAuthority H.parse (lower url.scheme) (url.host ++ []) :=
    parse_written (by rw [lower_scheme hv]; exact hv.scheme) hne
      (fun c hc => ⟨(hchars c hc).1,(hchars c hc).2.1,(hchars c hc).2.2.1⟩) (by simp) (.inl rfl)
  have hauthority : parseAuthority H.parse url.scheme (url.host ++ []) = _ :=
    parseAuthority_written url.scheme
    (fun c hc => ⟨(hchars c hc).2.1,(hchars c hc).2.2.2.1,(hchars c hc).2.2.2.2⟩) (.inl rfl)
  have hhost : hostState false url.host = (url.hostname,portDigits url.port) := by
    rw [host_eq]
    exact hserialized.hostState url.port
  rw [lower_scheme hv,hauthority,hhost,if_neg hserialized.nonempty,H.stable t _ ht,
    portState_portDigits hv.port] at hwritten
  have htext : url.scheme ++ "://".toList ++ url.host ++ [] ++ [] = url.origin := by
    simp [URL.origin,URL.protocol]
  rw [htext] at hwritten
  exact hwritten

theorem hash_of_not_mem (h : '#' ∉ input) : hash input = [] := by
  have hclean : ∀ c ∈ (((input.dropWhile isC0ControlOrSpace).rdropWhile
      isC0ControlOrSpace).filter fun c => !isTabOrNewline c), decide (c ≠ '#') = true := by
    intro c hc
    have hmem := List.dropWhile_subset _ (List.rdropWhile_prefix _ _ |>.subset
      (List.mem_filter.mp hc).1)
    exact decide_eq_true fun heq => h (heq ▸ hmem)
  unfold hash
  simp only
  rw [List.dropWhile_eq_nil_iff.mpr hclean]

theorem hash_origin (h : parse H.parse input = some url) : hash url.origin = [] := by
  have hv := parse_valid h
  refine hash_of_not_mem ?_
  intro hm
  rcases List.mem_append.mp hm with hm | hm
  · have hnot : ∀ s, s = "http".toList ∨ s = "https".toList →
        '#' ∉ s ++ [':'] ++ "//".toList := by
      rintro s (rfl | rfl) <;> decide
    exact hnot url.scheme hv.scheme hm
  · exact (authority_chars hv '#' hm).2.2.1 rfl

end origin

end Whatwg
