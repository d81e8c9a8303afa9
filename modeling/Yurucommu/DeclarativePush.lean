import Yurucommu.JsonText
import Yurucommu.StoryProjection

/-!
The declarative push message: what it has of its input, and the loop that shortens its body and then
its title until its bytes fit. Strings are their UTF-16 code units.
-/

set_option autoImplicit false

namespace Yurucommu.DeclarativePush

open JsonText (Units Json NumberFormat decimal stringify)
open JsString (units)
open StoryProjection (isSpace trim)
open Utf16 (isLeading isTrailing utf8)

section numbers

inductive Number where
  | nan
  | infinite (negative : Bool)
  | finite (value : ℚ)

namespace Number

def IsDouble : Number → Prop
  | .finite value => Binary64.round |value| = |value|
  | _ => True

/-- `n <= x`. -/
def atLeast (n : Nat) : Number → Bool
  | .nan => false
  | .infinite negative => !negative
  | .finite value => n ≤ value

/-- `n < x`. -/
def above (n : Nat) : Number → Bool
  | .nan => false
  | .infinite negative => !negative
  | .finite value => n < value

/-- `n - x`, where `n` is not less. -/
def under (n : Nat) : Number → Number
  | .nan => .nan
  | .infinite negative => .infinite !negative
  | .finite value => .finite (Binary64.round (n - value))

/-- `x + n`, where `x` is not negative. -/
def plus (n : Nat) : Number → Number
  | .finite value => .finite (Binary64.round (value + n))
  | x => x

end Number

def integers : NumberFormat ℕ where
  text := decimal
  read t :=
    let n := Nat.ofDigits 10 ((t.map (· - 48)).reverse)
    if decimal n = t then some (.finite n) else none
  text_ne_nil n := by
    unfold decimal
    split
    · exact List.cons_ne_nil 48 []
    · rename_i hn
      simp [Nat.digits_ne_nil_iff_ne_zero.2 hn]
  text_numeral n u hu := by
    have hdigit : 48 ≤ u ∧ u ≤ 57 := by
      unfold decimal at hu
      split at hu
      · obtain rfl := List.mem_singleton.1 hu
        decide
      · obtain ⟨d,hd,rfl⟩ := List.mem_map.1 (List.mem_reverse.1 hu)
        have hlt := Nat.digits_lt_base (by decide : 1 < 10) hd
        omega
    simp [JsonText.isNumeral,hdigit]
  read_text n := by
    have hvalue : Nat.ofDigits 10 (((decimal n).map (· - 48)).reverse) = n := by
      unfold decimal
      split
      · rename_i hn
        rw [hn]
        rfl
      · rw [List.map_reverse,List.reverse_reverse,List.map_map]
        have hid : (fun u => u - 48) ∘ (fun d => 48 + d) = id := by
          funext d
          simp
        rw [hid,List.map_id,Nat.ofDigits_digits]
    simp only [hvalue,if_true]

end numbers

section urls

structure URL where
  href : Units
  origin : Units
  protocol : Units
  username : Units
  password : Units
  hostname : Units
deriving DecidableEq

def URL.IsHttp (url : URL) : Prop := url.protocol = units "http:" ∨ url.protocol = units "https:"

/-- `new URL`; none where it throws. -/
structure UrlParser where
  parse : Units → Option Units → Option URL
  reparse : ∀ {input base url}, parse input base = some url → parse url.href none = some url
  /-- The origin of a URL is opaque, that of its scheme and host, or that of the URL inside a
  blob. -/
  origin : ∀ {input base url}, parse input base = some url →
    url.origin = units "null" ∨ url.protocol = units "blob:" ∨
      ∃ host, url.origin = url.protocol ++ units "//" ++ host
  http_origin : ∀ {input base url}, parse input base = some url → url.IsHttp →
    ∃ host, url.origin = url.protocol ++ units "//" ++ host
  protocol : ∀ {input base url}, parse input base = some url → 47 ∉ url.protocol
  /-- The origin alone is read as the root of its host. -/
  root : ∀ {input base url}, parse input base = some url → url.IsHttp →
    ∃ root, root.origin = url.origin ∧ root.protocol = url.protocol ∧
      root.hostname = url.hostname ∧ root.username = [] ∧ root.password = [] ∧
      parse url.origin none = some root ∧ parse (url.origin ++ units "/") none = some root

variable (P : UrlParser)

def sameOriginUrl (value origin : Units) : Units :=
  match P.parse value (some (origin ++ units "/")) with
  | some url =>
    if url.origin = origin ∧ url.username = [] ∧ url.password = [] then url.href
    else origin ++ units "/"
  | none => origin ++ units "/"

end urls

section texts

/-- `replace(/\s+/g, " ")`. -/
def squeeze (inside : Bool) : Units → Units
  | [] => []
  | u :: rest =>
    if isSpace u then
      if inside then squeeze true rest else 32 :: squeeze true rest
    else u :: squeeze false rest

def singleLine (value : Units) : Units := trim (squeeze false value)

def isLetter (u : Nat) : Bool := (65 ≤ u && u ≤ 90) || (97 ≤ u && u ≤ 122)

def isSubtag (unit : Nat → Bool) (min : Nat) (t : Units) : Bool :=
  t.all unit && min ≤ t.length && t.length ≤ 8

def isLanguageTag (t : Units) : Bool :=
  match t.splitOnP (· = 45) with
  | [] => false
  | first :: rest =>
    isSubtag isLetter 2 first &&
      rest.all (isSubtag (fun u => isLetter u || (48 ≤ u && u ≤ 57)) 1)

def normalizeLanguageTag (value : Option Units) : Option Units :=
  (value.map trim).filter isLanguageTag

def normalizedTag (value : Option Units) : Option Units :=
  (value.map fun t => (trim t).take 64).filter (· ≠ [])

/-- The badge of a safe integer that is not negative. -/
def normalizedBadge : Option Number → Option Units
  | some (.finite value) =>
    if value.den = 1 ∧ 0 ≤ value ∧ value ≤ 9007199254740991 then some (decimal value.num.toNat)
    else none
  | _ => none

/-- An empty body is left out as none is. -/
def normalizedBody (value : Option Units) : Option Units :=
  (value.map singleLine).filter (· ≠ [])

/-- The code points; a surrogate without its other half is one. -/
def codePoints : Units → List Units
  | u :: v :: rest =>
    if isLeading u = true ∧ isTrailing v = true then [u,v] :: codePoints rest
    else [u] :: codePoints (v :: rest)
  | [u] => [[u]]
  | [] => []

def firstPoint (t : Units) : Units := (codePoints t).headD []

def ellipsis : Units := [0x2026]

/-- The code points, from the last one on, that are left when enough bytes are removed. -/
def pop (excessBytes : Number) (removed : Nat) : List Units → List Units
  | [] => []
  | p :: rest =>
    if (excessBytes.plus 3).above removed then pop excessBytes (removed + (utf8 p).length) rest
    else p :: rest

def shorten (value : Units) (excessBytes : Number) : Option Units :=
  let kept := (pop excessBytes 0 (codePoints value).reverse).reverse.flatten.rdropWhile isSpace
  if kept = [] then none else some (kept ++ ellipsis)

end texts

section message

structure Notification where
  title : Units
  navigate : Units
  body : Option Units
  lang : Option Units
  tag : Option Units
  appBadge : Option Units
deriving DecidableEq

def member (key : String) (value : Option Units) : List (Units × Json ℕ) :=
  value.toList.map fun v => (units key,.string v)

def Notification.toJson (m : Notification) : Json ℕ :=
  .object [(units "web_push",.number (.finite 8030)),(units "notification",.object
    ([(units "title",.string m.title),(units "navigate",.string m.navigate)] ++
      member "body" m.body ++ member "lang" m.lang ++ member "tag" m.tag ++
      member "app_badge" m.appBadge))]

def Notification.bytes (m : Notification) : List UInt8 := utf8 (stringify integers m.toJson)

inductive Outcome where
  | returned (message : Notification) (bytes : List UInt8)
  | cannotFit
  | invalidUrl
deriving DecidableEq

/-- The loop; none while it runs. -/
def fit (maxBytes : Number) : Nat → Notification → Option Outcome
  | 0, _ => none
  | n + 1, m =>
    if maxBytes.atLeast m.bytes.length then some (.returned m m.bytes)
    else
      let excess := maxBytes.under m.bytes.length
      match m.body with
      | some body => fit maxBytes n { m with body := shorten body excess }
      | none =>
        if 1 < (codePoints m.title).length then
          fit maxBytes n { m with title := (shorten m.title excess).getD (firstPoint m.title) }
        else some .cannotFit

structure DeclarativeWebPushInput where
  appOrigin : Units
  title : Units
  navigate : Units
  body : Option Units
  lang : Option Units
  tag : Option Units
  appBadge : Option Number
  maxBytes : Option Number
  double : ∀ x ∈ maxBytes, x.IsDouble

def maxDeclarativeWebPushBytes : Nat := 2048

def DeclarativeWebPushInput.limit (input : DeclarativeWebPushInput) : Number :=
  input.maxBytes.getD (.finite maxDeclarativeWebPushBytes)

variable (P : UrlParser)

def normalizedTitle (title origin : Units) : Option Units :=
  if singleLine title = [] then (P.parse origin none).map (·.hostname)
  else some (singleLine title)

def draft (input : DeclarativeWebPushInput) (origin title : Units) : Notification where
  title := title
  navigate := sameOriginUrl P input.navigate origin
  body := normalizedBody input.body
  lang := normalizeLanguageTag input.lang
  tag := normalizedTag input.tag
  appBadge := normalizedBadge input.appBadge

def buildDeclarativeWebPushMessage (input : DeclarativeWebPushInput) (n : Nat) : Option Outcome :=
  match P.parse input.appOrigin none with
  | none => some .invalidUrl
  | some app =>
    match normalizedTitle P input.title app.origin with
    | none => some .invalidUrl
    | some title => fit input.limit n (draft P input app.origin title)

end message

end Yurucommu.DeclarativePush
