import Yurucommu.ActorIdentity
import Yurucommu.IpText

/-!
The texts that are taken for addresses, and which of these are private; the addresses that a
hostname may be connected to.
-/

set_option autoImplicit false

namespace Yurucommu.IpClassifier

open ActorIdentity (Platform parseIPv4 isPrivateIPv4 isSafeRemoteUrl normalizeHostname)
open IpText (hexValue)
open Whatwg (Text URL)

def isAddressChar (c : Char) : Bool :=
  IpText.isHex c || c = '.' || c = ':' || c = '%' || c = '[' || c = ']'

/-- What a character becomes: what is made of one that is not ASCII has none of these in it. -/
def Piece (c : Char) (piece : Text) : Prop :=
  c.toNat < 128 ∧ piece = [c.toLower] ∨
    128 ≤ c.toNat ∧ piece ≠ [] ∧ ∀ d ∈ piece, isAddressChar d = false

def Lowered (t u : Text) : Prop := ∃ pieces, List.Forall₂ Piece t pieces ∧ u = pieces.flatten

section expand

/-- `.replace(/^\[|\]$/g, "")`. -/
def stripBrackets (t : Text) : Text :=
  let t := if t.head? = some '[' then t.tail else t
  if t.getLast? = some ']' then t.dropLast else t

/-- What `.` does not match. -/
def isLineTerminator (c : Char) : Bool := [0x0a,0x0d,0x2028,0x2029].contains c.toNat

def foldQuad (s : Text) : Option Text :=
  let front := s.rdropWhile (· ≠ ':')
  if front = [] ∨ front.any isLineTerminator then none
  else
    match parseIPv4 (s.rtakeWhile (· ≠ ':')) with
    | some [a,b,c,d] =>
      some (front ++ Nat.toDigits 16 (a * 256 + b) ++ ':' :: Nat.toDigits 16 (c * 256 + d))
    | _ => none

def indexOfDouble : Text → Option Nat
  | c :: d :: t => if c = ':' ∧ d = ':' then some 0 else (indexOfDouble (d :: t)).map (· + 1)
  | _ => none

def lastIndexOfDouble : Text → Option Nat
  | c :: d :: t =>
    match lastIndexOfDouble (d :: t) with
    | some i => some (i + 1)
    | none => if c = ':' ∧ d = ':' then some 0 else none
  | _ => none

def isLowerHex (c : Char) : Bool := c.isDigit || ('a' ≤ c && c ≤ 'f')

def parseGroup (g : Text) : Option Nat :=
  if 1 ≤ g.length ∧ g.length ≤ 4 ∧ g.all isLowerHex then some (hexValue g) else none

def parseGroups (str : Text) : Option (List Nat) :=
  if str = [] then some [] else (str.splitOn ':').mapM parseGroup

/-- The groups of a text that has no dotted tail any more. -/
def expandGroups (s : Text) : Option (List Nat) :=
  if indexOfDouble s ≠ lastIndexOfDouble s then none
  else
    let groups :=
      match indexOfDouble s with
      | some i =>
        (parseGroups (s.take i)).bind fun head =>
          (parseGroups (s.drop (i + 2))).bind fun tail =>
            if 8 ≤ head.length + tail.length then none
            else some (head ++ List.replicate (8 - head.length - tail.length) 0 ++ tail)
      | none => parseGroups s
    groups.bind fun groups => if groups.length = 8 then some groups else none

variable (P : Platform)

def expandIPv6 (input : Text) : Option (List Nat) :=
  let s := (stripBrackets (P.toLowerCase input)).takeWhile (· ≠ '%')
  if s = [] then none
  else if '.' ∈ s then (foldQuad s).bind expandGroups
  else expandGroups s

end expand

section classify

variable (P : Platform)

def privateIPv6Exact : List Text :=
  ["::1".toList,"0:0:0:0:0:0:0:1".toList,"::".toList,"0:0:0:0:0:0:0:0".toList]

def privateIPv6Prefixes : List Text :=
  ["fc".toList,"fd".toList,"fe8".toList,"fe9".toList,"fea".toList,"feb".toList,"fec".toList,
    "fed".toList,"fee".toList,"fef".toList,"ff".toList]

def dottedQuad (a b c d : Nat) : Text :=
  Nat.toDigits 10 a ++ '.' :: (Nat.toDigits 10 b ++ '.' :: (Nat.toDigits 10 c ++
    '.' :: Nat.toDigits 10 d))

def embeddedV4IsPrivate (hi lo : Nat) : Bool :=
  isPrivateIPv4 (dottedQuad (hi >>> 8 &&& 0xff) (hi &&& 0xff) (lo >>> 8 &&& 0xff) (lo &&& 0xff))

/-- The NAT64 test reads the first two groups. -/
def isPrivateGroups (g₀ g₁ g₂ g₃ g₄ g₅ g₆ g₇ : Nat) : Bool :=
  let allZeroHigh := g₀ = 0 && g₁ = 0 && g₂ = 0 && g₃ = 0 && g₄ = 0
  let hi8 := g₀ >>> 8
  if allZeroHigh && g₅ = 0 && g₆ = 0 && (g₇ = 0 || g₇ = 1) then true
  else if hi8 = 0xfc || hi8 = 0xfd then true
  else if g₀ &&& 0xffc0 = 0xfe80 then true
  else if g₀ &&& 0xffc0 = 0xfec0 then true
  else if hi8 = 0xff then true
  else if allZeroHigh && g₅ = 0xffff then embeddedV4IsPrivate g₆ g₇
  else if allZeroHigh && g₅ = 0 then embeddedV4IsPrivate g₆ g₇
  else if g₀ = 0x64 && g₁ = 0xff9b then embeddedV4IsPrivate g₆ g₇
  else if g₀ = 0x2002 then embeddedV4IsPrivate g₁ g₂
  else false

def isPrivateIPv6 (ipv6Raw : Text) : Bool :=
  match expandIPv6 P ipv6Raw with
  | some [g₀,g₁,g₂,g₃,g₄,g₅,g₆,g₇] => isPrivateGroups g₀ g₁ g₂ g₃ g₄ g₅ g₆ g₇
  | _ =>
    let s := stripBrackets (P.toLowerCase ipv6Raw)
    privateIPv6Exact.contains s || privateIPv6Prefixes.any (·.isPrefixOf s)

def isWellFormedIp (host : Text) : Bool :=
  if (parseIPv4 host).isSome then true
  else if ':' ∈ host then (expandIPv6 P host).isSome
  else false

def isPrivateIpAddress (host : Text) : Bool :=
  if isPrivateIPv4 host then true else if ':' ∈ host then isPrivateIPv6 P host else false

end classify

section resolve

variable (P : Platform)

/-- The resolvers answer or throw; the mode is the option, or where it is not given the setting of
the environment. -/
structure RemoteUrlSafetyOptions where
  allowLocalSubstrateRemoteFetches : Bool
  localResolver : Text → Text → Option (List Text)
  remoteResolver : Text → Option (List Text)

inductive Refusal where
  | unsafeRemoteUrl (url : Text)
  | unsafeLocalSubstrate (url : Text)
  | resolver
  | failedToResolve (hostname : Text)
  | outsideAllowlist (hostname ip : Text)
  | unparseable (hostname ip : Text)
  | privateIp (hostname ip : Text)
deriving DecidableEq, Repr

/-- The message of the error; that of a resolver is its own. -/
def Refusal.message : Refusal → Option Text
  | unsafeRemoteUrl url => some ("Unsafe remote URL: ".toList ++ url)
  | unsafeLocalSubstrate url => some ("Unsafe local-substrate remote URL: ".toList ++ url)
  | resolver => none
  | failedToResolve hostname => some ("Failed to resolve hostname: ".toList ++ hostname)
  | outsideAllowlist hostname ip => some ("Hostname ".toList ++ hostname ++
      " resolved outside local-substrate allowlist: ".toList ++ ip)
  | unparseable hostname ip =>
    some ("Hostname ".toList ++ hostname ++ " resolved to unparseable IP ".toList ++ ip)
  | privateIp hostname ip =>
    some ("Hostname ".toList ++ hostname ++ " resolved to private IP ".toList ++ ip)

def isTakosTestHostname (hostname : Text) : Bool :=
  let normalized := normalizeHostname P hostname
  normalized = "takos.test".toList || ".takos.test".toList.isSuffixOf normalized

def isLocalSubstrateUrlShape (parsed : URL) : Bool :=
  parsed.protocol = "https:".toList && (parsed.port = none || parsed.port = some 443)

def isAllowedLocalSubstrateIp (ip : Text) : Bool :=
  match parseIPv4 ip with
  | some [a,b,c,d] => (a = 127 && b = 0 && c = 0 && d = 1) || (a = 172 && 16 ≤ b && b ≤ 31)
  | _ => false

def checkAll (refuses : Text → Option Refusal) (ips : List Text) : Except Refusal (List Text) :=
  match ips.findSome? refuses with
  | some refusal => .error refusal
  | none => .ok ips

def assertLocalSubstrate (options : RemoteUrlSafetyOptions) (url hostname : Text) (parsed : URL) :
    Except Refusal (List Text) :=
  if !isLocalSubstrateUrlShape parsed then .error (.unsafeLocalSubstrate url)
  else
    match options.localResolver hostname "A".toList, options.localResolver hostname "AAAA".toList with
    | some aRecords, some aaaaRecords =>
      let resolvedIps := aRecords ++ aaaaRecords
      if resolvedIps = [] then .error (.failedToResolve hostname)
      else
        checkAll (fun ip => if isAllowedLocalSubstrateIp ip then none
          else some (.outsideAllowlist hostname ip)) resolvedIps
    | _, _ => .error .resolver

def assertRemote (options : RemoteUrlSafetyOptions) (hostname : Text) :
    Except Refusal (List Text) :=
  match options.remoteResolver hostname with
  | none => .error .resolver
  | some resolvedIps =>
    if resolvedIps = [] then .error (.failedToResolve hostname)
    else
      checkAll (fun ip =>
        if !isWellFormedIp P ip then some (.unparseable hostname ip)
        else if isPrivateIpAddress P ip then some (.privateIp hostname ip)
        else none) resolvedIps

/-- The hostname is in the local substrate and that may be fetched from. -/
def usesLocalSubstrate (options : RemoteUrlSafetyOptions) (parsed : URL) : Bool :=
  options.allowLocalSubstrateRemoteFetches &&
    isTakosTestHostname P (normalizeHostname P parsed.hostname)

def assertSafeRemoteUrlResolved (options : RemoteUrlSafetyOptions) (url : Text) :
    Except Refusal (List Text) :=
  if !isSafeRemoteUrl P url then .error (.unsafeRemoteUrl url)
  else
    match Whatwg.parse P.parseHost url with
    | none => .error (.unsafeRemoteUrl url)
    | some parsed =>
      let hostname := normalizeHostname P parsed.hostname
      if usesLocalSubstrate P options parsed then assertLocalSubstrate options url hostname parsed
      else assertRemote P options hostname

end resolve

end Yurucommu.IpClassifier
