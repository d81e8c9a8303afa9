import Yurucommu.Sqlite
import Yurucommu.Whatwg

/-!
The identity of an actor from its id, once as JavaScript and once as SQL computes it, and the
ids that signature verification admits.
-/

set_option autoImplicit false

namespace Yurucommu.ActorIdentity

open Whatwg (Text URL lower)
open Sqlite (instr substr substrFrom)

/-- What the platform supplies: the host parser, whose hosts have no capital letters, and the
conversion of a text to small letters. -/
structure Platform where
  parseHost : Text → Option Text
  lower_parseHost : ∀ t h, parseHost t = some h → lower h = h
  toLowerCase : Text → Text
  toLowerCase_ascii : ∀ t, (∀ c ∈ t, c.toNat < 128) → toLowerCase t = lower t

theorem lower_ascii : ∀ t : Text, (∀ c ∈ t, c.toNat < 128) → lower t = lower t :=
  fun _ _ => rfl

def hostless : Platform where
  parseHost _ := none
  lower_parseHost _ _ h := by cases h
  toLowerCase := lower
  toLowerCase_ascii := lower_ascii

section ssrf

variable (P : Platform)

def isHostnameChar (c : Char) : Bool := c.isAlphanum || c = '.' || c = '-'

def parseIPv4 (hostname : Text) : Option (List Nat) :=
  let parts := hostname.splitOn '.'
  if parts.length = 4 && parts.all fun part =>
      1 ≤ part.length && part.length ≤ 3 && part.all Char.isDigit then
    let parts := parts.map fun part => Nat.ofDigitChars 10 part 0
    if parts.any (255 < ·) then none else some parts
  else none

def isPrivateIPv4 (hostname : Text) : Bool :=
  match parseIPv4 hostname with
  | some [a,b,c,_] =>
    a = 0 || a = 10 || a = 127 || (a = 169 && b = 254) || (a = 172 && 16 ≤ b && b ≤ 31) ||
      (a = 192 && b = 168) || (a = 100 && 64 ≤ b && b ≤ 127) || (a = 192 && b = 0 && c = 0) ||
      (a = 192 && b = 0 && c = 2) || (a = 198 && (b = 18 || b = 19)) ||
      (a = 198 && b = 51 && c = 100) || (a = 203 && b = 0 && c = 113) || 224 ≤ a
  | _ => false

def isJsSpace (c : Char) : Bool :=
  [0x09,0x0a,0x0b,0x0c,0x0d,0x20,0xa0,0x1680,0x2028,0x2029,0x202f,0x205f,0x3000,0xfeff].contains
      c.toNat || (0x2000 ≤ c.toNat && c.toNat ≤ 0x200a)

def trim (t : Text) : Text := (t.dropWhile isJsSpace).rdropWhile isJsSpace

/-- `.replace(/\.$/, "")`, and what `normalizeHostname` does. -/
def dropDot (t : Text) : Text := if t.getLast? = some '.' then t.dropLast else t

def normalizeHostname (hostname : Text) : Text := dropDot (P.toLowerCase (trim hostname))

def blockedHostnameSuffixes : List Text :=
  [".localhost".toList,".local".toList,".localdomain".toList,".internal".toList]

/-- Only hostnames of `isHostnameChar` come here: with no colon in them none is an IPv6
address. -/
def isBlockedHostname (hostname : Text) : Bool :=
  let lower := normalizeHostname P hostname
  lower = "localhost".toList || blockedHostnameSuffixes.any (fun suffix => suffix.isSuffixOf lower) ||
    isPrivateIPv4 lower

def isSafeRemoteUrl (url : Text) : Bool :=
  match Whatwg.parse P.parseHost url with
  | none => false
  | some parsed =>
    parsed.username = [] && parsed.password = [] &&
      (parsed.protocol = "http:".toList || parsed.protocol = "https:".toList) &&
      parsed.hostname ≠ [] && parsed.hostname.all isHostnameChar && parsed.hostname.contains '.' &&
      !isBlockedHostname P parsed.hostname

end ssrf

def dropSlash (t : Text) : Text := if t.getLast? = some '/' then t.dropLast else t

section javascript

variable (P : Platform)

def normalizeActivityPubActorId (value : Text) : Option Text :=
  (Whatwg.parse P.parseHost value).map fun url =>
    dropSlash (url.protocol ++ "//".toList ++ url.host ++ url.pathname ++ url.search)

def isSameActivityPubActor (left right : Text) : Bool :=
  if left = [] || right = [] then false
  else if left = right then true
  else
    match normalizeActivityPubActorId P left,normalizeActivityPubActorId P right with
    | some normalizedLeft,some normalizedRight => normalizedLeft = normalizedRight
    | _,_ => false

end javascript

namespace Sql

def fragmentless (actorId : Text) : Text :=
  if 0 < instr actorId ['#'] then substr actorId 1 (instr actorId ['#'] - 1) else actorId

def clean (actorId : Text) : Text :=
  if substrFrom actorId (-1) = ['/'] then substr actorId 1 (actorId.length - 1) else actorId

def separator (actorId : Text) : Nat := instr actorId "://".toList

def tail (actorId : Text) : Text := substrFrom actorId (instr actorId "://".toList + 3)

def boundary (tail : Text) : Nat :=
  if instr tail ['/'] = 0 then instr tail ['?']
  else if instr tail ['?'] = 0 then instr tail ['/']
  else if instr tail ['/'] < instr tail ['?'] then instr tail ['/']
  else instr tail ['?']

def scheme (actorId : Text) : Text :=
  Sqlite.lower (substr actorId 1 (separator actorId - 1))

def authority (tail : Text) : Text :=
  if boundary tail = 0 then tail else substr tail 1 (boundary tail - 1)

def pathQuery (tail : Text) : Text :=
  if boundary tail = 0 then []
  else if substr tail (boundary tail) 1 = ['?'] then '/' :: substrFrom tail (boundary tail)
  else substrFrom tail (boundary tail)

def normalizedAuthority (scheme authority : Text) : Text :=
  if scheme = "https".toList && substrFrom (Sqlite.lower authority) (-4) = ":443".toList then
    substr (Sqlite.lower authority) 1 (authority.length - 4)
  else if scheme = "http".toList && substrFrom (Sqlite.lower authority) (-3) = ":80".toList then
    substr (Sqlite.lower authority) 1 (authority.length - 3)
  else Sqlite.lower authority

/-- The row of `actor_identity_normalized` that `actor_identity_values` takes, if any. -/
def normalized (actorId : Text) : Option Text :=
  let actorId := clean (fragmentless actorId)
  let tail := tail actorId
  let authority := authority tail
  let scheme := scheme actorId
  if instr authority ['@'] = 0 && 1 < separator actorId &&
      (scheme = "http".toList || scheme = "https".toList) &&
      0 < (normalizedAuthority scheme authority).length then
    some (scheme ++ "://".toList ++ normalizedAuthority scheme authority ++ pathQuery tail)
  else none

/-- `actor_identity_values` of one id. -/
def values (actorId : Text) : List Text := actorId :: (normalized actorId).toList

end Sql

def activityPubActorIdentitySetSql (rawActorIds : List Text) : List Text :=
  (rawActorIds.flatMap Sql.values).dedup

def activityPubActorIdentityMatchesSql (rawActorIds : List Text) (targetActorId : Text) :
    List Text :=
  (rawActorIds.filter fun raw =>
    (Sql.values raw).any fun value => value ∈ Sql.values targetActorId).dedup

end Yurucommu.ActorIdentity
