import Yurucommu.IpText
import Yurucommu.ActorIdentity

/-!
The address of a client: which of five sources `getClientIP` takes it from, and what stands in them
behind a server of its own, behind the edge and behind a reverse proxy.
-/

set_option autoImplicit false

namespace Yurucommu.ClientIp

open Whatwg (Text lower)
open ActorIdentity (trim)

section reads

def ipv4Pattern (ip : Text) : Bool :=
  let parts := ip.splitOn '.'
  parts.length = 4 && parts.all fun part =>
    1 ≤ part.length && part.length ≤ 3 && part.all Char.isDigit

def ipv6Pattern (ip : Text) : Bool :=
  ip ≠ [] && ip.all fun c => IpText.isHex c || c = ':'

def isValidIP (ip : Text) : Bool :=
  if ipv4Pattern ip then
    (ip.splitOn '.').all fun part => Nat.ofDigitChars 10 part 0 ≤ 255
  else ipv6Pattern ip && ip.contains ':'

inductive ProxyTrust where
  | none
  | cf
  | generic
  | legacy
  deriving DecidableEq

/-- The value of `TAKOS_TRUST_PROXY`; no letter beyond ASCII becomes one of those in the names. -/
def proxyTrust (flag : Option Text) : ProxyTrust :=
  match flag with
  | .none => .none
  | .some flag =>
    let v := lower (trim flag)
    if v = "cf".toList || v = "cloudflare".toList then .cf
    else if v = "generic".toList || v = "xff".toList then .generic
    else if v = "true".toList || v = "1".toList then .legacy
    else .none

/-- The headers that are read. -/
structure Headers where
  cfConnectingIp : Option Text
  xForwardedFor : Option Text
  xRealIp : Option Text

/-- What a request is handled with: whether the runtime has put in `request.cf`, the headers, and
the address that the entrypoint has stamped. -/
structure Context where
  trustProxy : Option Text
  cf : Bool
  headers : Headers
  socketIp : Option Text

def isCloudflareEdge (c : Context) : Bool := c.cf

def valid (source : Option Text) : Option Text := source.filter isValidIP

def stampedSocketIp (c : Context) : Option Text := valid c.socketIp

/-- `?.split(",")[0]?.trim()` -/
def leftmost (xff : Option Text) : Option Text := xff.map fun xff => trim (xff.takeWhile (· ≠ ','))

def fromCloudflare (c : Context) (trust : ProxyTrust) : Option Text :=
  if isCloudflareEdge c || trust = .cf then valid c.headers.cfConnectingIp else none

def fromProxy (c : Context) (trust : ProxyTrust) : Option Text :=
  if trust = .generic || trust = .legacy || trust = .cf then
    valid (leftmost c.headers.xForwardedFor) <|> valid c.headers.xRealIp
  else none

def fromLegacy (c : Context) (trust : ProxyTrust) : Option Text :=
  if trust = .legacy then valid c.headers.cfConnectingIp else none

def unknown : Text := "unknown".toList

def getClientIP (c : Context) : Text :=
  let trust := proxyTrust c.trustProxy
  (fromCloudflare c trust <|> fromProxy c trust <|> fromLegacy c trust <|> stampedSocketIp c).getD
    unknown

end reads

section deployments

/-- Where the server stands: its entrypoint sees the peers, the edge does, or a reverse proxy at
an address of its own does. -/
inductive Shape where
  | direct
  | edge
  | proxy (own : Text)

/-- `startServer` stamps the address of the socket, if there is one. -/
def stamp (address : Option Text) : Option Text := address.filter (· ≠ [])

def arrive (shape : Shape) (trustProxy : Option Text) (peer : Text) (sent : Headers) : Context :=
  match shape with
  | .direct => { trustProxy,cf := false,headers := sent,socketIp := stamp (some peer) }
  | .edge => {
      trustProxy
      cf := true
      headers := { sent with cfConnectingIp := some peer }
      socketIp := none }
  | .proxy own => {
      trustProxy
      cf := false
      headers := { sent with
        xRealIp := some peer
        xForwardedFor := some (sent.xForwardedFor.elim peer fun xff => xff ++ ", ".toList ++ peer) }
      socketIp := stamp (some own) }

def keyOf (shape : Shape) (trustProxy : Option Text) (peer : Text) (sent : Headers) : Text :=
  getClientIP (arrive shape trustProxy peer sent)

end deployments

end Yurucommu.ClientIp
