import Yurucommu.JsMap
import Yurucommu.Machine
import Yurucommu.Whatwg

/-!
The login by OAuth: the state that a start leaves in KV and its nonce in the browser, the callback
with its checks and the rotation of the session, one operation at a time.
-/

set_option autoImplicit false

namespace Yurucommu.OAuthLogin

open Whatwg (Text)

structure OAuthState where
  provider : Text
  codeVerifier : Text
  createdAt : Nat
  nonce : Option Text
deriving DecidableEq, Repr

def stateTtlMs : Nat := 600 * 1000

structure Provider where
  clientId : Text
  issuer : Option Text
  jwksUrl : Option Text
deriving DecidableEq, Repr

def Provider.oidc (provider : Provider) : Bool :=
  provider.issuer.any (· ≠ []) && provider.jwksUrl.any (· ≠ [])

section idToken

structure Jwk where
  kty : Text
  crv : Text
  use_ : Option Text
  kid : Option Text
  point : Text
deriving DecidableEq, Repr

/-- `aud` is the list of the audiences, also of a single one. -/
structure OidcIdTokenClaims where
  iss : Option Text
  aud : List Text
  exp : Option Int
  sub : Option Text
  nonce : Option Text
deriving DecidableEq, Repr

structure IdToken where
  parts : Nat
  alg : Option Text
  kid : Option Text
  claims : OidcIdTokenClaims
  signature : Text
deriving DecidableEq, Repr

def selectEcKey (keys : List Jwk) (kid : Option Text) : Option Jwk :=
  let ecKeys := keys.filter fun k =>
    k.kty = "EC".toList && k.crv = "P-256".toList && k.use_.getD "sig".toList = "sig".toList
  let byKid := (kid.filter (· ≠ [])).bind fun kid => ecKeys.find? fun k => k.kid = some kid
  byKid.or (if ecKeys.length = 1 then ecKeys.head? else none)

/-- Without the slashes at the end. -/
def norm (s : Text) : Text := s.rdropWhile (· = '/')

def claimsValid (claims : OidcIdTokenClaims) (issuer clientId : Text) (expectedNonce : Option Text)
    (nowSec : Int) : Bool :=
  (claims.iss.any fun iss => iss ≠ [] && norm iss = norm issuer) && claims.aud.contains clientId &&
    (claims.exp.any fun exp => nowSec - 60 ≤ exp) && claims.sub.any (· ≠ []) &&
      expectedNonce.all fun nonce => claims.nonce = some nonce

/-- `validates` is the check of the signature by a key, `keys` the answer of the issuer. -/
def verifyOidcIdToken (validates : Jwk → IdToken → Bool) (keys : Option (List Jwk))
    (token : IdToken) (issuer clientId : Text) (expectedNonce : Option Text) (now : Nat) :
    Option OidcIdTokenClaims :=
  if token.parts ≠ 3 || token.alg ≠ some "ES256".toList then none
  else
    match keys.bind fun keys => selectEcKey keys token.kid with
    | none => none
    | some jwk =>
      if validates jwk token &&
          claimsValid token.claims issuer clientId expectedNonce ((now / 1000 : Nat) : Int) then
        some token.claims
      else none

end idToken

/-- A login start: which state and which nonce it gave to a browser. -/
structure Start where
  provider : Text
  state : Text
  nonce : Text
  startedAt : Nat
deriving DecidableEq, Repr

/-- What a callback brings; anybody may have chosen it. -/
structure Callback where
  provider : Text
  error : Option Text := none
  code : Option Text
  state : Option Text
  cookieNonce : Option Text
  cookieSession : Option Text := none
deriving DecidableEq, Repr

/-- Who the provider says the user is, and the actor of that user. -/
structure Identity where
  userId : Text
  claims : Option OidcIdTokenClaims
  member : Text
deriving DecidableEq, Repr

structure Session where
  id : Text
  memberId : Text
deriving DecidableEq, Repr

structure Created where
  call : Nat
  request : Callback
  checkedAt : Nat
  identity : Identity
  session : Session
deriving DecidableEq, Repr

/-- `starts` and `created` are a history. -/
structure Db where
  now : Nat
  kv : JsMap Text OAuthState
  sessions : List Session
  starts : List Start
  created : List Created
deriving DecidableEq

inductive Stage where
  | enter
  | drop (state : Text)
  | consume (state : Text) (stored : OAuthState)
  | exchange (stored : OAuthState)
  | rotate (identity : Identity)
  | insert (identity : Identity)
  | done
  | refused
deriving DecidableEq, Repr

/-- `deleted` are the sessions that the call has deleted, a history. -/
structure Call where
  request : Callback
  stage : Stage
  checkedAt : Nat
  deleted : List Text
deriving DecidableEq, Repr

def Call.move (c : Call) (stage : Stage) : Call := { c with stage }

structure Tokens where
  accessToken : Text
  idToken : Option IdToken
deriving DecidableEq, Repr

/-- What a call is told: the provider's tokens, user and keys, the actor that is found or created,
whether it is reserved, whether it still is what it was, whether its tokens can be encrypted, and
the id of a new session. -/
structure Answer where
  tokens : Option Tokens
  userInfo : Option Text
  keys : Option (List Jwk)
  member : Option Text
  reserved : Bool
  identityHolds : Bool
  encrypts : Bool
  sessionKey : Text
deriving DecidableEq, Repr

section callback

variable (providers : Text → Option Provider) (validates : Jwk → IdToken → Bool)

def given (param : Option Text) : Option Text := param.filter (· ≠ [])

def nonceMatches (stored : OAuthState) (request : Callback) : Bool :=
  (given stored.nonce).all fun nonce => request.cookieNonce = some nonce

def enter (d : Db) (c : Call) : Call :=
  match given c.request.error,given c.request.code,given c.request.state with
  | none,some _,some state =>
    match d.kv.get state with
    | none => c.move .refused
    | some stored =>
      if stateTtlMs < d.now - stored.createdAt then c.move (.drop state)
      else if stored.provider ≠ c.request.provider then c.move .refused
      else if nonceMatches stored c.request then
        { c with stage := .consume state stored, checkedAt := d.now }
      else c.move (.drop state)
  | _,_,_ => c.move .refused

def identify (i : Answer) (now : Nat) (stored : OAuthState) (providerId : Text) :
    Option Identity :=
  match providers providerId,i.tokens,i.userInfo with
  | some provider,some tokens,some userInfo =>
    if provider.oidc then
      match tokens.idToken with
      | none => none
      | some token =>
        match verifyOidcIdToken validates i.keys token (provider.issuer.getD []) provider.clientId
          stored.nonce now with
        | none => none
        | some claims =>
          i.member.map fun member => ⟨((given claims.sub).getD userInfo),some claims,member⟩
    else i.member.map fun member => ⟨userInfo,none,member⟩
  | _,_,_ => none

def rotate (i : Answer) (identity : Identity) (d : Db) (c : Call) : Db × Call :=
  if i.reserved then (d,c.move .refused)
  else
    match given c.request.cookieSession with
    | none => (d,c.move (.insert identity))
    | some key =>
      if i.identityHolds then
        ({ d with sessions := d.sessions.filter fun s => s.id ≠ key },
          { c with
            stage := .insert identity
            deleted := (d.sessions.filter fun s => s.id = key).map (·.id) })
      else (d,c.move .refused)

def insert (i : Answer) (p : Nat) (identity : Identity) (d : Db) (c : Call) : Db × Call :=
  if i.encrypts && i.identityHolds then
    let session : Session := ⟨i.sessionKey,identity.member⟩
    ({ d with
        sessions := d.sessions ++ [session]
        created := ⟨p,c.request,c.checkedAt,identity,session⟩ :: d.created },c.move .done)
  else (d,c.move .refused)

def work (i : Answer) (p : Nat) (d : Db) (c : Call) : Db × Call :=
  match c.stage with
  | .enter => (d,enter d c)
  | .drop state => ({ d with kv := d.kv.delete state },c.move .refused)
  | .consume state stored => ({ d with kv := d.kv.delete state },c.move (.exchange stored))
  | .exchange stored =>
    match identify providers validates i d.now stored c.request.provider with
    | none => (d,c.move .refused)
    | some identity => (d,c.move (.rotate identity))
  | .rotate identity => rotate i identity d c
  | .insert identity => insert i p identity d c
  | .done => (d,c)
  | .refused => (d,c)

def running (c : Call) : Bool := c.stage ≠ .done && c.stage ≠ .refused

/-- `setSessions` are the logins and logouts of everybody else. -/
inductive Event where
  | tick (ms : Nat)
  | login (provider state nonce codeVerifier : Text)
  | expire (state : Text)
  | setSessions (sessions : List Session)
deriving DecidableEq, Repr

def possible (e : Event) (d : Db) : Bool :=
  match e with
  | .login provider state nonce _ =>
    (providers provider).isSome && state ≠ [] && nonce ≠ [] &&
      d.starts.all fun start => start.state ≠ state && start.nonce ≠ nonce
  | _ => true

def happen (e : Event) (d : Db) : Db :=
  match e with
  | .tick ms => { d with now := d.now + ms }
  | .login provider state nonce codeVerifier =>
    { d with
      kv := d.kv.set state ⟨provider,codeVerifier,d.now,some nonce⟩
      starts := ⟨provider,state,nonce,d.now⟩ :: d.starts }
  | .expire state => { d with kv := d.kv.delete state }
  | .setSessions sessions => { d with sessions }

def callbacks : Threads Db Call Answer Event :=
  Threads.guarded (fun _ _ c => running c) (work providers validates) (possible providers) happen

def machine : Machine (Threads.Pool Db Call) (Threads.Label Answer Event) :=
  (callbacks providers validates).machine

def start (now : Nat) (requests : Nat → Callback) : Threads.Pool Db Call where
  store := ⟨now,.empty,[],[],[]⟩
  thread p := ⟨requests p,.enter,now,[]⟩

end callback

end Yurucommu.OAuthLogin
