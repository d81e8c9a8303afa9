import Yurucommu.Machine
import Yurucommu.WhatwgOrigin

/-!
The public origin of an instance whose `APP_URL` is unset: the pin in KV, what each isolate has
observed, and the calls that read and write them, one KV operation at a time.
-/

set_option autoImplicit false

namespace Yurucommu.PublicOrigin

open Whatwg (Text URL HostParser)

inductive PublicOriginError where
  | notUrl (value : Text)
  | notBare (value : Text)
  | notHttps (value : Text)
  | concurrentlyPinned (readback requestOrigin : Text)
  | notObserved
deriving DecidableEq

namespace PublicOriginError

def message : PublicOriginError → Text
  | notUrl value =>
    '"' :: value ++ "\" is not a URL and cannot be this instance's public origin.".toList
  | notBare value =>
    '"' :: value ++ ("\" is not a bare origin; this instance's public origin must " ++
      "carry no path, query, fragment, or credentials.").toList
  | notHttps value =>
    '"' :: value ++ ("\" is not an https origin. A public origin observed from a " ++
      "request must be https (loopback http is the only exception); set " ++
      "APP_URL explicitly when this Worker is served over plain http.").toList
  | concurrentlyPinned readback requestOrigin =>
    "this instance's public origin was concurrently pinned to \"".toList ++ readback ++
      "\" while this request was establishing \"".toList ++ requestOrigin ++
      "\". The pinned origin stands; retry.".toList
  | notObserved =>
    ("this instance's public origin has not been observed yet: APP_URL is " ++
      "unset and no request has pinned an origin. Serve one request on the " ++
      "Worker's public endpoint before background delivery can address anything.").toList

end PublicOriginError

def isLoopbackHostname (hostname : Text) : Bool :=
  hostname = "localhost".toList || hostname = "127.0.0.1".toList || hostname = "[::1]".toList ||
    ".localhost".toList.isSuffixOf hostname

section canonical

variable (H : HostParser)

def canonicalPublicOrigin (value : Text) : Except PublicOriginError Text :=
  match Whatwg.parse H.parse value with
  | none => .error (.notUrl value)
  | some url =>
    if url.username ≠ [] || url.password ≠ [] || url.search ≠ [] || Whatwg.hash value ≠ [] ||
        url.pathname ≠ ['/'] then .error (.notBare value)
    else if url.protocol ≠ "https:".toList &&
        !(url.protocol = "http:".toList && isLoopbackHostname url.hostname) then
      .error (.notHttps value)
    else .ok url.origin

/-- `canonicalPublicOrigin(new URL(request.url).origin)` -/
def requestOrigin (url : Text) : Except PublicOriginError Text :=
  match Whatwg.parse H.parse url with
  | none => .error (.notUrl url)
  | some url => canonicalPublicOrigin H url.origin

end canonical

structure Store where
  /-- What KV holds under `CANONICAL_ORIGIN_KV_KEY`. -/
  pin : Option Text
  observedPublicOrigin : Nat → Option Text

inductive Request where
  | establish (url : Text)
  | background
deriving DecidableEq

inductive Stage where
  | enter
  | pinned
  | put (requestOrigin : Text)
  | readback (requestOrigin : Text)
  | done (answer : Except PublicOriginError Text)

/-- A call of `establishRequestPublicOrigin` or of `requireBackgroundPublicOrigin`. -/
structure Call where
  isolate : Nat
  request : Request
  stage : Stage

namespace Call

def move (c : Call) (stage : Stage) : Call := { c with stage }

@[simp] theorem move_request (c : Call) (stage : Stage) : (c.move stage).request = c.request := rfl

@[simp] theorem move_stage (c : Call) (stage : Stage) : (c.move stage).stage = stage := rfl

end Call

section work

variable (H : HostParser)

/-- `observedPublicOrigin = origin; return origin;` -/
def settle (c : Call) (origin : Text) (d : Store) : Store × Call :=
  ({ d with observedPublicOrigin :=
      Function.update d.observedPublicOrigin c.isolate (some origin) },
    c.move (.done (.ok origin)))

/-- `readPinnedOrigin`, and what a call makes of an empty store. -/
def readPinned (c : Call) (d : Store) : Store × Call :=
  match d.pin with
  | some stored =>
    match canonicalPublicOrigin H stored with
    | .ok pinned => settle c pinned d
    | .error e => (d,c.move (.done (.error e)))
  | none =>
    match c.request with
    | .establish url =>
      match requestOrigin H url with
      | .ok origin => (d,c.move (.put origin))
      | .error e => (d,c.move (.done (.error e)))
    | .background => (d,c.move (.done (.error .notObserved)))

/-- A read-back of nothing is taken for the call's own write. -/
def readBack (c : Call) (origin : Text) (d : Store) : Store × Call :=
  match d.pin with
  | none => settle c origin d
  | some readback =>
    match canonicalPublicOrigin H readback with
    | .error e => (d,c.move (.done (.error e)))
    | .ok canonical =>
      if canonical ≠ origin then
        (d,c.move (.done (.error (.concurrentlyPinned readback origin))))
      else settle c origin d

def work (d : Store) (c : Call) : Store × Call :=
  match c.stage with
  | .enter =>
    match d.observedPublicOrigin c.isolate with
    | some origin => (d,c.move (.done (.ok origin)))
    | none => (d,c.move .pinned)
  | .pinned => readPinned H c d
  | .put origin => ({ d with pin := some origin },c.move (.readback origin))
  | .readback origin => readBack H c origin d
  | .done _ => (d,c)

def running (c : Call) : Bool :=
  match c.stage with
  | .done _ => false
  | _ => true

def origins : Threads Store Call Unit Empty :=
  Threads.guarded (fun _ _ c => running c) (fun _ _ d c => work H d c)
    (fun e => nomatch e) (fun e => nomatch e)

def machine : Machine (Threads.Pool Store Call) (Threads.Label Unit Empty) :=
  (origins H).machine

end work

/-- Isolates start with nothing observed, whatever KV already holds. -/
structure Start (s : Threads.Pool Store Call) : Prop where
  enter : ∀ p, (s.thread p).stage = .enter
  observed : ∀ i, s.store.observedPublicOrigin i = none

end Yurucommu.PublicOrigin
