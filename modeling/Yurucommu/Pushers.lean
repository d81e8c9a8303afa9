import Mathlib
import Yurucommu.Machine
import Yurucommu.Table

/-!
`notification_pushers` and the calls of `registerNotificationPusher`, one statement at a time. A
stored `data_json` is the object that its text parses to, and a JSON value that is no string is its
text. The hash of a pushkey is a parameter.
-/

set_option autoImplicit false

namespace Yurucommu.Pushers

def maxNotificationPushersPerProduct : Nat := 16
def maxNotificationPushersPerApp : Nat := 8

inductive Product where
  | yurucommu | yurume
deriving DecidableEq, Repr

inductive Kind where
  | http | webpush
deriving DecidableEq, Repr

inductive JsonValue where
  | string (value : String)
  | other (json : String)
deriving DecidableEq, Repr

abbrev JsonObject := List (String × JsonValue)

/-- `data` without `url`. -/
inductive Data where
  | http (data : JsonObject)
  | webpush (auth : String)
deriving DecidableEq, Repr

def Data.kind : Data → Kind
  | .http _ => .http
  | .webpush _ => .webpush

def Data.storedData : Data → JsonObject
  | .http data => data
  | .webpush auth => [("auth",.string auth)]

structure Request where
  product : Product
  scope : Option String
  appId : String
  pushkey : String
  appDisplayName : Option String
  deviceDisplayName : Option String
  profileTag : Option String
  lang : Option String
  data : Data
  gatewayUrl : String
deriving DecidableEq, Repr

structure Key where
  product : Product
  appId : String
  pushkeyHash : String
deriving DecidableEq, Repr

structure Pusher where
  id : String
  actorApId : String
  product : Product
  scope : Option String
  kind : Kind
  appId : String
  pushkey : String
  pushkeyHash : String
  appDisplayName : Option String
  deviceDisplayName : Option String
  profileTag : Option String
  lang : Option String
  dataJson : JsonObject
  gatewayUrl : String
  createdAt : Nat
  updatedAt : Nat
  lastSeenAt : Nat
deriving DecidableEq, Repr

def Pusher.key (r : Pusher) : Key := ⟨r.product,r.appId,r.pushkeyHash⟩

def Pusher.auth (r : Pusher) : Option String :=
  match r.dataJson.lookup "auth" with
  | some (.string auth) => some auth
  | _ => none

def publicStoredData (data : JsonObject) : JsonObject := data.filter fun e => e.1 ≠ "session"

inductive ResponseData where
  | http (data : JsonObject) (gatewayUrl : String)
  | webpush (url : String)
deriving DecidableEq, Repr

structure Response where
  id : String
  appId : String
  appDisplayName : Option String
  deviceDisplayName : Option String
  profileTag : Option String
  lang : Option String
  product : Product
  scope : Option String
  registeredAt : Nat
  lastSeenAt : Nat
  data : ResponseData
deriving DecidableEq, Repr

inductive Refusal where
  | noSession
  | conflict
  | failed
deriving DecidableEq, Repr

inductive Stage where
  | selectExisting
  | selectSameApp
  | selectSameProduct (sameApp : List String)
  | evict (ids : List String)
  | upsert (existing : Option String)
  | selectRegistered
  | registered (response : Response)
  | refused (why : Refusal)
deriving DecidableEq, Repr

/-- `changed` is history: a statement of the call has changed the table. -/
structure Call where
  actor : String
  input : Request
  sessionKey : Option String
  now : Nat
  stage : Stage
  changed : Bool
deriving DecidableEq, Repr

/-- Whom and what an id has been generated for. -/
structure Issue where
  id : String
  actor : String
  key : Key
deriving DecidableEq, Repr

def Pusher.issue (r : Pusher) : Issue := ⟨r.id,r.actorApId,r.key⟩

structure Store where
  pushers : List Pusher
  issued : List Issue
deriving DecidableEq, Repr

/-- The clock that a call reads first, and the id that it generates. -/
structure Answer where
  now : Nat
  id : String

section register

variable (hash : String → String) (c : Call)

def Call.key : Key := ⟨c.input.product,c.input.appId,hash c.input.pushkey⟩

/-- An empty string is no session. -/
def Call.session : Option String := c.sessionKey.filter (· ≠ "")

def Call.storedData : JsonObject :=
  publicStoredData c.input.data.storedData ++
    c.session.toList.map fun key => ("session",.string key)

/-- The subscription that the row stores. -/
def presents (auth : String) (r : Pusher) : Bool :=
  r.kind = .webpush && r.gatewayUrl = c.input.gatewayUrl && r.auth = some auth

/-- `setWhere`. -/
def Call.mayTake (r : Pusher) : Bool :=
  match c.input.data with
  | .http _ => true
  | .webpush auth => r.actorApId = c.actor || presents c auth r

def newPusher (id : String) : Pusher :=
  { id := id, actorApId := c.actor, product := c.input.product, scope := c.input.scope
    kind := c.input.data.kind, appId := c.input.appId, pushkey := c.input.pushkey
    pushkeyHash := hash c.input.pushkey, appDisplayName := c.input.appDisplayName
    deviceDisplayName := c.input.deviceDisplayName, profileTag := c.input.profileTag
    lang := c.input.lang, dataJson := c.storedData, gatewayUrl := c.input.gatewayUrl
    createdAt := c.now, updatedAt := c.now, lastSeenAt := c.now }

def setPusher (id : String) (sameActor : Bool) (r : Pusher) : Pusher :=
  { newPusher hash c id with
    product := r.product
    appId := r.appId
    pushkeyHash := r.pushkeyHash
    createdAt := if sameActor then r.createdAt else c.now }

def upsert (id : String) (sameActor : Bool) (pushers : List Pusher) : List Pusher :=
  if pushers.any fun r => r.key = c.key hash then
    Table.update (fun r => r.key = c.key hash && c.mayTake r) (setPusher hash c id sameActor) pushers
  else pushers ++ [newPusher hash c id]

def idsByAge (owned : Pusher → Bool) (pushers : List Pusher) : List String :=
  ((pushers.filter owned).insertionSort fun r r' => r.createdAt ≤ r'.createdAt).map (·.id)

def sameProduct (r : Pusher) : Bool := r.actorApId = c.actor && r.product = c.input.product

def sameApp (r : Pusher) : Bool := sameProduct c r && r.appId = c.input.appId

def evicted (app product : List String) : List String :=
  let evict := app.take (app.length + 1 - maxNotificationPushersPerApp)
  let remaining := product.filter (· ∉ evict)
  evict ++ remaining.take (remaining.length + 1 - maxNotificationPushersPerProduct)

def response (r : Pusher) : Response :=
  { id := r.id, appId := r.appId, appDisplayName := r.appDisplayName.filter (· ≠ "")
    deviceDisplayName := r.deviceDisplayName.filter (· ≠ "")
    profileTag := r.profileTag.filter (· ≠ ""), lang := r.lang.filter (· ≠ "")
    product := c.input.product, scope := r.scope, registeredAt := r.createdAt
    lastSeenAt := r.lastSeenAt
    data :=
      match r.kind with
      | .webpush => .webpush r.gatewayUrl
      | .http => .http (publicStoredData r.dataJson) r.gatewayUrl }

def Call.decide (pushers : List Pusher) : Stage :=
  let existing := pushers.find? fun r => r.key = c.key hash
  let taken := existing.any fun r => r.actorApId ≠ c.actor
  match c.input.data,c.session with
  | .webpush _,none => .refused .noSession
  | .webpush auth,some _ =>
    if taken && !existing.any (presents c auth) then .refused .conflict
    else match existing with
      | some r => if r.actorApId = c.actor then .upsert (some r.id) else .selectSameApp
      | none => .selectSameApp
  | .http _,_ =>
    match existing with
    | some r => if r.actorApId = c.actor then .upsert (some r.id) else .selectSameApp
    | none => .selectSameApp

def Call.conclude (pushers : List Pusher) : Stage :=
  match pushers.find? fun r => r.actorApId = c.actor && r.key = c.key hash with
  | some r => .registered (response c r)
  | none => .refused (if c.input.data.kind = .webpush then .conflict else .failed)

/-- The rows after the next statement, and the stage. An id that another row has is an error. -/
def Call.advance (i : Answer) (pushers : List Pusher) : List Pusher × Stage :=
  match c.stage with
  | .selectExisting => (pushers,c.decide hash pushers)
  | .selectSameApp => (pushers,.selectSameProduct (idsByAge (sameApp c) pushers))
  | .selectSameProduct app =>
    (pushers,
      match evicted app (idsByAge (sameProduct c) pushers) with
      | [] => .upsert none
      | ids => .evict ids)
  | .evict ids => (Table.delete (fun r => r.id ∈ ids) pushers,.upsert none)
  | .upsert existing =>
    let id := existing.getD i.id
    if pushers.any fun r => r.key ≠ c.key hash && r.id = id then (pushers,.refused .failed)
    else (upsert hash c id existing.isSome pushers,.selectRegistered)
  | .selectRegistered => (pushers,c.conclude hash pushers)
  | .registered response => (pushers,.registered response)
  | .refused why => (pushers,.refused why)

end register

/-- A call reads the clock before its first statement. -/
def Call.clocked (i : Answer) (c : Call) : Call :=
  { c with now := if c.stage = .selectExisting then i.now else c.now }

def work (hash : String → String) (i : Answer) (_ : Nat) (s : Store) (c : Call) : Store × Call :=
  let c := c.clocked i
  let r := c.advance hash i s.pushers
  ({ pushers := r.1
     issued := if c.stage = .upsert none then ⟨i.id,c.actor,c.key hash⟩ :: s.issued else s.issued },
    { c with stage := r.2, changed := c.changed || r.1 ≠ s.pushers })

/-- `generateId` does not give an id twice. -/
def allowed (i : Answer) (s : Store) (c : Call) : Bool :=
  c.stage ≠ .upsert none || s.issued.all fun e => e.id ≠ i.id

def threads (hash : String → String) : Threads Store Call Answer Empty :=
  .guarded allowed (work hash) (fun _ _ => true) fun _ s => s

abbrev Pool := Threads.Pool Store Call

abbrev Label := Threads.Label Answer Empty

abbrev machine (hash : String → String) : Machine Pool Label := (threads hash).machine

structure Start (hash : String → String) (s : Pool) : Prop where
  ids : (s.store.pushers.map (·.id)).Nodup
  keys : (s.store.pushers.map Pusher.key).Nodup
  hashed : ∀ r ∈ s.store.pushers, r.pushkeyHash = hash r.pushkey
  issued : s.store.issued = s.store.pushers.map Pusher.issue
  calls : ∀ p, (s.thread p).stage = .selectExisting ∧ (s.thread p).changed = false

theorem step_call {hash : String → String} {p : Nat} {i : Answer} {s t : Pool} :
    (machine hash).step (.act p i) s = some t ↔
      allowed i s.store (s.thread p) = true ∧
      t = ⟨(work hash i p s.store (s.thread p)).1,
        Function.update s.thread p (work hash i p s.store (s.thread p)).2⟩ := by
  rw [machine,threads,Threads.guarded_step_act]

end Yurucommu.Pushers
