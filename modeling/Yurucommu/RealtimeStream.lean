import Mathlib
import Yurucommu.Machine

/-!
The realtime stream of one actor and one client of it. A turn of the stream is one step; a
connection carries what was sent on it in order until the client's socket is gone. Pings, tickets
and what is no event input are left out.
-/

set_option autoImplicit false

namespace Yurucommu.RealtimeStream

inductive RealtimeEventType where
  | talkMessage
  | talkTyping
  | talkRead
  | talkContactsChanged
  | notificationNew
  | unread
deriving DecidableEq, Repr

structure RealtimeEvent (δ : Type) where
  id : Nat
  type : RealtimeEventType
  data : δ
deriving DecidableEq, Repr

inductive RealtimeServerFrame (δ : Type) where
  | helloOk (lastEventId : Nat)
  | event (event : RealtimeEvent δ)
  | resync
deriving DecidableEq, Repr

def eventBufferSize : Nat := 200

section server

variable {δ : Type}

structure Storage (δ : Type) where
  seq : Nat
  eventAt : Nat → Option (RealtimeEvent δ)

/-- The two hosts of a stream: a Durable Object and an Actor. -/
inductive Host where
  | durableObject
  | actor
deriving DecidableEq, Repr

def appendEvent (host : Host) (event : RealtimeEvent δ) (retain : Nat) (d : Storage δ) :
    Storage δ :=
  let eventAt := Function.update d.eventAt event.id (some event)
  match host with
  | .durableObject =>
    { seq := event.id
      eventAt := if retain < event.id then Function.update eventAt (event.id - retain) none
        else eventAt }
  | .actor =>
    { seq := event.id
      eventAt := fun seq => if seq + retain ≤ event.id then none else eventAt seq }

def newEvent (type : RealtimeEventType) (data : δ) (d : Storage δ) : RealtimeEvent δ :=
  ⟨d.seq + 1,type,data⟩

def oldestBuffered (seq : Nat) : Nat := max 1 (seq + 1 - eventBufferSize)

def replayed (last : Nat) (d : Storage δ) : List (RealtimeEvent δ) :=
  (List.range' (last + 1) (d.seq - last)).filterMap d.eventAt

def answer (lastEventId : Option Nat) (d : Storage δ) : List (RealtimeServerFrame δ) :=
  let gap : List (RealtimeServerFrame δ) :=
    match lastEventId with
    | none => []
    | some last =>
      if last < d.seq then
        if oldestBuffered d.seq - 1 ≤ last then (replayed last d).map .event
        else [.resync]
      else []
  gap ++ [.helloOk d.seq]

end server

section client

variable {δ : Type}

inductive RealtimeStatus where
  | idle
  | connecting
  | connected
  | reconnecting
deriving DecidableEq, Repr

/-- What subscribers are told; a resync with the head of the stream when it is dispatched. -/
inductive Dispatch (δ : Type) where
  | event (event : RealtimeEvent δ)
  | resync (head : Nat)
deriving DecidableEq, Repr

structure Client (δ : Type) where
  socket : Option Nat
  currentStatus : RealtimeStatus
  attempts : Nat
  lastEventId : Option Nat
  dispatched : List (Dispatch δ)
  /-- The head of the stream when the first `hello_ok` came in. -/
  greeted : Option Nat
deriving DecidableEq, Repr

def Client.connect (socket : Nat) (c : Client δ) : Client δ :=
  { c with
    socket := some socket
    currentStatus := if c.attempts = 0 then .connecting else .reconnecting }

/-- `onmessage`. -/
def Client.receive (head : Nat) (c : Client δ) : RealtimeServerFrame δ → Client δ
  | .helloOk lastEventId =>
    { c with
      attempts := 0
      lastEventId := some (match c.lastEventId with
        | none => lastEventId
        | some last => max last lastEventId)
      currentStatus := .connected
      greeted := c.greeted <|> some head }
  | .event event =>
    { c with
      lastEventId := some (max (c.lastEventId.getD 0) event.id)
      dispatched := c.dispatched ++ [.event event] }
  | .resync => { c with dispatched := c.dispatched ++ [.resync head] }

/-- `onGone` and the ping timer that finds the socket dead. -/
def Client.gone (c : Client δ) : Client δ :=
  { c with socket := none,currentStatus := .reconnecting,attempts := c.attempts + 1 }

end client

section world

variable {δ : Type}

/-- Where the stream has a socket: not accepted yet, in `transport.list()`, or out of it. -/
inductive Phase where
  | opening
  | listed
  | closed
deriving DecidableEq, Repr

structure Connection (δ : Type) where
  phase : Phase
  opened : Bool
  /-- The hello on its way, with its `lastEventId`. -/
  hello : Option (Option Nat)
  frames : List (RealtimeServerFrame δ)

def Connection.fresh : Connection δ := ⟨.opening,false,none,[]⟩

/-- A send to a socket that is closed throws, and is caught. -/
def Connection.send (frames : List (RealtimeServerFrame δ)) (c : Connection δ) : Connection δ :=
  if c.phase = .listed then { c with frames := c.frames ++ frames } else c

structure World (δ : Type) where
  storage : Storage δ
  /-- Every event that was appended. -/
  log : List (RealtimeEvent δ)
  connections : Nat → Connection δ
  next : Nat
  client : Client δ

def World.setConnection (n : Nat) (c : Connection δ) (s : World δ) : World δ :=
  { s with connections := Function.update s.connections n c }

inductive Label (δ : Type) where
  | emit (type : RealtimeEventType) (data : δ)
  | connect
  | accept (n : Nat)
  | onopen (n : Nat)
  | hello (n : Nat)
  | deliver (n : Nat)
  | gone
  | close (n : Nat)

namespace World

variable (s : World δ)

def emit (host : Host) (type : RealtimeEventType) (data : δ) : World δ :=
  let event := newEvent type data s.storage
  { s with
    storage := appendEvent host event eventBufferSize s.storage
    log := s.log ++ [event]
    connections := fun n => (s.connections n).send [.event event] }

def connect : World δ :=
  { s with
    connections := Function.update s.connections s.next .fresh
    next := s.next + 1
    client := s.client.connect s.next }

def accept (n : Nat) : World δ :=
  s.setConnection n { s.connections n with phase := .listed }

def onopen (n : Nat) : World δ :=
  s.setConnection n { s.connections n with
    opened := true
    hello := if s.client.socket = some n then some s.client.lastEventId else none }

def hello (n : Nat) (lastEventId : Option Nat) : World δ :=
  s.setConnection n
    ({ s.connections n with hello := none }.send (answer lastEventId s.storage))

def deliver (n : Nat) (frame : RealtimeServerFrame δ) (rest : List (RealtimeServerFrame δ)) :
    World δ :=
  { s.setConnection n { s.connections n with frames := rest } with
    client := if s.client.socket = some n then s.client.receive s.storage.seq frame
      else s.client }

def close (n : Nat) : World δ :=
  s.setConnection n { s.connections n with phase := .closed }

end World

def step (host : Host) (l : Label δ) (s : World δ) : Option (World δ) :=
  match l with
  | .emit type data => some (s.emit host type data)
  | .connect => if s.client.socket = none then some s.connect else none
  | .accept n =>
    if n < s.next ∧ (s.connections n).phase = .opening then some (s.accept n) else none
  | .onopen n =>
    if (s.connections n).phase ≠ .opening ∧ (s.connections n).opened = false then
      some (s.onopen n)
    else none
  | .hello n => (s.connections n).hello.map fun lastEventId => s.hello n lastEventId
  | .deliver n =>
    match (s.connections n).opened,(s.connections n).frames with
    | true,frame :: rest => some (s.deliver n frame rest)
    | _,_ => none
  | .gone => if s.client.socket = none then none else some { s with client := s.client.gone }
  | .close n => if (s.connections n).phase = .listed then some (s.close n) else none

def machine (δ : Type) (host : Host) : Machine (World δ) (Label δ) := ⟨step host⟩

def start (δ : Type) : World δ where
  storage := ⟨0,fun _ => none⟩
  log := []
  connections _ := .fresh
  next := 0
  client := ⟨none,.idle,0,none,[],none⟩

end world

end Yurucommu.RealtimeStream
