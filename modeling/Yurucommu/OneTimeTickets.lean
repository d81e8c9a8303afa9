import Yurucommu.JsMap
import Yurucommu.Machine
import Yurucommu.Whatwg
import Mathlib.Data.List.Perm.Subperm

/-!
One-time tickets: minting lists what is stored, drops what has expired and the oldest that are too
many, and stores the digest of a new ticket; consuming deletes before it looks.
-/

set_option autoImplicit false

namespace Yurucommu.OneTimeTickets

open Whatwg (Text)

structure StoredTicket where
  hash : Text
  expiresAt : ℤ
deriving DecidableEq, Repr

abbrev Storage := JsMap Text StoredTicket

/-- SHA-256 in hexadecimal digits, taken to tell texts apart. -/
structure Digest where
  sha256Hex : Text → Text
  injective : Function.Injective sha256Hex

/-- The order in which a storage lists the keys that begin with a prefix. -/
structure Listing where
  list : Storage → Text → List (Text × StoredTicket)
  perm : ∀ storage start, (list storage start).Perm
    (storage.entries.filter fun e => start.isPrefixOf e.1)

/-- What the callers pass, or the defaults, are positive numbers. -/
structure OneTimeTicketOptions where
  ttlMs : ℤ
  maxOutstanding : Nat
  lasting : 0 < ttlMs
  roomy : 0 < maxOutstanding
deriving DecidableEq

def defaultOptions : OneTimeTicketOptions := ⟨60000,8,by decide,by decide⟩

section code

variable (D : Digest) (L : Listing) (start : Text)

def ticketKey (ticket : Text) : Text := start ++ D.sha256Hex ticket

def live (stored : List (Text × StoredTicket)) (now : ℤ) : List (Text × StoredTicket) :=
  (stored.filter fun e => now < e.2.expiresAt).mergeSort fun a b => a.2.expiresAt ≤ b.2.expiresAt

def deleteKeys (storage : Storage) (keys : List Text) : Storage :=
  keys.foldl (fun storage key => storage.delete key) storage

def evict (maxOutstanding : Nat) : List (Text × StoredTicket) → Storage → Storage × List Text
  | [], storage => (storage,[])
  | oldest :: rest, storage =>
    if maxOutstanding ≤ (oldest :: rest).length then
      let later := evict maxOutstanding rest (storage.delete oldest.1)
      (later.1,oldest.1 :: later.2)
    else (storage,[])

def mintOneTimeTicket (options : OneTimeTicketOptions) (now : ℤ) (ticket : Text)
    (storage : Storage) : Storage × List Text :=
  let hash := D.sha256Hex ticket
  let stored := L.list storage start
  let live := live stored now
  let liveKeys := live.map Prod.fst
  let swept := deleteKeys storage ((stored.map Prod.fst).filter fun key => key ∉ liveKeys)
  let evicted := evict options.maxOutstanding live swept
  (evicted.1.set (start ++ hash) ⟨hash,now + options.ttlMs⟩,evicted.2)

def timingSafeEqualStrings (a b : Text) : Bool := D.sha256Hex a = D.sha256Hex b

def consumeOneTimeTicket (now : ℤ) (ticket : Text) (storage : Storage) : Bool × Storage :=
  let hash := D.sha256Hex ticket
  let key := start ++ hash
  match storage.get key with
  | none => (false,storage)
  | some stored =>
    (if stored.expiresAt ≤ now then false else timingSafeEqualStrings D stored.hash hash,
      storage.delete key)

end code

section runs

/-- What has happened: a ticket was minted, others evicted for it; a ticket was presented. -/
inductive Event where
  | minted (ticket : Text) (now : ℤ) (options : OneTimeTicketOptions) (evicted : List Text)
  | consumed (ticket : Text) (now : ℤ) (accepted : Bool)
deriving DecidableEq

structure World where
  storage : Storage
  clock : ℤ
  log : List Event := []

inductive Call where
  | mint (now : ℤ) (ticket : Text) (options : OneTimeTicketOptions)
  | consume (now : ℤ) (ticket : Text)

def Event.mints (ticket : Text) : Event → Bool
  | .minted other _ _ _ => other = ticket
  | .consumed _ _ _ => false

variable (D : Digest) (L : Listing) (start : Text)

/-- One call at a time, on a clock that does not run backwards; no ticket comes twice. -/
def step (w : World) : Call → Option World
  | .mint now ticket options =>
    if now < w.clock ∨ w.log.any (Event.mints ticket) = true then none
    else
      let result := mintOneTimeTicket D L start options now ticket w.storage
      some ⟨result.1,now,w.log ++ [.minted ticket now options result.2]⟩
  | .consume now ticket =>
    if now < w.clock then none
    else
      let result := consumeOneTimeTicket D start now ticket w.storage
      some ⟨result.2,now,w.log ++ [.consumed ticket now result.1]⟩

def machine : Machine World Call := ⟨fun call w => step D L start w call⟩

end runs

section promise

variable (D : Digest) (start : Text)

def Uses (ticket : Text) : Event → Prop
  | .minted _ _ _ evicted => ticketKey D start ticket ∈ evicted
  | .consumed other _ _ => other = ticket

def Outstanding (log : List Event) (ticket : Text) (since : ℤ) (ttlMs : ℤ) : Prop :=
  ∃ before after options evicted,
    log = before ++ .minted ticket since options evicted :: after ∧ options.ttlMs = ttlMs ∧
      ∀ e ∈ after, ¬Uses D start ticket e

def unexpired (storage : Storage) (now : ℤ) : List (Text × StoredTicket) :=
  storage.entries.filter fun e => start.isPrefixOf e.1 && now < e.2.expiresAt

end promise

end Yurucommu.OneTimeTickets
