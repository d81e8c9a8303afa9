import Yurucommu.DeliveryWrites

/-!
One delivery job beside the operator's blocklist: the runs that plan the job or resolve a
recipient of it, the runs that deliver it, the cached actors a shadow probe picks from, and
the operator's blocks. Which actors a row of the blocklist covers is a parameter.
-/

set_option autoImplicit false

namespace Yurucommu.Defederation

open Delivery (DeliveryRow)

/-- The rows of `blocked_actors` and of `blocked_domains`. -/
inductive Block where
  | actor (apId : String)
  | domain (domain : String)
deriving DecidableEq, Repr

def Block.isActor : Block → Bool
  | .actor _ => true
  | .domain _ => false

/-- `sharing` are the actors of `actor_cache` whose shared inbox is the job's, in the order in
which a `SELECT` finds them; `probing` says whether the job's host is among the
`DELIVERY_SHADOW_PROBE_HOSTS`. -/
structure Store where
  delivery : Delivery.Store
  blocks : List Block
  sharing : List String := []
  probing : Bool := false

/-- `known` is history: the blocklist as it was when the run's first statement ran. -/
inductive Task where
  | endpoint (known : List Block) (task : Delivery.Task)
  | loadActivity (recipient : String)
  | isRemoteActorTombstoned (recipient : String)
  | blockedActors (todo allowed : List String)
  | blockedDomains (todo allowed : List String)
  | loadActorCache (allowed : List String)
  | upsertDeliveryJob (recipients : List String)
  | selectJob
  | sendEndpoint
  | done

/-- `atEndpoint` are the recipients whose cached endpoint is that of the job. -/
structure Answer where
  delivery : Delivery.Answer
  found : Bool
  atEndpoint : List String
  activityId : String
  endpoint : String
  now : Nat

def isBlocked (covers : Block → String → Bool) (blocks : List Block) (actor : String) : Bool :=
  blocks.any fun b => covers b actor

/-- The recipients of the request a run issues; a shadow probe goes to the first actor found
with the job's shared inbox. -/
def posted (i : Answer) (s : Store) : Delivery.Task → List String
  | .post _ => s.delivery.recipients
  | .shadowProbe _ => if i.delivery.probe.isSome then s.sharing.head?.toList else []
  | _ => []

def begins : Delivery.Task → Bool
  | .select | .selectReconcile _ => true
  | _ => false

/-- `filterBlockedActorApIdsStrict` and `isActorBlockedStrict` read the two tables one after
the other; here a read is for one recipient. -/
def work (covers : Block → String → Bool) (i : Answer) (p : Nat) (s : Store) :
    Task → Store × Task
  | .endpoint known task =>
    ({ s with delivery := (Delivery.work i.delivery p s.delivery task).1 },
      .endpoint (if begins task then s.blocks else known)
        (Delivery.work i.delivery p s.delivery task).2)
  | .loadActivity recipient =>
    (s, if i.found then .isRemoteActorTombstoned recipient else .done)
  | .isRemoteActorTombstoned recipient =>
    (s, if s.delivery.tombstones.contains recipient then .done else .blockedActors [recipient] [])
  | .blockedActors [] allowed => (s, .blockedDomains allowed [])
  | .blockedActors (x :: todo) allowed =>
    (s, .blockedActors todo
      (if isBlocked covers (s.blocks.filter Block.isActor) x then allowed else allowed ++ [x]))
  | .blockedDomains [] allowed => (s, .loadActorCache allowed)
  | .blockedDomains (x :: todo) allowed =>
    (s, .blockedDomains todo
      (if isBlocked covers (s.blocks.filter fun b => !b.isActor) x then allowed
        else allowed ++ [x]))
  | .loadActorCache allowed => (s, .upsertDeliveryJob (allowed.filter i.atEndpoint.contains))
  | .upsertDeliveryJob recipients =>
    ({ s with
        delivery :=
          Delivery.upsertDeliveryJob i.activityId i.endpoint recipients i.now s.delivery },
      .selectJob)
  | .selectJob => (s, if s.delivery.row.isSome then .sendEndpoint else .done)
  | .sendEndpoint => ({ s with delivery := s.delivery.send (.deliverEndpoint 0 i.now) 0 }, .done)
  | .done => (s, .done)

def probeAllowed (i : Answer) (s : Store) : Delivery.Task → Bool
  | .shadowProbe _ => !i.delivery.probe.isSome || s.probing
  | _ => true

def allowed (i : Answer) (s : Store) : Task → Bool
  | .endpoint _ task => Delivery.allowed i.delivery s.delivery task && probeAllowed i s task
  | .upsertDeliveryJob _ | .sendEndpoint => i.now ≤ s.delivery.now
  | .done => false
  | _ => true

/-- The operator's block, a write of `actor_cache`, and what else happens to the job;
`deleteActivity` and `deleteRemoteActor` are also what the purge after a block does. -/
inductive Event where
  | block (b : Block)
  | cacheActors (sharing : List String)
  | delivery (e : Delivery.Event)

def possible (e : Event) (s : Store) : Bool :=
  match e with
  | .block _ | .cacheActors _ => true
  | .delivery (.upsertDeliveryJob _ _ _ _) => false
  | .delivery e => e.reads ≤ s.delivery.now

def happen (e : Event) (s : Store) : Store :=
  match e with
  | .block b => { s with blocks := b :: s.blocks }
  | .cacheActors sharing => { s with sharing }
  | .delivery e => { s with delivery := Delivery.happen e s.delivery }

def threads (covers : Block → String → Bool) : Threads Store Task Answer Event :=
  .guarded allowed (work covers) possible happen

abbrev Pool := Threads.Pool Store Task

abbrev Label := Threads.Label Answer Event

abbrev machine (covers : Block → String → Bool) : Machine Pool Label := (threads covers).machine

/-- The runs to come: an endpoint delivery or a repair, the resolution of a recipient, and the
planning of a page of them. -/
inductive Task.Entry : Task → Prop where
  | select : Task.Entry (.endpoint [] .select)
  | selectReconcile (attempt : Delivery.JsNumber) :
      Task.Entry (.endpoint [] (.selectReconcile attempt))
  | processResolveActor (recipient : String) : Task.Entry (.loadActivity recipient)
  | planEndpointsFromActorCache (recipients : List String) :
      Task.Entry (.blockedActors recipients [])

/-- The job has not been inserted, and no actor with its inbox has been cached; there may be
blocks already. -/
structure Start (s : Pool) : Prop where
  row : s.store.delivery.row = none
  recipients : s.store.delivery.recipients = []
  sharing : s.store.sharing = []
  entry : ∀ p, (s.thread p).Entry

variable {covers : Block → String → Bool}

theorem step_worker {p : Nat} {i : Answer} {s t : Pool} :
    (machine covers).step (.act p i) s = some t ↔
      allowed i s.store (s.thread p) = true ∧
      t = ⟨(work covers i p s.store (s.thread p)).1,
        Function.update s.thread p (work covers i p s.store (s.thread p)).2⟩ := by
  rw [machine,threads,Threads.guarded_step_act]

theorem step_event {e : Event} {s t : Pool} :
    (machine covers).step (.env e) s = some t ↔
      possible e s.store = true ∧ t = ⟨happen e s.store,s.thread⟩ := by
  rw [machine,threads,Threads.guarded_step_env]

end Yurucommu.Defederation
