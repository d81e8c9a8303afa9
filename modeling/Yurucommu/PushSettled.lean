import Yurucommu.PushJobSafe

/-!
Which pushers of a push job have had their final answer: what a call to a gateway or to a push
service sends and settles, beside the runs that work on the job. Every clock reading, answer and
exception of a run is as it is for the job.
-/

set_option autoImplicit false

namespace Yurucommu.PushSettled

open PushJob (GatewayResult JobRow Worker leased seen stale recoverable)

/-- What a call gives, or none where it throws, whom it has sent the notification to, and whose
answer is final. -/
structure Delivered where
  result : Option GatewayResult
  sent : List String
  answered : List String
deriving DecidableEq, Repr

section gateway

/-- A pusher of a group; `live` is whether the session it belongs to, if any, is. -/
structure Pusher where
  id : String
  pushkey : String
  live : Bool
deriving DecidableEq, Repr

structure GatewayBody where
  rejected : List String
  retryable : List String
  failed : List String
deriving DecidableEq, Repr

inductive Response where
  | threw (error : String)
  | received (status retryAfterSeconds : Nat) (body : Option GatewayBody)
deriving DecidableEq, Repr

/-- What a group's call finds: whether the operator allows the gateway, whether the check of a
session or the deletion behind it throws, and whether the deletion of a rejected pusher does. -/
structure GatewayCall where
  allowed : Bool := true
  pushers : List Pusher
  sessionThrows : Bool := false
  response : Response
  deleteThrows : Bool := false
deriving DecidableEq, Repr

def idsOf (pushers : List Pusher) : List String := pushers.map (·.id)

def GatewayBody.retries (b : GatewayBody) (row : Pusher) : Bool :=
  b.retryable.contains row.pushkey && !(b.rejected ++ b.failed).contains row.pushkey

def gatewayHttp (status : Nat) : String := "gateway HTTP " ++ toString status

def deliverGatewayGroup (c : GatewayCall) : Delivered :=
  if !c.allowed then
    ⟨some ⟨[],0,some "gateway is no longer operator-allowed"⟩,[],idsOf c.pushers⟩
  else if c.sessionThrows then ⟨none,[],[]⟩
  else
    let livePushers := c.pushers.filter (·.live)
    let ended := idsOf (c.pushers.filter fun row => !row.live)
    let ids := idsOf livePushers
    if livePushers = [] then ⟨some ⟨[],0,none⟩,[],ended⟩
    else
      match c.response with
      | .threw error => ⟨some ⟨ids,0,some error⟩,ids,ended⟩
      | .received status retryAfterSeconds body =>
        if status = 429 || 500 ≤ status then
          ⟨some ⟨ids,retryAfterSeconds,some (gatewayHttp status)⟩,ids,ended⟩
        else if !(200 ≤ status && status < 300) then
          ⟨some ⟨[],0,some (gatewayHttp status)⟩,ids,ended ++ ids⟩
        else
          match body with
          | none => ⟨some ⟨ids,0,some "invalid gateway response"⟩,ids,ended⟩
          | some b =>
            let answered := ended ++ idsOf (livePushers.filter fun row => !b.retries row)
            if c.deleteThrows && livePushers.any fun row => b.rejected.contains row.pushkey then
              ⟨none,ids,answered⟩
            else
              ⟨some ⟨idsOf (livePushers.filter b.retries),retryAfterSeconds,
                if b.failed = [] then none else some "gateway reported permanent failures"⟩,
                ids,answered⟩

end gateway

section webpush

/-- How the delivery to a browser ends; a deletion may throw behind the answer of a push service
that the subscription is gone. -/
inductive WebPushCall where
  | throws (sent : Bool)
  | ineligible (error : String)
  | sessionEnded
  | unresolved (error : String)
  | delivered
  | gone (deleteThrows : Bool)
  | retry (retryAfterSeconds : Nat) (error : String)
  | failed (error : String)
deriving DecidableEq, Repr

def deliverWebPushPusher (id : String) : WebPushCall → Delivered
  | .throws sent => ⟨none,if sent then [id] else [],[]⟩
  | .ineligible error => ⟨some ⟨[],0,some error⟩,[],[id]⟩
  | .sessionEnded => ⟨some ⟨[],0,none⟩,[],[id]⟩
  | .unresolved error => ⟨some ⟨[id],0,some error⟩,[],[]⟩
  | .delivered => ⟨some ⟨[],0,none⟩,[id],[id]⟩
  | .gone deleteThrows => ⟨if deleteThrows then none else some ⟨[],0,none⟩,[id],[id]⟩
  | .retry seconds error => ⟨some ⟨[id],seconds,some ("web push: " ++ error)⟩,[id],[]⟩
  | .failed error => ⟨some ⟨[],0,some ("web push: " ++ error)⟩,[id],[id]⟩

end webpush

inductive Call where
  | gateway (call : GatewayCall)
  | webPush (id : String) (call : WebPushCall)
deriving DecidableEq, Repr

def Call.ids : Call → List String
  | .gateway call => idsOf call.pushers
  | .webPush id _ => [id]

def Call.delivered : Call → Delivered
  | .gateway call => deliverGatewayGroup call
  | .webPush id call => deliverWebPushPusher id call

/-- `owned` are the pushers that the product had when the job was created, the oldest first. The
rest is history: which of them have been removed, whose answer was final, for whom the job has not
been written since, who was sent the notification after that, what the row has been, and whether the
notification was found to be no longer eligible. -/
structure Store where
  job : PushJob.Store
  owned : List String
  removed : List String
  answered : List String
  unsaved : List String
  repeated : List String
  rows : List JobRow
  withdrawn : Bool
deriving DecidableEq, Repr

structure Input where
  answer : PushJob.Answer
  call : Call := .gateway ⟨true,[],false,.threw "",false⟩
deriving DecidableEq, Repr

section runs

def maxNotificationPushDispatch : Nat := 16

def Store.present (s : Store) : List String := s.owned.filter (· ∉ s.removed)

/-- What the other tables give: the oldest pushers of the product, those of a list that are still
there, and the result of a call. -/
def consistent (i : Input) (s : Store) : Worker → Bool
  | .selectPending _ _ => i.answer.pusherIds = s.present.take maxNotificationPushDispatch
  | .selectPushers _ d =>
    let loaded := i.answer.web ++ i.answer.groups.flatten
    loaded.Nodup && (loaded.all fun id => d.dispatchIds.contains id && !s.removed.contains id) &&
      d.dispatchIds.all fun id => s.removed.contains id || loaded.contains id
  | .send _ _ ids _ => i.call.ids = ids &&
      match i.call.delivered.result with
      | none => i.answer.fails
      | some result => !i.answer.fails && i.answer.result = result
  | _ => true

def allowed (i : Input) (s : Store) (x : Worker) : Bool :=
  PushJob.allowed i.answer s.job x && consistent i s x

def record (i : Input) (p : Nat) (s : Store) : Worker → Store
  | .send _ _ _ _ =>
    { s with
      answered := i.call.delivered.answered ++ s.answered
      unsaved := i.call.delivered.answered ++ s.unsaved
      repeated := i.call.delivered.sent.filter (· ∈ s.answered) ++ s.repeated }
  | .loadPushEvent _ _ =>
    { s with withdrawn := s.withdrawn || !(i.answer.fails || i.answer.eligible) }
  | .finish _ _ _ _ | .retry _ _ _ _ | .caught _ _ _ _ _ =>
    if !i.answer.fails && Statement.hits (leased p) s.job.row then { s with unsaved := [] } else s
  | _ => s

def work (i : Input) (p : Nat) (s : Store) (x : Worker) : Store × Worker :=
  let next := PushJob.work i.answer p s.job x
  ({ record i p s x with job := next.1, rows := next.1.row.toList ++ s.rows },next.2)

/-- The job is not created again; a pusher may be removed at any time. -/
inductive Event where
  | tick (ms : Nat)
  | delete
  | remove (id : String)
deriving DecidableEq, Repr

def happen (e : Event) (s : Store) : Store :=
  match e with
  | .tick ms => { s with job := PushJob.happen (.tick ms) s.job }
  | .delete => { s with job := PushJob.happen .delete s.job }
  | .remove id => { s with removed := id :: s.removed }

def threads : Threads Store Worker Input Event :=
  .guarded (fun i s x => allowed i s x) work (fun _ _ => true) happen

abbrev Pool := Threads.Pool Store Worker

def created (now : Nat) (owned : List String) (entries : Nat → Worker) : Pool :=
  ⟨⟨⟨some (PushJob.newRow now),now,[],[(PushJob.newRow now).version]⟩,owned,[],[],[],[],
    [PushJob.newRow now],false⟩,entries⟩

end runs

end Yurucommu.PushSettled
