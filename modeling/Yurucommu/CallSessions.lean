import Yurucommu.CallHub
import Yurucommu.IsoDates
import Yurucommu.Upsert

/-!
The durable history of calls. One row a call id, whoever of the local actors it belongs to: of a
call between two of them the history holds one row only.
-/

set_option autoImplicit false

namespace Yurucommu.Call

open FeedCursor (toISOString)
open IsoDates (InRange isoText)
open Whatwg (Text)

/-- A row of `call_sessions`; the column of the SFU focus holds the value of its text. -/
structure CallSession where
  id : String
  localActorApId : String
  peerActorApId : String
  direction : CallDirection
  state : CallState
  mediaAudio : Nat
  mediaVideo : Nat
  sfuFocus : Option SfuFocus
  peerSignalEndpoint : Option String
  endReason : Option String
  createdAt : Text
  updatedAt : Text
  connectedAt : Option Text
  endedAt : Option Text
deriving DecidableEq, Repr

/-- The call id is the primary key. `accountDeletionTargets` has the actors whose deletion is reserved
by an operation whose marker the write does not have. -/
structure CallSessions where
  rows : List CallSession
  keys : (rows.map (·.id)).Nodup
  accountDeletionTargets : List String

/-- The record of a hub with the endpoint that it keeps of the peer. -/
structure SignaledCall extends CallRecord where
  peerSignalEndpoint : Option String
deriving DecidableEq, Repr

/-- `call.connectedAt ? new Date(call.connectedAt).toISOString() : null`; none where it throws. -/
def SignaledCall.connectedText (call : SignaledCall) : Option (Option Text) :=
  match call.connectedAt with
  | none => some none
  | some ms => if ms = 0 then some none else (isoText ms).map some

/-- What `nowIso` gives for the write, and for the two columns that a new row fills by it. -/
structure WriteTimes where
  now : ℤ
  created : ℤ
  updated : ℤ
deriving Repr

/-- The text of the schema's `nowIso`: the `T` is a space, and there is no `Z`. -/
def nowIso (ms : ℤ) : Text := ((toISOString ms).replace 'T' ' ').erase 'Z'

def SignaledCall.row (call : SignaledCall) (localActorApId : String) (times : WriteTimes)
    (connectedAt : Option Text) : CallSession where
  id := call.callId
  localActorApId := localActorApId
  peerActorApId := call.peerApId
  direction := call.direction
  state := call.state
  mediaAudio := if call.media.audio then 1 else 0
  mediaVideo := if call.media.video then 1 else 0
  sfuFocus := call.sfuFocus
  peerSignalEndpoint := call.peerSignalEndpoint
  endReason := none
  createdAt := nowIso times.created
  updatedAt := nowIso times.updated
  connectedAt := connectedAt
  endedAt := if isTerminalCallState call.state then some (nowIso times.now) else none

def SignaledCall.set (call : SignaledCall) (times : WriteTimes) (connectedAt : Option Text)
    (row : CallSession) : CallSession :=
  { row with
    state := call.state
    sfuFocus := call.sfuFocus
    peerSignalEndpoint := call.peerSignalEndpoint
    connectedAt := connectedAt
    endedAt := if isTerminalCallState call.state then some (nowIso times.now) else none
    updatedAt := nowIso times.now }

/-- The triggers of an account deletion: one of the two actors is reserved. -/
def CallSessions.reserves (db : CallSessions) (localActorApId peerActorApId : String) : Bool :=
  db.accountDeletionTargets.contains localActorApId ||
    db.accountDeletionTargets.contains peerActorApId

def CallSessions.aborts (db : CallSessions) (localActorApId : String) (call : SignaledCall) : Bool :=
  db.reserves localActorApId call.peerApId ||
    db.rows.any fun row =>
      row.id = call.callId && db.reserves row.localActorApId row.peerActorApId

/-- None where it throws. -/
def upsertCallSession (times : WriteTimes) (localActorApId : String) (call : SignaledCall)
    (db : CallSessions) : Option CallSessions :=
  if db.aborts localActorApId call then none
  else
    call.connectedText.map fun connectedAt =>
      ⟨Table.upsert (·.id) (call.row localActorApId times connectedAt)
          (call.set times connectedAt) db.rows,
        Table.nodup_upsert (fun _ => rfl) db.keys,db.accountDeletionTargets⟩

structure CallSessionSummary where
  id : String
  peer : String
  direction : CallDirection
  state : CallState
  media : CallMediaKind
  createdAt : Text
  connectedAt : Option Text
  endedAt : Option Text
  endReason : Option String
deriving DecidableEq, Repr

def toSummary (row : CallSession) : CallSessionSummary where
  id := row.id
  peer := row.peerActorApId
  direction := row.direction
  state := row.state
  media := ⟨row.mediaAudio = 1,row.mediaVideo = 1⟩
  createdAt := row.createdAt
  connectedAt := row.connectedAt
  endedAt := row.endedAt
  endReason := row.endReason

def getCallSession (db : CallSessions) (localActorApId callId : String) :
    Option CallSessionSummary :=
  (db.rows.find? fun row => row.id = callId && row.localActorApId = localActorApId).map toSummary

section isolated

variable {times : WriteTimes} {localActorApId : String} {call : SignaledCall}
  {connectedAt : Option Text} {db : CallSessions} {row : CallSession}

def othersRows (localActorApId : String) (db : CallSessions) : List CallSession :=
  db.rows.filter fun row => row.localActorApId ≠ localActorApId

def Isolated (times : WriteTimes) (localActorApId : String) (call : SignaledCall)
    (db : CallSessions) : Prop :=
  ∃ db', upsertCallSession times localActorApId call db = some db' ∧
    othersRows localActorApId db' = othersRows localActorApId db ∧
    ∃ summary, getCallSession db' localActorApId call.callId = some summary ∧
      summary.state = call.state ∧ summary.direction = call.direction ∧
      summary.peer = call.peerApId

theorem connectedText_isSome_iff : (∃ connectedAt, call.connectedText = some connectedAt) ↔
    ∀ ms ∈ call.connectedAt, InRange ms := by
  unfold SignaledCall.connectedText
  cases call.connectedAt with
  | none => simp
  | some ms =>
    simp only [Option.mem_def,Option.some.injEq,forall_eq']
    split
    · rename_i hzero
      simp [hzero,InRange]
    · unfold isoText
      split
      · rename_i hrange
        simp [hrange]
      · rename_i hrange
        simp [hrange]

theorem not_aborts (hfree : db.reserves localActorApId call.peerApId = false)
    (hsame : ∀ row ∈ db.rows, row.id = call.callId →
      db.reserves row.localActorApId row.peerActorApId = false) :
    db.aborts localActorApId call = false := by
  simp only [CallSessions.aborts,hfree,Bool.false_or,List.any_eq_false,Bool.and_eq_true,
    decide_eq_true_eq,not_and]
  intro row hrow hid
  rw [hsame row hrow hid]
  exact Bool.false_ne_true

theorem isolated_of_fresh (hfree : db.reserves localActorApId call.peerApId = false)
    (hnew : ∀ row ∈ db.rows, row.id ≠ call.callId)
    (hdate : call.connectedText = some connectedAt) :
    Isolated times localActorApId call db := by
  have hrows : Table.upsert (·.id) (call.row localActorApId times connectedAt)
      (call.set times connectedAt) db.rows =
        db.rows ++ [call.row localActorApId times connectedAt] :=
    Table.upsert_of_ne _ hnew
  unfold Isolated upsertCallSession
  rw [not_aborts hfree fun row hrow hid => absurd hid (hnew row hrow),hdate]
  refine ⟨_,rfl,?_,toSummary (call.row localActorApId times connectedAt),?_,rfl,rfl,rfl⟩
  · unfold othersRows
    dsimp only
    rw [hrows,List.filter_append,List.filter_singleton]
    simp [SignaledCall.row]
  · unfold getCallSession
    dsimp only
    rw [hrows,List.find?_append]
    have hnone : (db.rows.find? fun row =>
        row.id = call.callId && row.localActorApId = localActorApId) = none := by
      rw [List.find?_eq_none]
      intro row hrow
      simp [hnew row hrow]
    rw [hnone]
    simp [SignaledCall.row]

theorem isolated_of_mem_iff (habort : db.aborts localActorApId call = false)
    (hrow : row ∈ db.rows) (hid : row.id = call.callId)
    (hdate : call.connectedText = some connectedAt) :
    Isolated times localActorApId call db ↔ row.localActorApId = localActorApId ∧
      row.direction = call.direction ∧ row.peerActorApId = call.peerApId := by
  have hrows : Table.upsert (·.id) (call.row localActorApId times connectedAt)
      (call.set times connectedAt) db.rows =
        Table.update (fun r => r.id = row.id) (call.set times connectedAt) db.rows := by
    rw [hid]
    exact Table.upsert_of_mem _ hrow hid
  have hkey : ∀ q : CallSession, (q.id = call.callId && q.localActorApId = localActorApId) = true →
      q.id = row.id := by
    intro q hq
    simp only [Bool.and_eq_true,decide_eq_true_eq] at hq
    exact hq.1.trans hid.symm
  have hfind := Table.find_update_key db.keys (fun _ => rfl :
    ∀ r, (call.set times connectedAt r).id = r.id) hrow hkey
  have hself : ((call.set times connectedAt row).id = call.callId &&
      (call.set times connectedAt row).localActorApId = localActorApId) =
        decide (row.localActorApId = localActorApId) := by
    simp [SignaledCall.set,hid]
  rw [hself] at hfind
  unfold Isolated upsertCallSession getCallSession othersRows
  rw [habort,hdate]
  simp only [Bool.false_eq_true,if_false,Option.map_some,Option.some.injEq,exists_eq_left',hrows,hfind]
  by_cases hlocal : row.localActorApId = localActorApId
  · have hothers := @Table.filter_update_key _ _ _ (fun r : CallSession => r.id)
      (call.set times connectedAt) db.rows row (fun r => r.localActorApId ≠ localActorApId) db.keys
      hrow (by simp [hlocal]) (by simp [hlocal,SignaledCall.set])
    rw [hothers]
    simp [hlocal,toSummary,SignaledCall.set]
  · simp [hlocal]

/-- A write is isolated exactly where the row of its call id, if there is one, is of the same actor
and the same call, the date of the connection is one, and neither actor is being deleted. -/
theorem upsertCallSession_isolated_iff (times : WriteTimes) (localActorApId : String)
    (call : SignaledCall) (db : CallSessions) :
    Isolated times localActorApId call db ↔
      (∀ ms ∈ call.connectedAt, InRange ms) ∧
        db.reserves localActorApId call.peerApId = false ∧
        ∀ row ∈ db.rows, row.id = call.callId → row.localActorApId = localActorApId ∧
          row.direction = call.direction ∧ row.peerActorApId = call.peerApId := by
  rw [← connectedText_isSome_iff]
  cases hdate : call.connectedText with
  | none =>
    simp only [reduceCtorEq,exists_false,false_and,iff_false]
    rintro ⟨db',hdb',_⟩
    rw [upsertCallSession,hdate,Option.map_none,ite_self] at hdb'
    cases hdb'
  | some connectedAt =>
    simp only [Option.some.injEq,exists_eq',true_and]
    cases hfree : db.reserves localActorApId call.peerApId with
    | true =>
      simp only [Bool.true_eq_false,false_and,iff_false]
      rintro ⟨db',hdb',_⟩
      have habort : db.aborts localActorApId call = true := by
        rw [CallSessions.aborts,hfree,Bool.true_or]
      rw [upsertCallSession,if_pos habort] at hdb'
      cases hdb'
    | false =>
      simp only [true_and]
      by_cases hex : ∃ row ∈ db.rows, row.id = call.callId
      · obtain ⟨row,hrow,hid⟩ := hex
        have hself : ∀ other ∈ db.rows, other.id = call.callId → other = row :=
          fun other hother hid' => Table.eq_of_key db.keys hother hrow (hid'.trans hid.symm)
        constructor
        · intro h other hother hid'
          obtain rfl := hself other hother hid'
          have habort : db.aborts localActorApId call = false := by
            obtain ⟨db',hdb',_⟩ := h
            exact Bool.eq_false_of_not_eq_true (Option.ite_none_left_eq_some.mp hdb').1
          exact (isolated_of_mem_iff habort hother hid' hdate).mp h
        · intro h
          obtain ⟨hlocal,hdirection,hpeer⟩ := h row hrow hid
          have habort : db.aborts localActorApId call = false := by
            refine not_aborts hfree fun other hother hid' => ?_
            rw [hself other hother hid',hlocal,hpeer]
            exact hfree
          exact (isolated_of_mem_iff habort hrow hid hdate).mpr ⟨hlocal,hdirection,hpeer⟩
      · have hnew : ∀ row ∈ db.rows, row.id ≠ call.callId :=
          fun row hrow hid => hex ⟨row,hrow,hid⟩
        refine iff_of_true (isolated_of_fresh hfree hnew hdate) fun row hrow hid => ?_
        exact (hnew row hrow hid).elim

end isolated

section shared

/-- The row of a caller that rings somebody of the same instance. -/
def callersRow : CallSession where
  id := "call-1"
  localActorApId := "https://a.example/ap/users/ann"
  peerActorApId := "https://a.example/ap/users/ben"
  direction := .outgoing
  state := .ringing
  mediaAudio := 1
  mediaVideo := 0
  sfuFocus := none
  peerSignalEndpoint := none
  endReason := none
  createdAt := nowIso 0
  updatedAt := nowIso 0
  connectedAt := none
  endedAt := none

def calleesCall : SignaledCall where
  callId := "call-1"
  peerApId := "https://a.example/ap/users/ann"
  direction := .incoming
  state := .missed
  media := ⟨true,false⟩
  sfuFocus := none
  createdAt := 0
  updatedAt := 46000
  connectedAt := none
  peerSignalEndpoint := none

def callersDb : CallSessions := ⟨[callersRow],List.nodup_singleton _,[]⟩

/-- The callee's write goes to the caller's row, and the callee reads no row back. -/
theorem upsertCallSession_shared :
    ∃ db', upsertCallSession ⟨46000,46000,46000⟩ "https://a.example/ap/users/ben" calleesCall
        callersDb = some db' ∧
      callersRow ∈ callersDb.rows ∧ callersRow.localActorApId ≠ "https://a.example/ap/users/ben" ∧
      callersRow ∉ db'.rows ∧
      getCallSession db' "https://a.example/ap/users/ben" "call-1" = none :=
  ⟨⟨[calleesCall.set ⟨46000,46000,46000⟩ none callersRow],List.nodup_singleton _,[]⟩,
    rfl,by decide,by decide,by decide +kernel,by decide +kernel⟩

end shared

end Yurucommu.Call
