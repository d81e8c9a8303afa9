import Yurucommu.CallHub

/-!
What a step of the hub does to the calls that are over. A handler that comes back from a
relay ends the record it holds without looking at it again; everything else goes through
the map, which holds no call that is over.
-/

set_option autoImplicit false

namespace Yurucommu.Call

def Output.announced : Output → Option (Nat × CallState)
  | .persist ref record => some (ref,record.state)
  | .broadcast (some ref) (.callState _ state) => some (ref,state)
  | .broadcast (some ref) (.ringing _ _ _) => some (ref,.ringing)
  | _ => none

/-- What a call that is over is owed: it keeps its state, nothing else is said of it, and
no call leaves the map but by its own end. -/
structure Kept (s t : Store) : Prop where
  ended : ∀ (ref : Nat) (call : CallRecord), s.records[ref]? = some call →
    isTerminalCallState call.state = true →
      ∃ call' : CallRecord, t.records[ref]? = some call' ∧ call'.state = call.state
  said : ∃ new, t.log = s.log ++ new ∧
    ∀ o ∈ new, ∀ ref state, o.announced = some (ref,state) →
      ∀ call : CallRecord, s.records[ref]? = some call →
        isTerminalCallState call.state = true → state = call.state
  removed : ∀ callId ref, s.calls.get callId = some ref → t.calls.get callId = none →
    ∃ call : CallRecord, t.records[ref]? = some call ∧ isTerminalCallState call.state = true

def Valid (s : Store) : Prop :=
  ∀ callId ref, s.calls.get callId = some ref →
    ∃ call : CallRecord, s.records[ref]? = some call ∧ call.callId = callId ∧
      isTerminalCallState call.state = false

def Extends (s t : Store) : Prop :=
  ∀ (ref : Nat) (call : CallRecord), s.records[ref]? = some call →
    ∃ call' : CallRecord, t.records[ref]? = some call' ∧ call'.callId = call.callId

def Shrinks (s t : Store) : Prop :=
  ∀ callId ref, s.calls.get callId = some ref →
    t.calls.get callId = some ref ∨ t.calls.get callId = none

def Grows (s t : Store) : Prop :=
  ∀ callId, t.calls.get callId = none → s.calls.get callId = none

/-- `ref` can be moved to `state` by a handler that does not look: the record is not over
in another state, and its id is not the id of another record. -/
def Movable (ref : Nat) (state : CallState) (s : Store) : Prop :=
  ∀ call : CallRecord, s.records[ref]? = some call →
    (isTerminalCallState call.state = true → call.state = state) ∧
      (s.calls.get call.callId = none ∨ s.calls.get call.callId = some ref)

theorem Valid.lookup {s : Store} (h : Valid s) {callId : String} {ref : Nat}
    {call : CallRecord} (hl : s.lookup callId = some (ref,call)) :
    s.calls.get callId = some ref ∧ s.records[ref]? = some call ∧ call.callId = callId ∧
      isTerminalCallState call.state = false := by
  simp only [Store.lookup,Option.bind_eq_some_iff,Option.map_eq_some_iff,Prod.mk.injEq] at hl
  obtain ⟨a,ha,b,hb,rfl,rfl⟩ := hl
  obtain ⟨call',hc,hid,ht⟩ := h callId a ha
  rw [hb] at hc
  cases hc
  exact ⟨ha,hb,hid,ht⟩

theorem Valid.movable {s : Store} (h : Valid s) {ref : Nat} {callId : String}
    (hg : s.calls.get callId = some ref) (state : CallState) : Movable ref state s := by
  obtain ⟨call,hc,hid,ht⟩ := h callId ref hg
  intro call' hc'
  rw [hc] at hc'
  cases hc'
  refine ⟨fun hx => ?_,.inr (hid ▸ hg)⟩
  rw [ht] at hx
  cases hx

theorem Kept.refl (s : Store) : Kept s s where
  ended _ call hc _ := ⟨call,hc,rfl⟩
  said := ⟨[],by simp,fun _ h => by cases h⟩
  removed _ _ hs ht := by
    rw [hs] at ht
    cases ht

theorem Kept.trans {s u t : Store} (h₁ : Kept s u) (h₂ : Kept u t)
    (h : Shrinks s u ∨ Grows u t) : Kept s t where
  ended ref call hc ht := by
    obtain ⟨call₁,hc₁,hs₁⟩ := h₁.ended ref call hc ht
    obtain ⟨call₂,hc₂,hs₂⟩ := h₂.ended ref call₁ hc₁ (hs₁ ▸ ht)
    exact ⟨call₂,hc₂,hs₂.trans hs₁⟩
  said := by
    obtain ⟨new₁,hl₁,hn₁⟩ := h₁.said
    obtain ⟨new₂,hl₂,hn₂⟩ := h₂.said
    refine ⟨new₁ ++ new₂,by rw [hl₂,hl₁,List.append_assoc],fun o ho ref state ha call hc ht => ?_⟩
    rcases List.mem_append.mp ho with ho | ho
    · exact hn₁ o ho ref state ha call hc ht
    · obtain ⟨call₁,hc₁,hs₁⟩ := h₁.ended ref call hc ht
      exact (hn₂ o ho ref state ha call₁ hc₁ (hs₁ ▸ ht)).trans hs₁
  removed callId ref hs ht := by
    have last : u.calls.get callId = none →
        ∃ call : CallRecord, t.records[ref]? = some call ∧
          isTerminalCallState call.state = true := by
      intro hu
      obtain ⟨call₁,hc₁,ht₁⟩ := h₁.removed callId ref hs hu
      obtain ⟨call₂,hc₂,hs₂⟩ := h₂.ended ref call₁ hc₁ ht₁
      exact ⟨call₂,hc₂,hs₂ ▸ ht₁⟩
    rcases h with hsh | hgr
    · rcases hsh callId ref hs with hu | hu
      · exact h₂.removed callId ref hu ht
      · exact last hu
    · exact last (hgr callId ht)

theorem Extends.trans {s u t : Store} (h₁ : Extends s u) (h₂ : Extends u t) : Extends s t := by
  intro ref call hc
  obtain ⟨call₁,hc₁,hid₁⟩ := h₁ ref call hc
  obtain ⟨call₂,hc₂,hid₂⟩ := h₂ ref call₁ hc₁
  exact ⟨call₂,hc₂,hid₂.trans hid₁⟩

theorem Shrinks.trans {s u t : Store} (h₁ : Shrinks s u) (h₂ : Shrinks u t)
    (hn : ∀ c, u.calls.get c = none → t.calls.get c = none) : Shrinks s t := by
  intro callId ref hs
  rcases h₁ callId ref hs with hu | hu
  · exact h₂ callId ref hu
  · exact .inr (hn callId hu)

section emit

variable {s : Store} {o : Output}

theorem kept_emit (h : ∀ ref state, o.announced = some (ref,state) →
    ∀ call : CallRecord, s.records[ref]? = some call →
      isTerminalCallState call.state = true → state = call.state) : Kept s (s.emit o) where
  ended _ call hc _ := ⟨call,hc,rfl⟩
  said := by
    refine ⟨[o],rfl,fun o' ho ref state ha => ?_⟩
    rw [List.mem_singleton] at ho
    exact h ref state (ho ▸ ha)
  removed _ _ hs ht := by
    rw [Store.emit,hs] at ht
    cases ht

theorem kept_emit_quiet (h : o.announced = none) : Kept s (s.emit o) :=
  kept_emit fun _ _ ha => by
    rw [h] at ha
    cases ha

theorem extends_emit : Extends s (s.emit o) := fun _ call hc => ⟨call,hc,rfl⟩

theorem Valid.emit (h : Valid s) : Valid (s.emit o) := h

end emit

section transition

variable {s : Store} {ref : Nat} {state : CallState}

theorem transition_of_some {call : CallRecord} (hc : s.records[ref]? = some call) :
    transition ref state s =
      { s with
        records := s.records.set ref (call.moved state s.now)
        calls := if isTerminalCallState state then s.calls.delete call.callId else s.calls
        log := s.log ++ [.persist ref (call.moved state s.now),
          .broadcast (some ref) (.callState call.callId state)] } := by
  simp only [transition,hc]

theorem transition_of_none (hc : s.records[ref]? = none) : transition ref state s = s := by
  simp only [transition,hc]

theorem lt_of_getElem? {α : Type} {l : List α} {i : Nat} {a : α} (h : l[i]? = some a) :
    i < l.length := (List.getElem?_eq_some_iff.mp h).1

theorem transition_self {call : CallRecord} (hc : s.records[ref]? = some call) :
    (transition ref state s).records[ref]? = some (call.moved state s.now) := by
  rw [transition_of_some hc]
  exact List.getElem?_set_self (lt_of_getElem? hc)

theorem transition_of_ne {ref' : Nat} (h : ref' ≠ ref) :
    (transition ref state s).records[ref']? = s.records[ref']? := by
  cases hc : s.records[ref]? with
  | none => rw [transition_of_none hc]
  | some call =>
    rw [transition_of_some hc]
    exact List.getElem?_set_ne h.symm

theorem transition_get {call : CallRecord} (hc : s.records[ref]? = some call) (c : String) :
    (transition ref state s).calls.get c =
      if isTerminalCallState state = true ∧ c = call.callId then none else s.calls.get c := by
  rw [transition_of_some hc]
  by_cases hs : isTerminalCallState state = true
  · simp only [hs,if_true,true_and]
    exact JsMap.get_delete _ _ _
  · simp [hs]

theorem transition_shrinks : Shrinks s (transition ref state s) := by
  intro c ref' hg
  cases hc : s.records[ref]? with
  | none =>
    rw [transition_of_none hc]
    exact .inl hg
  | some call =>
    rw [transition_get hc]
    split
    · exact .inr rfl
    · exact .inl hg

theorem transition_extends : Extends s (transition ref state s) := by
  intro ref' call hc
  by_cases h : ref' = ref
  · subst h
    exact ⟨_,transition_self hc,rfl⟩
  · exact ⟨call,by rw [transition_of_ne h]; exact hc,rfl⟩

theorem transition_none (c : String) (h : s.calls.get c = none) :
    (transition ref state s).calls.get c = none := by
  cases hc : s.records[ref]? with
  | none => rwa [transition_of_none hc]
  | some call =>
    rw [transition_get hc]
    split
    · rfl
    · exact h

theorem Valid.transition (h : Valid s) : Valid (transition ref state s) := by
  intro c ref' hg
  cases hc : s.records[ref]? with
  | none =>
    rw [transition_of_none hc] at hg ⊢
    exact h c ref' hg
  | some call =>
    rw [transition_get hc] at hg
    split at hg
    · cases hg
    · rename_i hne
      obtain ⟨call',hc',hid,ht⟩ := h c ref' hg
      by_cases heq : ref' = ref
      · subst heq
        rw [hc] at hc'
        cases hc'
        refine ⟨_,transition_self hc,hid,?_⟩
        have hnt : ¬isTerminalCallState state = true := fun hx => hne ⟨hx,hid.symm⟩
        simpa [CallRecord.moved] using hnt
      · exact ⟨call',by rw [transition_of_ne heq]; exact hc',hid,ht⟩

theorem kept_transition (hm : Movable ref state s) : Kept s (transition ref state s) := by
  cases hc : s.records[ref]? with
  | none =>
    rw [transition_of_none hc]
    exact .refl s
  | some call =>
    obtain ⟨hst,hmap⟩ := hm call hc
    constructor
    case ended =>
      intro ref' call' hc' ht
      by_cases heq : ref' = ref
      · subst heq
        rw [hc] at hc'
        cases hc'
        exact ⟨_,transition_self hc,(hst ht).symm⟩
      · exact ⟨call',by rw [transition_of_ne heq]; exact hc',rfl⟩
    case said =>
      refine ⟨[.persist ref (call.moved state s.now),
        .broadcast (some ref) (.callState call.callId state)],by rw [transition_of_some hc],?_⟩
      intro o ho ref' state' ha call' hc' ht
      have hann : (ref,state) = (ref',state') := by
        simp only [List.mem_cons,List.not_mem_nil,or_false] at ho
        rcases ho with rfl | rfl
        · exact Option.some.inj ha
        · exact Option.some.inj ha
      cases hann
      rw [hc] at hc'
      cases hc'
      exact (hst ht).symm
    case removed =>
      intro c ref' hs hn
      rw [transition_get hc] at hn
      split at hn
      · rename_i hdel
        obtain ⟨hterm,rfl⟩ := hdel
        rcases hmap with hmap | hmap
        · rw [hmap] at hs
          cases hs
        · rw [hmap] at hs
          cases hs
          exact ⟨_,transition_self hc,hterm⟩
      · rw [hs] at hn
        cases hn

theorem movable_of_kept {t : Store} (hv : Valid s)
    (hk : Kept s t) (hrec : ∀ ref', ref' < s.records.length →
      t.records[ref']? = (transition ref state s).records[ref']?)
    (hget : ∀ call : CallRecord, s.records[ref]? = some call → t.calls.get call.callId = none) :
    Movable ref state s := by
  intro call hc
  refine ⟨fun ht => ?_,?_⟩
  · obtain ⟨call',hc',hs⟩ := hk.ended ref call hc ht
    rw [hrec ref (lt_of_getElem? hc),transition_self hc] at hc'
    cases hc'
    exact hs.symm
  · cases hg : s.calls.get call.callId with
    | none => exact .inl rfl
    | some ref' =>
      right
      by_contra hne
      have hne' : ref' ≠ ref := fun h => hne (congrArg some h)
      obtain ⟨call₁,hc₁,_,hnt⟩ := hv _ _ hg
      obtain ⟨call₂,hc₂,ht⟩ := hk.removed _ _ hg (hget call hc)
      rw [hrec ref' (lt_of_getElem? hc₁),transition_of_ne hne',hc₁] at hc₂
      cases hc₂
      rw [hnt] at ht
      cases ht

end transition

section addCall

variable {s : Store} {call : CallRecord}

theorem addCall_records {ref : Nat} (h : ref < s.records.length) :
    (addCall call s).records[ref]? = s.records[ref]? := by
  simp only [addCall]
  exact List.getElem?_append_left h

theorem addCall_grows : Grows s (addCall call s) := by
  intro c hc
  simp only [addCall,JsMap.get_set] at hc
  split at hc
  · cases hc
  · exact hc

theorem kept_addCall : Kept s (addCall call s) where
  ended ref call' hc _ := ⟨call',by rw [addCall_records (lt_of_getElem? hc)]; exact hc,rfl⟩
  said := by
    refine ⟨[.persist s.records.length call],rfl,fun o ho ref state ha call' hc => ?_⟩
    rw [List.mem_singleton] at ho
    subst ho
    cases ha
    exact absurd (lt_of_getElem? hc) (Nat.lt_irrefl _)
  removed c ref hs ht := by
    rw [addCall_grows c ht] at hs
    cases hs

theorem extends_addCall : Extends s (addCall call s) := fun _ call' hc =>
  ⟨call',by rw [addCall_records (lt_of_getElem? hc)]; exact hc,rfl⟩

theorem Valid.addCall (h : Valid s) (hc : isTerminalCallState call.state = false) :
    Valid (addCall call s) := by
  intro c ref hg
  simp only [Call.addCall,JsMap.get_set] at hg
  split at hg
  · rename_i heq
    cases hg
    refine ⟨call,?_,heq.symm,hc⟩
    simp only [Call.addCall]
    exact List.getElem?_concat_length
  · obtain ⟨call',hc',hid,ht⟩ := h c ref hg
    exact ⟨call',by rw [addCall_records (lt_of_getElem? hc')]; exact hc',hid,ht⟩

end addCall

/-- A step that keeps what it has to, and the shape of the store. -/
structure Proper (s t : Store) : Prop where
  kept : Kept s t
  valid : Valid t
  ext : Extends s t

namespace Proper

variable {s t : Store}

theorem refl (h : Valid s) : Proper s s := ⟨.refl s,h,fun _ call hc => ⟨call,hc,rfl⟩⟩

theorem emit {o : Output} (h : Proper s t) (ho : o.announced = none) : Proper s (t.emit o) :=
  ⟨h.kept.trans (kept_emit_quiet ho) (.inr fun _ hc => hc),h.valid.emit,h.ext.trans extends_emit⟩

theorem transition {ref : Nat} {state : CallState} (h : Proper s t) (hs : Shrinks s t)
    (hm : Movable ref state t) : Proper s (Call.transition ref state t) :=
  ⟨h.kept.trans (kept_transition hm) (.inl hs),h.valid.transition,
    h.ext.trans transition_extends⟩

theorem addCall {call : CallRecord} (h : Proper s t)
    (hc : isTerminalCallState call.state = false) : Proper s (Call.addCall call t) :=
  ⟨h.kept.trans kept_addCall (.inr addCall_grows),h.valid.addCall hc,h.ext.trans extends_addCall⟩

end Proper

theorem shrinks_refl (s : Store) : Shrinks s s := fun _ _ h => .inl h

theorem shrinks_emit (s : Store) (o : Output) : Shrinks s (s.emit o) := fun _ _ h => .inl h

section handlers

variable {i : Answer} {s : Store} {callId : String} {ref : Nat} {call : CallRecord}
  {envelope : RtcSignalEnvelope}

theorem proper_connect (hv : Valid s) (hl : s.lookup callId = some (ref,call)) :
    Proper s (connect ref call s) := by
  unfold connect
  split
  · exact (Proper.refl hv).transition (shrinks_refl s) (hv.movable (hv.lookup hl).1 _)
  · exact .refl hv

theorem proper_relay {t : Store} {ends : Option TerminalCallState} (h : Proper s t) :
    Proper s (relay ref envelope ends t).1 := h.emit rfl

theorem proper_hello (calls : List CallRecord) {t : Store} (h : Proper s t) :
    Proper s (calls.foldl (fun s call => s.emit (.send (.callState call.callId call.state))) t) := by
  induction calls generalizing t with
  | nil => exact h
  | cons call calls ih => exact ih (h.emit rfl)

theorem proper_onClientFrame (hv : Valid s) (frame : ClientToHubFrame) :
    Proper s (onClientFrame frame s).1 := by
  have same := Proper.refl hv
  cases frame with
  | hello => exact proper_hello _ (same.emit rfl)
  | ping => exact same.emit rfl
  | resume callId => exact same.emit rfl
  | invite callId to_ media =>
    simp only [onClientFrame,onClientInvite]
    split <;> exact same
  | offer callId sdp =>
    simp only [onClientFrame]
    split
    · exact same
    · exact proper_relay same
  | answer callId sdp =>
    simp only [onClientFrame]
    split
    · exact same
    · rename_i hl
      exact proper_relay (proper_connect hv hl)
  | candidates callId candidates =>
    simp only [onClientFrame]
    split
    · exact same
    · split
      · exact same
      · exact proper_relay same
  | accept callId =>
    simp only [onClientFrame]
    split
    · exact same
    · rename_i hl
      exact proper_relay (proper_connect hv hl)
  | reject callId reason =>
    simp only [onClientFrame]
    split
    · exact same
    · exact proper_relay same
  | hangup callId reason =>
    simp only [onClientFrame]
    split
    · exact same
    · split
      · exact proper_relay same
      · exact proper_relay same

theorem proper_offerSdp {t : Store} (h : Proper s t) : Proper s (offerSdp ref call envelope t) := by
  unfold offerSdp
  split
  · exact h
  · split
    · exact h
    · exact h.emit rfl

theorem proper_ringCall {t : Store} (h : Proper s t) :
    Proper s (ringCall i ref call envelope t).1 := by
  unfold ringCall
  split
  · exact h.emit rfl
  · exact proper_offerSdp (h.emit rfl)

theorem proper_ringNewCall {t : Store} (h : Proper s t) :
    Proper s (ringNewCall i envelope t).1 :=
  proper_ringCall (h.addCall rfl)

theorem proper_onPeerOffer (hv : Valid s) : Proper s (onPeerOffer i envelope s).1 := by
  unfold onPeerOffer
  split
  · exact proper_ringCall (.refl hv)
  · split
    · exact proper_ringNewCall (.refl hv)
    · split
      · exact (Proper.refl hv).emit rfl
      · exact .refl hv

theorem proper_onPeerAnswer (hv : Valid s) : Proper s (onPeerAnswer envelope s) := by
  unfold onPeerAnswer
  split
  · rename_i hl hsdp
    split
    · exact .refl hv
    · exact (proper_connect hv hl).emit rfl
  · exact .refl hv

theorem proper_onPeerCandidate (hv : Valid s) : Proper s (onPeerCandidate envelope s) := by
  unfold onPeerCandidate
  split
  · split
    · exact .refl hv
    · exact (Proper.refl hv).emit rfl
  · exact .refl hv

theorem proper_onPeerAccept (hv : Valid s) : Proper s (onPeerAccept envelope s) := by
  unfold onPeerAccept
  split
  · exact .refl hv
  · rename_i hl
    exact (proper_connect hv hl).emit rfl

theorem proper_onPeerReject (hv : Valid s) : Proper s (onPeerReject envelope s) := by
  unfold onPeerReject
  split
  · exact .refl hv
  · rename_i hl
    exact ((Proper.refl hv).emit rfl).transition (shrinks_emit s _)
      (hv.emit.movable (hv.lookup hl).1 _)

theorem proper_onPeerHangup (hv : Valid s) : Proper s (onPeerHangup envelope s) := by
  unfold onPeerHangup
  split
  · exact .refl hv
  · rename_i hl
    exact ((Proper.refl hv).emit rfl).transition (shrinks_emit s _)
      (hv.emit.movable (hv.lookup hl).1 _)

theorem proper_handleInboundSignal (hv : Valid s) :
    Proper s (handleInboundSignal i envelope s).1 := by
  unfold handleInboundSignal
  split
  · split
    · exact proper_onPeerOffer hv
    · exact proper_onPeerAnswer hv
    · exact proper_onPeerCandidate hv
    · exact proper_onPeerAccept hv
    · exact proper_onPeerReject hv
    · exact proper_onPeerHangup hv
    · exact proper_onPeerHangup hv
  · exact .refl hv

theorem proper_markConnected (hv : Valid s) : Proper s (markConnected callId s) := by
  unfold markConnected
  split
  · exact .refl hv
  · rename_i hl
    split
    · exact .refl hv
    · exact (Proper.refl hv).transition (shrinks_refl s) (hv.movable (hv.lookup hl).1 _)

theorem proper_inviteProvisioned (hv : Valid s) (to_ : String) (media : CallMediaKind) :
    Proper s (inviteProvisioned i callId to_ media s).1 := by
  unfold inviteProvisioned
  split
  · exact .refl hv
  · rename_i iceServers sfuFocus _
    have added : Proper s (addCall (newCall s callId to_ .outgoing media sfuFocus) s) :=
      (Proper.refl hv).addCall rfl
    have sent := added.emit (o := .send (.iceServers callId iceServers sfuFocus)) rfl
    refine ⟨?_,sent.valid.emit,sent.ext.trans extends_emit⟩
    refine sent.kept.trans (kept_emit fun ref state ha call hc ht => ?_) (.inr fun _ h => h)
    cases ha
    have hself : (addCall (newCall s callId to_ .outgoing media sfuFocus) s).records[
        s.records.length]? = some (newCall s callId to_ .outgoing media sfuFocus) :=
      List.getElem?_concat_length
    have hsame := hself.symm.trans hc
    cases hsame
    cases ht

theorem timedOut_not_terminal {now : Int} {state : TerminalCallState}
    (h : timedOut call now = some state) : isTerminalCallState call.state = false := by
  unfold timedOut at h
  split at h
  · rename_i hr
    rw [hr.1]
    rfl
  · split at h
    · rename_i hc
      rw [hc.1]
      rfl
    · cases h

theorem proper_tickCall {t : Store} {now : Int} (h : Proper s t) (hs : Shrinks s t)
    (hm : s.calls.get callId = some ref) (hv : Valid s) :
    Proper s (tickCall now t ref) ∧ Shrinks s (tickCall now t ref) := by
  unfold tickCall
  split
  · exact ⟨h,hs⟩
  · rename_i call hc
    split
    · exact ⟨h,hs⟩
    · rename_i state hst
      obtain ⟨call₀,hc₀,hid₀,_⟩ := hv callId ref hm
      obtain ⟨call₁,hc₁,hid₁⟩ := h.ext ref call₀ hc₀
      have hmov : Movable ref state.1 t := by
        intro call' hc'
        rw [hc] at hc' hc₁
        cases hc'
        cases hc₁
        refine ⟨fun ht => ?_,?_⟩
        · rw [timedOut_not_terminal hst] at ht
          cases ht
        · rw [hid₁,hid₀]
          exact (hs callId ref hm).symm
      exact ⟨h.transition hs hmov,hs.trans transition_shrinks transition_none⟩

theorem proper_tick (hv : Valid s) : Proper s (tick s) := by
  have fold : ∀ refs : List Nat, (∀ ref ∈ refs, ref ∈ s.calls.values) →
      ∀ t, Proper s t → Shrinks s t → Proper s (refs.foldl (tickCall s.now) t) := by
    intro refs
    induction refs with
    | nil => exact fun _ t h _ => h
    | cons ref refs ih =>
      intro hmem t h hs
      obtain ⟨c,hc⟩ := JsMap.mem_values_iff.mp (hmem ref (by simp))
      obtain ⟨h',hs'⟩ := proper_tickCall h hs hc hv
      exact ih (fun r hr => hmem r (by simp [hr])) _ h' hs'
  exact fold _ (fun _ h => h) s (.refl hv) (shrinks_refl s)

end handlers

def HandlerOk (_ : Nat) (s : Store) : Handler → Prop
  | .relaying ref _ => ref < s.records.length
  | .ringing ref _ => ref < s.records.length
  | .glare ref envelope =>
    ∃ call : CallRecord, s.records[ref]? = some call ∧ call.callId ≠ envelope.callId
  | _ => True

/-- The handler comes back from its await to a record that nobody ended or replaced in
the meantime: what it does next to the record does not have to look. -/
def Undisturbed (i : Answer) (s : Store) : Handler → Prop
  | .relaying ref ends =>
    if i.relayed then ∀ state, ends = some state → Movable ref state.1 s
    else Movable ref .failed s
  | .glare ref _ => Movable ref (if i.relayed then .cancelled else .failed) s
  | .ringing ref _ => i.media.isSome = true → ∀ call : CallRecord, s.records[ref]? = some call →
      isTerminalCallState call.state = false
  | _ => True

section resume

variable {i : Answer} {s : Store} {ref : Nat} {envelope : RtcSignalEnvelope}

theorem kept_transition_iff (hv : Valid s) {state : CallState}
    (hterm : isTerminalCallState state = true) :
    Kept s (transition ref state s) ↔ Movable ref state s := by
  refine ⟨fun hk => movable_of_kept hv hk (fun _ _ => rfl) fun call hc => ?_,kept_transition⟩
  rw [transition_get hc,if_pos ⟨hterm,rfl⟩]

theorem relayFailed_frame : (relayFailed ref s).records = (transition ref .failed s).records ∧
    (relayFailed ref s).calls = (transition ref .failed s).calls := by
  simp only [relayFailed,transition,Store.emit]
  cases s.records[ref]? with
  | none => exact ⟨rfl,rfl⟩
  | some call => exact ⟨rfl,rfl⟩

theorem kept_relayFailed_iff (hv : Valid s) :
    Kept s (relayFailed ref s) ↔ Movable ref .failed s := by
  constructor
  · intro hk
    refine movable_of_kept hv hk (fun ref' _ => ?_) fun call hc => ?_
    · rw [relayFailed_frame.1]
    · rw [relayFailed_frame.2,transition_get hc]
      exact if_pos ⟨rfl,rfl⟩
  · intro hm
    exact (kept_emit_quiet rfl).trans (kept_transition (s := s.emit _) hm) (.inl (shrinks_emit s _))

theorem ringNewCall_frame {t : Store} :
    (∀ ref', ref' < t.records.length →
      (ringNewCall i envelope t).1.records[ref']? = t.records[ref']?) ∧
    ∀ c, c ≠ envelope.callId → (ringNewCall i envelope t).1.calls.get c = t.calls.get c := by
  have hcalls : ∀ (call : CallRecord) (ref' : Nat) (u : Store),
      (ringCall i ref' call envelope u).1.records = u.records ∧
        (ringCall i ref' call envelope u).1.calls = u.calls := by
    intro call ref' u
    unfold ringCall offerSdp
    split
    · exact ⟨rfl,rfl⟩
    · split
      · exact ⟨rfl,rfl⟩
      · split <;> exact ⟨rfl,rfl⟩
  constructor
  · intro ref' hlt
    rw [ringNewCall,(hcalls _ _ _).1]
    exact addCall_records hlt
  · intro c hc
    rw [ringNewCall,(hcalls _ _ _).2]
    exact JsMap.get_set_of_ne hc

theorem kept_glareRelayed_iff (hv : Valid s) (hh : HandlerOk 0 s (.glare ref envelope)) :
    Kept s (glareRelayed i ref envelope s).1 ↔
      Movable ref (if i.relayed then .cancelled else .failed) s := by
  unfold glareRelayed
  split
  · obtain ⟨call,hc,hne⟩ := hh
    have hlen : (transition ref .cancelled s).records.length = s.records.length := by
      rw [transition_of_some hc]
      exact List.length_set
    constructor
    · intro hk
      refine movable_of_kept hv hk (fun ref' hlt => ?_) fun call' hc' => ?_
      · exact ringNewCall_frame.1 ref' (hlen.symm ▸ hlt)
      · rw [hc] at hc'
        cases hc'
        rw [ringNewCall_frame.2 _ hne,transition_get hc]
        exact if_pos ⟨rfl,rfl⟩
    · intro hm
      have hp : Proper s (transition ref .cancelled s) :=
        (Proper.refl hv).transition (shrinks_refl s) hm
      exact (proper_ringNewCall hp).kept
  · exact kept_relayFailed_iff hv

theorem kept_ringProvisioned_iff (hh : ref < s.records.length) :
    Kept s (ringProvisioned i ref envelope s).1 ↔
      (i.media.isSome = true → ∀ call : CallRecord, s.records[ref]? = some call →
        isTerminalCallState call.state = false) := by
  have hrec : s.records[ref]? = some s.records[ref] := List.getElem?_eq_getElem hh
  cases hm : i.media with
  | none =>
    simp only [ringProvisioned,hm]
    exact ⟨fun _ h => (by cases h),fun _ => .refl s⟩
  | some media =>
    simp only [ringProvisioned,hm,hrec]
    have hquiet : Kept s (s.emit (.broadcast (some ref)
        (.iceServers s.records[ref].callId media.1 media.2))) := kept_emit_quiet rfl
    constructor
    · rintro hk _ call hc
      cases hc
      by_contra ht
      have hterm : isTerminalCallState s.records[ref].state = true := by simpa using ht
      obtain ⟨new,hl,hn⟩ := hk.said
      have hmem : Output.broadcast (some ref)
          (.ringing s.records[ref].callId s.records[ref].peerApId s.records[ref].media) ∈ new := by
        unfold offerSdp at hl
        split at hl
        · rw [Store.emit,Store.emit,List.append_assoc] at hl
          rw [← List.append_cancel_left hl]
          simp
        · split at hl
          · rw [Store.emit,Store.emit,List.append_assoc] at hl
            rw [← List.append_cancel_left hl]
            simp
          · rw [Store.emit,Store.emit,Store.emit,List.append_assoc,List.append_assoc] at hl
            rw [← List.append_cancel_left hl]
            simp
      have hstate := hn _ hmem ref .ringing rfl _ hrec hterm
      rw [← hstate] at hterm
      cases hterm
    · intro hnt
      have hring : Kept s ((s.emit (.broadcast (some ref)
          (.iceServers s.records[ref].callId media.1 media.2))).emit (.broadcast (some ref)
            (.ringing s.records[ref].callId s.records[ref].peerApId s.records[ref].media))) := by
        refine hquiet.trans (kept_emit fun ref' state ha call hc ht => ?_) (.inl (shrinks_emit s _))
        cases ha
        have hcur : isTerminalCallState call.state = false := hnt rfl call (hrec ▸ hc)
        rw [hcur] at ht
        cases ht
      unfold offerSdp
      split
      · exact hring
      · split
        · exact hring
        · exact hring.trans (kept_emit_quiet rfl) (.inr fun _ h => h)

end resume

/-- A handler's step keeps the calls that are over exactly when it is undisturbed. -/
theorem kept_work_iff {i : Answer} {p : Nat} {s : Store} {h : Handler} (hv : Valid s)
    (hh : HandlerOk p s h) : Kept s (work i p s h).1 ↔ Undisturbed i s h := by
  cases h with
  | frame frame => exact ⟨fun _ => trivial,fun _ => (proper_onClientFrame hv frame).kept⟩
  | inbound envelope => exact ⟨fun _ => trivial,fun _ => (proper_handleInboundSignal hv).kept⟩
  | markConnected callId => exact ⟨fun _ => trivial,fun _ => (proper_markConnected hv).kept⟩
  | tick => exact ⟨fun _ => trivial,fun _ => (proper_tick hv).kept⟩
  | invited callId to_ media =>
    exact ⟨fun _ => trivial,fun _ => (proper_inviteProvisioned hv to_ media).kept⟩
  | done => exact ⟨fun _ => trivial,fun _ => .refl s⟩
  | glare ref envelope => exact kept_glareRelayed_iff hv hh
  | ringing ref envelope => exact kept_ringProvisioned_iff hh
  | relaying ref ends =>
    simp only [work,Undisturbed]
    split
    · cases ends with
      | none => exact ⟨fun _ _ h => (by cases h),fun _ => .refl s⟩
      | some state =>
        refine (kept_transition_iff hv state.2).trans ⟨?_,fun h => h state rfl⟩
        rintro hm _ ⟨⟩
        exact hm
    · exact kept_relayFailed_iff hv

theorem relayFailed_valid {s : Store} {ref : Nat} (hv : Valid s) : Valid (relayFailed ref s) :=
  (hv.emit).transition

theorem relayFailed_extends {s : Store} {ref : Nat} : Extends s (relayFailed ref s) :=
  (extends_emit (s := s)).trans transition_extends

theorem extends_refl (s : Store) : Extends s s := fun _ call hc => ⟨call,hc,rfl⟩

/-- Whatever a handler does, the map stays valid and no record leaves the heap. -/
theorem work_shape {i : Answer} {p : Nat} {s : Store} (h : Handler) (hv : Valid s) :
    Valid (work i p s h).1 ∧ Extends s (work i p s h).1 := by
  cases h with
  | frame frame => exact ⟨(proper_onClientFrame hv frame).valid,(proper_onClientFrame hv frame).ext⟩
  | inbound envelope =>
    exact ⟨(proper_handleInboundSignal hv).valid,(proper_handleInboundSignal hv).ext⟩
  | markConnected callId => exact ⟨(proper_markConnected hv).valid,(proper_markConnected hv).ext⟩
  | tick => exact ⟨(proper_tick hv).valid,(proper_tick hv).ext⟩
  | invited callId to_ media =>
    exact ⟨(proper_inviteProvisioned hv to_ media).valid,(proper_inviteProvisioned hv to_ media).ext⟩
  | done => exact ⟨hv,extends_refl s⟩
  | relaying ref ends =>
    simp only [work]
    split
    · cases ends with
      | none => exact ⟨hv,extends_refl s⟩
      | some state => exact ⟨hv.transition,transition_extends⟩
    · exact ⟨relayFailed_valid hv,relayFailed_extends⟩
  | glare ref envelope =>
    simp only [work,glareRelayed]
    split
    · have hp : Proper (transition ref .cancelled s)
          (ringNewCall i envelope (transition ref .cancelled s)).1 :=
        proper_ringNewCall (.refl hv.transition)
      exact ⟨hp.valid,transition_extends.trans hp.ext⟩
    · exact ⟨relayFailed_valid hv,relayFailed_extends⟩
  | ringing ref envelope =>
    simp only [work,ringProvisioned]
    split
    · have same : ∀ t : Store, t.records = s.records → t.calls = s.calls →
          Valid t ∧ Extends s t := by
        intro t hr hc
        refine ⟨fun c ref hg => ?_,fun ref call hrec => ⟨call,hr ▸ hrec,rfl⟩⟩
        rw [hc] at hg
        rw [hr]
        exact hv c ref hg
      unfold offerSdp
      split
      · exact same _ rfl rfl
      · split <;> exact same _ rfl rfl
    · exact ⟨hv,extends_refl s⟩

theorem HandlerOk.mono {p : Nat} {s t : Store} {h : Handler} (hh : HandlerOk p s h)
    (he : Extends s t) : HandlerOk p t h := by
  have held : ∀ ref, ref < s.records.length → ref < t.records.length := by
    intro ref hlt
    obtain ⟨_,hc,_⟩ := he ref _ (List.getElem?_eq_getElem hlt)
    exact lt_of_getElem? hc
  cases h with
  | relaying ref ends => exact held ref hh
  | ringing ref envelope => exact held ref hh
  | glare ref envelope =>
    obtain ⟨call,hc,hne⟩ := hh
    obtain ⟨call',hc',hid⟩ := he ref call hc
    exact ⟨call',hc',hid ▸ hne⟩
  | frame | inbound | markConnected | tick | invited | done => trivial

theorem outgoingToPeer_some {s : Store} {peer : String} {ref : Nat} {call : CallRecord}
    (h : outgoingToPeer peer s = some (ref,call)) :
    ref ∈ s.calls.values ∧ s.records[ref]? = some call ∧ call.direction = .outgoing ∧
      call.peerApId = peer ∧ call.state = .ringing := by
  have hmem := List.mem_of_find?_eq_some h
  have hp := List.find?_some h
  obtain ⟨r,hr,hrec⟩ := List.mem_filterMap.mp hmem
  obtain ⟨c,hc,heq⟩ := Option.map_eq_some_iff.mp hrec
  cases heq
  simp only [decide_eq_true_eq] at hp
  exact ⟨hr,hc,hp⟩

theorem lookup_none {s : Store} (hv : Valid s) {callId : String} (h : s.lookup callId = none) :
    s.calls.get callId = none := by
  cases hg : s.calls.get callId with
  | none => rfl
  | some ref =>
    obtain ⟨call,hc,_⟩ := hv callId ref hg
    simp [Store.lookup,hg,hc] at h

theorem ringCall_ok {i : Answer} {p ref : Nat} {call : CallRecord} {envelope : RtcSignalEnvelope}
    {s : Store} (h : ref < s.records.length) :
    HandlerOk p (ringCall i ref call envelope s).1 (ringCall i ref call envelope s).2 := by
  unfold ringCall
  split
  · exact h
  · trivial

theorem ringNewCall_ok {i : Answer} {p : Nat} {envelope : RtcSignalEnvelope} {s : Store} :
    HandlerOk p (ringNewCall i envelope s).1 (ringNewCall i envelope s).2 := by
  refine ringCall_ok ?_
  simp [addCall]

theorem relay_ok {p ref : Nat} {envelope : RtcSignalEnvelope} {ends : Option TerminalCallState}
    {s : Store} (h : ref < s.records.length) :
    HandlerOk p (relay ref envelope ends s).1 (relay ref envelope ends s).2 := h

theorem connect_held {s : Store} (hv : Valid s) {callId : String} {ref : Nat}
    {call : CallRecord} (hl : s.lookup callId = some (ref,call)) :
    ref < (connect ref call s).records.length := by
  obtain ⟨_,hc,_⟩ := (proper_connect hv hl).ext ref call (hv.lookup hl).2.1
  exact lt_of_getElem? hc

theorem onClientFrame_ok {p : Nat} {s : Store} (hv : Valid s) (frame : ClientToHubFrame) :
    HandlerOk p (onClientFrame frame s).1 (onClientFrame frame s).2 := by
  have held : ∀ {callId ref call}, s.lookup callId = some (ref,call) →
      ref < s.records.length := fun hl => lt_of_getElem? (hv.lookup hl).2.1
  cases frame with
  | hello | ping | resume => trivial
  | invite callId to_ media =>
    simp only [onClientFrame,onClientInvite]
    split <;> trivial
  | offer callId sdp =>
    simp only [onClientFrame]
    split
    · trivial
    · rename_i hl
      exact relay_ok (held hl)
  | answer callId sdp =>
    simp only [onClientFrame]
    split
    · trivial
    · rename_i hl
      exact relay_ok (connect_held hv hl)
  | candidates callId candidates =>
    simp only [onClientFrame]
    split
    · trivial
    · rename_i hl
      split
      · trivial
      · exact relay_ok (held hl)
  | accept callId =>
    simp only [onClientFrame]
    split
    · trivial
    · rename_i hl
      exact relay_ok (connect_held hv hl)
  | reject callId reason =>
    simp only [onClientFrame]
    split
    · trivial
    · rename_i hl
      exact relay_ok (held hl)
  | hangup callId reason =>
    simp only [onClientFrame]
    split
    · trivial
    · rename_i hl
      split <;> exact relay_ok (held hl)

theorem onPeerOffer_ok {i : Answer} {p : Nat} {envelope : RtcSignalEnvelope} {s : Store}
    (hv : Valid s) : HandlerOk p (onPeerOffer i envelope s).1 (onPeerOffer i envelope s).2 := by
  unfold onPeerOffer
  split
  · rename_i hl
    exact ringCall_ok (lt_of_getElem? (hv.lookup hl).2.1)
  · rename_i hl
    split
    · exact ringNewCall_ok
    · rename_i ref call ho
      split
      · obtain ⟨hmem,hc,_⟩ := outgoingToPeer_some ho
        obtain ⟨k,hk⟩ := JsMap.mem_values_iff.mp hmem
        obtain ⟨call',hc',hid,_⟩ := hv k ref hk
        rw [hc] at hc'
        cases hc'
        refine ⟨call,hc,fun heq => ?_⟩
        rw [← heq,hid] at hl
        rw [lookup_none hv hl] at hk
        cases hk
      · trivial

theorem handleInboundSignal_ok {i : Answer} {p : Nat} {envelope : RtcSignalEnvelope} {s : Store}
    (hv : Valid s) :
    HandlerOk p (handleInboundSignal i envelope s).1 (handleInboundSignal i envelope s).2 := by
  unfold handleInboundSignal
  split
  · split
    · exact onPeerOffer_ok hv
    all_goals trivial
  · trivial

theorem work_ok {i : Answer} {p : Nat} {s : Store} (h : Handler) (hv : Valid s) :
    HandlerOk p (work i p s h).1 (work i p s h).2 := by
  cases h with
  | frame frame => exact onClientFrame_ok hv frame
  | inbound envelope => exact handleInboundSignal_ok hv
  | markConnected | tick | done => trivial
  | invited callId to_ media =>
    simp only [work,inviteProvisioned]
    split <;> trivial
  | relaying ref ends =>
    simp only [work]
    split
    · cases ends <;> trivial
    · trivial
  | glare ref envelope =>
    simp only [work,glareRelayed]
    split
    · exact ringNewCall_ok
    · trivial
  | ringing ref envelope =>
    simp only [work,ringProvisioned]
    split <;> trivial

theorem call_stable : threads.Stable Valid HandlerOk where
  own i p s h t y hv _ hn := by
    have hw := (Threads.guarded_next.mp hn).2
    have hshape := work_shape (i := i) (p := p) h hv
    have hok := work_ok (i := i) (p := p) h hv
    rw [hw] at hshape hok
    exact ⟨hshape.1,hok⟩
  other i p q s h t y z hv _ hz _ hn := by
    have hshape := work_shape (i := i) (p := p) h hv
    rw [(Threads.guarded_next.mp hn).2] at hshape
    exact hz.mono hshape.2
  env ms s t hv he := by
    obtain ⟨_,rfl⟩ := Threads.guarded_env.mp he
    exact ⟨hv,fun q z hz => hz.mono (t := elapse ms s) (fun _ call hc => ⟨call,hc,rfl⟩)⟩

theorem valid_hydrate (records : List CallRecord) {s : Store} (hv : Valid s) :
    Valid (hydrate records s) := by
  unfold hydrate
  induction records generalizing s with
  | nil => exact hv
  | cons call records ih =>
    rw [List.foldl_cons]
    split
    · exact ih hv
    · rename_i ht
      refine ih fun c ref hg => ?_
      exact (hv.addCall (by simpa using ht)) c ref hg

theorem Start.holds {s : Pool} (h : Start s) : Threads.Holds Valid HandlerOk s := by
  obtain ⟨⟨actor,now,records,hs⟩,hentry⟩ := h
  refine ⟨hs ▸ valid_hydrate records (fun _ _ hg => by cases hg),fun p => ?_⟩
  have hp := hentry p
  generalize s.thread p = handler at hp
  cases hp <;> trivial

def EndsOnce (s₀ : Pool) (ls : List Label) : Prop :=
  ∀ as l bs s t, ls = as ++ l :: bs → machine.run as s₀ = some s → machine.step l s = some t →
    Kept s.store t.store

def RunsUndisturbed (s₀ : Pool) (ls : List Label) : Prop :=
  ∀ as p i bs s t, ls = as ++ .act p i :: bs → machine.run as s₀ = some s →
    machine.step (.act p i) s = some t → Undisturbed i s.store (s.thread p)

theorem ends_once_iff {s₀ : Pool} (h : Start s₀) (ls : List Label) :
    EndsOnce s₀ ls ↔ RunsUndisturbed s₀ ls := by
  have step_iff : ∀ {as p i s t}, machine.run as s₀ = some s →
      machine.step (.act p i) s = some t →
        (Kept s.store t.store ↔ Undisturbed i s.store (s.thread p)) := by
    intro as p i s t hr hl
    have hholds := call_stable.reaches (Machine.Reaches.of_run hr) h.holds
    obtain ⟨_,rfl⟩ := step_handler.mp hl
    exact kept_work_iff hholds.1 (hholds.2 p)
  constructor
  · intro hk as p i bs s t hls hr hl
    exact (step_iff hr hl).mp (hk as _ bs s t hls hr hl)
  · intro hu as l bs s t hls hr hl
    cases l with
    | act p i => exact (step_iff hr hl).mpr (hu as p i bs s t hls hr hl)
    | env ms =>
      rw [step_elapse.mp hl]
      exact ⟨fun _ call hc _ => ⟨call,hc,rfl⟩,⟨[],by simp [elapse],fun _ h => by cases h⟩,
        fun _ _ hs ht => (by rw [elapse,hs] at ht; cases ht)⟩

def signal (callId from_ to_ : String) (type : RtcSignalType) (ts : Int) : RtcSignalEnvelope where
  callId := callId
  from_ := from_
  to_ := to_
  type := type
  media := none
  sdp := none
  candidates := none
  sfuFocus := none
  reason := none
  ts := ts
  ttlMs := defaultTtlMs

/-- A call comes in, the user rejects it, and the caller hangs up while the reject is on
its way. -/
def rejectRace : Pool where
  store := emptyStore "https://a.example/ap/users/a" 0
  thread
    | 0 => .inbound (signal "c" "https://b.example/ap/users/b" "https://a.example/ap/users/a" .offer 0)
    | 1 => .frame (.reject "c" none)
    | _ => .inbound (signal "c" "https://b.example/ap/users/b" "https://a.example/ap/users/a" .cancel 0)

theorem rejectRace_start : Start rejectRace := by
  refine ⟨⟨"https://a.example/ap/users/a",0,[],rfl⟩,fun p => ?_⟩
  match p with
  | 0 => exact .inbound _
  | 1 => exact .frame _
  | _ + 2 => exact .inbound _

theorem ends_once_iff_rejectRace :
    EndsOnce rejectRace [.act 0 {}, .act 1 {}, .act 1 {}] ↔
      RunsUndisturbed rejectRace [.act 0 {}, .act 1 {}, .act 1 {}] :=
  ends_once_iff rejectRace_start _

/-- A call that is over is moved to another terminal state. -/
theorem ends_twice : ¬∀ s₀ ls, Start s₀ → EndsOnce s₀ ls := by
  intro h
  have hrun : ((machine.run [.act 0 { hasClients := false }, .act 1 {}, .act 2 {}] rejectRace).map
      fun s => (s.store.records.map (·.state),s.thread 1)) =
        some ([.cancelled],.relaying 0 (some ⟨.rejected,rfl⟩)) := by decide
  obtain ⟨s,hs,hst⟩ := Option.map_eq_some_iff.mp hrun
  have hth : s.thread 1 = .relaying 0 (some ⟨.rejected,rfl⟩) := congrArg Prod.snd hst
  obtain ⟨call,hrec,hcall⟩ : ∃ call, s.store.records = [call] ∧ call.state = .cancelled := by
    have hmap := congrArg Prod.fst hst
    simp only [List.map_eq_singleton_iff] at hmap
    exact hmap
  have hstep : machine.step (.act 1 {}) s = some _ :=
    step_handler.mpr ⟨by rw [hth]; decide,rfl⟩
  have hkept := h rejectRace [.act 0 { hasClients := false }, .act 1 {}, .act 2 {}, .act 1 {}]
    rejectRace_start _ _ [] s _ rfl hs hstep
  have hzero : s.store.records[0]? = some call := by rw [hrec]; rfl
  obtain ⟨call',hc',hsame⟩ := hkept.ended 0 call hzero (by rw [hcall]; rfl)
  simp only [hth,work,if_true] at hc'
  rw [transition_self hzero] at hc'
  cases hc'
  rw [hcall] at hsame
  cases hsame

end Yurucommu.Call
