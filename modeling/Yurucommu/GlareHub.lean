import Yurucommu.GlareWorld

/-!
What each step of a hub does to its own call and to the other side's.
-/

set_option autoImplicit false

namespace Yurucommu.Glare

open Call

section lookup

variable {s : Store} {ref : Nat} {call : CallRecord} {callId : String} {state : CallState}

theorem lookup_of_get (hg : s.calls.get callId = some ref) (hc : s.records[ref]? = some call) :
    s.lookup callId = some (ref,call) := by
  simp [Store.lookup,hg,hc]

theorem lookup_congr {t : Store} (hg : t.calls.get callId = s.calls.get callId)
    (hr : ∀ ref, s.calls.get callId = some ref → t.records[ref]? = s.records[ref]?) :
    t.lookup callId = s.lookup callId := by
  unfold Store.lookup
  rw [hg]
  cases h : s.calls.get callId with
  | none => rfl
  | some ref => simp [hr ref h]

theorem lookup_addCall (call : CallRecord) (hv : Valid s) (c : String) :
    (addCall call s).lookup c =
      if c = call.callId then some (s.records.length,call) else s.lookup c := by
  split
  · rename_i h
    subst h
    refine lookup_of_get (by simp [addCall]) ?_
    simp only [addCall]
    exact List.getElem?_concat_length
  · rename_i h
    refine lookup_congr (JsMap.get_set_of_ne h) fun ref hg => ?_
    obtain ⟨_,hc,_⟩ := hv c ref hg
    exact addCall_records (lt_of_getElem? hc)

theorem lookup_transition (state : CallState) (hv : Valid s)
    (hl : s.lookup callId = some (ref,call)) (c : String) :
    (transition ref state s).lookup c =
      if c = callId then
        if isTerminalCallState state then none else some (ref,call.moved state s.now)
      else s.lookup c := by
  obtain ⟨hg,hc,hid,_⟩ := hv.lookup hl
  have hget : (transition ref state s).calls.get c = _ := transition_get hc c
  split
  · rename_i h
    subst h
    split
    · rename_i ht
      rw [if_pos ⟨ht,hid.symm⟩] at hget
      simp [Store.lookup,hget]
    · rename_i ht
      rw [if_neg fun hx => ht hx.1,hg] at hget
      exact lookup_of_get hget (transition_self hc)
  · rename_i h
    rw [if_neg fun hx => h (hx.2.trans hid)] at hget
    refine lookup_congr hget fun ref' hg' => transition_of_ne fun heq => ?_
    obtain ⟨call',hc',hid',_⟩ := hv c ref' hg'
    rw [heq,hc] at hc'
    cases hc'
    exact h (hid'.symm.trans hid)

theorem isRecorded_addCall (c : String) :
    isRecorded c (addCall call s) = (isRecorded c s || (call.callId = c)) := by
  simp [isRecorded,addCall,List.any_append]

theorem any_set {α : Type} {p : α → Bool} {l : List α} {i : Nat} {a b : α}
    (hb : l[i]? = some b) (hp : p a = p b) : (l.set i a).any p = l.any p := by
  induction l generalizing i with
  | nil => cases hb
  | cons c l ih =>
    cases i with
    | zero =>
      cases hb
      simp [hp]
    | succ i =>
      simp only [List.set_cons_succ,List.any_cons]
      rw [ih (by simpa using hb)]

theorem isRecorded_transition (hc : s.records[ref]? = some call) (c : String) :
    isRecorded c (transition ref state s) = isRecorded c s := by
  rw [transition_of_some hc]
  exact any_set hc rfl

theorem ownCall_congr {t : Store} (hl : t.lookup callId = s.lookup callId)
    (hr : isRecorded callId t = isRecorded callId s) : ownCall callId t = ownCall callId s := by
  simp only [ownCall,hl,hr]

theorem ownCall_of_lookup (hl : s.lookup callId = some (ref,call)) :
    ownCall callId s = if call.state = .ringing then .ringing else .answered := by
  simp only [ownCall,hl]

theorem ownCall_of_none (hl : s.lookup callId = none) :
    ownCall callId s = if isRecorded callId s then .gone else .unplaced := by
  simp only [ownCall,hl]

theorem localActor_transition :
    (transition ref state s).localActorApId = s.localActorApId := by
  unfold transition
  split <;> rfl

end lookup

section sends

variable {s t u : Store} {es fs : List RtcSignalEnvelope}

def Sends (s t : Store) (es : List RtcSignalEnvelope) : Prop :=
  ∃ new, t.log = s.log ++ new ∧ new.filterMap toPeer = es

theorem Sends.sent (h : Sends s t es) : sent s t = es := by
  obtain ⟨new,hl,he⟩ := h
  rw [Glare.sent,hl,List.drop_left,he]

theorem Sends.refl (s : Store) : Sends s s [] := ⟨[],by simp,rfl⟩

theorem Sends.trans (h : Sends s t es) (k : Sends t u fs) : Sends s u (es ++ fs) := by
  obtain ⟨new,hl,rfl⟩ := h
  obtain ⟨new',hl',rfl⟩ := k
  exact ⟨new ++ new',by rw [hl',hl,List.append_assoc],List.filterMap_append⟩

theorem Sends.emit (h : Sends s t es) {o : Output} (ho : toPeer o = none) :
    Sends s (t.emit o) es := by
  have hlast : Sends t (t.emit o) [] := ⟨[o],rfl,by simp [ho]⟩
  have hall := h.trans hlast
  rwa [List.append_nil] at hall

theorem Sends.send (h : Sends s t es) (e : RtcSignalEnvelope) :
    Sends s (t.emit (.sendToPeer e)) (es ++ [e]) := h.trans ⟨[.sendToPeer e],rfl,rfl⟩

theorem Sends.transition (h : Sends s t es) (ref : Nat) (state : CallState) :
    Sends s (Call.transition ref state t) es := by
  have hlast : Sends t (Call.transition ref state t) [] := by
    unfold Call.transition
    split
    · exact .refl t
    · exact ⟨_,rfl,rfl⟩
  have hall := h.trans hlast
  rwa [List.append_nil] at hall

theorem Sends.addCall (h : Sends s t es) (call : CallRecord) :
    Sends s (Call.addCall call t) es := by
  have hlast : Sends t (Call.addCall call t) [] := ⟨_,rfl,rfl⟩
  have hall := h.trans hlast
  rwa [List.append_nil] at hall

theorem Sends.connect (h : Sends s t es) (ref : Nat) (call : CallRecord) :
    Sends s (Call.connect ref call t) es := by
  unfold Call.connect
  split
  · exact h.transition ref _
  · exact h

end sends

/-- The hub of `side` is as `h` says: it holds its own call and the other side's, or not,
and no third one. -/
structure Shows (P : Parties) (side : Side) (h : Half) (s : Store) : Prop where
  actor : s.localActorApId = P.actor side
  valid : Valid s
  only : ∀ c, c ≠ P.callId side → c ≠ P.callId side.other → s.lookup c = none
  own : ownCall (P.callId side) s = h.own
  outgoing : ∀ ref call, s.lookup (P.callId side) = some (ref,call) →
    call.direction = .outgoing ∧ call.peerApId = P.actor side.other
  got : (s.lookup (P.callId side.other)).isSome = h.got
  incoming : ∀ ref call, s.lookup (P.callId side.other) = some (ref,call) →
    call.direction = .incoming ∧ call.peerApId = P.actor side.other

theorem Parties.distinct_other (P : Parties) (side : Side) :
    P.callId side.other ≠ P.callId side := by
  cases side with
  | low => exact P.distinct.symm
  | high => exact P.distinct

namespace Shows

variable {P : Parties} {side : Side} {h : Half} {s t : Store} {ref : Nat} {call : CallRecord}
  {callId : String}

theorem congr (hs : Shows P side h s) (ha : t.localActorApId = s.localActorApId)
    (hv : Valid t) (hl : ∀ c, t.lookup c = s.lookup c)
    (hr : isRecorded (P.callId side) t = isRecorded (P.callId side) s) : Shows P side h t where
  actor := ha.trans hs.actor
  valid := hv
  only c h₁ h₂ := (hl c).trans (hs.only c h₁ h₂)
  own := (ownCall_congr (hl _) hr).trans hs.own
  outgoing ref call hc := hs.outgoing ref call ((hl _).symm.trans hc)
  got := by rw [hl]; exact hs.got
  incoming ref call hc := hs.incoming ref call ((hl _).symm.trans hc)

theorem alter {h' : Half} (hs : Shows P side h s) (ho : h'.own = h.own) (hg : h'.got = h.got) :
    Shows P side h' s :=
  { hs with own := hs.own.trans ho.symm, got := hs.got.trans hg.symm }

theorem emit (hs : Shows P side h s) (o : Output) : Shows P side h (s.emit o) :=
  hs.congr rfl hs.valid (fun _ => rfl) rfl

theorem peer (hs : Shows P side h s) (hl : s.lookup callId = some (ref,call)) :
    call.peerApId = P.actor side.other := by
  by_cases hown : callId = P.callId side
  · exact (hs.outgoing ref call (hown ▸ hl)).2
  · by_cases hother : callId = P.callId side.other
    · exact (hs.incoming ref call (hother ▸ hl)).2
    · rw [hs.only callId hown hother] at hl
      cases hl

theorem held (hs : Shows P side h s) :
    h.own.isHeld = (s.lookup (P.callId side)).isSome := by
  rw [← hs.own]
  cases hl : s.lookup (P.callId side) with
  | none =>
    rw [ownCall_of_none hl]
    split <;> rfl
  | some entry =>
    rw [ownCall_of_lookup hl]
    split <;> rfl

theorem dials (hs : Shows P side h s) (hid : call.callId = P.callId side)
    (hd : call.direction = .outgoing ∧ call.peerApId = P.actor side.other)
    (hr : call.state = .ringing) :
    Shows P side { h with own := .ringing } (addCall call s) := by
  have hne := P.distinct_other side
  have hl := lookup_addCall call hs.valid
  rw [hid] at hl
  constructor
  case actor => exact hs.actor
  case valid => exact hs.valid.addCall (by rw [hr]; rfl)
  case only =>
    intro c h₁ h₂
    rw [hl,if_neg h₁]
    exact hs.only c h₁ h₂
  case own => rw [ownCall_of_lookup ((hl _).trans (if_pos rfl)),if_pos hr]
  case outgoing =>
    intro ref call' hc
    rw [hl,if_pos rfl] at hc
    cases hc
    exact hd
  case got =>
    rw [hl,if_neg hne]
    exact hs.got
  case incoming =>
    intro ref call' hc
    rw [hl,if_neg hne] at hc
    exact hs.incoming ref call' hc

theorem receives (hs : Shows P side h s) (hid : call.callId = P.callId side.other)
    (hd : call.direction = .incoming ∧ call.peerApId = P.actor side.other)
    (hr : call.state = .ringing) :
    Shows P side { h with got := true } (addCall call s) := by
  have hne := P.distinct_other side
  have hl := lookup_addCall call hs.valid
  rw [hid] at hl
  constructor
  case actor => exact hs.actor
  case valid => exact hs.valid.addCall (by rw [hr]; rfl)
  case only =>
    intro c h₁ h₂
    rw [hl,if_neg h₂]
    exact hs.only c h₁ h₂
  case own =>
    refine (ownCall_congr ((hl _).trans (if_neg hne.symm)) ?_).trans hs.own
    rw [isRecorded_addCall,hid,decide_eq_false hne,Bool.or_false]
  case outgoing =>
    intro ref call' hc
    rw [hl,if_neg hne.symm] at hc
    exact hs.outgoing ref call' hc
  case got =>
    rw [hl,if_pos rfl]
    rfl
  case incoming =>
    intro ref call' hc
    rw [hl,if_pos rfl] at hc
    cases hc
    exact hd

theorem yields (state : CallState) (hs : Shows P side h s)
    (hl : s.lookup (P.callId side) = some (ref,call)) (ht : isTerminalCallState state = true) :
    Shows P side { h with own := .gone } (transition ref state s) := by
  have hne := P.distinct_other side
  have hlt := lookup_transition state hs.valid hl
  have hown : (transition ref state s).lookup (P.callId side) = none := by
    rw [hlt,if_pos rfl,if_pos ht]
  constructor
  case actor => exact localActor_transition.trans hs.actor
  case valid => exact hs.valid.transition
  case only =>
    intro c h₁ h₂
    rw [hlt,if_neg h₁]
    exact hs.only c h₁ h₂
  case own =>
    obtain ⟨_,hc,hid,_⟩ := hs.valid.lookup hl
    rw [ownCall_of_none hown,isRecorded_transition hc,if_pos]
    rw [isRecorded,List.any_eq_true]
    exact ⟨call,List.mem_of_getElem? hc,by simpa using hid⟩
  case outgoing =>
    intro ref call hc
    rw [hown] at hc
    cases hc
  case got =>
    rw [hlt,if_neg hne]
    exact hs.got
  case incoming =>
    intro ref call hc
    rw [hlt,if_neg hne] at hc
    exact hs.incoming ref call hc

theorem drops {state : CallState} (hs : Shows P side h s)
    (hl : s.lookup (P.callId side.other) = some (ref,call))
    (ht : isTerminalCallState state = true) :
    Shows P side { h with got := false } (transition ref state s) := by
  have hne := P.distinct_other side
  have hlt := lookup_transition state hs.valid hl
  have hother : (transition ref state s).lookup (P.callId side.other) = none := by
    rw [hlt,if_pos rfl,if_pos ht]
  constructor
  case actor => exact localActor_transition.trans hs.actor
  case valid => exact hs.valid.transition
  case only =>
    intro c h₁ h₂
    rw [hlt,if_neg h₂]
    exact hs.only c h₁ h₂
  case own =>
    exact (ownCall_congr ((hlt _).trans (if_neg hne.symm))
      (isRecorded_transition (hs.valid.lookup hl).2.1 _)).trans hs.own
  case outgoing =>
    intro ref call hc
    rw [hlt,if_neg hne.symm] at hc
    exact hs.outgoing ref call hc
  case got => rw [hother]; rfl
  case incoming =>
    intro ref call hc
    rw [hother] at hc
    cases hc

end Shows

def Answers (h h' : Half) : Prop := h' = h ∨ h.own = .ringing ∧ h' = { h with own := .answered }

theorem Shows.connects {P : Parties} {side : Side} {h : Half} {s : Store} {ref : Nat}
    {call : CallRecord} {callId : String} (hs : Shows P side h s)
    (hl : s.lookup callId = some (ref,call)) :
    ∃ h', Answers h h' ∧ Shows P side h' (connect ref call s) := by
  have hne := P.distinct_other side
  have hlt := lookup_transition .connecting hs.valid hl
  obtain ⟨_,hc,_⟩ := hs.valid.lookup hl
  unfold connect
  split
  · rename_i hr
    by_cases hown : callId = P.callId side
    · subst hown
      have hring : h.own = .ringing := by rw [← hs.own,ownCall_of_lookup hl,if_pos hr]
      refine ⟨{ h with own := .answered },.inr ⟨hring,rfl⟩,?_⟩
      constructor
      case actor => exact localActor_transition.trans hs.actor
      case valid => exact hs.valid.transition
      case only =>
        intro c h₁ h₂
        rw [hlt,if_neg h₁]
        exact hs.only c h₁ h₂
      case own =>
        rw [ownCall_of_lookup ((hlt _).trans (if_pos rfl))]
        rfl
      case outgoing =>
        intro ref' call' hc'
        rw [hlt,if_pos rfl] at hc'
        cases hc'
        exact hs.outgoing ref call hl
      case got =>
        rw [hlt,if_neg hne]
        exact hs.got
      case incoming =>
        intro ref' call' hc'
        rw [hlt,if_neg hne] at hc'
        exact hs.incoming ref' call' hc'
    · by_cases hother : callId = P.callId side.other
      · subst hother
        refine ⟨h,.inl rfl,?_⟩
        constructor
        case actor => exact localActor_transition.trans hs.actor
        case valid => exact hs.valid.transition
        case only =>
          intro c h₁ h₂
          rw [hlt,if_neg h₂]
          exact hs.only c h₁ h₂
        case own =>
          exact (ownCall_congr ((hlt _).trans (if_neg hne.symm))
            (isRecorded_transition hc _)).trans hs.own
        case outgoing =>
          intro ref' call' hc'
          rw [hlt,if_neg hne.symm] at hc'
          exact hs.outgoing ref' call' hc'
        case got =>
          rw [hlt,if_pos rfl,← hs.got,hl]
          rfl
        case incoming =>
          intro ref' call' hc'
          rw [hlt,if_pos rfl] at hc'
          cases hc'
          exact hs.incoming ref call hl
      · rw [hs.only callId hown hother] at hl
        cases hl
  · exact ⟨h,.inl rfl,hs⟩

structure Chat (P : Parties) (side : Side) (e : RtcSignalEnvelope) : Prop where
  from_ : e.from_ = P.actor side
  to_ : e.to_ = P.actor side.other
  type : e.type = .answer ∨ e.type = .candidate ∨ e.type = .accept

/-- From `s` to `t` the hub at most takes a call up and talks about it. -/
structure Talks (P : Parties) (side : Side) (h : Half) (s t : Store) : Prop where
  shows_ : ∃ h', Answers h h' ∧ Shows P side h' t
  place : t.calls.get (P.callId side) = s.calls.get (P.callId side)
  sends : ∃ es, Sends s t es ∧ ∀ e ∈ es, Chat P side e

def Tame : Handler → Prop
  | .done | .relaying _ none | .ringing _ _ => True
  | _ => False

namespace Talks

variable {P : Parties} {side : Side} {h : Half} {s t : Store} {ref : Nat} {call : CallRecord}
  {callId : String}

theorem refl (hs : Shows P side h s) : Talks P side h s s where
  shows_ := ⟨h,.inl rfl,hs⟩
  place := rfl
  sends := ⟨[],.refl s,fun _ he => by cases he⟩

theorem emit (ht : Talks P side h s t) {o : Output} (ho : toPeer o = none) :
    Talks P side h s (t.emit o) := by
  obtain ⟨⟨h',ha,hs⟩,hp,es,hes,hc⟩ := ht
  exact ⟨⟨h',ha,hs.emit o⟩,hp,es,hes.emit ho,hc⟩

theorem send (ht : Talks P side h s t) {e : RtcSignalEnvelope} (he : Chat P side e) :
    Talks P side h s (t.emit (.sendToPeer e)) := by
  obtain ⟨⟨h',ha,hs⟩,hp,es,hes,hc⟩ := ht
  refine ⟨⟨h',ha,hs.emit _⟩,hp,es ++ [e],hes.send e,fun e' he' => ?_⟩
  rcases List.mem_append.mp he' with he' | he'
  · exact hc e' he'
  · rw [List.mem_singleton] at he'
    exact he' ▸ he

theorem connect (hs : Shows P side h s) (hl : s.lookup callId = some (ref,call)) :
    Talks P side h s (connect ref call s) where
  shows_ := hs.connects hl
  place := by
    unfold Call.connect
    split
    · rw [transition_get (hs.valid.lookup hl).2.1,if_neg]
      exact fun hx => by cases hx.1
    · rfl
  sends := ⟨[],(Sends.refl s).connect ref call,fun _ he => by cases he⟩

end Talks

section chat

variable {P : Parties} {side : Side} {h : Half} {s : Store} {i : Answer}

theorem talks_frame (hs : Shows P side h s) {frame : ClientToHubFrame}
    (hp : isPassive frame = true) :
    Talks P side h s (onClientFrame frame s).1 ∧ Tame (onClientFrame frame s).2 := by
  cases frame with
  | invite | offer | reject | hangup => cases hp
  | hello =>
    refine ⟨?_,trivial⟩
    have all : ∀ (calls : List CallRecord) (t : Store), Talks P side h s t →
        Talks P side h s (calls.foldl
          (fun s call => s.emit (.send (.callState call.callId call.state))) t) := by
      intro calls
      induction calls with
      | nil => exact fun t ht => ht
      | cons call calls ih => exact fun t ht => ih _ (ht.emit rfl)
    exact all _ _ ((Talks.refl hs).emit rfl)
  | ping => exact ⟨(Talks.refl hs).emit rfl,trivial⟩
  | resume callId => exact ⟨(Talks.refl hs).emit rfl,trivial⟩
  | answer callId sdp =>
    simp only [onClientFrame]
    split
    · exact ⟨.refl hs,trivial⟩
    · rename_i hl
      exact ⟨(Talks.connect hs hl).send ⟨hs.actor,hs.peer hl,.inl rfl⟩,trivial⟩
  | accept callId =>
    simp only [onClientFrame]
    split
    · exact ⟨.refl hs,trivial⟩
    · rename_i hl
      exact ⟨(Talks.connect hs hl).send ⟨hs.actor,hs.peer hl,.inr (.inr rfl)⟩,trivial⟩
  | candidates callId candidates =>
    simp only [onClientFrame]
    split
    · exact ⟨.refl hs,trivial⟩
    · rename_i hl
      split
      · exact ⟨.refl hs,trivial⟩
      · exact ⟨(Talks.refl hs).send ⟨hs.actor,hs.peer hl,.inr (.inl rfl)⟩,trivial⟩

theorem talks_chat (hs : Shows P side h s) {e : RtcSignalEnvelope}
    (ht : e.type = .answer ∨ e.type = .candidate ∨ e.type = .accept) :
    Talks P side h s (handleInboundSignal i e s).1 ∧ Tame (handleInboundSignal i e s).2 := by
  unfold handleInboundSignal
  split
  · rcases ht with ht | ht | ht
    · simp only [ht]
      refine ⟨?_,trivial⟩
      unfold onPeerAnswer
      split
      · rename_i hl _
        split
        · exact .refl hs
        · exact (Talks.connect hs hl).emit rfl
      · exact .refl hs
    · simp only [ht]
      refine ⟨?_,trivial⟩
      unfold onPeerCandidate
      split
      · split
        · exact .refl hs
        · exact (Talks.refl hs).emit rfl
      · exact .refl hs
    · simp only [ht]
      refine ⟨?_,trivial⟩
      unfold onPeerAccept
      split
      · exact .refl hs
      · rename_i hl
        exact (Talks.connect hs hl).emit rfl
  · exact ⟨.refl hs,trivial⟩

theorem talks_offerSdp {t : Store} (ht : Talks P side h s t) (ref : Nat) (call : CallRecord)
    (e : RtcSignalEnvelope) : Talks P side h s (offerSdp ref call e t) := by
  unfold offerSdp
  split
  · exact ht
  · split
    · exact ht
    · exact ht.emit rfl

theorem talks_ringing (hs : Shows P side h s) (ref : Nat) (e : RtcSignalEnvelope) :
    Talks P side h s (ringProvisioned i ref e s).1 ∧ Tame (ringProvisioned i ref e s).2 := by
  unfold ringProvisioned
  split
  · exact ⟨talks_offerSdp (((Talks.refl hs).emit rfl).emit rfl) ref _ e,trivial⟩
  · exact ⟨.refl hs,trivial⟩

theorem tick_eq (h : (activeCalls s).all (fun call => (timedOut call s.now).isNone) = true) :
    tick s = s := by
  have idle : ∀ ref ∈ s.calls.values, tickCall s.now s ref = s := by
    intro ref hr
    unfold tickCall
    cases hc : s.records[ref]? with
    | none => rfl
    | some call =>
      have hnone : timedOut call s.now = none := by
        by_cases hterm : isTerminalCallState call.state = true
        · unfold timedOut
          rw [if_neg,if_neg]
          · rintro ⟨hst,_⟩
            rw [hst] at hterm
            cases hterm
          · rintro ⟨hst,_⟩
            rw [hst] at hterm
            cases hterm
        · rw [List.all_eq_true] at h
          refine Option.isNone_iff_eq_none.mp (h call ?_)
          refine List.mem_filter.mpr ⟨List.mem_filterMap.mpr ⟨ref,hr,hc⟩,?_⟩
          simpa using hterm
      simp only [hnone]
  unfold tick
  generalize s.calls.values = refs at idle
  induction refs with
  | nil => rfl
  | cons ref refs ih =>
    rw [List.foldl_cons,idle ref List.mem_cons_self]
    exact ih fun r hr => idle r (List.mem_cons_of_mem ref hr)

end chat

structure Offer (P : Parties) (side : Side) (e : RtcSignalEnvelope) : Prop where
  callId : e.callId = P.callId side
  from_ : e.from_ = P.actor side
  to_ : e.to_ = P.actor side.other
  type : e.type = .offer

structure Cancel (P : Parties) (e : RtcSignalEnvelope) : Prop where
  callId : e.callId = P.callId .high
  from_ : e.from_ = P.actor .high
  to_ : e.to_ = P.actor .low
  type : e.type = .cancel

/-- From `s` to `t` the hub sends nothing and ends up as `h` says, its own call in place. -/
structure Turns (P : Parties) (side : Side) (h : Half) (s t : Store) : Prop where
  shows_ : Shows P side h t
  place : t.calls.get (P.callId side) = s.calls.get (P.callId side)
  sends : Sends s t []

section offers

variable {P : Parties} {side : Side} {h : Half} {s : Store} {i : Answer} {e : RtcSignalEnvelope}
  {ref : Nat} {call : CallRecord}

theorem offer_frame_held (hs : Shows P side h s) (hh : h.own.isHeld = true) (sdp : String) :
    ∃ ref e, onClientFrame (.offer (P.callId side) sdp) s =
      (s.emit (.sendToPeer e),.relaying ref none) ∧ Offer P side e := by
  rw [hs.held] at hh
  obtain ⟨⟨ref,call⟩,hl⟩ := Option.isSome_iff_exists.mp hh
  obtain ⟨_,_,hid,_⟩ := hs.valid.lookup hl
  refine ⟨ref,{ makeEnvelope s call .offer with sdp := some sdp, media := some call.media },?_,
    ⟨hid,hs.actor,hs.peer hl,rfl⟩⟩
  simp only [onClientFrame,hl,relay]

theorem offer_frame_away (hs : Shows P side h s) (hh : h.own.isHeld = false) (sdp : String) :
    onClientFrame (.offer (P.callId side) sdp) s = (s,.done) := by
  rw [hs.held,Option.isSome_eq_false_iff,Option.isNone_iff_eq_none] at hh
  simp only [onClientFrame,hh]

theorem Shows.entry (hs : Shows P side h s) (hr : ref ∈ s.calls.values)
    (hc : s.records[ref]? = some call) :
    s.lookup (P.callId side) = some (ref,call) ∨
      s.lookup (P.callId side.other) = some (ref,call) := by
  obtain ⟨c,hg⟩ := JsMap.mem_values_iff.mp hr
  have hl := lookup_of_get hg hc
  by_cases hown : c = P.callId side
  · exact .inl (hown ▸ hl)
  · by_cases hother : c = P.callId side.other
    · exact .inr (hother ▸ hl)
    · rw [hs.only c hown hother] at hl
      cases hl

theorem outgoing_ringing (hs : Shows P side h s) (hr : h.own = .ringing) :
    ∃ ref call, outgoingToPeer (P.actor side.other) s = some (ref,call) ∧
      s.lookup (P.callId side) = some (ref,call) := by
  have hheld := hs.held
  rw [hr] at hheld
  obtain ⟨⟨ref,call⟩,hl⟩ := Option.isSome_iff_exists.mp hheld.symm
  obtain ⟨hg,hc,_⟩ := hs.valid.lookup hl
  have hst : call.state = .ringing := by
    have hown := hs.own
    rw [ownCall_of_lookup hl,hr] at hown
    by_contra hne
    rw [if_neg hne] at hown
    cases hown
  cases ho : outgoingToPeer (P.actor side.other) s with
  | none =>
    have hnone := List.find?_eq_none.mp ho (ref,call) (List.mem_filterMap.mpr
      ⟨ref,JsMap.mem_values_iff.mpr ⟨_,hg⟩,by rw [hc]; rfl⟩)
    simp only [decide_eq_true_eq] at hnone
    exact absurd ⟨(hs.outgoing ref call hl).1,(hs.outgoing ref call hl).2,hst⟩ hnone
  | some entry =>
    obtain ⟨ref',call'⟩ := entry
    obtain ⟨hm,hc',hd,_⟩ := outgoingToPeer_some ho
    rcases hs.entry hm hc' with hown | hother
    · exact ⟨ref',call',rfl,hown⟩
    · rw [(hs.incoming ref' call' hother).1] at hd
      cases hd

theorem outgoing_none (hs : Shows P side h s) (hr : h.own ≠ .ringing) :
    outgoingToPeer (P.actor side.other) s = none := by
  cases ho : outgoingToPeer (P.actor side.other) s with
  | none => rfl
  | some entry =>
    obtain ⟨ref,call⟩ := entry
    obtain ⟨hm,hc,hd,_,hst⟩ := outgoingToPeer_some ho
    rcases hs.entry hm hc with hown | hother
    · have hring := hs.own
      rw [ownCall_of_lookup hown,if_pos hst] at hring
      exact absurd hring.symm hr
    · rw [(hs.incoming ref call hother).1] at hd
      cases hd

theorem ringNewCall_turns (hs : Shows P side h s) (ho : Offer P side.other e) :
    Turns P side { h with got := true } s (ringNewCall i e s).1 ∧ Tame (ringNewCall i e s).2 := by
  have hadd : Shows P side { h with got := true } (addCall (newCall s e.callId e.from_ .incoming
      (e.media.getD ⟨true,false⟩) e.sfuFocus) s) :=
    hs.receives ho.callId ⟨rfl,ho.from_⟩ rfl
  have hturn : Turns P side { h with got := true } s ((addCall (newCall s e.callId e.from_
      .incoming (e.media.getD ⟨true,false⟩) e.sfuFocus) s).emit (.ring e)) := by
    refine ⟨hadd.emit _,JsMap.get_set_of_ne ?_,((Sends.refl s).addCall _).emit rfl⟩
    exact fun heq => P.distinct_other side (ho.callId.symm.trans heq.symm)
  unfold ringNewCall ringCall
  split
  · exact ⟨hturn,trivial⟩
  · refine ⟨?_,trivial⟩
    unfold offerSdp
    split
    · exact hturn
    · split
      · exact hturn
      · exact ⟨hturn.shows_.emit _,hturn.place,hturn.sends.emit rfl⟩

theorem offer_rings (hs : Shows P side h s) (ho : Offer P side.other e)
    (hf : isEnvelopeFresh e s.now = true) (hg : h.got = false) (hr : h.own ≠ .ringing) :
    Turns P side { h with got := true } s (handleInboundSignal i e s).1 ∧
      Tame (handleInboundSignal i e s).2 := by
  have hl : s.lookup e.callId = none := by
    have hgot := hs.got
    rw [hg,Option.isSome_eq_false_iff,Option.isNone_iff_eq_none] at hgot
    rw [ho.callId]
    exact hgot
  rw [handleInboundSignal,if_pos hf]
  simp only [ho.type,onPeerOffer,hl,ho.from_,outgoing_none hs hr]
  exact ringNewCall_turns hs ho

theorem offer_ignored (hs : Shows P .low h s) (ho : Offer P .high e)
    (hf : isEnvelopeFresh e s.now = true) (hg : h.got = false) (hr : h.own = .ringing) :
    handleInboundSignal i e s = (s,.done) := by
  have hl : s.lookup e.callId = none := by
    have hgot := hs.got
    rw [hg,Option.isSome_eq_false_iff,Option.isNone_iff_eq_none] at hgot
    rw [ho.callId]
    exact hgot
  obtain ⟨ref,call,hout,_⟩ := outgoing_ringing hs hr
  rw [handleInboundSignal,if_pos hf]
  simp only [ho.type,onPeerOffer,hl,ho.from_]
  rw [show outgoingToPeer (P.actor .high) s = some (ref,call) from hout]
  simp only [hs.actor]
  rw [if_neg]
  rw [JsString.lt_asymm P.ordered]
  decide

theorem offer_glares (hs : Shows P .high h s) (ho : Offer P .low e)
    (hf : isEnvelopeFresh e s.now = true) (hg : h.got = false) (hr : h.own = .ringing) :
    ∃ ref c, handleInboundSignal i e s = (s.emit (.sendToPeer c),.glare ref e) ∧
      Cancel P c ∧ s.calls.get (P.callId .high) = some ref := by
  have hl : s.lookup e.callId = none := by
    have hgot := hs.got
    rw [hg,Option.isSome_eq_false_iff,Option.isNone_iff_eq_none] at hgot
    rw [ho.callId]
    exact hgot
  obtain ⟨ref,call,hout,hown⟩ := outgoing_ringing hs hr
  obtain ⟨hget,_,hid,_⟩ := hs.valid.lookup hown
  refine ⟨ref,{ makeEnvelope s call .cancel with reason := some "glare" },?_,
    ⟨hid,hs.actor,hs.peer hown,rfl⟩,hget⟩
  rw [handleInboundSignal,if_pos hf]
  simp only [ho.type,onPeerOffer,hl,ho.from_]
  rw [show outgoingToPeer (P.actor .low) s = some (ref,call) from hout]
  simp only [hs.actor,if_pos P.ordered]

theorem cancel_arrives (hs : Shows P .low h s) (hc : Cancel P e)
    (hf : isEnvelopeFresh e s.now = true) :
    Turns P .low { h with got := false } s (handleInboundSignal i e s).1 ∧
      Tame (handleInboundSignal i e s).2 := by
  rw [handleInboundSignal,if_pos hf]
  simp only [hc.type]
  refine ⟨?_,trivial⟩
  unfold onPeerHangup
  rw [hc.callId]
  cases hl : s.lookup (P.callId .high) with
  | none =>
    have hgot := hs.got
    rw [show s.lookup (P.callId Side.low.other) = none from hl] at hgot
    refine ⟨?_,rfl,.refl s⟩
    have hsame : { h with got := false } = h := by
      rw [show false = h.got from hgot]
    rw [hsame]
    exact hs
  | some entry =>
    obtain ⟨ref,call⟩ := entry
    simp only
    have ht : isTerminalCallState (if call.wasConnected = true then .ended else .cancelled) =
        true := by split <;> rfl
    obtain ⟨_,hrec,hid,_⟩ := hs.valid.lookup hl
    have hemit := hs.emit (.broadcast (some ref) (.peerHangup call.callId e.reason))
    refine ⟨hemit.drops hl ht,?_,?_⟩
    · rw [transition_get (s := s.emit _) hrec,if_neg]
      · rfl
      · rintro ⟨_,heq⟩
        exact P.distinct (heq.trans hid)
    · exact ((Sends.refl s).emit rfl).transition ref _

theorem invite_recorded (hs : Shows P side h s) (hm : i.media ≠ none)
    (media : CallMediaKind) :
    Shows P side { h with own := .ringing }
        (inviteProvisioned i (P.callId side) (P.actor side.other) media s).1 ∧
      Sends s (inviteProvisioned i (P.callId side) (P.actor side.other) media s).1 [] ∧
      (inviteProvisioned i (P.callId side) (P.actor side.other) media s).2 = .done := by
  unfold inviteProvisioned
  split
  · rename_i hn
    exact absurd hn hm
  · exact ⟨((hs.dials rfl ⟨rfl,rfl⟩ rfl).emit _).emit _,
      (((Sends.refl s).addCall _).emit rfl).emit rfl,rfl⟩

theorem glare_yields (hs : Shows P side h s) (ho : Offer P side.other e)
    (hi : i.relayed = true) (hg : s.calls.get (P.callId side) = some ref) :
    Shows P side { h with own := .gone, got := true } (glareRelayed i ref e s).1 ∧
      Sends s (glareRelayed i ref e s).1 [] ∧ Tame (glareRelayed i ref e s).2 := by
  obtain ⟨call,hc,_⟩ := hs.valid _ _ hg
  have hyield := hs.yields .cancelled (lookup_of_get hg hc) rfl
  rw [glareRelayed,if_pos hi]
  obtain ⟨hturn,htame⟩ := ringNewCall_turns (i := i) hyield ho
  refine ⟨hturn.shows_,?_,htame⟩
  have hsends := ((Sends.refl s).transition ref .cancelled).trans hturn.sends
  exact hsends

end offers

end Yurucommu.Glare
