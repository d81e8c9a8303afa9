import Yurucommu.CallRelay

/-!
A deferred relay is told to the hub once at most, to its own call, as acknowledged only before its
deadline, and an event that reaches the hub leaves none that is past it.
-/

set_option autoImplicit false

namespace Yurucommu.CallRelay

open Call (RtcSignalEnvelope ClientToHubFrame)

section promise

variable {δ : Type} [DecidableEq δ] (digest : RtcSignalEnvelope → δ)

structure Exact (s : State δ) : Prop where
  calls : (s.calls.map (·.callId)).Nodup
  once : (s.applied.map (·.effect.effectId)).Nodup
  own : ∀ x ∈ s.applied, x.generation = x.effect.generation
  timely : ∀ x ∈ s.applied, x.accepted = true → x.now < x.effect.deadline
  glare : ∀ x ∈ s.applied, x.effect.continuation = .glare →
    x.accepted = false ∧ x.effect.deadline ≤ x.now ∨
      ∃ envelope, x.continued = some envelope ∧ (x.effect.effectId,envelope) ∈ s.origins
  bounded : s.relays.length ≤ callRelayMaxPending

def opensHub (s : State δ) (a : Answer) : Event → Bool
  | .bind _ => false
  | .frame _ | .alarm => s.actor.isSome
  | .ingest envelope => s.actor.all (· = envelope.to_)
  | event => (admitted digest s a.early event).isSome && s.actor.isSome

/-- What every event keeps; `telling` is the relay that is being told, before its record goes. -/
structure Kept (telling : Option String) (s : State δ) : Prop where
  calls : (s.calls.map (·.callId)).Nodup
  nodup : (s.relays.map (·.effectId)).Nodup
  known : ∀ e ∈ s.relays, e.effectId ∈ s.used
  told : ∀ x ∈ s.applied, x.effect.effectId ∈ s.used
  fresh : ∀ e ∈ s.relays, ∀ x ∈ s.applied, x.effect.effectId = e.effectId →
    telling = some e.effectId
  once : (s.applied.map (·.effect.effectId)).Nodup
  own : ∀ x ∈ s.applied, x.generation = x.effect.generation
  timely : ∀ x ∈ s.applied, x.accepted = true → x.now < x.effect.deadline
  glare : ∀ x ∈ s.applied, x.effect.continuation = .glare →
    x.accepted = false ∧ x.effect.deadline ≤ x.now ∨
      ∃ envelope, x.continued = some envelope ∧ (x.effect.effectId,envelope) ∈ s.origins
  origin : ∀ e ∈ s.relays, e.continuation = .glare →
    ∃ envelope, (e.effectId,envelope) ∈ s.origins ∧ e.ingressDigest = some (digest envelope)
  bounded : s.relays.length ≤ callRelayMaxPending

end promise

section calls

variable {δ : Type} {s s' : State δ} {a : Answer} {lane : Lane δ} {call : CallRecord}

/-- Nothing but the calls may differ, and they stay one for each id. -/
structure SameJournal (s s' : State δ) : Prop where
  calls : (s.calls.map (·.callId)).Nodup → (s'.calls.map (·.callId)).Nodup
  actor : s'.actor = s.actor
  relays : s'.relays = s.relays
  now : s'.now = s.now
  used : s'.used = s.used
  origins : s'.origins = s.origins
  applied : s'.applied = s.applied

theorem SameJournal.refl (s : State δ) : SameJournal s s :=
  ⟨id,rfl,rfl,rfl,rfl,rfl,rfl⟩

theorem SameJournal.trans {t : State δ} (h : SameJournal s s') (k : SameJournal s' t) :
    SameJournal s t :=
  ⟨k.calls ∘ h.calls,k.actor.trans h.actor,k.relays.trans h.relays,k.now.trans h.now,
    k.used.trans h.used,k.origins.trans h.origins,k.applied.trans h.applied⟩

theorem sameJournal_transition (callId : String) (state : Call.CallState) (s : State δ) :
    SameJournal s (transition callId state s) := by
  refine ⟨fun h => ?_,rfl,rfl,rfl,rfl,rfl,rfl⟩
  simp only [transition]
  split
  · exact h.sublist (List.filter_sublist.map _)
  · rw [Table.map_update]
    · exact h
    · exact fun _ => rfl

theorem sameJournal_addCall {call : CallRecord} (h : getCall s call.callId = none) :
    SameJournal s (addCall call s) := by
  refine ⟨fun hn => ?_,rfl,rfl,rfl,rfl,rfl,rfl⟩
  simp only [addCall,List.map_append,List.map_cons,List.map_nil]
  refine List.nodup_append.mpr ⟨hn,List.nodup_singleton _,fun x hx y hy heq => ?_⟩
  obtain rfl := List.mem_singleton.mp hy
  obtain ⟨other,hin,hid⟩ := List.mem_map.mp hx
  have hne := List.find?_eq_none.mp h other hin
  exact hne (decide_eq_true (hid.trans heq))

theorem sameJournal_connect (call : CallRecord) (s : State δ) : SameJournal s (connect call s) := by
  unfold connect
  split
  · exact sameJournal_transition _ _ s
  · exact .refl s

theorem sameJournal_expire (call : CallRecord) (s : State δ) : SameJournal s (expire s call) := by
  unfold expire
  dsimp only
  split
  · exact sameJournal_transition _ _ s
  · split
    · exact sameJournal_transition _ _ s
    · exact .refl s

theorem sameJournal_tick (s : State δ) : SameJournal s (tick s) := by
  unfold tick
  generalize s.calls = calls
  induction calls generalizing s with
  | nil => exact .refl s
  | cons call calls ih => exact (sameJournal_expire call s).trans (ih _)

structure Adds (digest : RtcSignalEnvelope → δ) (a : Answer) (e : Effect δ) (s s' : State δ) :
    Prop where
  id : e.effectId = a.effectId
  deadline : s.now < e.deadline
  room : s.relays.length < callRelayMaxPending
  calls : (s.calls.map (·.callId)).Nodup → (s'.calls.map (·.callId)).Nodup
  relays : s'.relays = s.relays ++ [e]
  actor : s'.actor = s.actor
  now : s'.now = s.now
  used : s'.used = s.used
  applied : s'.applied = s.applied
  origins : ∃ new, s'.origins = s.origins ++ new
  glare : e.continuation = .glare →
    ∃ envelope, (e.effectId,envelope) ∈ s'.origins ∧ e.ingressDigest = some (digest envelope)

def Works (digest : RtcSignalEnvelope → δ) (a : Answer) (s s' : State δ) : Prop :=
  SameJournal s s' ∨ ∃ e : Effect δ, Adds digest a e s s'

theorem Works.after {digest : RtcSignalEnvelope → δ} {t : State δ} (h : SameJournal s s')
    (k : Works digest a s' t) : Works digest a s t := by
  rcases k with k | ⟨e,k⟩
  · exact .inl (h.trans k)
  · refine .inr ⟨e,{ k with
      deadline := h.now ▸ k.deadline, room := h.relays ▸ k.room, calls := k.calls ∘ h.calls,
      relays := h.relays ▸ k.relays, actor := k.actor.trans h.actor, now := k.now.trans h.now,
      used := k.used.trans h.used, applied := k.applied.trans h.applied,
      origins := h.origins ▸ k.origins }⟩

def Lane.Digests (digest : RtcSignalEnvelope → δ) (lane : Lane δ) : Prop :=
  ∀ envelope, lane.ingress = some envelope → lane.ingressDigest = some (digest envelope)

theorem delete_append_fresh {relays : List (Effect δ)} {e : Effect δ} {id : String}
    (he : e.effectId = id) (h : id ∉ relays.map (·.effectId)) :
    Table.delete (fun f : Effect δ => f.effectId = id) (relays ++ [e]) = relays := by
  unfold Table.delete
  rw [List.filter_append,List.filter_eq_self.mpr]
  · simp [he]
  · intro f hf
    have hne : f.effectId ≠ id := fun heq => h (List.mem_map.mpr ⟨f,hf,heq⟩)
    simpa using hne

theorem works_relay {digest : RtcSignalEnvelope → δ} {type : Call.RtcSignalType}
    {continuation : Continuation} (hlane : lane.Digests digest)
    (hglare : continuation = .glare → lane.ingress.isSome = true)
    (hnew : a.effectId ∉ s.relays.map (·.effectId)) :
    Works digest a s (relay a lane call type continuation s) := by
  unfold relay prepare
  dsimp only
  split
  · exact .inl (sameJournal_transition _ _ s)
  · rename_i s' hprepared
    rw [Option.ite_none_left_eq_some] at hprepared
    obtain ⟨hok,hprepared⟩ := hprepared
    rw [Option.some.injEq] at hprepared
    simp only [Bool.or_eq_true,decide_eq_true_eq,Bool.not_eq_true',not_or,not_le] at hok
    split
    · subst hprepared
      refine .inr ⟨_,rfl,hok.1.1,hok.2,fun h => h,rfl,rfl,rfl,rfl,rfl,⟨_,rfl⟩,fun hg => ?_⟩
      obtain ⟨envelope,hingress⟩ := Option.isSome_iff_exists.mp (hglare hg)
      refine ⟨envelope,?_,hlane envelope hingress⟩
      simp [hingress]
    · rename_i hno
      have hingress : lane.ingress = none := by
        simp only [Bool.or_eq_true,not_or,Bool.not_eq_true,Option.isSome_eq_false_iff,
          Option.isNone_iff_eq_none] at hno
        exact hno.1
      subst hprepared
      refine .inl (.trans ?_ (sameJournal_transition _ _ _))
      refine ⟨fun h => h,rfl,?_,rfl,rfl,?_,rfl⟩
      · exact delete_append_fresh rfl hnew
      · simp [removeRelay,hingress]

variable {digest : RtcSignalEnvelope → δ}

theorem works_handleClientFrame (frame : ClientToHubFrame)
    (hnew : a.effectId ∉ s.relays.map (·.effectId)) :
    Works digest a s (handleClientFrame a frame s) := by
  have hlane : (⟨none,none⟩ : Lane δ).Digests digest := fun _ h => by cases h
  have hrelay : ∀ (call : CallRecord) (type : Call.RtcSignalType) (continuation : Continuation),
      continuation ≠ .glare → Works digest a s (relay a ⟨none,none⟩ call type continuation s) :=
    fun _ _ _ hne => works_relay hlane (fun h => absurd h hne) hnew
  have hconnected : ∀ (call : CallRecord) (type : Call.RtcSignalType),
      Works digest a s (relay a ⟨none,none⟩ call type .none (connect call s)) := by
    intro call type
    have hsame := sameJournal_connect call s
    refine .after hsame (works_relay hlane (fun h => by cases h) ?_)
    rw [hsame.relays]
    exact hnew
  cases frame with
  | hello => exact .inl (.refl s)
  | ping => exact .inl (.refl s)
  | resume callId => exact .inl (.refl s)
  | invite callId to_ media =>
    simp only [handleClientFrame]
    split
    · exact .inl (.refl s)
    · rename_i hno
      refine .inl (sameJournal_addCall ?_)
      simp only [Bool.or_eq_true,not_or,Bool.not_eq_true,Option.isSome_eq_false_iff,
        Option.isNone_iff_eq_none] at hno
      exact hno.1
  | offer callId sdp =>
    simp only [handleClientFrame]
    cases getCall s callId with
    | none => exact .inl (.refl s)
    | some call => exact hrelay _ _ _ (by decide)
  | answer callId sdp =>
    simp only [handleClientFrame]
    cases getCall s callId with
    | none => exact .inl (.refl s)
    | some call => exact hconnected _ _
  | candidates callId candidates =>
    simp only [handleClientFrame]
    cases getCall s callId with
    | none => exact .inl (.refl s)
    | some call =>
      dsimp only
      split
      · exact .inl (.refl s)
      · exact hrelay _ _ _ (by decide)
  | accept callId =>
    simp only [handleClientFrame]
    cases getCall s callId with
    | none => exact .inl (.refl s)
    | some call => exact hconnected _ _
  | reject callId reason =>
    simp only [handleClientFrame]
    cases getCall s callId with
    | none => exact .inl (.refl s)
    | some call => exact hrelay _ _ _ (by decide)
  | hangup callId reason =>
    simp only [handleClientFrame]
    cases getCall s callId with
    | none => exact .inl (.refl s)
    | some call =>
      dsimp only
      split
      · exact hrelay _ _ _ (by decide)
      · exact hrelay _ _ _ (by decide)

theorem works_handleInboundSignal {localActorApId : String} {envelope : RtcSignalEnvelope}
    {ingressDigest : Option δ} (hdigest : ingressDigest = some (digest envelope))
    (hnew : a.effectId ∉ s.relays.map (·.effectId)) :
    Works digest a s
      (handleInboundSignal a ⟨some envelope,ingressDigest⟩ localActorApId envelope s) := by
  have hlane : (⟨some envelope,ingressDigest⟩ : Lane δ).Digests digest := by
    intro other hother
    obtain rfl := Option.some.inj hother
    exact hdigest
  unfold handleInboundSignal
  split
  · exact .inl (.refl s)
  · cases envelope.type with
    | offer =>
      simp only [onPeerOffer]
      cases hcall : getCall s envelope.callId with
      | some call => exact .inl (.refl s)
      | none =>
        dsimp only
        cases outgoingToPeer envelope.from_ s with
        | none => exact .inl (sameJournal_addCall hcall)
        | some call =>
          dsimp only
          split
          · exact works_relay hlane (fun _ => rfl) hnew
          · exact .inl (.refl s)
    | answer =>
      dsimp only
      cases getCall s envelope.callId with
      | none => exact .inl (.refl s)
      | some call =>
        dsimp only
        split
        · exact .inl (.refl s)
        · exact .inl (sameJournal_connect call s)
    | candidate => exact .inl (.refl s)
    | accept =>
      dsimp only
      cases getCall s envelope.callId with
      | none => exact .inl (.refl s)
      | some call => exact .inl (sameJournal_connect call s)
    | reject =>
      dsimp only
      cases getCall s envelope.callId with
      | none => exact .inl (.refl s)
      | some call => exact .inl (sameJournal_transition _ _ s)
    | hangup =>
      dsimp only
      cases getCall s envelope.callId with
      | none => exact .inl (.refl s)
      | some call => exact .inl (sameJournal_transition _ _ s)
    | cancel =>
      dsimp only
      cases getCall s envelope.callId with
      | none => exact .inl (.refl s)
      | some call => exact .inl (sameJournal_transition _ _ s)

end calls

section kept

variable {δ : Type} {digest : RtcSignalEnvelope → δ} {s s' : State δ} {a : Answer}
  {e f : Effect δ} {telling : Option String} {accepted : Bool}
  {continued : Option RtcSignalEnvelope}

theorem Kept.same (h : Kept digest telling s) (hs : SameJournal s s') : Kept digest telling s' := by
  obtain ⟨hc,_,hr,_,hu,ho,ha⟩ := hs
  refine ⟨hc h.calls,?_,?_,?_,?_,?_,?_,?_,?_,?_,?_⟩
  all_goals simp only [hr,hu,ho,ha]
  · exact h.nodup
  · exact h.known
  · exact h.told
  · exact h.fresh
  · exact h.once
  · exact h.own
  · exact h.timely
  · exact h.glare
  · exact h.origin
  · exact h.bounded

theorem Kept.works (h : Kept digest telling s) (hw : Works digest a s s')
    (hnew : a.effectId ∉ s.relays.map (·.effectId)) (hused : a.effectId ∈ s.used)
    (huntold : ∀ x ∈ s.applied, x.effect.effectId ≠ a.effectId) : Kept digest telling s' := by
  rcases hw with hsame | ⟨e,hid,_,hl,hc,hr,_,_,hu,happ,⟨new,ho⟩,hg⟩
  · exact h.same hsame
  · constructor
    · exact hc h.calls
    · rw [hr,List.map_append,List.map_singleton,hid]
      refine List.nodup_append.mpr ⟨h.nodup,List.nodup_singleton _,fun x hx y hy heq => ?_⟩
      obtain rfl := List.mem_singleton.mp hy
      exact hnew (heq ▸ hx)
    · rw [hr,hu]
      intro x hx
      rcases List.mem_append.mp hx with hx | hx
      · exact h.known x hx
      · obtain rfl := List.mem_singleton.mp hx
        exact hid ▸ hused
    · rw [happ,hu]
      exact h.told
    · rw [hr,happ]
      intro x hx y hy heq
      rcases List.mem_append.mp hx with hx | hx
      · exact h.fresh x hx y hy heq
      · obtain rfl := List.mem_singleton.mp hx
        exact absurd (heq.trans hid) (huntold y hy)
    · rw [happ]
      exact h.once
    · rw [happ]
      exact h.own
    · rw [happ]
      exact h.timely
    · rw [happ,ho]
      intro x hx hglare
      rcases h.glare x hx hglare with hlate | ⟨envelope,hc,hin⟩
      · exact .inl hlate
      · exact .inr ⟨envelope,hc,List.mem_append_left _ hin⟩
    · intro x hx hglare
      rw [hr] at hx
      rcases List.mem_append.mp hx with hx | hx
      · obtain ⟨envelope,hin,hdigest⟩ := h.origin x hx hglare
        exact ⟨envelope,ho ▸ List.mem_append_left _ hin,hdigest⟩
      · obtain rfl := List.mem_singleton.mp hx
        exact hg hglare
    · rw [hr,List.length_append,List.length_singleton]
      exact hl

def Dead (e : Effect δ) (s : State δ) : Prop :=
  ∀ call, getCall s e.callId = some call → call.generation ≠ e.generation

structure Told (e : Effect δ) (accepted : Bool) (continued : Option RtcSignalEnvelope)
    (call : CallRecord) (s s' : State δ) : Prop where
  found : getCall s e.callId = some call
  own : call.generation = e.generation
  calls : (s.calls.map (·.callId)).Nodup → (s'.calls.map (·.callId)).Nodup
  actor : s'.actor = s.actor
  relays : s'.relays = s.relays
  now : s'.now = s.now
  used : s'.used = s.used
  origins : s'.origins = s.origins
  applied : s'.applied = s.applied ++ [⟨e,call.generation,accepted,s.now,continued⟩]

theorem completeDeferredRelay_cases (e : Effect δ) (accepted : Bool)
    (continued : Option RtcSignalEnvelope) (s : State δ) :
    (Dead e s ∧ completeDeferredRelay e accepted continued s = s) ∨
      ∃ call, Told e accepted continued call s (completeDeferredRelay e accepted continued s) := by
  unfold completeDeferredRelay
  cases hcall : getCall s e.callId with
  | none =>
    refine .inl ⟨fun call h => ?_,rfl⟩
    rw [hcall] at h
    cases h
  | some call =>
    dsimp only
    by_cases hgen : call.generation = e.generation
    · refine .inr ⟨call,?_⟩
      rw [if_neg (not_not.mpr hgen)]
      have hmoved : ∀ state, Told e accepted continued call s (transition call.callId state
          { s with applied := s.applied ++ [⟨e,call.generation,accepted,s.now,continued⟩] }) :=
        fun state => ⟨hcall,hgen,(sameJournal_transition _ _ _).calls,rfl,rfl,rfl,rfl,rfl,rfl⟩
      cases accepted with
      | false => exact hmoved _
      | true =>
        rw [if_neg (by decide)]
        cases continuationState e.continuation with
        | none => exact ⟨hcall,hgen,id,rfl,rfl,rfl,rfl,rfl,rfl⟩
        | some state => exact hmoved _
    · refine .inl ⟨fun other h => ?_,if_pos hgen⟩
      rw [hcall,Option.some.injEq] at h
      exact h ▸ hgen

theorem Kept.complete (h : Kept digest none s) (he : e ∈ s.relays)
    (htimely : accepted = true → s.now < e.deadline)
    (hglare : e.continuation = .glare → accepted = false ∧ e.deadline ≤ s.now ∨
      ∃ envelope, continued = some envelope ∧ (e.effectId,envelope) ∈ s.origins) :
    Kept digest (some e.effectId) (completeDeferredRelay e accepted continued s) := by
  rcases completeDeferredRelay_cases e accepted continued s with
    ⟨_,hsame⟩ | ⟨call,_,hgen,hc,_,hr,_,hu,ho,ha⟩
  · rw [hsame]
    exact { h with fresh := fun x hx y hy heq => by cases h.fresh x hx y hy heq }
  · refine ⟨hc h.calls,?_,?_,?_,?_,?_,?_,?_,?_,?_,?_⟩
    all_goals simp only [hr,hu,ho,ha]
    · exact h.nodup
    · exact h.known
    · intro x hx
      rcases List.mem_append.mp hx with hx | hx
      · exact h.told x hx
      · obtain rfl := List.mem_singleton.mp hx
        exact h.known e he
    · intro x hx y hy heq
      rcases List.mem_append.mp hy with hy | hy
      · cases h.fresh x hx y hy heq
      · obtain rfl := List.mem_singleton.mp hy
        exact congrArg some heq
    · rw [List.map_append,List.map_singleton]
      refine List.nodup_append.mpr ⟨h.once,List.nodup_singleton _,fun x hx y hy heq => ?_⟩
      obtain rfl := List.mem_singleton.mp hy
      obtain ⟨z,hz,hzid⟩ := List.mem_map.mp hx
      cases h.fresh e he z hz (hzid.trans heq)
    · intro x hx
      rcases List.mem_append.mp hx with hx | hx
      · exact h.own x hx
      · obtain rfl := List.mem_singleton.mp hx
        exact hgen
    · intro x hx
      rcases List.mem_append.mp hx with hx | hx
      · exact h.timely x hx
      · obtain rfl := List.mem_singleton.mp hx
        exact htimely
    · intro x hx
      rcases List.mem_append.mp hx with hx | hx
      · exact h.glare x hx
      · obtain rfl := List.mem_singleton.mp hx
        exact hglare
    · exact h.origin
    · exact h.bounded

theorem mem_removeRelay {effectId : String} :
    f ∈ (removeRelay effectId s).relays ↔ f ∈ s.relays ∧ f.effectId ≠ effectId := by
  simp [removeRelay,Table.delete]

theorem Kept.remove {effectId : String} (h : Kept digest telling s)
    (ht : telling = none ∨ telling = some effectId) :
    Kept digest none (removeRelay effectId s) := by
  constructor
  · exact h.calls
  · exact h.nodup.sublist ((List.filter_sublist).map _)
  · exact fun x hx => h.known x (mem_removeRelay.mp hx).1
  · exact h.told
  · intro x hx y hy heq
    obtain ⟨hold,hne⟩ := mem_removeRelay.mp hx
    have hfresh := h.fresh x hold y hy heq
    rcases ht with rfl | rfl
    · exact hfresh
    · exact absurd (Option.some.inj hfresh).symm hne
  · exact h.once
  · exact h.own
  · exact h.timely
  · exact h.glare
  · exact fun x hx => h.origin x (mem_removeRelay.mp hx).1
  · exact (List.length_filter_le _ _).trans h.bounded

structure Fresh (a : Answer) (s : State δ) : Prop where
  relays : a.effectId ∉ s.relays.map (·.effectId)
  applied : ∀ x ∈ s.applied, x.effect.effectId ≠ a.effectId
  used : a.effectId ∈ s.used

def Timely (now : Int) (s : State δ) : Prop := s.now = now ∧ ∀ e ∈ s.relays, now < e.deadline

theorem Fresh.complete (h : Fresh a s) (he : e ∈ s.relays) :
    Fresh a (completeDeferredRelay e accepted continued s) := by
  rcases completeDeferredRelay_cases e accepted continued s with
    ⟨_,hsame⟩ | ⟨call,_,_,_,_,hr,_,hu,_,ha⟩
  · rw [hsame]
    exact h
  · constructor
    all_goals simp only [hr,hu,ha]
    · exact h.relays
    · intro x hx
      rcases List.mem_append.mp hx with hx | hx
      · exact h.applied x hx
      · obtain rfl := List.mem_singleton.mp hx
        exact fun heq => h.relays (List.mem_map.mpr ⟨e,he,heq⟩)
    · exact h.used

theorem Fresh.remove (h : Fresh a s) (effectId : String) : Fresh a (removeRelay effectId s) := by
  refine ⟨fun hin => h.relays ?_,h.applied,h.used⟩
  obtain ⟨f,hf,hid⟩ := List.mem_map.mp hin
  exact List.mem_map.mpr ⟨f,(mem_removeRelay.mp hf).1,hid⟩

theorem relays_complete : (completeDeferredRelay e accepted continued s).relays = s.relays ∧
    (completeDeferredRelay e accepted continued s).now = s.now ∧
      (completeDeferredRelay e accepted continued s).actor = s.actor ∧
        (completeDeferredRelay e accepted continued s).origins = s.origins := by
  rcases completeDeferredRelay_cases e accepted continued s with
    ⟨_,hsame⟩ | ⟨_,_,_,_,hactor,hr,hn,_,ho,_⟩
  · rw [hsame]
    exact ⟨rfl,rfl,rfl,rfl⟩
  · exact ⟨hr,hn,hactor,ho⟩

theorem getCall_delete (callId other : String) (state : Call.CallState)
    (hstate : Call.isTerminalCallState state = true) :
    getCall (transition callId state s) other =
      if other = callId then none else getCall s other := by
  simp only [getCall,transition,hstate,if_true,Table.delete,List.find?_filter]
  split
  · rename_i heq
    subst heq
    refine List.find?_eq_none.mpr fun call _ => ?_
    simp
  · rename_i hne
    congr 1
    funext call
    by_cases hcall : call.callId = other
    · simp [hcall,hne]
    · simp [hcall]

theorem dead_settle (e : Effect δ) (s : State δ) : Dead e (settle s e) := by
  intro call hcall
  have hcall : getCall (completeDeferredRelay e false none s) e.callId = some call := hcall
  unfold completeDeferredRelay at hcall
  cases hfound : getCall s e.callId with
  | none =>
    rw [hfound] at hcall
    simp only [hfound] at hcall
    cases hcall
  | some found =>
    rw [hfound] at hcall
    dsimp only at hcall
    by_cases hgen : found.generation = e.generation
    · rw [if_neg (not_not.mpr hgen)] at hcall
      simp only [Bool.not_false,if_true] at hcall
      rw [getCall_delete _ _ _ rfl] at hcall
      have hid : found.callId = e.callId := by
        have hp := List.find?_some hfound
        exact of_decide_eq_true hp
      rw [if_pos hid.symm] at hcall
      cases hcall
    · rw [if_pos hgen,hfound,Option.some.injEq] at hcall
      exact hcall ▸ hgen

theorem Dead.settle (h : Dead e s) (f : Effect δ) : Dead e (settle s f) := by
  intro call hcall
  have hcall : getCall (completeDeferredRelay f false none s) e.callId = some call := hcall
  unfold completeDeferredRelay at hcall
  cases hfound : getCall s f.callId with
  | none =>
    rw [hfound] at hcall
    exact h call hcall
  | some found =>
    rw [hfound] at hcall
    dsimp only at hcall
    by_cases hgen : found.generation = f.generation
    · rw [if_neg (not_not.mpr hgen)] at hcall
      simp only [Bool.not_false,if_true] at hcall
      rw [getCall_delete _ _ _ rfl] at hcall
      split at hcall
      · cases hcall
      · exact h call hcall
    · rw [if_pos hgen] at hcall
      exact h call hcall

structure Settled (digest : RtcSignalEnvelope → δ) (a : Answer) (l : List (Effect δ))
    (s t : State δ) : Prop where
  kept : Kept digest none t
  fresh : Fresh a t
  now : t.now = s.now
  actor : t.actor = s.actor
  origins : t.origins = s.origins
  relays : ∀ f, f ∈ t.relays ↔ f ∈ s.relays ∧ f.effectId ∉ l.map (·.effectId)
  dead : ∀ e ∈ l, Dead e t

theorem dead_foldl (l : List (Effect δ)) : ∀ s : State δ, Dead e s → Dead e (l.foldl settle s) := by
  induction l with
  | nil => exact fun _ h => h
  | cons f l ih => exact fun s h => ih _ (h.settle f)

theorem settled_foldl (l : List (Effect δ)) : ∀ s : State δ, Kept digest none s → Fresh a s →
    (∀ e ∈ l, e ∈ s.relays ∧ e.deadline ≤ s.now) → (l.map (·.effectId)).Nodup →
      Settled digest a l s (l.foldl settle s) := by
  induction l with
  | nil =>
    intro s h hf _ _
    exact ⟨h,hf,rfl,rfl,rfl,fun f => by simp,fun e he => by cases he⟩
  | cons e l ih =>
    intro s h hf hl hn
    rw [List.map_cons,List.nodup_cons] at hn
    obtain ⟨he,hdue⟩ := hl e List.mem_cons_self
    have hsame : (completeDeferredRelay e false none s).relays = s.relays ∧ _ := relays_complete
    have hkept : Kept digest none (settle s e) :=
      (h.complete he (fun hno => by cases hno) (fun _ => .inl ⟨rfl,hdue⟩)).remove (.inr rfl)
    have hmem : ∀ f, f ∈ (settle s e).relays ↔ f ∈ s.relays ∧ f.effectId ≠ e.effectId := by
      intro f
      rw [settle,mem_removeRelay,hsame.1]
    have hlater : ∀ f ∈ l, f ∈ (settle s e).relays ∧ f.deadline ≤ (settle s e).now := by
      intro f hin
      obtain ⟨hf,hfdue⟩ := hl f (List.mem_cons_of_mem _ hin)
      have hne : f.effectId ≠ e.effectId :=
        fun heq => hn.1 (heq ▸ List.mem_map.mpr ⟨f,hin,rfl⟩)
      have hnow : (settle s e).now = s.now := hsame.2.1
      exact ⟨(hmem f).mpr ⟨hf,hne⟩,hnow ▸ hfdue⟩
    have hrest := ih (settle s e) hkept ((hf.complete he).remove _) hlater hn.2
    refine ⟨hrest.kept,hrest.fresh,hrest.now.trans hsame.2.1,hrest.actor.trans hsame.2.2.1,
      hrest.origins.trans hsame.2.2.2,fun f => ?_,fun f hin => ?_⟩
    · rw [List.foldl_cons,hrest.relays,hmem,List.map_cons,List.mem_cons,not_or,and_assoc]
    · rcases List.mem_cons.mp hin with rfl | hin
      · exact dead_foldl l _ (dead_settle f s)
      · exact hrest.dead f hin

theorem mem_due : e ∈ due s ↔ e ∈ s.relays ∧ e.deadline ≤ s.now := by
  simp [due,List.mem_insertionSort]

theorem settled_sweep (h : Kept digest none s) (hf : Fresh a s) :
    Settled digest a (due s) s (sweep s) := by
  refine settled_foldl _ s h hf (fun e he => mem_due.mp he) ?_
  have hperm := List.perm_insertionSort (fun e f : Effect δ => e.effectId ≤ f.effectId)
    (s.relays.filter fun e => e.deadline ≤ s.now)
  exact (hperm.map _).nodup_iff.mpr (h.nodup.sublist (List.filter_sublist.map _))

theorem mem_sweep (h : Kept digest none s) (hf : Fresh a s) :
    e ∈ (sweep s).relays ↔ e ∈ s.relays ∧ s.now < e.deadline := by
  rw [(settled_sweep h hf).relays,List.mem_map]
  refine and_congr_right fun he => ⟨fun hno => ?_,fun hlt hin => ?_⟩
  · by_contra hle
    exact hno ⟨e,mem_due.mpr ⟨he,not_lt.mp hle⟩,rfl⟩
  · obtain ⟨f,hin,hid⟩ := hin
    obtain ⟨hfin,hdue⟩ := mem_due.mp hin
    have heq := List.inj_on_of_nodup_map h.nodup hfin he hid
    rw [heq] at hdue
    omega

theorem Works.timely {now : Int} (h : Timely now s) (hw : Works digest a s s') :
    Timely now s' := by
  rcases hw with hsame | ⟨e,hadds⟩
  · refine ⟨hsame.now.trans h.1,?_⟩
    rw [hsame.relays]
    exact h.2
  · refine ⟨hadds.now.trans h.1,fun f hin => ?_⟩
    rw [hadds.relays] at hin
    rcases List.mem_append.mp hin with hin | hin
    · exact h.2 f hin
    · obtain rfl := List.mem_singleton.mp hin
      exact h.1 ▸ hadds.deadline

end kept

section events

variable {δ : Type} {digest : RtcSignalEnvelope → δ} {s s' : State δ} {a : Answer}
  {e : Effect δ}

theorem sameJournal_hydrate (s : State δ) : SameJournal s (hydrate s) :=
  ⟨fun h => ((List.perm_insertionSort _ _).map _).nodup_iff.mpr h,rfl,rfl,rfl,rfl,rfl,rfl⟩

theorem Fresh.same (h : Fresh a s) (hs : SameJournal s s') : Fresh a s' :=
  ⟨by rw [hs.relays]; exact h.relays,by rw [hs.applied]; exact h.applied,
    by rw [hs.used]; exact h.used⟩

structure Swept (digest : RtcSignalEnvelope → δ) (a : Answer) (s t : State δ) : Prop where
  kept : Kept digest none t
  fresh : Fresh a t
  origins : t.origins = s.origins
  timely : Timely s.now t
  alive : ∀ e ∈ s.relays, ¬Dead e t → e ∈ t.relays

theorem swept_hydrate (h : Kept digest none s) (hf : Fresh a s) :
    Swept digest a s (sweep (hydrate s)) := by
  have hsame := sameJournal_hydrate s
  have hkept := h.same hsame
  have hfresh := hf.same hsame
  have hsettled := settled_sweep hkept hfresh
  refine ⟨hsettled.kept,hsettled.fresh,hsettled.origins,⟨hsettled.now,fun e he => ?_⟩,
    fun e he halive => ?_⟩
  · exact ((mem_sweep hkept hfresh).mp he).2
  · refine (mem_sweep hkept hfresh).mpr ⟨he,?_⟩
    by_contra hle
    exact halive (hsettled.dead e (mem_due.mpr ⟨he,not_lt.mp hle⟩))

theorem Swept.works {t u : State δ} (h : Swept digest a s t) (hw : Works digest a t u) :
    Kept digest none u ∧ Timely s.now u :=
  ⟨h.kept.works hw h.fresh.relays h.fresh.used h.fresh.applied,hw.timely h.timely⟩

theorem withHub_works {work : String → State δ → State δ} (h : Kept digest none s)
    (hf : Fresh a s) (hw : ∀ actor t, Fresh a t → Works digest a t (work actor t)) :
    Kept digest none (withHub work s) ∧
      (s.actor.isSome = true → Timely s.now (withHub work s)) := by
  unfold withHub
  cases s.actor with
  | none => exact ⟨h,fun hno => by cases hno⟩
  | some actor =>
    have hswept := swept_hydrate h hf
    have hdone := hswept.works (hw actor _ hswept.fresh)
    exact ⟨hdone.1,fun _ => hdone.2⟩

theorem Timely.remove {now : Int} (h : Timely now s) (effectId : String) :
    Timely now (removeRelay effectId s) :=
  ⟨h.1,fun f hin => h.2 f (mem_removeRelay.mp hin).1⟩

theorem completeRelay_kept {outcome : Outcome} {envelope : Option RtcSignalEnvelope}
    (h : Kept digest none s) (hf : Fresh a s) (he : e ∈ s.relays)
    (hglare : e.continuation = .glare →
      ∃ x, envelope = some x ∧ (e.effectId,x) ∈ s.origins)
    (hdigest : ∀ x, envelope = some x → e.ingressDigest = some (digest x)) :
    Kept digest none (completeRelay a e outcome envelope s) ∧
      (s.actor.isSome = true → Timely s.now (completeRelay a e outcome envelope s)) := by
  unfold completeRelay withHub
  cases s.actor with
  | none => exact ⟨h.remove (.inl rfl),fun hno => by cases hno⟩
  | some actor =>
    have hswept := swept_hydrate h hf
    dsimp only
    generalize sweep (hydrate s) = t at hswept
    have hleft : Kept digest none (removeRelay e.effectId t) ∧
        Timely s.now (removeRelay e.effectId t) :=
      ⟨hswept.kept.remove (.inl rfl),hswept.timely.remove _⟩
    cases hcall : getCall t e.callId with
    | none => exact ⟨hleft.1,fun _ => hleft.2⟩
    | some call =>
      dsimp only
      by_cases hgen : call.generation = e.generation
      · rw [if_neg (not_not.mpr hgen)]
        have hin : e ∈ t.relays := hswept.alive e he fun hdead => hdead call hcall hgen
        have hacc : decide (outcome = .peerAck) = true → t.now < e.deadline :=
          fun _ => hswept.timely.1 ▸ hswept.timely.2 e hin
        have hkept : Kept digest (some e.effectId)
            (completeDeferredRelay e (decide (outcome = .peerAck)) envelope t) :=
          hswept.kept.complete hin hacc fun hg => .inr (by rw [hswept.origins]; exact hglare hg)
        have hfresh : Fresh a (completeDeferredRelay e (decide (outcome = .peerAck)) envelope t) :=
          hswept.fresh.complete hin
        have htimely : Timely s.now
            (completeDeferredRelay e (decide (outcome = .peerAck)) envelope t) := by
          refine ⟨relays_complete.2.1.trans hswept.timely.1,?_⟩
          rw [relays_complete.1]
          exact hswept.timely.2
        generalize completeDeferredRelay e (decide (outcome = .peerAck)) envelope t = u
          at hkept hfresh htimely
        have hend : ∀ v, Works digest a u v → Kept digest none (removeRelay e.effectId v) ∧
            ((some actor).isSome = true → Timely s.now (removeRelay e.effectId v)) := by
          intro v hv
          have hkeptv := hkept.works hv hfresh.relays hfresh.used hfresh.applied
          exact ⟨hkeptv.remove (.inr rfl),fun _ => (hv.timely htimely).remove _⟩
        cases envelope with
        | none => exact hend u (.inl (.refl u))
        | some envelope =>
          dsimp only
          split
          · exact hend _ (works_handleInboundSignal (hdigest envelope rfl) hfresh.relays)
          · exact hend u (.inl (.refl u))
      · rw [if_pos hgen]
        exact ⟨hleft.1,fun _ => hleft.2⟩

theorem Kept.bindActor (h : Kept digest none s) (actor : String) :
    Kept digest none (bindActor actor s) := by
  unfold CallRelay.bindActor
  split
  · exact h
  · exact { h with }

theorem Fresh.bindActor (h : Fresh a s) (actor : String) : Fresh a (bindActor actor s) := by
  unfold CallRelay.bindActor
  split
  · exact h
  · exact { h with }

theorem Kept.arrive (h : Kept digest none s) : Kept digest none (arrive a s) := by
  refine { h with known := fun e he => ?_, told := fun x hx => ?_ }
  · exact List.mem_cons_of_mem _ (List.mem_cons_of_mem _ (h.known e he))
  · exact List.mem_cons_of_mem _ (List.mem_cons_of_mem _ (h.told x hx))

theorem Fresh.arrive (h : Kept digest none s) (hp : possible a s = true) :
    Fresh a (arrive a s) := by
  simp only [possible,Bool.and_eq_true,Bool.not_eq_true',List.contains_eq_mem,
    decide_eq_false_iff_not] at hp
  obtain ⟨⟨⟨⟨hnew,_⟩,_⟩,_⟩,_⟩ := hp
  refine ⟨fun hin => hnew ?_,fun x hx heq => hnew (heq ▸ h.told x hx),List.mem_cons_self⟩
  obtain ⟨e,he,hid⟩ := List.mem_map.mp hin
  exact hid ▸ h.known e he

end events

section runs

variable {δ : Type} {digest : RtcSignalEnvelope → δ} {s s' : State δ} {a : Answer}
  {e : Effect δ} {event : Event}

theorem kept_empty (now : Int) : Kept digest none (empty now) := by
  constructor
  all_goals simp [empty,callRelayMaxPending]

theorem Kept.exact (h : Kept digest none s) : Exact s :=
  ⟨h.calls,h.once,h.own,h.timely,h.glare,h.bounded⟩

variable [DecidableEq δ]

theorem mem_of_admitted {early : Int} (h : admitted digest s early event = some e) :
    e ∈ s.relays := by
  cases event with
  | relayResult result =>
    have hfound := (Option.filter_eq_some_iff.mp h).1
    exact List.mem_of_find?_eq_some (Option.filter_eq_some_iff.mp hfound).1
  | continuation result envelope =>
    have hfound := (Option.filter_eq_some_iff.mp h).1
    exact List.mem_of_find?_eq_some (Option.filter_eq_some_iff.mp hfound).1
  | bind _ => cases h
  | frame _ => cases h
  | ingest _ => cases h
  | alarm => cases h

theorem admitted_relayResult {early : Int} {result : Result}
    (h : admitted digest s early (.relayResult result) = some e) : e.continuation ≠ .glare :=
  of_decide_eq_true (Option.filter_eq_some_iff.mp h).2

theorem admitted_continuation {early : Int} {result : Result} {envelope : RtcSignalEnvelope}
    (h : admitted digest s early (.continuation result envelope) = some e) :
    e.continuation = .glare ∧ e.ingressDigest = some (digest envelope) := by
  have hall := (Option.filter_eq_some_iff.mp h).2
  simp only [Bool.and_eq_true,decide_eq_true_eq] at hall
  exact hall.1

/-- One event keeps what is promised, and if it reaches the hub, no relay stays past its
deadline. -/
theorem Kept.handle (hinj : Function.Injective digest) (h : Kept digest none s) (hf : Fresh a s) :
    Kept digest none (handle digest a event s) ∧
      (opensHub digest s a event = true → Timely s.now (handle digest a event s)) := by
  cases event with
  | bind actor => exact ⟨h.bindActor actor,fun hno => by cases hno⟩
  | frame frame =>
    exact withHub_works h hf fun _ _ hft => works_handleClientFrame frame hft.relays
  | ingest envelope =>
    simp only [CallRelay.handle,opensHub]
    split
    · rename_i hno
      refine ⟨h.bindActor _,fun hyes => absurd ?_ hno⟩
      unfold CallRelay.bindActor
      cases hactor : s.actor with
      | none => rfl
      | some actor =>
        rw [hactor,Option.all_some,decide_eq_true_eq] at hyes
        simp [hactor,hyes]
    · rename_i hactor
      have hwork : ∀ actor t, Fresh a t → Works digest a t (handleInboundSignal a
          ⟨some envelope,some (digest envelope)⟩ actor envelope t) :=
        fun _ _ hft => works_handleInboundSignal rfl hft.relays
      have hdone := withHub_works (h.bindActor envelope.to_) (hf.bindActor envelope.to_) hwork
      have hnow : (CallRelay.bindActor envelope.to_ s).now = s.now := by
        unfold CallRelay.bindActor
        split <;> rfl
      rw [hnow] at hdone
      exact ⟨hdone.1,fun _ => hdone.2 (by rw [not_not.mp hactor]; rfl)⟩
  | relayResult result =>
    simp only [CallRelay.handle,opensHub]
    cases hadmitted : admitted digest s a.early (.relayResult result) with
    | none => exact ⟨h,fun hno => by cases hno⟩
    | some e =>
      have hne := admitted_relayResult hadmitted
      have hdone : Kept digest none (completeRelay a e result.outcome none s) ∧ _ :=
        completeRelay_kept h hf (mem_of_admitted hadmitted) (fun hg => absurd hg hne)
          (fun _ hno => by cases hno)
      exact ⟨hdone.1,fun hopen => hdone.2 hopen⟩
  | continuation result envelope =>
    simp only [CallRelay.handle,opensHub]
    cases hadmitted : admitted digest s a.early (.continuation result envelope) with
    | none => exact ⟨h,fun hno => by cases hno⟩
    | some e =>
      have hin := mem_of_admitted hadmitted
      obtain ⟨hglare,hdigest⟩ := admitted_continuation hadmitted
      -- The digest of the ingress is the digest of the envelope, so they are one envelope.
      have horigin : ∃ x, some envelope = some x ∧ (e.effectId,x) ∈ s.origins := by
        obtain ⟨x,hx,hxd⟩ := h.origin e hin hglare
        have heq := hinj (Option.some.inj (hdigest.symm.trans hxd))
        exact ⟨x,congrArg some heq,hx⟩
      have hdone : Kept digest none (completeRelay a e result.outcome (some envelope) s) ∧ _ :=
        completeRelay_kept h hf hin (fun _ => horigin) fun x hx => Option.some.inj hx ▸ hdigest
      exact ⟨hdone.1,fun hopen => hdone.2 hopen⟩
  | alarm => exact withHub_works h hf fun _ t _ => .inl (sameJournal_tick t)

theorem step_machine {l : Event × Answer} (h : (machine digest).step l s = some s') :
    possible l.2 s = true ∧ handle digest l.2 l.1 (arrive l.2 s) = s' := by
  simp only [machine,Option.ite_none_right_eq_some,Option.some.injEq] at h
  exact h

theorem kept_of_reaches {now : Int} (hinj : Function.Injective digest)
    (h : (machine digest).Reaches (empty now) s) : Kept digest none s := by
  refine h.invariant (kept_empty now) fun t l t' hk hstep _ => ?_
  obtain ⟨hp,rfl⟩ := step_machine hstep
  exact (hk.arrive.handle hinj (.arrive hk hp)).1

/-- After any events the results are applied as promised, and an event that reaches the hub leaves
no relay that is past its deadline. -/
theorem relay_results_exact (hinj : Function.Injective digest) {now : Int}
    (h : (machine digest).Reaches (empty now) s) :
    Exact s ∧ ∀ (event : Event) (a : Answer) (s' : State δ),
      (machine digest).step (event,a) s = some s' → opensHub digest s a event = true →
        ∀ e ∈ s'.relays, a.now < e.deadline := by
  have hk := kept_of_reaches hinj h
  refine ⟨hk.exact,fun event a s' hstep hopen => ?_⟩
  obtain ⟨hp,rfl⟩ := step_machine hstep
  exact ((hk.arrive.handle hinj (.arrive hk hp)).2 hopen).2

def offered : List (Event × Answer) :=
  [(.bind "alice",⟨"e0","g0",true,true,true,0,0⟩),
    (.frame (.invite "call" "bob" ⟨true,false⟩),⟨"e1","g1",true,true,true,1,1⟩),
    (.frame (.offer "call" "sdp"),⟨"e2","g2",true,true,true,2,2⟩)]

def atOffer : State RtcSignalEnvelope where
  actor := some "alice"
  calls := [⟨"call","bob",.outgoing,.ringing,1,none,"g1"⟩]
  relays := [⟨"e2","call","g1",10002,.offer,.none,none⟩]
  now := 2
  used := ["e2","g2","e1","g1","e0","g0"]
  origins := []
  applied := []

theorem reaches_offered : (machine id).Reaches (empty 0) atOffer := by
  have hrun : (machine id).run offered (empty 0) = some atOffer := by decide +kernel
  exact .of_run hrun

/-- The alarm finds the relay past its deadline, and tells the hub that it failed. -/
theorem relay_results_exact_alarm :
    ∃ s' : State RtcSignalEnvelope,
      (machine id).step (.alarm,⟨"e3","g3",true,true,true,20000,20000⟩) atOffer = some s' ∧
        s'.applied.length = 1 ∧ Exact atOffer ∧ ∀ e ∈ s'.relays, 20000 < e.deadline := by
  have hexact := relay_results_exact Function.injective_id reaches_offered
  have hstep : ((machine id).step (.alarm,⟨"e3","g3",true,true,true,20000,20000⟩)
      atOffer).any (·.applied.length = 1) = true := by decide +kernel
  obtain ⟨s',hs',happlied⟩ := (Option.any_eq_true _ _).mp hstep
  exact ⟨s',hs',of_decide_eq_true happlied,hexact.1,hexact.2 _ _ s' hs' (by decide)⟩

/-- A result whose record is gone is refused before the hub is woken, and the relay that is past
its deadline stays. -/
theorem late_relay_stays :
    ¬∀ (s : State RtcSignalEnvelope) (event : Event) (a : Answer) (s' : State RtcSignalEnvelope),
      (machine id).Reaches (empty 0) s → (machine id).step (event,a) s = some s' →
        ∀ e ∈ s'.relays, a.now < e.deadline := by
  intro hclaim
  have hstep : (machine id).step (.relayResult ⟨"e0","call","g1",10002,.failed⟩,
      ⟨"e3","g3",true,true,true,20000,20000⟩) atOffer =
        some { atOffer with now := 20000, used := ["e3","g3","e2","g2","e1","g1","e0","g0"] } := by
    decide +kernel
  have hlate := hclaim _ _ _ _ reaches_offered hstep _ List.mem_cons_self
  revert hlate
  decide

end runs

end Yurucommu.CallRelay
