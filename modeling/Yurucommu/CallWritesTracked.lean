import Yurucommu.CallWrites
import Yurucommu.MachineTrace

/-!
What holds of the tracked writes in every run of overlapping events.
-/

set_option autoImplicit false

namespace Yurucommu.CallWrites

variable {τ : Type}

section steps

inductive Step (s : State τ) : Act τ → State τ → Prop
  | startEvent : Step s .startEvent s.startEvent
  | ensureHub {event : Nat} (runs : s.runs event = true) :
      Step s (.ensureHub event) (s.ensureHub event)
  | loadHub {made : Bool} {waiting : List Nat} (loading : s.loadingHub = some waiting) :
      Step s (.loadHub made) (s.loadHub made waiting)
  | trackWrite {event : Nat} {work : τ} (runs : s.runs event = true)
      (holds : (s.events[event]?).any (·.hub.isSome) = true) :
      Step s (.trackWrite event work) (s.trackWrite work)
  | begin {write : Nat} {w : Write τ} (found : s.writes[write]? = some w)
      (pending : w.status = .pending) (after : w.after.all s.isSettled = true) :
      Step s (.begin write) (s.begin write w.work)
  | settle {write : Nat} {w : Write τ} {failed : Bool} (found : s.writes[write]? = some w)
      (running : w.status = .running) : Step s (.settle write failed) (s.settle write failed)
  | flushWrites {event : Nat} (runs : s.runs event = true) :
      Step s (.flushWrites event) (s.flushWrites event)
  | finishEvent {event : Nat} {pending : List Nat}
      (flushing : s.phase event = some (.flushing pending))
      (settled : pending.all s.isSettled = true) :
      Step s (.finishEvent event) (s.finishEvent event pending)

theorem step_cases {l : Act τ} {s t : State τ} (h : machine.step l s = some t) : Step s l t := by
  cases l with
  | startEvent =>
    simp only [machine,Option.some.injEq] at h
    exact h ▸ .startEvent
  | ensureHub event =>
    simp only [machine,Option.ite_none_right_eq_some,Option.some.injEq] at h
    exact h.2 ▸ .ensureHub h.1
  | loadHub made =>
    simp only [machine,Option.map_eq_some_iff] at h
    obtain ⟨waiting,hloading,rfl⟩ := h
    exact .loadHub hloading
  | trackWrite event work =>
    simp only [machine,Option.ite_none_right_eq_some,Option.some.injEq] at h
    exact h.2 ▸ .trackWrite h.1.1 h.1.2
  | begin write =>
    simp only [machine] at h
    split at h
    next w hw =>
      simp only [Option.ite_none_right_eq_some,Option.some.injEq] at h
      exact h.2 ▸ .begin hw h.1.1 h.1.2
    next => contradiction
  | settle write failed =>
    simp only [machine,Option.ite_none_right_eq_some,Option.some.injEq] at h
    obtain ⟨w,hw,hrun⟩ := (Option.any_eq_true _ _).1 h.1
    exact h.2 ▸ .settle hw (by simpa using hrun)
  | flushWrites event =>
    simp only [machine,Option.ite_none_right_eq_some,Option.some.injEq] at h
    exact h.2 ▸ .flushWrites h.1
  | finishEvent event =>
    simp only [machine] at h
    split at h
    next pending hphase =>
      simp only [Option.ite_none_right_eq_some,Option.some.injEq] at h
      exact h.2 ▸ .finishEvent hphase h.1
    next => contradiction

theorem discardHub_eq (s : State τ) : s.discardHub.writes = s.writes ∧
    s.discardHub.writeTail = s.writeTail ∧ s.discardHub.nextWrite = s.nextWrite ∧
    s.discardHub.executed = s.executed ∧ s.discardHub.events = s.events ∧
    s.discardHub.activeEvents = s.activeEvents ∧
    s.discardHub.pendingWrites = s.pendingWrites ∧ s.discardHub.loadingHub = s.loadingHub := by
  unfold State.discardHub
  split <;> exact ⟨rfl,rfl,rfl,rfl,rfl,rfl,rfl,rfl⟩

theorem step_writes {l : Act τ} {s t : State τ} (h : machine.step l s = some t) :
    t.writes = s.writes ∧ t.writeTail = s.writeTail ∧ t.nextWrite = s.nextWrite ∧
        t.executed = s.executed ∨
      (∃ work, t = s.trackWrite work) ∨
      (∃ write w, s.writes[write]? = some w ∧ w.status = .pending ∧
        w.after.all s.isSettled = true ∧ t = s.begin write w.work) ∨
      ∃ write w failed, s.writes[write]? = some w ∧ w.status = .running ∧
        t = s.settle write failed := by
  cases step_cases h with
  | startEvent => exact .inl ⟨rfl,rfl,rfl,rfl⟩
  | ensureHub =>
    rw [State.ensureHub]
    cases s.hub <;> exact .inl ⟨rfl,rfl,rfl,rfl⟩
  | loadHub => exact .inl ⟨rfl,rfl,rfl,rfl⟩
  | trackWrite => exact .inr (.inl ⟨_,rfl⟩)
  | begin found pending after => exact .inr (.inr (.inl ⟨_,_,found,pending,after,rfl⟩))
  | settle found running => exact .inr (.inr (.inr ⟨_,_,_,found,running,rfl⟩))
  | flushWrites => exact .inl ⟨rfl,rfl,rfl,rfl⟩
  | @finishEvent event pending =>
    obtain ⟨hw,ht,hn,he,-⟩ := discardHub_eq (s.leave event (pending.any s.hasFailed)).prune
    exact .inl ⟨hw,ht,hn,he⟩

end steps

section chain

def before : Nat → Option Nat
  | 0 => none
  | n + 1 => some n

structure Chained (s : State τ) : Prop where
  next : s.nextWrite = s.writes.length
  tail : s.writeTail = before s.writes.length
  after : ∀ i w, s.writes[i]? = some w → w.after = before i

def Begun (s : State τ) (k : Nat) : Prop :=
  s.executed = (s.writes.map Write.work).take k ∧ k ≤ s.writes.length ∧
    ∀ i w, s.writes[i]? = some w →
      (w.status = .pending ↔ k ≤ i) ∧ (i + 1 < k → w.status.isSettled = true)

theorem Chained.step {l : Act τ} {s t : State τ} (hs : Chained s)
    (h : machine.step l s = some t) : Chained t := by
  have hmodify : ∀ (n : Nat) (f : Write τ → Write τ), (∀ w, (f w).after = w.after) →
      ∀ i w, (s.writes.modify n f)[i]? = some w → w.after = before i := by
    intro n f hf i w hw
    rw [List.getElem?_modify] at hw
    obtain ⟨v,hv,rfl⟩ := Option.map_eq_some_iff.1 hw
    split
    · rw [hf,hs.after i v hv]
    · exact hs.after i v hv
  obtain ⟨hw,ht,hn,_⟩ | ⟨work,rfl⟩ | ⟨write,w,hw,-,-,rfl⟩ |
    ⟨write,w,failed,hw,-,rfl⟩ := step_writes h
  · exact ⟨by rw [hn,hw,hs.next],by rw [ht,hw,hs.tail],by rw [hw]; exact hs.after⟩
  · refine ⟨by simp [State.trackWrite,hs.next],by simp [State.trackWrite,before],?_⟩
    intro i v hv
    simp only [State.trackWrite,List.getElem?_append,List.getElem?_singleton] at hv
    split at hv
    · exact hs.after i v hv
    next hle =>
      rw [Option.ite_none_right_eq_some] at hv
      obtain ⟨hi,hv⟩ := hv
      have hi : i = s.writes.length := by omega
      rw [← Option.some.inj hv,hi,hs.tail]
  · exact ⟨by simp [State.begin,hs.next],by simp [State.begin,hs.tail],hmodify _ _ fun _ => rfl⟩
  · exact ⟨by simp [State.settle,hs.next],by simp [State.settle,hs.tail],hmodify _ _ fun _ => rfl⟩

theorem map_work_modify (writes : List (Write τ)) (n : Nat) (status : Status) :
    (writes.modify n fun w => { w with status := status }).map Write.work =
      writes.map Write.work := by
  apply List.ext_getElem?
  intro i
  simp only [List.getElem?_map,List.getElem?_modify]
  cases writes[i]? with
  | none => rfl
  | some w =>
    simp only [Option.map_eq_map,Option.map_some]
    split <;> rfl

theorem Begun.step {l : Act τ} {s t : State τ} {k : Nat} (hk : Begun s k) (hs : Chained s)
    (h : machine.step l s = some t) : Begun t k ∨ Begun t (k + 1) := by
  obtain ⟨hexecuted,hle,hstatus⟩ := hk
  obtain ⟨hw,-,-,he⟩ | ⟨work,rfl⟩ | ⟨write,w,hw,hpending,hafter,rfl⟩ |
    ⟨write,w,failed,hw,hrunning,rfl⟩ := step_writes h
  · left
    rw [Begun,hw,he]
    exact ⟨hexecuted,hle,hstatus⟩
  · left
    have htake : (s.writes.map Write.work ++ [work]).take k = (s.writes.map Write.work).take k :=
      List.take_append_of_le_length (by simpa using hle)
    refine ⟨by simp [State.trackWrite,hexecuted,htake],
      by simp only [State.trackWrite,List.length_append]; omega,?_⟩
    intro i v hv
    simp only [State.trackWrite,List.getElem?_append,List.getElem?_singleton] at hv
    split at hv
    · exact hstatus i v hv
    · rw [Option.ite_none_right_eq_some] at hv
      rw [← Option.some.inj hv.2]
      exact ⟨⟨fun _ => by omega,fun _ => rfl⟩,by omega⟩
  · right
    have hlt := (List.getElem?_eq_some_iff.1 hw).1
    have hkw : k ≤ write := (hstatus write w hw).1.1 hpending
    have hprev : ∀ n, write = n + 1 → ∃ v, s.writes[n]? = some v ∧ v.status.isSettled := by
      intro n hn
      have hbefore := hs.after write w hw
      rw [hn,before] at hbefore
      rw [hbefore] at hafter
      exact (Option.any_eq_true _ _).1 hafter
    have hwrite : write = k := by
      by_contra hne
      obtain ⟨n,hn⟩ : ∃ n, write = n + 1 := ⟨write - 1,by omega⟩
      obtain ⟨v,hv,hsettled⟩ := hprev n hn
      have hpending : v.status = .pending := (hstatus n v hv).1.2 (by omega)
      simp [hpending,Status.isSettled] at hsettled
    subst hwrite
    refine ⟨?_,by simp only [State.begin,List.length_modify]; omega,?_⟩
    · simp only [State.begin,map_work_modify,hexecuted,List.take_add_one,List.getElem?_map,hw]
      rfl
    · intro i v hv
      simp only [State.begin,List.getElem?_modify] at hv
      obtain ⟨u,hu,rfl⟩ := Option.map_eq_some_iff.1 hv
      obtain ⟨hpend,hsett⟩ := hstatus i u hu
      split
      next heq =>
        subst heq
        exact ⟨by simp,by omega⟩
      next hne =>
        refine ⟨hpend.trans (by omega),fun hlt => ?_⟩
        by_cases hi : i + 1 = write
        · obtain ⟨x,hx,hsettled⟩ := hprev i hi.symm
          rw [hu] at hx
          rwa [Option.some.inj hx]
        · exact hsett (by omega)
  · left
    refine ⟨by simp [State.settle,map_work_modify,hexecuted],by simpa [State.settle] using hle,?_⟩
    intro i v hv
    simp only [State.settle,List.getElem?_modify] at hv
    obtain ⟨u,hu,rfl⟩ := Option.map_eq_some_iff.1 hv
    obtain ⟨hpend,hsett⟩ := hstatus i u hu
    split
    next heq =>
      subst heq
      obtain rfl : u = w := Option.some.inj (hu.symm.trans hw)
      have hnot : ¬ k ≤ write := by
        intro hle
        rw [hpend.2 hle] at hrunning
        contradiction
      exact ⟨by simp [hnot],fun _ => rfl⟩
    next => exact ⟨hpend,hsett⟩

end chain

section windows

theorem foldl_min_le (f : Nat → Nat) : ∀ (l : List Nat) (n : Nat),
    l.foldl (fun m x => min m (f x)) n ≤ n ∧
      ∀ x ∈ l, l.foldl (fun m x => min m (f x)) n ≤ f x
  | [], n => by simp
  | y :: l, n => by
    obtain ⟨h₁,h₂⟩ := foldl_min_le f l (min n (f y))
    refine ⟨h₁.trans (Nat.min_le_left _ _),fun x hx => ?_⟩
    rcases List.mem_cons.1 hx with rfl | hx
    · exact h₁.trans (Nat.min_le_right _ _)
    · exact h₂ x hx

theorem le_foldl_min (f : Nat → Nat) {k : Nat} : ∀ (l : List Nat) (n : Nat), k ≤ n →
    (∀ x ∈ l, k ≤ f x) → k ≤ l.foldl (fun m x => min m (f x)) n
  | [], n, hn, _ => hn
  | y :: l, n, hn, hl => le_foldl_min f l _ (Nat.le_min.2 ⟨hn,hl y (by simp)⟩)
      fun x hx => hl x (by simp [hx])

def entries (first next : Nat) : List (Nat × Nat) :=
  ((List.range next).filter (first ≤ ·)).map fun i => (i,i)

theorem entries_succ {first next : Nat} (h : first ≤ next) :
    entries first (next + 1) = entries first next ++ [(next,next)] := by
  simp [entries,List.range_succ,List.filter_append,h]

theorem filter_entries {first first' : Nat} (h : first ≤ first') (next : Nat) :
    (entries first next).filter (first' ≤ ·.1) = entries first' next := by
  rw [entries,entries,List.filter_map,List.filter_filter]
  congr 1
  apply List.filter_congr
  intro i _
  simp only [Function.comp_apply,Bool.and_eq_decide]
  exact decide_eq_decide.2 (by simp only [decide_eq_true_eq]; omega)

theorem entries_self (next : Nat) : entries next next = [] := by
  simp [entries]

structure Tracked (s : State τ) : Prop where
  active : ∀ event, event ∈ s.activeEvents ↔ ∃ p, s.phase event = some p ∧ p.isFinished = false
  first : ∀ (event : Nat) (e : Event), s.events[event]? = some e → e.firstWrite ≤ s.nextWrite
  pending : ∃ first, s.pendingWrites = entries first s.nextWrite ∧ first ≤ s.nextWrite ∧
    (∀ (event : Nat) (e : Event), event ∈ s.activeEvents → s.events[event]? = some e →
      first ≤ e.firstWrite) ∧ (s.activeEvents = [] → first = s.nextWrite)

theorem Tracked.of_map {s t : State τ} (hs : Tracked s) (f : Nat → Event → Event)
    (hf : ∀ i e, s.events[i]? = some e → (f i e).firstWrite = e.firstWrite ∧
      (f i e).phase.isFinished = e.phase.isFinished)
    (hevents : ∀ i : Nat, t.events[i]? = (s.events[i]?).map (f i))
    (hactive : t.activeEvents = s.activeEvents) (hpending : t.pendingWrites = s.pendingWrites)
    (hnext : t.nextWrite = s.nextWrite) : Tracked t := by
  have hfirst : ∀ (event : Nat) (e : Event), t.events[event]? = some e →
      ∃ e', s.events[event]? = some e' ∧ e.firstWrite = e'.firstWrite := by
    intro event e he
    rw [hevents,Option.map_eq_some_iff] at he
    obtain ⟨e',he',rfl⟩ := he
    exact ⟨e',he',(hf event e' he').1⟩
  refine ⟨fun event => ?_,fun event e he => ?_,?_⟩
  · rw [hactive,hs.active]
    simp only [State.phase,hevents]
    cases he : s.events[event]? with
    | none => simp
    | some e => simp [(hf event e he).2]
  · obtain ⟨e',he',hsame⟩ := hfirst event e he
    rw [hsame,hnext]
    exact hs.first event e' he'
  · obtain ⟨first,hp,hle,hall,hnone⟩ := hs.pending
    refine ⟨first,by rw [hpending,hp,hnext],by rw [hnext]; exact hle,
      fun event e hmem he => ?_,?_⟩
    · obtain ⟨e',he',hsame⟩ := hfirst event e he
      rw [hsame]
      exact hall event e' (hactive ▸ hmem) he'
    · rw [hactive,hnext]
      exact hnone

theorem Tracked.startEvent {s : State τ} (hs : Tracked s) : Tracked s.startEvent := by
  obtain ⟨first,hp,hle,hall,-⟩ := hs.pending
  have hlook : ∀ (event : Nat) (e : Event), s.startEvent.events[event]? = some e ↔
      s.events[event]? = some e ∨ event = s.events.length ∧ e = ⟨s.nextWrite,none,.running⟩ := by
    intro event e
    simp only [State.startEvent,List.getElem?_append,List.getElem?_singleton]
    split
    next hlt => simp [Nat.ne_of_lt hlt]
    next hge =>
      have hnone : s.events[event]? = none := List.getElem?_eq_none (Nat.not_lt.1 hge)
      have hzero : event - s.events.length = 0 ↔ event = s.events.length := by omega
      simp [hnone,hzero,eq_comm]
  refine ⟨fun event => ?_,fun event e he => ?_,first,hp,hle,fun event e hmem he => ?_,
    fun hnone => ?_⟩
  · simp only [State.phase,Option.map_eq_some_iff,hlook]
    have hbefore := hs.active event
    simp only [State.phase,Option.map_eq_some_iff] at hbefore
    simp only [State.startEvent,List.mem_append,List.mem_singleton,hbefore]
    constructor
    · rintro (⟨p,⟨e,he,hp⟩,hrun⟩ | heq)
      · exact ⟨p,⟨e,.inl he,hp⟩,hrun⟩
      · exact ⟨.running,⟨_,.inr ⟨heq,rfl⟩,rfl⟩,rfl⟩
    · rintro ⟨p,⟨e,he | ⟨heq,-⟩,hp⟩,hrun⟩
      · exact .inl ⟨p,⟨e,he,hp⟩,hrun⟩
      · exact .inr heq
  · rcases (hlook event e).1 he with he | ⟨-,rfl⟩
    · exact hs.first event e he
    · exact le_rfl
  · rcases (hlook event e).1 he with he | ⟨-,rfl⟩
    · have hmem : event ∈ s.activeEvents := by
        rcases List.mem_append.1 hmem with hmem | hmem
        · exact hmem
        · rw [List.mem_singleton.1 hmem,List.getElem?_eq_none le_rfl] at he
          contradiction
      exact hall event e hmem he
    · exact hle
  · exact absurd hnone (by simp [State.startEvent])

theorem Tracked.trackWrite {s : State τ} (hs : Tracked s) (hc : Chained s) {event : Nat}
    (hmem : event ∈ s.activeEvents) (work : τ) : Tracked (s.trackWrite work) := by
  obtain ⟨first,hp,hle,hall,-⟩ := hs.pending
  refine ⟨hs.active,fun event e he => (hs.first event e he).trans (Nat.le_succ _),
    first,?_,hle.trans (Nat.le_succ _),hall,fun hnone => ?_⟩
  · simp only [State.trackWrite,hp,entries_succ hle,← hc.next]
  · rw [show s.activeEvents = [] from hnone] at hmem
    simp at hmem

theorem firstWriteOf_eq {s : State τ} {event : Nat} {e : Event}
    (h : s.events[event]? = some e) : s.firstWriteOf event = e.firstWrite := by
  simp [State.firstWriteOf,h]

theorem Tracked.finishEvent {s : State τ} (hs : Tracked s) (event : Nat) (threw : Bool) :
    Tracked (s.leave event threw).prune.discardHub := by
  obtain ⟨first,hp,hle,hall,-⟩ := hs.pending
  obtain ⟨-,-,hn,-,he,ha,hpend,-⟩ := discardHub_eq (s.leave event threw).prune
  have hlook : ∀ (i : Nat) (e : Event), (s.leave event threw).events[i]? = some e →
      ∃ e', s.events[i]? = some e' ∧ e.firstWrite = e'.firstWrite := by
    intro i e hi
    simp only [State.leave,List.getElem?_modify] at hi
    obtain ⟨e',he',rfl⟩ := Option.map_eq_some_iff.1 hi
    exact ⟨e',he',by split <;> rfl⟩
  have hmem : ∀ i, i ∈ (s.leave event threw).activeEvents ↔ i ∈ s.activeEvents ∧ i ≠ event := by
    intro i
    simp [State.leave]
  have hneeded : first ≤ (s.leave event threw).firstNeeded := by
    refine le_foldl_min _ _ _ hle fun i hi => ?_
    cases hi' : (s.leave event threw).events[i]? with
    | none =>
      rw [State.firstWriteOf,hi']
      exact hle
    | some e =>
      obtain ⟨e',he',hsame⟩ := hlook i e hi'
      rw [firstWriteOf_eq hi',hsame]
      exact hall i e' ((hmem i).1 hi).1 he'
  obtain ⟨hnext,hwindow⟩ := foldl_min_le (s.leave event threw).firstWriteOf
    (s.leave event threw).activeEvents (s.leave event threw).nextWrite
  refine ⟨fun i => ?_,fun i e hi => ?_,(s.leave event threw).firstNeeded,?_,?_,
    fun i e hi hlooked => ?_,fun hnone => ?_⟩
  · rw [ha,State.phase,he]
    refine (hmem i).trans ?_
    rw [hs.active]
    simp only [State.phase,State.prune,State.leave,List.getElem?_modify]
    cases s.events[i]? with
    | none => simp
    | some e =>
      by_cases heq : event = i
      · simp [heq,Phase.isFinished]
      · simp [heq,Ne.symm heq]
  · rw [he] at hi
    obtain ⟨e',he',hsame⟩ := hlook i e hi
    rw [hn,hsame]
    exact hs.first i e' he'
  · rw [hpend,hn]
    have hold : (s.leave event threw).pendingWrites = entries first s.nextWrite := hp
    exact (congrArg _ hold).trans (filter_entries hneeded _)
  · rw [hn]
    exact hnext
  · rw [he] at hlooked
    rw [ha] at hi
    rw [← firstWriteOf_eq hlooked]
    exact hwindow i hi
  · rw [ha] at hnone
    have hnil : (s.leave event threw).activeEvents = [] := hnone
    rw [hn,State.firstNeeded,hnil]
    rfl

theorem runs_iff {s : State τ} {event : Nat} : s.runs event = true ↔
    s.phase event = some .running ∧ ∀ waiting, s.loadingHub = some waiting → event ∉ waiting := by
  cases h : s.loadingHub <;> simp [State.runs,h]

theorem Tracked.step {l : Act τ} {s t : State τ} (hs : Tracked s) (hc : Chained s)
    (h : machine.step l s = some t) : Tracked t := by
  cases step_cases h with
  | startEvent => exact hs.startEvent
  | @ensureHub event runs =>
    rw [State.ensureHub]
    cases s.hub with
    | none => exact hs.of_map (fun _ e => e) (fun _ _ _ => ⟨rfl,rfl⟩) (by simp) rfl rfl rfl
    | some hub =>
      refine hs.of_map (fun i e => if event = i then { e with hub := some hub } else e) ?_ ?_
        rfl rfl rfl
      · intro i e _
        split <;> exact ⟨rfl,rfl⟩
      · intro i
        simp [List.getElem?_modify]
  | @loadHub made waiting loading =>
    refine hs.of_map (fun i e => if i ∈ waiting then
      { e with hub := if made then some s.hubs else none } else e) ?_ ?_ rfl rfl rfl
    · intro i e _
      split <;> exact ⟨rfl,rfl⟩
    · intro i
      simp [State.loadHub]
  | @trackWrite event work runs holds =>
    exact hs.trackWrite hc ((hs.active event).2 ⟨_,(runs_iff.1 runs).1,rfl⟩) work
  | begin =>
    exact hs.of_map (fun _ e => e) (fun _ _ _ => ⟨rfl,rfl⟩) (by simp [State.begin]) rfl rfl rfl
  | settle =>
    exact hs.of_map (fun _ e => e) (fun _ _ _ => ⟨rfl,rfl⟩) (by simp [State.settle]) rfl rfl rfl
  | @flushWrites event runs =>
    refine hs.of_map (fun i e => if event = i then { e with phase := .flushing (s.flushed e) }
      else e) ?_ ?_ rfl rfl rfl
    · intro i e he
      split
      next heq =>
        subst heq
        have hphase := (runs_iff.1 runs).1
        rw [State.phase,he,Option.map_some,Option.some.injEq] at hphase
        rw [hphase]
        exact ⟨rfl,rfl⟩
      next => exact ⟨rfl,rfl⟩
    · intro i
      simp [State.flushWrites,List.getElem?_modify]
  | @finishEvent event pending flushing settled => exact hs.finishEvent event _

end windows

section progress

/-- What is left of a state in a later one: settled writes, and where the events were. -/
structure Follows (s t : State τ) : Prop where
  settled : ∀ (i : Nat) (w : Write τ), s.writes[i]? = some w → w.status.isSettled = true →
    t.writes[i]? = some w
  first : ∀ (i : Nat) (e : Event), s.events[i]? = some e →
    ∃ e', t.events[i]? = some e' ∧ e'.firstWrite = e.firstWrite
  flushing : ∀ (i : Nat) (pending : List Nat), s.phase i = some (.flushing pending) →
    t.phase i = some (.flushing pending) ∨ ∃ threw, t.phase i = some (.finished threw)
  finished : ∀ (i : Nat) (threw : Bool), s.phase i = some (.finished threw) →
    t.phase i = some (.finished threw)

theorem Follows.refl (s : State τ) : Follows s s :=
  ⟨fun _ _ h _ => h,fun _ e h => ⟨e,h,rfl⟩,fun _ _ h => .inl h,fun _ _ h => h⟩

theorem Follows.trans {s t u : State τ} (h : Follows s t) (k : Follows t u) : Follows s u := by
  refine ⟨fun i w hw hset => k.settled i w (h.settled i w hw hset) hset,fun i e he => ?_,
    fun i pending hp => ?_,fun i threw hf => k.finished i threw (h.finished i threw hf)⟩
  · obtain ⟨e',he',hfirst⟩ := h.first i e he
    obtain ⟨e'',he'',hfirst'⟩ := k.first i e' he'
    exact ⟨e'',he'',hfirst'.trans hfirst⟩
  · rcases h.flushing i pending hp with hp | ⟨threw,hf⟩
    · exact k.flushing i pending hp
    · exact .inr ⟨threw,k.finished i threw hf⟩

theorem writes_follow {l : Act τ} {s t : State τ} (h : machine.step l s = some t) (i : Nat)
    (w : Write τ) (hw : s.writes[i]? = some w) (hset : w.status.isSettled = true) :
    t.writes[i]? = some w := by
  have hmodify : ∀ (write : Nat) (v : Write τ) (f : Write τ → Write τ),
      s.writes[write]? = some v → v.status.isSettled = false →
        (s.writes.modify write f)[i]? = some w := by
    intro write v f hv hnot
    rw [List.getElem?_modify,hw]
    by_cases heq : write = i
    · subst heq
      obtain rfl := Option.some.inj (hw.symm.trans hv)
      rw [hset] at hnot
      contradiction
    · simp [heq]
  obtain ⟨hsame,-⟩ | ⟨work,rfl⟩ | ⟨write,v,hv,hpending,-,rfl⟩ | ⟨write,v,failed,hv,hrunning,rfl⟩ :=
    step_writes h
  · rw [hsame,hw]
  · rw [State.trackWrite,List.getElem?_append_left (List.getElem?_eq_some_iff.1 hw).1,hw]
  · exact hmodify write v _ hv (by rw [hpending]; rfl)
  · exact hmodify write v _ hv (by rw [hrunning]; rfl)

/-- Where the events are changed one by one. -/
theorem Follows.of_map {s t : State τ} {l : Act τ} (h : machine.step l s = some t)
    (f : Nat → Event → Event) (hevents : ∀ i : Nat, t.events[i]? = (s.events[i]?).map (f i))
    (hf : ∀ i e, s.events[i]? = some e → (f i e).firstWrite = e.firstWrite ∧
      ((f i e).phase = e.phase ∨ e.phase = .running ∨
        ∃ pending threw, e.phase = .flushing pending ∧ (f i e).phase = .finished threw)) :
    Follows s t := by
  have hphase : ∀ i p, s.phase i = some p → p ≠ .running → t.phase i = some p ∨
      ∃ pending threw, p = .flushing pending ∧ t.phase i = some (.finished threw) := by
    intro i p hp hne
    obtain ⟨e,he,rfl⟩ := Option.map_eq_some_iff.1 hp
    have ht : t.phase i = some (f i e).phase := by rw [State.phase,hevents,he]; rfl
    rcases (hf i e he).2 with hsame | hrun | ⟨pending,threw,hflush,hfin⟩
    · exact .inl (by rw [ht,hsame])
    · exact absurd hrun hne
    · exact .inr ⟨pending,threw,hflush,by rw [ht,hfin]⟩
  refine ⟨writes_follow h,fun i e he => ⟨f i e,by rw [hevents,he]; rfl,(hf i e he).1⟩,
    fun i pending hp => ?_,fun i threw hfin => ?_⟩
  · rcases hphase i _ hp (by simp) with hp | ⟨_,threw,-,hfin⟩
    · exact .inl hp
    · exact .inr ⟨threw,hfin⟩
  · rcases hphase i _ hfin (by simp) with hfin | ⟨_,_,heq,-⟩
    · exact hfin
    · contradiction

theorem follows_step {l : Act τ} {s t : State τ} (h : machine.step l s = some t) :
    Follows s t := by
  have hsame : t.events = s.events → Follows s t := fun he =>
    .of_map h (fun _ e => e) (by simp [he]) fun _ _ _ => ⟨rfl,.inl rfl⟩
  cases step_cases h with
  | startEvent =>
    have hlook : ∀ (i : Nat) (e : Event), s.events[i]? = some e →
        s.startEvent.events[i]? = some e := fun i e he =>
      (List.getElem?_append_left (List.getElem?_eq_some_iff.1 he).1).trans he
    have hphase : ∀ i p, s.phase i = some p → s.startEvent.phase i = some p := by
      intro i p hp
      obtain ⟨e,he,rfl⟩ := Option.map_eq_some_iff.1 hp
      rw [State.phase,hlook i e he]
      rfl
    exact ⟨writes_follow h,fun i e he => ⟨e,hlook i e he,rfl⟩,
      fun i pending hp => .inl (hphase i _ hp),fun i threw hf => hphase i _ hf⟩
  | @ensureHub event runs =>
    refine .of_map h (fun i e => if event = i then { e with hub := s.hub.or e.hub } else e) ?_ ?_
    · intro i
      rw [State.ensureHub]
      cases s.hub with
      | none => simp
      | some hub => simp [List.getElem?_modify]
    · intro i e _
      split <;> exact ⟨rfl,.inl rfl⟩
  | @loadHub made waiting loading =>
    refine .of_map h (fun i e => if i ∈ waiting then
      { e with hub := if made then some s.hubs else none } else e) (by simp [State.loadHub]) ?_
    intro i e _
    split <;> exact ⟨rfl,.inl rfl⟩
  | trackWrite => exact hsame rfl
  | begin => exact hsame rfl
  | settle => exact hsame rfl
  | @flushWrites event runs =>
    refine .of_map h (fun i e => if event = i then { e with phase := .flushing (s.flushed e) }
      else e) (by simp [State.flushWrites,List.getElem?_modify]) ?_
    intro i e he
    by_cases heq : event = i
    · subst heq
      have hrun := (runs_iff.1 runs).1
      rw [State.phase,he] at hrun
      exact ⟨by simp,.inr (.inl (Option.some.inj hrun))⟩
    · simp [heq]
  | @finishEvent event pending flushing settled =>
    obtain ⟨-,-,-,-,hevents,-⟩ := discardHub_eq (s.leave event (pending.any s.hasFailed)).prune
    refine .of_map h (fun i e => if event = i then
      { e with phase := .finished (pending.any s.hasFailed) } else e) ?_ ?_
    · intro i
      rw [State.finishEvent,hevents]
      simp [State.prune,State.leave,List.getElem?_modify]
    · intro i e he
      by_cases heq : event = i
      · subst heq
        rw [State.phase,he] at flushing
        have hflushing := Option.some.inj flushing
        exact ⟨by simp,.inr (.inr ⟨pending,pending.any s.hasFailed,hflushing,by simp⟩)⟩
      · simp [heq]

theorem follows_run {acts : List (Act τ)} {s t : State τ} (h : machine.run acts s = some t) :
    Follows s t :=
  (Machine.Reaches.of_run h).related Follows.refl (fun _ _ _ => Follows.trans)
    fun _ _ _ hstep _ => follows_step hstep

end progress

section hub

structure Shared (s : State τ) : Prop where
  held : ∀ (event : Nat) (e : Event) (hub : Nat), s.events[event]? = some e →
    e.phase.isFinished = false → e.hub = some hub → s.hub = some hub
  loading : s.loadingHub ≠ none → s.hub = none
  refresh : s.refreshHub = true → ∃ write, s.hasFailed write = true

theorem Follows.hasFailed {s t : State τ} (h : Follows s t) {write : Nat}
    (hfailed : s.hasFailed write = true) : t.hasFailed write = true := by
  obtain ⟨w,hw,hstatus⟩ := (Option.any_eq_true _ _).1 hfailed
  have hstatus : w.status = .settled true := by simpa using hstatus
  rw [State.hasFailed,h.settled write w hw (by rw [hstatus]; rfl)]
  simp [hstatus]

theorem Shared.of_events {s t : State τ} (hs : Shared s) (hf : Follows s t)
    (hevents : ∀ (event : Nat) (e : Event) (hub : Nat), t.events[event]? = some e →
      e.phase.isFinished = false → e.hub = some hub → s.hub = some hub ∨
        ∃ e', s.events[event]? = some e' ∧ e'.phase.isFinished = false ∧ e'.hub = some hub)
    (hhub : t.hub = s.hub) (hloading : t.loadingHub ≠ none → s.hub = none)
    (hrefresh : t.refreshHub = s.refreshHub) : Shared t := by
  refine ⟨fun event e hub he hp hheld => ?_,fun hload => by rw [hhub]; exact hloading hload,
    fun hr => ?_⟩
  · rw [hhub]
    rcases hevents event e hub he hp hheld with h | ⟨e',he',hp',hheld'⟩
    · exact h
    · exact hs.held event e' hub he' hp' hheld'
  · obtain ⟨write,hfailed⟩ := hs.refresh (hrefresh ▸ hr)
    exact ⟨write,hf.hasFailed hfailed⟩

theorem Shared.step {l : Act τ} {s t : State τ} (hs : Shared s) (ht : Tracked t)
    (h : machine.step l s = some t) : Shared t := by
  have hf := follows_step h
  cases step_cases h with
  | startEvent =>
    refine hs.of_events hf (fun event e hub he hp hheld => .inr ?_) rfl hs.loading rfl
    simp only [State.startEvent,List.getElem?_append,List.getElem?_singleton] at he
    split at he
    · exact ⟨e,he,hp,hheld⟩
    · rw [Option.ite_none_right_eq_some] at he
      rw [← Option.some.inj he.2] at hheld
      contradiction
  | @ensureHub event runs =>
    cases hhub : s.hub with
    | none =>
      have heq : s.ensureHub event =
          { s with loadingHub := some (s.loadingHub.getD [] ++ [event]) } := by
        rw [State.ensureHub,hhub]
      rw [heq] at hf ⊢
      exact hs.of_events hf (fun event e hub he hp hheld => .inr ⟨e,he,hp,hheld⟩) rfl
        (fun _ => hhub) rfl
    | some hub =>
      have heq : s.ensureHub event =
          { s with events := s.events.modify event fun e => { e with hub := some hub } } := by
        rw [State.ensureHub,hhub]
      rw [heq] at hf ⊢
      refine hs.of_events hf (fun i e hub' he hp hheld => ?_) rfl hs.loading rfl
      simp only [List.getElem?_modify] at he
      obtain ⟨e',he',rfl⟩ := Option.map_eq_some_iff.1 he
      by_cases heq : event = i
      · simp only [heq,if_true] at hheld
        exact .inl (by rw [hhub,hheld])
      · simp only [heq,if_false] at hheld hp
        exact .inr ⟨e',he',hp,hheld⟩
  | @loadHub made waiting loading =>
    have hnone : s.hub = none := hs.loading (by simp [loading])
    refine ⟨fun i e hub he hp hheld => ?_,fun hload => absurd rfl hload,fun hr => ?_⟩
    · simp only [State.loadHub,List.getElem?_mapIdx] at he
      obtain ⟨e',he',rfl⟩ := Option.map_eq_some_iff.1 he
      by_cases hmem : i ∈ waiting
      · simp only [hmem,if_true] at hheld
        cases made with
        | true => simpa [State.loadHub] using hheld
        | false => simp at hheld
      · simp only [hmem,if_false] at hheld hp
        have := hs.held i e' hub he' hp hheld
        rw [hnone] at this
        contradiction
    · obtain ⟨write,hfailed⟩ := hs.refresh hr
      exact ⟨write,hf.hasFailed hfailed⟩
  | trackWrite =>
    exact hs.of_events hf (fun event e hub he hp hheld => .inr ⟨e,he,hp,hheld⟩) rfl hs.loading rfl
  | begin =>
    exact hs.of_events hf (fun event e hub he hp hheld => .inr ⟨e,he,hp,hheld⟩) rfl hs.loading rfl
  | @settle write w failed found running =>
    refine ⟨hs.held,hs.loading,fun hr => ?_⟩
    have hr : s.refreshHub = true ∨ failed = true := by simpa [State.settle] using hr
    rcases hr with hr | hr
    · obtain ⟨i,hfailed⟩ := hs.refresh hr
      exact ⟨i,hf.hasFailed hfailed⟩
    · refine ⟨write,?_⟩
      simp [State.hasFailed,State.settle,found,hr]
  | @flushWrites event runs =>
    refine hs.of_events hf (fun i e hub he hp hheld => .inr ?_) rfl hs.loading rfl
    simp only [State.flushWrites,List.getElem?_modify] at he
    obtain ⟨e',he',rfl⟩ := Option.map_eq_some_iff.1 he
    refine ⟨e',he',?_,?_⟩
    · by_cases heq : event = i
      · subst heq
        have hrun := (runs_iff.1 runs).1
        rw [State.phase,he',Option.map_some,Option.some.injEq] at hrun
        rw [hrun]
        rfl
      · simpa [heq] using hp
    · by_cases heq : event = i <;> simpa [heq] using hheld
  | @finishEvent event pending flushing settled =>
    rw [State.finishEvent] at hf ht ⊢
    generalize pending.any s.hasFailed = threw at hf ht ⊢
    rw [State.discardHub] at hf ht ⊢
    split at ht
    next hdiscard =>
      rw [if_pos hdiscard] at hf ⊢
      refine ⟨fun i e hub he hp hheld => ?_,fun _ => rfl,fun hr => by simp at hr⟩
      have hmem := (ht.active i).2 ⟨e.phase,by simp [State.phase,he],hp⟩
      rw [show _ = [] from hdiscard.1] at hmem
      simp at hmem
    next hkeep =>
      rw [if_neg hkeep] at hf ⊢
      refine hs.of_events hf (fun i e hub he hp hheld => .inr ?_) rfl hs.loading rfl
      simp only [State.prune,State.leave,List.getElem?_modify] at he
      obtain ⟨e',he',rfl⟩ := Option.map_eq_some_iff.1 he
      by_cases heq : event = i
      · simp [heq,Phase.isFinished] at hp
      · exact ⟨e',he',by simpa [heq] using hp,by simpa [heq] using hheld⟩

theorem Shared.discarded {l : Act τ} {s t : State τ} (hs : Shared s)
    (h : machine.step l s = some t) {hub : Nat} (hhub : s.hub = some hub)
    (hlost : t.hub ≠ some hub) :
    t.hub = none ∧ t.activeEvents = [] ∧ ∃ write, s.hasFailed write = true := by
  cases step_cases h with
  | startEvent => exact absurd hhub hlost
  | ensureHub =>
    rw [State.ensureHub,hhub] at hlost
    exact absurd rfl hlost
  | loadHub loading =>
    rw [hs.loading (by simp [loading])] at hhub
    contradiction
  | trackWrite => exact absurd hhub hlost
  | begin => exact absurd hhub hlost
  | settle => exact absurd hhub hlost
  | flushWrites => exact absurd hhub hlost
  | @finishEvent event pending =>
    rw [State.finishEvent,State.discardHub] at hlost ⊢
    split at hlost
    next hdiscard =>
      rw [if_pos hdiscard]
      exact ⟨rfl,hdiscard.1,hs.refresh hdiscard.2⟩
    next => exact absurd hhub hlost

end hub

section runs

theorem run_sound {acts : List (Act τ)} {s : State τ} (h : machine.run acts initial = some s) :
    Chained s ∧ Tracked s ∧ Shared s ∧ ∃ k, Begun s k := by
  refine Machine.run_invariant (P := fun s => Chained s ∧ Tracked s ∧ Shared s ∧ ∃ k, Begun s k)
    ?_ (fun s l t hs hstep => ?_) h
  · exact ⟨⟨rfl,rfl,by simp [initial]⟩,
      ⟨by simp [initial,State.phase],by simp [initial],
        0,rfl,le_rfl,by simp [initial],by simp [initial]⟩,
      ⟨by simp [initial],by simp [initial],by simp [initial]⟩,0,by simp [Begun,initial]⟩
  · obtain ⟨hc,ht,hsh,k,hk⟩ := hs
    have ht' := ht.step hc hstep
    refine ⟨hc.step hstep,ht',hsh.step ht' hstep,?_⟩
    rcases hk.step hc hstep with hk | hk
    · exact ⟨k,hk⟩
    · exact ⟨k + 1,hk⟩

/-- What the transitions asked the storage to do, in their order. -/
def issued (acts : List (Act τ)) : List τ :=
  acts.filterMap fun act =>
    match act with
    | .trackWrite _ work => some work
    | _ => none

theorem works_eq_issued {acts : List (Act τ)} {s : State τ}
    (h : machine.run acts initial = some s) : s.writes.map Write.work = issued acts := by
  refine Machine.run_history (P := fun acts s => s.writes.map Write.work = issued acts) rfl
    (fun acts l s t _ hs hstep => ?_) h
  rw [issued,List.filterMap_append]
  refine Eq.trans ?_ (congrArg (· ++ _) hs)
  cases step_cases hstep with
  | startEvent => simp [State.startEvent]
  | ensureHub =>
    rw [State.ensureHub]
    cases s.hub <;> simp
  | loadHub => simp [State.loadHub]
  | trackWrite => simp [State.trackWrite]
  | begin => simp [State.begin,map_work_modify]
  | settle => simp [State.settle,map_work_modify]
  | flushWrites => simp [State.flushWrites]
  | @finishEvent event pending =>
    obtain ⟨hw,-⟩ := discardHub_eq (s.leave event (pending.any s.hasFailed)).prune
    rw [State.finishEvent,hw]
    simp [State.prune,State.leave]

/-- An event from its start to its end: `s₁` is the state before its start, `s₂` the one in which it
calls `finishEvent`, and `s₃` the one before its end. -/
def Spans (event : Nat) (s₁ s₂ s₃ t : State τ) : Prop :=
  ∃ acts between after, machine.run acts initial = some s₁ ∧ event = s₁.events.length ∧
    machine.run (.startEvent :: between) s₁ = some s₂ ∧
    machine.run (.flushWrites event :: after) s₂ = some s₃ ∧
    machine.step (.finishEvent event) s₃ = some t

def Observes (event : Nat) (s t : State τ) (first next : Nat) : Prop :=
  (∀ write, first ≤ write → write < next → s.isSettled write = true) ∧
    ∃ threw, t.phase event = some (.finished threw) ∧
      (threw = true ↔ ∃ write, first ≤ write ∧ write < next ∧ s.hasFailed write = true)

theorem mem_flushed {s : State τ} (hs : Tracked s) {event : Nat} {e : Event}
    (hmem : event ∈ s.activeEvents) (he : s.events[event]? = some e) (write : Nat) :
    write ∈ s.flushed e ↔ e.firstWrite ≤ write ∧ write < s.nextWrite := by
  obtain ⟨first,hp,-,hall,-⟩ := hs.pending
  rw [State.flushed,hp,filter_entries (hall event e hmem he)]
  simp [entries,and_comm]

/-- All writes from its start to its call of `finishEvent` are awaited. -/
theorem spans_observes {event : Nat} {s₁ s₂ s₃ t : State τ} (h : Spans event s₁ s₂ s₃ t) :
    Observes event s₃ t s₁.nextWrite s₂.nextWrite := by
  obtain ⟨acts,between,after,hbefore,hevent,hbetween,hafter,hend⟩ := h
  have hrun : machine.run (acts ++ .startEvent :: between) initial = some s₂ := by
    rw [Machine.run_append,hbefore]
    exact hbetween
  obtain ⟨-,ht₂,-,-⟩ := run_sound hrun
  obtain ⟨u,hu,hbetween⟩ := Option.bind_eq_some_iff.1 hbetween
  obtain rfl : s₁.startEvent = u := Option.some.inj hu
  have hstart : s₁.startEvent.events[event]? = some ⟨s₁.nextWrite,none,.running⟩ := by
    simp [State.startEvent,hevent]
  obtain ⟨e,he,hfirst⟩ := (follows_run hbetween).first event _ hstart
  obtain ⟨v,hv,hafter⟩ := Option.bind_eq_some_iff.1 hafter
  cases step_cases hv with
  | flushWrites runs =>
    have hrunning := (runs_iff.1 runs).1
    have hflushing : (s₂.flushWrites event).phase event = some (.flushing (s₂.flushed e)) := by
      simp [State.phase,State.flushWrites,he]
    have hmem := mem_flushed ht₂ ((ht₂.active event).2 ⟨_,hrunning,rfl⟩) he
    rw [hfirst] at hmem
    cases step_cases hend with
    | @finishEvent _ pending flushing settled =>
      have hpending : pending = s₂.flushed e := by
        rcases (follows_run hafter).flushing event _ hflushing with h | ⟨threw,h⟩
        · rw [h] at flushing
          exact (Phase.flushing.inj (Option.some.inj flushing)).symm
        · rw [h] at flushing
          simp at flushing
      rw [List.all_eq_true] at settled
      refine ⟨fun write hlo hhi => settled write (hpending ▸ (hmem write).2 ⟨hlo,hhi⟩),
        pending.any s₃.hasFailed,?_,?_⟩
      · obtain ⟨-,-,-,-,hevents,-⟩ :=
          discardHub_eq (s₃.leave event (pending.any s₃.hasFailed)).prune
        obtain ⟨e₃,he₃,-⟩ := Option.map_eq_some_iff.1 flushing
        rw [State.phase,State.finishEvent,hevents]
        simp [State.prune,State.leave,he₃]
      · rw [List.any_eq_true]
        constructor
        · rintro ⟨write,hw,hfailed⟩
          obtain ⟨hlo,hhi⟩ := (hmem write).1 (hpending ▸ hw)
          exact ⟨write,hlo,hhi,hfailed⟩
        · rintro ⟨write,hlo,hhi,hfailed⟩
          exact ⟨write,hpending ▸ (hmem write).2 ⟨hlo,hhi⟩,hfailed⟩

structure KeepsWrites (τ : Type) : Prop where
  ordered : ∀ (acts : List (Act τ)) (s : State τ), machine.run acts initial = some s →
    s.executed <+: issued acts ∧ ∀ i, i + 1 < s.executed.length → s.isSettled i = true
  observed : ∀ (event : Nat) (s₁ s₂ s₃ t : State τ), Spans event s₁ s₂ s₃ t →
    Observes event s₃ t s₁.nextWrite s₂.nextWrite
  discarded : ∀ (acts : List (Act τ)) (l : Act τ) (s t : State τ) (hub : Nat),
    machine.run acts initial = some s → machine.step l s = some t → s.hub = some hub →
    t.hub ≠ some hub →
      t.hub = none ∧ t.activeEvents = [] ∧ ∃ write, s.hasFailed write = true
  quiescent : ∀ (acts : List (Act τ)) (s : State τ), machine.run acts initial = some s →
    s.activeEvents = [] → s.pendingWrites = []

theorem overlapping_events_keep_writes : KeepsWrites τ := by
  refine ⟨fun acts s h => ?_,fun event s₁ s₂ s₃ t => spans_observes,
    fun acts l s t hub h hstep => (run_sound h).2.2.1.discarded hstep,fun acts s h hidle => ?_⟩
  · obtain ⟨-,-,-,k,hexecuted,hle,hstatus⟩ := run_sound h
    have hissued := works_eq_issued h
    refine ⟨by rw [hexecuted,hissued]; exact List.take_prefix k _,fun i hi => ?_⟩
    have hi : i + 1 < k := by
      rw [hexecuted,List.length_take] at hi
      omega
    have hlt : i < s.writes.length := by omega
    rw [State.isSettled,List.getElem?_eq_getElem hlt]
    exact (hstatus i _ (List.getElem?_eq_getElem hlt)).2 hi
  · obtain ⟨-,ht,-,-⟩ := run_sound h
    obtain ⟨first,hp,-,-,hnone⟩ := ht.pending
    rw [hp,hnone hidle,entries_self]

section concrete

/-- The second event has the hub when the first calls `finishEvent`. -/
def firstFlushes : List (Act Unit) := [.startEvent,.startEvent,.ensureHub 1,.loadHub true]

/-- A write that is issued while an event awaits its own is not awaited by it. -/
theorem later_write_not_awaited : ¬ ∀ (event : Nat) (s₁ s₂ s₃ t : State Unit),
    Spans event s₁ s₂ s₃ t → Observes event s₃ t s₁.nextWrite s₃.nextWrite := by
  intro h
  have hspans := h 0 initial _ _ _ ⟨[],firstFlushes.tail,[.trackWrite 1 ()],rfl,rfl,
    Machine.some_getD (by decide) initial,Machine.some_getD (by decide) initial,
    Machine.some_getD (by decide) initial⟩
  exact absurd (hspans.1 0 (by decide) (by decide)) (by decide)

end concrete

end runs

end Yurucommu.CallWrites
