import Yurucommu.RealtimeStreamGaps

/-!
What every step keeps of the stream and its client, and when it keeps that nothing is lost.
-/

set_option autoImplicit false

namespace Yurucommu.RealtimeStream

variable {δ : Type}

section invariant

variable {s t : World δ} {client : Client δ} {c : Connection δ} {seq n : Nat}

def Client.mark (client : Client δ) : Nat := client.lastEventId.getD 0

/-- Up to here the client has nothing to miss: it was appended before the first `hello_ok` came in,
or before a resync was dispatched. -/
def Excused (seq : Nat) (client : Client δ) (i : Nat) : Prop :=
  i ≤ client.greeted.getD seq ∨ ∃ m, .resync m ∈ client.dispatched ∧ i ≤ m

theorem Excused.le {i j : Nat} (h : Excused seq client j) (hij : i ≤ j) :
    Excused seq client i := by
  rcases h with h | ⟨m,hm,h⟩
  · exact .inl (Nat.le_trans hij h)
  · exact .inr ⟨m,hm,Nat.le_trans hij h⟩

theorem Excused.receive {i : Nat} (h : Excused seq client i) (f : RealtimeServerFrame δ) :
    Excused seq (client.receive seq f) i := by
  cases f with
  | helloOk k =>
    refine h.imp ?_ id
    simp only [Client.receive]
    cases client.greeted with
    | none => exact id
    | some g => exact id
  | event e =>
    refine h.imp id ?_
    rintro ⟨m,hm,hi⟩
    exact ⟨m,List.mem_append_left _ hm,hi⟩
  | resync =>
    refine h.imp id ?_
    rintro ⟨m,hm,hi⟩
    exact ⟨m,List.mem_append_left _ hm,hi⟩

theorem Excused.succ {i : Nat} (h : Excused seq client i) : Excused (seq + 1) client i := by
  refine h.imp ?_ id
  cases client.greeted with
  | none => exact Nat.le_succ_of_le
  | some g => exact id

def Known (log : List (RealtimeEvent δ)) (seq : Nat) : RealtimeServerFrame δ → Prop
  | .event e => e ∈ log
  | .helloOk k => k ≤ seq
  | .resync => True

def IsEvent (f : RealtimeServerFrame δ) : Prop := ∃ e, f = .event e

/-- The client's own connection, when its hello has been answered: live events from before, then
the answer and what follows it. -/
structure Answered (seq : Nat) (client : Client δ) (c : Connection δ)
    (early rest : List (RealtimeServerFrame δ)) : Prop where
  opened : c.opened = true
  hello : c.hello = none
  frames : c.frames = early ++ rest
  events : ∀ f ∈ early, IsEvent f
  connected : client.currentStatus = .connected → early = []
  gapless : Gapless seq (Excused seq client) client.mark rest
  reaches : c.phase = .listed → seq ≤ ends client.mark rest

/-- The client's own connection before that: nothing but live events. -/
structure Waiting (client : Client δ) (c : Connection δ) : Prop where
  hello : c.opened = false ∧ c.hello = none ∨ c.opened = true ∧ ∃ asked, c.hello = some asked ∧
    (asked = none → client.greeted = none) ∧ asked.getD 0 ≤ client.mark
  frames : ∀ f ∈ c.frames, IsEvent f
  status : client.currentStatus ≠ .connected

def Line (seq : Nat) (client : Client δ) (c : Connection δ) : Prop :=
  (c.phase = .opening → c.opened = false) ∧
    (Waiting client c ∨ ∃ early rest, Answered seq client c early rest)

structure Kept (s : World δ) : Prop where
  stored : Stored s.log s.storage
  frames : ∀ n, ∀ f ∈ (s.connections n).frames, Known s.log s.storage.seq f
  dispatched : ∀ e, .event e ∈ s.client.dispatched → e ∈ s.log ∧ e.id ≤ s.client.mark
  mark_le : s.client.mark ≤ s.storage.seq
  greeted : s.client.lastEventId = none → s.client.greeted = none
  covered : ∀ e ∈ s.log, e.id ≤ s.client.mark →
    Excused s.storage.seq s.client e.id ∨ .event e ∈ s.client.dispatched
  line : ∀ n, s.client.socket = some n → Line s.storage.seq s.client (s.connections n)

theorem kept_start : Kept (start δ) where
  stored := ⟨rfl,fun e he => (by cases he),fun i e h => (by cases h)⟩
  frames n f hf := by cases hf
  dispatched e he := by cases he
  mark_le := Nat.le_refl _
  greeted _ := rfl
  covered e he := by cases he
  line n hn := by cases hn

theorem Kept.setConnection (h : Kept s) (hframes : ∀ f ∈ c.frames, Known s.log s.storage.seq f)
    (hline : s.client.socket = some n → Line s.storage.seq s.client c) : Kept (s.setConnection n c) where
  stored := h.stored
  frames m f hf := by
    by_cases hm : m = n
    · subst hm
      simp only [World.setConnection,Function.update_self] at hf
      exact hframes f hf
    · simp only [World.setConnection,Function.update_of_ne hm] at hf
      exact h.frames m f hf
  dispatched := h.dispatched
  mark_le := h.mark_le
  greeted := h.greeted
  covered := h.covered
  line m hm := by
    by_cases hmn : m = n
    · subst hmn
      simp only [World.setConnection,Function.update_self]
      exact hline hm
    · simp only [World.setConnection,Function.update_of_ne hmn]
      exact h.line m hm

end invariant

section steps

variable {s t : World δ} {n : Nat}

section emit

variable {host : Host} {type : RealtimeEventType} {data : δ}

theorem seq_emit (host : Host) (type : RealtimeEventType) (data : δ) (s : World δ) :
    (s.emit host type data).storage.seq = s.storage.seq + 1 := seq_append _ _

theorem Known.append {f : RealtimeServerFrame δ} {log : List (RealtimeEvent δ)} {seq : Nat}
    (h : Known log seq f) (e : RealtimeEvent δ) : Known (log ++ [e]) (seq + 1) f := by
  cases f with
  | event e' => exact List.mem_append_left _ h
  | helloOk k => exact Nat.le_succ_of_le h
  | resync => trivial

theorem frames_send {frames : List (RealtimeServerFrame δ)} {c : Connection δ}
    {f : RealtimeServerFrame δ} (h : f ∈ (c.send frames).frames) : f ∈ c.frames ∨ f ∈ frames := by
  unfold Connection.send at h
  split at h
  · exact List.mem_append.mp h
  · exact .inl h

theorem Line.emit {client : Client δ} {c : Connection δ} {e : RealtimeEvent δ} {seq : Nat}
    (h : Line seq client c) (he : e.id = seq + 1) :
    Line (seq + 1) client (c.send [.event e]) := by
  obtain ⟨hopening,hline⟩ := h
  unfold Connection.send
  split
  · rename_i hlisted
    refine ⟨fun hphase => hopening hphase,?_⟩
    rcases hline with hwait | ⟨early,rest,hans⟩
    · refine .inl ⟨hwait.hello,?_,hwait.status⟩
      intro f hf
      rcases List.mem_append.mp hf with hf | hf
      · exact hwait.frames f hf
      · exact ⟨_,List.mem_singleton.mp hf⟩
    · refine .inr ⟨early,rest ++ [.event e],?_⟩
      constructor
      case opened => exact hans.opened
      case hello => exact hans.hello
      case frames =>
        simp only [hans.frames,List.append_assoc]
      case events => exact hans.events
      case connected => exact hans.connected
      case gapless =>
        have hgapless : Gapless (seq + 1) (Excused (seq + 1) client) client.mark rest :=
          hans.gapless.mono (Nat.le_succ _) (Nat.le_refl _) fun i hi => hi.succ
        refine hgapless.snoc ?_
        rw [he]
        exact Nat.succ_le_succ (hans.reaches hlisted)
      case reaches =>
        intro _
        rw [← he]
        exact le_ends_snoc
  · rename_i hlisted
    refine ⟨hopening,?_⟩
    rcases hline with hwait | ⟨early,rest,hans⟩
    · exact .inl ⟨hwait.hello,hwait.frames,hwait.status⟩
    · refine .inr ⟨early,rest,?_⟩
      constructor
      case opened => exact hans.opened
      case hello => exact hans.hello
      case frames => exact hans.frames
      case events => exact hans.events
      case connected => exact hans.connected
      case gapless =>
        exact hans.gapless.mono (Nat.le_succ _) (Nat.le_refl _) fun i hi => hi.succ
      case reaches => exact fun hphase => absurd hphase hlisted

theorem Kept.emit (h : Kept s) : Kept (s.emit host type data) where
  stored := h.stored.append
  frames n f hf := by
    rw [seq_emit]
    rcases frames_send hf with hf | hf
    · exact (h.frames n f hf).append _
    · rw [List.mem_singleton.mp hf]
      exact List.mem_append_right _ (List.mem_singleton_self _)
  dispatched e he := by
    obtain ⟨hlog,hle⟩ := h.dispatched e he
    exact ⟨List.mem_append_left _ hlog,hle⟩
  mark_le := by
    rw [seq_emit]
    exact Nat.le_succ_of_le h.mark_le
  greeted := h.greeted
  covered e he hle := by
    rw [seq_emit]
    rcases List.mem_append.mp he with he | he
    · exact (h.covered e he hle).imp Excused.succ id
    · rw [List.mem_singleton.mp he] at hle
      have hmark := h.mark_le
      change s.storage.seq + 1 ≤ s.client.mark at hle
      omega
  line n hn := by
    rw [seq_emit]
    exact (h.line n hn).emit rfl

end emit

theorem Kept.connect (h : Kept s) : Kept s.connect where
  stored := h.stored
  frames n f hf := by
    by_cases hn : n = s.next
    · subst hn
      simp only [World.connect,Function.update_self] at hf
      cases hf
    · simp only [World.connect,Function.update_of_ne hn] at hf
      exact h.frames n f hf
  dispatched := h.dispatched
  mark_le := h.mark_le
  greeted := h.greeted
  covered := h.covered
  line n hn := by
    cases hn
    simp only [World.connect,Function.update_self]
    refine ⟨fun _ => rfl,.inl ⟨.inl ⟨rfl,rfl⟩,?_,?_⟩⟩
    · intro f hf
      cases hf
    · simp only [Client.connect]
      split <;> simp

theorem Kept.gone (h : Kept s) : Kept { s with client := s.client.gone } where
  stored := h.stored
  frames := h.frames
  dispatched := h.dispatched
  mark_le := h.mark_le
  greeted := h.greeted
  covered := h.covered
  line n hn := by cases hn

theorem Kept.accept (h : Kept s) (hphase : (s.connections n).phase = .opening) :
    Kept (s.accept n) := by
  refine h.setConnection (h.frames n) ?_
  intro hn
  obtain ⟨hopening,hline⟩ := h.line n hn
  have hopened := hopening hphase
  refine ⟨fun _ => hopened,?_⟩
  rcases hline with hwait | ⟨early,rest,hans⟩
  · exact .inl ⟨hwait.hello,hwait.frames,hwait.status⟩
  · rw [hans.opened] at hopened
    cases hopened

theorem Kept.close (h : Kept s) : Kept (s.close n) := by
  refine h.setConnection (h.frames n) ?_
  intro hn
  obtain ⟨_,hline⟩ := h.line n hn
  refine ⟨fun hphase => (by cases hphase),?_⟩
  rcases hline with hwait | ⟨early,rest,hans⟩
  · exact .inl ⟨hwait.hello,hwait.frames,hwait.status⟩
  · refine .inr ⟨early,rest,?_⟩
    exact { hans with reaches := fun hphase => (by cases hphase) }

theorem Kept.onopen (h : Kept s) (hphase : (s.connections n).phase ≠ .opening)
    (hopened : (s.connections n).opened = false) : Kept (s.onopen n) := by
  refine h.setConnection (h.frames n) ?_
  intro hn
  obtain ⟨_,hline⟩ := h.line n hn
  refine ⟨fun hp => absurd hp hphase,?_⟩
  rcases hline with hwait | ⟨early,rest,hans⟩
  · refine .inl ⟨.inr ⟨rfl,s.client.lastEventId,?_,h.greeted,Nat.le_refl _⟩,hwait.frames,
      hwait.status⟩
    simp only [hn,if_true]
  · rw [hans.opened] at hopened
    cases hopened

theorem known_answer (h : Kept s) {asked : Option Nat} {f : RealtimeServerFrame δ}
    (hf : f ∈ answer asked s.storage) : Known s.log s.storage.seq f := by
  cases f with
  | event e => exact h.stored.answer_events hf
  | helloOk k => exact Nat.le_of_eq (helloOk_answer hf)
  | resync => trivial

theorem Kept.hello (h : Kept s) {asked : Option Nat}
    (hhello : (s.connections n).hello = some asked) : Kept (s.hello n asked) := by
  refine h.setConnection ?_ ?_
  · intro f hf
    rcases frames_send hf with hf | hf
    · exact h.frames n f hf
    · exact known_answer h hf
  · intro hn
    obtain ⟨hopening,hline⟩ := h.line n hn
    rcases hline with hwait | ⟨early,rest,hans⟩
    · rcases hwait.hello with ⟨_,hnone⟩ | ⟨hopened,asked',hasked,hgreeted,hle⟩
      · rw [hhello] at hnone
        cases hnone
      · rw [hhello] at hasked
        cases hasked
        unfold Connection.send
        split
        · refine ⟨hopening,.inr ⟨(s.connections n).frames,answer asked s.storage,?_⟩⟩
          have hall : asked = none → Excused s.storage.seq s.client s.storage.seq := by
            intro hnone
            exact .inl (by rw [hgreeted hnone]; exact Nat.le_refl _)
          have hanswer := h.stored.answer_gapless hall hle
          exact ⟨hopened,rfl,rfl,hwait.frames,fun hc => absurd hc hwait.status,hanswer.1,
            fun _ => hanswer.2⟩
        · rename_i hlisted
          refine ⟨hopening,.inr ⟨(s.connections n).frames,[],?_⟩⟩
          exact ⟨hopened,rfl,by simp,hwait.frames,fun hc => absurd hc hwait.status,trivial,
            fun hphase => absurd hphase hlisted⟩
    · rw [hans.hello] at hhello
      cases hhello

section deliver

variable {f : RealtimeServerFrame δ} {rest : List (RealtimeServerFrame δ)} {client : Client δ}
  {seq : Nat}

def Follows (seq : Nat) (client : Client δ) (id : Nat) : Prop :=
  id ≤ client.mark + 1 ∨ Excused seq client (id - 1)

def Harmless (seq : Nat) (client : Client δ) : RealtimeServerFrame δ → Prop
  | .event e => Follows seq client e.id
  | .helloOk k => k ≤ client.mark ∨ Excused seq client k
  | .resync => True

theorem mark_receive_event (e : RealtimeEvent δ) :
    (client.receive seq (.event e)).mark = max client.mark e.id := rfl

theorem mark_receive_helloOk (k : Nat) :
    (client.receive seq (.helloOk k)).mark = max client.mark k := by
  unfold Client.mark
  simp only [Client.receive]
  cases client.lastEventId with
  | none => simp
  | some last => rfl

theorem le_mark_receive (f : RealtimeServerFrame δ) :
    client.mark ≤ (client.receive seq f).mark := by
  cases f with
  | helloOk k =>
    rw [mark_receive_helloOk]
    exact Nat.le_max_left _ _
  | event e => exact Nat.le_max_left _ _
  | resync => exact Nat.le_refl _

theorem Line.receive_early {c : Connection δ} {e : RealtimeEvent δ} (h : Line seq client c)
    (hframes : c.frames = .event e :: rest)
    (hearly : Waiting client c ∨ ∃ early rest, Answered seq client c (.event e :: early) rest) :
    Line seq (client.receive seq (.event e)) { c with frames := rest } := by
  refine ⟨h.1,?_⟩
  rcases hearly with hwait | ⟨early,after,hans⟩
  · refine .inl ⟨?_,?_,hwait.status⟩
    · refine hwait.hello.imp id ?_
      rintro ⟨hopened,asked,hhello,hnone,hle⟩
      exact ⟨hopened,asked,hhello,hnone,Nat.le_trans hle (le_mark_receive _)⟩
    · intro f hf
      exact hwait.frames f (hframes ▸ List.mem_cons_of_mem _ hf)
  · refine .inr ⟨early,after,?_⟩
    constructor
    case opened => exact hans.opened
    case hello => exact hans.hello
    case frames =>
      have heq := hans.frames
      rw [hframes] at heq
      exact (List.cons.inj heq).2
    case events => exact fun f hf => hans.events f (List.mem_cons_of_mem _ hf)
    case connected =>
      intro hc
      cases hans.connected hc
    case gapless =>
      exact hans.gapless.mono (Nat.le_refl _) (le_mark_receive _) fun i hi => hi.receive _
    case reaches =>
      intro hlisted
      exact Nat.le_trans (hans.reaches hlisted) (ends_mono (le_mark_receive _))

theorem Answered.receive {c : Connection δ} (h : Answered seq client c [] (f :: rest)) :
    Harmless seq client f ∧
      Answered seq (client.receive seq f) { c with frames := rest } [] rest := by
  have hgapless := h.gapless
  have hreaches := h.reaches
  cases f with
  | event e =>
    refine ⟨hgapless.1,h.opened,h.hello,rfl,by simp,fun _ => rfl,?_,hreaches⟩
    exact hgapless.2.mono (Nat.le_refl _) (Nat.le_refl _) fun i hi => hi.receive _
  | resync =>
    refine ⟨trivial,h.opened,h.hello,rfl,by simp,fun _ => rfl,?_,hreaches⟩
    refine Gapless.mono hgapless (Nat.le_refl _) (Nat.le_refl _) ?_
    rintro i (hi | hi)
    · exact .inr ⟨seq,by simp [Client.receive],hi⟩
    · exact hi.receive _
  | helloOk k =>
    refine ⟨hgapless.1,h.opened,h.hello,rfl,by simp,fun _ => rfl,?_,?_⟩
    · rw [mark_receive_helloOk]
      exact hgapless.2.mono (Nat.le_refl _) (Nat.le_refl _) fun i hi => hi.receive _
    · rw [mark_receive_helloOk]
      exact hreaches

theorem Kept.receive (h : Kept s) (hknown : Known s.log s.storage.seq f)
    (hf : Harmless s.storage.seq s.client f) :
    (s.client.receive s.storage.seq f).mark ≤ s.storage.seq ∧
      (∀ e, .event e ∈ (s.client.receive s.storage.seq f).dispatched →
        e ∈ s.log ∧ e.id ≤ (s.client.receive s.storage.seq f).mark) ∧
      ∀ e ∈ s.log, e.id ≤ (s.client.receive s.storage.seq f).mark →
        Excused s.storage.seq (s.client.receive s.storage.seq f) e.id ∨
          .event e ∈ (s.client.receive s.storage.seq f).dispatched := by
  have hmark := h.mark_le
  cases f with
  | resync =>
    refine ⟨hmark,?_,?_⟩
    · intro e he
      refine h.dispatched e ?_
      simpa [Client.receive] using he
    · intro e he hle
      refine (h.covered e he hle).imp (fun hx => hx.receive _) ?_
      exact List.mem_append_left _
  | helloOk k =>
    rw [mark_receive_helloOk]
    refine ⟨max_le hmark hknown,?_,?_⟩
    · intro e he
      obtain ⟨hlog,hle⟩ := h.dispatched e he
      exact ⟨hlog,Nat.le_trans hle (Nat.le_max_left _ _)⟩
    · intro e he hle
      by_cases hold : e.id ≤ s.client.mark
      · exact (h.covered e he hold).imp (fun hx => hx.receive _) id
      · rcases hf with hk | hk
        · omega
        · exact .inl ((hk.le (by omega)).receive _)
  | event e₀ =>
    have hid := h.stored.id_le hknown
    rw [mark_receive_event]
    refine ⟨max_le hmark hid.2,?_,?_⟩
    · intro e he
      rcases List.mem_append.mp he with he | he
      · obtain ⟨hlog,hle⟩ := h.dispatched e he
        exact ⟨hlog,Nat.le_trans hle (Nat.le_max_left _ _)⟩
      · cases List.mem_singleton.mp he
        exact ⟨hknown,Nat.le_max_right _ _⟩
    · intro e he hle
      by_cases hold : e.id ≤ s.client.mark
      · exact (h.covered e he hold).imp (fun hx => hx.receive _) (List.mem_append_left _)
      · by_cases hsame : e.id = e₀.id
        · rw [h.stored.unique he hknown hsame]
          exact .inr (List.mem_append_right _ (List.mem_singleton_self _))
        · rcases hf with hf | hf
          · omega
          · exact .inl ((hf.le (by omega)).receive _)

/-- A client that has no answer on its socket yet is given no event while it misses the one
before. -/
def Meets (s : World δ) : Label δ → Prop
  | .deliver n => ∀ e rest, s.client.socket = some n →
      (s.connections n).frames = .event e :: rest → s.client.currentStatus ≠ .connected →
      Follows s.storage.seq s.client e.id
  | _ => True

theorem Kept.deliver (h : Kept s) (hframes : (s.connections n).frames = f :: rest)
    (hopened : (s.connections n).opened = true) (hmeets : Meets s (.deliver n)) :
    Kept (s.deliver n f rest) := by
  have hknown : Known s.log s.storage.seq f := h.frames n f (by rw [hframes]; simp)
  have hrest : ∀ g ∈ rest, Known s.log s.storage.seq g := fun g hg =>
    h.frames n g (by rw [hframes]; exact List.mem_cons_of_mem _ hg)
  by_cases hn : s.client.socket = some n
  · have htaken : Harmless s.storage.seq s.client f ∧
        Line s.storage.seq (s.client.receive s.storage.seq f)
          { s.connections n with frames := rest } := by
      have hline := h.line n hn
      rcases hline.2 with hwait | ⟨early,after,hans⟩
      · obtain ⟨e,rfl⟩ := hwait.frames f (by rw [hframes]; simp)
        exact ⟨hmeets e rest hn hframes hwait.status,hline.receive_early hframes (.inl hwait)⟩
      · cases early with
        | cons g early =>
          have heq := hans.frames
          rw [hframes] at heq
          obtain ⟨rfl,_⟩ := List.cons.inj heq
          obtain ⟨e,rfl⟩ := hans.events _ List.mem_cons_self
          have hstatus : s.client.currentStatus ≠ .connected := by
            intro hc
            cases hans.connected hc
          exact ⟨hmeets e rest hn hframes hstatus,
            hline.receive_early hframes (.inr ⟨early,after,hans⟩)⟩
        | nil =>
          have heq := hans.frames
          rw [hframes] at heq
          simp only [List.nil_append] at heq
          subst heq
          obtain ⟨hharmless,hans'⟩ := hans.receive
          exact ⟨hharmless,hline.1,.inr ⟨[],rest,hans'⟩⟩
    obtain ⟨hmark,hdispatched,hcovered⟩ := h.receive hknown htaken.1
    have hclient : (s.deliver n f rest).client = s.client.receive s.storage.seq f := by
      simp only [World.deliver,hn,if_true]
    constructor
    case stored => exact h.stored
    case frames =>
      intro m g hg
      by_cases hm : m = n
      · subst hm
        simp only [World.deliver,World.setConnection,Function.update_self] at hg
        exact hrest g hg
      · simp only [World.deliver,World.setConnection,Function.update_of_ne hm] at hg
        exact h.frames m g hg
    case dispatched =>
      rw [hclient]
      exact hdispatched
    case mark_le =>
      rw [hclient]
      exact hmark
    case greeted =>
      rw [hclient]
      cases f with
      | helloOk k => exact fun hnone => by cases hnone
      | event e => exact fun hnone => by cases hnone
      | resync => exact h.greeted
    case covered =>
      rw [hclient]
      exact hcovered
    case line =>
      intro m hm
      rw [hclient] at hm ⊢
      have hsocket : (s.client.receive s.storage.seq f).socket = s.client.socket := by
        cases f <;> rfl
      rw [hsocket,hn] at hm
      cases hm
      simp only [World.deliver,World.setConnection,Function.update_self]
      exact htaken.2
  · have hsame : s.deliver n f rest = s.setConnection n { s.connections n with frames := rest } := by
      simp only [World.deliver,World.setConnection,hn,if_false]
    rw [hsame]
    exact h.setConnection hrest fun hsocket => absurd hsocket hn

end deliver

theorem Kept.step {host : Host} {l : Label δ} (h : Kept s)
    (hl : (machine δ host).step l s = some t) (hmeets : Meets s l) : Kept t := by
  cases l with
  | emit type data =>
    cases hl
    exact h.emit
  | connect =>
    simp only [machine,RealtimeStream.step,Option.ite_none_right_eq_some,Option.some.injEq] at hl
    obtain ⟨_,rfl⟩ := hl
    exact h.connect
  | accept n =>
    simp only [machine,RealtimeStream.step,Option.ite_none_right_eq_some,Option.some.injEq] at hl
    obtain ⟨⟨_,hphase⟩,rfl⟩ := hl
    exact h.accept hphase
  | onopen n =>
    simp only [machine,RealtimeStream.step,Option.ite_none_right_eq_some,Option.some.injEq] at hl
    obtain ⟨⟨hphase,hopened⟩,rfl⟩ := hl
    exact h.onopen hphase hopened
  | hello n =>
    obtain ⟨asked,hhello,rfl⟩ := Option.map_eq_some_iff.mp hl
    exact h.hello hhello
  | deliver n =>
    simp only [machine,RealtimeStream.step] at hl
    split at hl
    · rename_i hopened hframes
      cases hl
      exact h.deliver hframes hopened hmeets
    · cases hl
  | gone =>
    simp only [machine,RealtimeStream.step,Option.ite_none_left_eq_some,Option.some.injEq] at hl
    obtain ⟨_,rfl⟩ := hl
    exact h.gone
  | close n =>
    simp only [machine,RealtimeStream.step,Option.ite_none_right_eq_some,Option.some.injEq] at hl
    obtain ⟨_,rfl⟩ := hl
    exact h.close

end steps

section lossless

variable {host : Host} {s t : World δ}

/-- What the client has passed since it was first greeted, it has been told. -/
def NothingLost (s : World δ) : Prop :=
  ∀ first, s.client.greeted = some first → ∀ e ∈ s.log, first < e.id →
    ∀ last, s.client.lastEventId = some last → e.id ≤ last →
      .event e ∈ s.client.dispatched ∨ ∃ m, .resync m ∈ s.client.dispatched ∧ e.id ≤ m

theorem Kept.nothingLost (h : Kept s) : NothingLost s := by
  intro first hfirst e he hlt last hlast hle
  have hmark : e.id ≤ s.client.mark := by
    rw [Client.mark,hlast]
    exact hle
  rcases h.covered e he hmark with (hx | hx) | hx
  · rw [hfirst] at hx
    exact absurd hlt (Nat.not_lt.mpr hx)
  · exact .inr hx
  · exact .inl hx

/-- Nothing is lost in a run in which no client that waits for its answer is given an event while
it misses the one before; the ids are consecutive, and what is in the buffer is replayed. -/
theorem no_event_lost (hr : (machine δ host).ReachesBy (fun s l _ => Meets s l) (start δ) s) :
    NothingLost s ∧ s.log.map (·.id) = List.range' 1 s.storage.seq ∧
      (∀ e ∈ s.log, s.storage.seq < e.id + eventBufferSize → ∀ last, last < e.id →
        s.storage.seq ≤ last + eventBufferSize → .event e ∈ answer (some last) s.storage) ∧
      ∀ e, .event e ∈ s.client.dispatched → e ∈ s.log := by
  have hkept := hr.invariant (P := Kept) kept_start fun _ _ _ hk hl hm => hk.step hl hm
  refine ⟨hkept.nothingLost,hkept.stored.ids,?_,fun e he => (hkept.dispatched e he).1⟩
  intro e he hbuffer last hlast hmark
  exact hkept.stored.replayable he hbuffer hlast hmark

/-- An event that is delivered although the client misses the one before loses that one. -/
theorem skipped_lost {n : Nat}
    (hr : (machine δ host).ReachesBy (fun s l _ => Meets s l) (start δ) s)
    (hl : (machine δ host).step (.deliver n) s = some t) (hunmet : ¬Meets s (.deliver n)) :
    ¬NothingLost t := by
  have hkept := hr.invariant (P := Kept) kept_start fun _ _ _ hk hl hm => hk.step hl hm
  simp only [Meets,not_forall,Follows,not_or,Excused] at hunmet
  obtain ⟨e,rest,hn,hframes,_,hskip,hfirst,hresync⟩ := hunmet
  simp only [machine,step,hframes] at hl
  cases hopened : (s.connections n).opened with
  | false =>
    rw [hopened] at hl
    cases hl
  | true =>
    rw [hopened] at hl
    cases hl
    have hlog : e ∈ s.log := hkept.frames n (.event e) (by rw [hframes]; simp)
    have hid := hkept.stored.id_le hlog
    obtain ⟨e',he',hid'⟩ := hkept.stored.exists_id (i := e.id - 1) (by omega) (by omega)
    cases hg : s.client.greeted with
    | none =>
      rw [hg] at hfirst
      simp only [Option.getD_none] at hfirst
      omega
    | some first =>
      rw [hg] at hfirst
      simp only [Option.getD_some] at hfirst
      intro hnothing
      have hclient : (s.deliver n (.event e) rest).client =
          s.client.receive s.storage.seq (.event e) := by
        simp only [World.deliver,hn,if_true]
      unfold NothingLost at hnothing
      rw [hclient] at hnothing
      rcases hnothing first hg e' he' (by omega) _ rfl (by omega) with hd | ⟨m,hm,hle⟩
      · rcases List.mem_append.mp hd with hd | hd
        · have hmark := (hkept.dispatched e' hd).2
          omega
        · cases List.mem_singleton.mp hd
          omega
      · rcases List.mem_append.mp hm with hm | hm
        · exact hresync ⟨m,hm,by omega⟩
        · cases List.mem_singleton.mp hm

end lossless

section runs

def unreadEvent (id : Nat) : RealtimeEvent Unit := ⟨id,.unread,()⟩

/-- The client is greeted, and told of the event that comes then; of the one that comes while it is
gone it is told when it is back. -/
def told : World Unit :=
  ((machine Unit .durableObject).run [.connect,.accept 0,.onopen 0,.hello 0,.deliver 0,
    .emit .unread (),.deliver 0,.gone,.close 0,.emit .unread (),.connect,.accept 1,.onopen 1,
    .hello 1,.deliver 1] (start Unit)).getD (start Unit)

theorem meets_of_connected {s : World Unit} {n : Nat} (h : s.client.currentStatus = .connected) :
    Meets s (.deliver n) := fun _ _ _ _ hstatus => absurd h hstatus

theorem told_reached :
    (machine Unit .durableObject).ReachesBy (fun s l _ => Meets s l) (start Unit) told := by
  have hquiet : ∀ {s t : World Unit} {l : Label Unit},
      (machine Unit .durableObject).ReachesBy (fun s l _ => Meets s l) (start Unit) s →
      (machine Unit .durableObject).step l s = some t → (∀ n, l ≠ .deliver n) →
      (machine Unit .durableObject).ReachesBy (fun s l _ => Meets s l) (start Unit) t := by
    intro s t l hr hl hne
    refine hr.snoc hl ?_
    cases l with
    | deliver n => exact absurd rfl (hne n)
    | _ => trivial
  have hasked := hquiet (l := .hello 0) (hquiet (l := .onopen 0) (hquiet (l := .accept 0)
    (hquiet (l := .connect) (.refl _) rfl nofun) rfl nofun) rfl nofun) rfl nofun
  have hgreeted := hasked.snoc (l := .deliver 0) rfl fun _ _ _ h => nomatch h
  have hfirst := (hquiet (l := .emit .unread ()) hgreeted rfl nofun).snoc (l := .deliver 0) rfl
    (meets_of_connected rfl)
  have hmissed := hquiet (l := .emit .unread ()) (hquiet (l := .close 0)
    (hquiet (l := .gone) hfirst rfl nofun) rfl nofun) rfl nofun
  have hback := hquiet (l := .hello 1) (hquiet (l := .onopen 1) (hquiet (l := .accept 1)
    (hquiet (l := .connect) hmissed rfl nofun) rfl nofun) rfl nofun) rfl nofun
  refine hback.snoc (l := .deliver 1) rfl fun e _ _ hframes _ => ?_
  obtain ⟨hevent,_⟩ := List.cons.inj hframes
  obtain rfl := RealtimeServerFrame.event.inj hevent
  exact .inl (Nat.le_refl 2)

theorem no_event_lost_told :
    (.event (unreadEvent 1) ∈ told.client.dispatched ∨
        ∃ m, .resync m ∈ told.client.dispatched ∧ (unreadEvent 1).id ≤ m) ∧
      (.event (unreadEvent 2) ∈ told.client.dispatched ∨
        ∃ m, .resync m ∈ told.client.dispatched ∧ (unreadEvent 2).id ≤ m) := by
  have hnothing := (no_event_lost told_reached).1 0 rfl
  have hlogged : unreadEvent 1 ∈ told.log ∧ unreadEvent 2 ∈ told.log := by decide
  exact ⟨hnothing (unreadEvent 1) hlogged.1 (by decide) 2 rfl (by decide),
    hnothing (unreadEvent 2) hlogged.2 (by decide) 2 rfl (by decide)⟩

/-- The client is gone when the first event comes. The second one comes to its new socket before its
hello is answered, and the socket breaks; the third socket is only asked for what follows. -/
theorem gap_skipped : ¬∀ (δ : Type) (host : Host) (s : World δ),
    (machine δ host).Reaches (start δ) s → NothingLost s := by
  intro h
  have hrun : ((machine Unit .durableObject).run [.connect,.accept 0,.onopen 0,.hello 0,.deliver 0,
      .gone,.close 0,.emit .unread (),.connect,.accept 1,.emit .unread (),.onopen 1,.deliver 1,
      .gone,.close 1,.connect,.accept 2,.onopen 2,.hello 2,.deliver 2] (start Unit)).map
        (fun s => (s.log,s.client)) =
      some ([unreadEvent 1,unreadEvent 2],
        ⟨some 2,.connected,0,some 2,[.event (unreadEvent 2)],some 0⟩) := rfl
  obtain ⟨s,hs,hclient⟩ := Option.map_eq_some_iff.mp hrun
  obtain ⟨hlog,hclient⟩ := Prod.mk.inj hclient
  have hnothing := h Unit .durableObject s (Machine.Reaches.of_run hs)
  unfold NothingLost at hnothing
  rw [hlog,hclient] at hnothing
  have hlost := hnothing 0 rfl (unreadEvent 1) (by simp) (by decide) 2 rfl (by decide)
  simp [unreadEvent] at hlost

end runs

end Yurucommu.RealtimeStream
