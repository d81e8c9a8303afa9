import Yurucommu.RealtimeStream

/-!
No event is lost exactly as long as no client is given an event, before its hello is answered,
while it misses the event before that.
-/

set_option autoImplicit false

namespace Yurucommu.RealtimeStream

variable {δ : Type}

section queues

variable {ok ok' : Nat → Prop} {head head' last last' : Nat} {e : RealtimeEvent δ}
  {q : List (RealtimeServerFrame δ)}

/-- What is left in a connection skips nothing: `last` is the client's mark, `ok` says up to where
it has nothing to miss, and `head` is how far the next resync reaches. -/
def Gapless (head : Nat) : (Nat → Prop) → Nat → List (RealtimeServerFrame δ) → Prop
  | _,_,[] => True
  | ok,last,.event e :: q => (e.id ≤ last + 1 ∨ ok (e.id - 1)) ∧ Gapless head ok (max last e.id) q
  | ok,last,.resync :: q => Gapless head (fun i => i ≤ head ∨ ok i) last q
  | ok,last,.helloOk k :: q => (k ≤ last ∨ ok k) ∧ Gapless head ok (max last k) q

def ends : Nat → List (RealtimeServerFrame δ) → Nat
  | last,[] => last
  | last,.event e :: q => ends (max last e.id) q
  | last,.resync :: q => ends last q
  | last,.helloOk k :: q => ends (max last k) q

theorem Gapless.mono (h : Gapless head ok last q) (hhead : head ≤ head') (hlast : last ≤ last')
    (hok : ∀ i, ok i → ok' i) : Gapless head' ok' last' q := by
  induction q generalizing ok ok' last last' with
  | nil => trivial
  | cons f q ih =>
    cases f with
    | event e =>
      obtain ⟨hid,hrest⟩ := h
      refine ⟨hid.imp (fun h => by omega) (hok _),?_⟩
      exact ih hrest (by omega) hok
    | resync =>
      refine ih h hlast ?_
      intro i hi
      exact hi.imp (fun h => by omega) (hok i)
    | helloOk k =>
      obtain ⟨hid,hrest⟩ := h
      refine ⟨hid.imp (fun h => by omega) (hok _),?_⟩
      exact ih hrest (by omega) hok

theorem ends_mono (h : last ≤ last') : ends last q ≤ ends last' q := by
  induction q generalizing last last' with
  | nil => exact h
  | cons f q ih =>
    cases f with
    | event e => exact ih (by omega)
    | resync => exact ih h
    | helloOk k => exact ih (by omega)

theorem Gapless.snoc (h : Gapless head ok last q) (he : e.id ≤ ends last q + 1) :
    Gapless head ok last (q ++ [.event e]) := by
  induction q generalizing ok last with
  | nil => exact ⟨.inl he,trivial⟩
  | cons f q ih =>
    cases f with
    | event e' => exact ⟨h.1,ih h.2 he⟩
    | resync => exact ih h he
    | helloOk k => exact ⟨h.1,ih h.2 he⟩

theorem le_ends_snoc : e.id ≤ ends last (q ++ [.event e]) := by
  induction q generalizing last with
  | nil => exact Nat.le_max_right last e.id
  | cons f q ih =>
    cases f with
    | event e' => exact ih
    | resync => exact ih
    | helloOk k => exact ih

theorem le_ends_helloOk (k : Nat) : k ≤ ends last (q ++ [.helloOk k]) := by
  induction q generalizing last with
  | nil => exact Nat.le_max_right last k
  | cons f q ih =>
    cases f with
    | event e' => exact ih
    | resync => exact ih
    | helloOk k => exact ih

theorem gapless_replay {es : List (RealtimeEvent δ)} {i n : Nat}
    (h : es.map (·.id) = List.range' (i + 1) n) (hi : i ≤ last) :
    Gapless head ok last (es.map .event ++ [.helloOk (i + n)]) := by
  induction n generalizing es i last with
  | zero =>
    simp only [List.range'_zero,List.map_eq_nil_iff] at h
    subst h
    exact ⟨.inl hi,trivial⟩
  | succ n ih =>
    cases es with
    | nil => simp [List.range'_succ] at h
    | cons e es =>
      simp only [List.map_cons,List.range'_succ,List.cons.injEq] at h
      obtain ⟨hid,hrest⟩ := h
      refine ⟨.inl (by omega),?_⟩
      have hreplay : Gapless head ok (max last e.id) _ := ih hrest (by omega)
      rw [show i + (n + 1) = i + 1 + n by omega]
      exact hreplay

end queues

section storage

variable {host : Host} {d : Storage δ} {log : List (RealtimeEvent δ)} {type : RealtimeEventType}
  {data : δ}

/-- The storage of a stream that has appended `log`: the last events, under their ids. -/
structure Stored (log : List (RealtimeEvent δ)) (d : Storage δ) : Prop where
  ids : log.map (·.id) = List.range' 1 d.seq
  kept : ∀ e ∈ log, d.seq < e.id + eventBufferSize → d.eventAt e.id = some e
  only : ∀ i e, d.eventAt i = some e → e ∈ log ∧ e.id = i

theorem Stored.id_le (h : Stored log d) {e : RealtimeEvent δ} (he : e ∈ log) :
    0 < e.id ∧ e.id ≤ d.seq := by
  have hmem : e.id ∈ log.map (·.id) := List.mem_map_of_mem he
  rw [h.ids,List.mem_range'_1] at hmem
  omega

theorem Stored.exists_id (h : Stored log d) {i : Nat} (hpos : 0 < i) (hle : i ≤ d.seq) :
    ∃ e ∈ log, e.id = i := by
  have hmem : i ∈ log.map (·.id) := by
    rw [h.ids,List.mem_range'_1]
    omega
  exact List.mem_map.mp hmem

theorem Stored.unique (h : Stored log d) {e e' : RealtimeEvent δ} (he : e ∈ log) (he' : e' ∈ log)
    (hid : e.id = e'.id) : e = e' := by
  have hnodup : (log.map (·.id)).Nodup := by
    rw [h.ids]
    exact List.nodup_range'
  exact List.inj_on_of_nodup_map hnodup he he' hid

theorem eventAt_durableObject (e : RealtimeEvent δ) (n i : Nat) :
    (appendEvent .durableObject e n d).eventAt i =
      if n < e.id ∧ i = e.id - n then none
      else if i = e.id then some e else d.eventAt i := by
  simp only [appendEvent]
  by_cases hn : n < e.id
  · simp only [hn,if_true,true_and,Function.update_apply]
  · simp only [hn,if_false,false_and,Function.update_apply]

theorem eventAt_actor (e : RealtimeEvent δ) (n i : Nat) :
    (appendEvent .actor e n d).eventAt i =
      if i + n ≤ e.id then none else if i = e.id then some e else d.eventAt i := by
  simp only [appendEvent,Function.update_apply]

theorem eventAt_append (host : Host) (d : Storage δ) (e : RealtimeEvent δ) (n i : Nat) :
    (e.id < i + n → (appendEvent host e n d).eventAt i = if i = e.id then some e else d.eventAt i) ∧
      ∀ e', (appendEvent host e n d).eventAt i = some e' → i = e.id ∧ e' = e ∨
        d.eventAt i = some e' := by
  cases host with
  | durableObject =>
    rw [eventAt_durableObject]
    constructor
    · intro hlt
      rw [if_neg (by omega)]
    · intro e' hi
      split at hi
      · cases hi
      · split at hi
        · rename_i hid
          exact .inl ⟨hid,(Option.some.inj hi).symm⟩
        · exact .inr hi
  | actor =>
    rw [eventAt_actor]
    constructor
    · intro hlt
      rw [if_neg (by omega)]
    · intro e' hi
      split at hi
      · cases hi
      · split at hi
        · rename_i hid
          exact .inl ⟨hid,(Option.some.inj hi).symm⟩
        · exact .inr hi

theorem seq_append (e : RealtimeEvent δ) (n : Nat) : (appendEvent host e n d).seq = e.id := by
  cases host <;> rfl

theorem Stored.append (h : Stored log d) : Stored (log ++ [newEvent type data d])
    (appendEvent host (newEvent type data d) eventBufferSize d) := by
  have hid : (newEvent type data d).id = d.seq + 1 := rfl
  have hat := eventAt_append host d (newEvent type data d) eventBufferSize
  refine ⟨?_,?_,?_⟩
  · rw [seq_append,hid,List.map_append,h.ids,List.range'_concat]
    simp [newEvent,Nat.add_comm]
  · intro e he hlt
    rw [seq_append] at hlt
    rw [(hat e.id).1 hlt]
    rcases List.mem_append.mp he with he | he
    · have hle := h.id_le he
      rw [if_neg (by omega)]
      exact h.kept e he (by omega)
    · rw [List.mem_singleton.mp he,if_pos rfl]
  · intro i e hi
    rcases (hat i).2 e hi with ⟨rfl,rfl⟩ | hi
    · exact ⟨by simp,rfl⟩
    · obtain ⟨he,hid⟩ := h.only i e hi
      exact ⟨List.mem_append_left _ he,hid⟩

theorem map_id_filterMap {f : Nat → Option (RealtimeEvent δ)} {is : List Nat}
    (h : ∀ i ∈ is, ∃ e, f i = some e ∧ e.id = i) : (is.filterMap f).map (·.id) = is := by
  induction is with
  | nil => rfl
  | cons i is ih =>
    obtain ⟨e,he,hid⟩ := h i List.mem_cons_self
    rw [List.filterMap_cons_some he,List.map_cons,hid,ih fun j hj => h j (List.mem_cons_of_mem i hj)]

theorem oldestBuffered_le {seq last : Nat} :
    oldestBuffered seq - 1 ≤ last ↔ seq ≤ last + eventBufferSize := by
  unfold oldestBuffered
  omega

theorem answer_cases (asked : Option Nat) (d : Storage δ) :
    (answer asked d = [.helloOk d.seq] ∧ ∀ last, asked = some last → d.seq ≤ last) ∨
      ∃ last, asked = some last ∧ last < d.seq ∧
        (d.seq ≤ last + eventBufferSize ∧
            answer asked d = (replayed last d).map .event ++ [.helloOk d.seq] ∨
          last + eventBufferSize < d.seq ∧ answer asked d = [.resync,.helloOk d.seq]) := by
  unfold answer
  cases asked with
  | none => exact .inl ⟨rfl,by simp⟩
  | some last =>
    simp only
    split
    · rename_i hlt
      refine .inr ⟨last,rfl,hlt,?_⟩
      split
      · rename_i hold
        exact .inl ⟨oldestBuffered_le.mp hold,rfl⟩
      · rename_i hold
        rw [oldestBuffered_le] at hold
        exact .inr ⟨by omega,rfl⟩
    · refine .inl ⟨rfl,?_⟩
      rintro _ ⟨⟩
      omega

theorem Stored.ids_replayed (h : Stored log d) {last : Nat}
    (hbuffer : d.seq ≤ last + eventBufferSize) :
    (replayed last d).map (·.id) = List.range' (last + 1) (d.seq - last) := by
  refine map_id_filterMap ?_
  intro i hi
  rw [List.mem_range'_1] at hi
  obtain ⟨e,he,hid⟩ := h.exists_id (i := i) (by omega) (by omega)
  exact ⟨e,hid ▸ h.kept e he (by omega),hid⟩

/-- Whatever a hello asks for, its answer leads to the head of the stream without a gap. -/
theorem Stored.answer_gapless (h : Stored log d) {asked : Option Nat} {ok : Nat → Prop}
    {last : Nat} (hnone : asked = none → ok d.seq) (hlast : asked.getD 0 ≤ last) :
    Gapless d.seq ok last (answer asked d) ∧ d.seq ≤ ends last (answer asked d) := by
  rcases answer_cases asked d with ⟨heq,hold⟩ | ⟨mark,rfl,hlt,⟨hbuffer,heq⟩ | ⟨_,heq⟩⟩
  · rw [heq]
    refine ⟨⟨?_,trivial⟩,le_ends_helloOk (q := []) d.seq⟩
    cases asked with
    | none => exact .inr (hnone rfl)
    | some mark => exact .inl (Nat.le_trans (hold mark rfl) hlast)
  · rw [heq]
    have hreplay : Gapless d.seq ok last _ := gapless_replay (h.ids_replayed hbuffer) hlast
    rw [show mark + (d.seq - mark) = d.seq by omega] at hreplay
    exact ⟨hreplay,le_ends_helloOk d.seq⟩
  · rw [heq]
    exact ⟨⟨.inr (.inl (Nat.le_refl _)),trivial⟩,le_ends_helloOk (q := [.resync]) d.seq⟩

theorem Stored.answer_events (h : Stored log d) {asked : Option Nat} {e : RealtimeEvent δ}
    (he : .event e ∈ answer asked d) : e ∈ log := by
  rcases answer_cases asked d with ⟨heq,_⟩ | ⟨mark,rfl,_,⟨_,heq⟩ | ⟨_,heq⟩⟩
  · rw [heq] at he
    simp at he
  · rw [heq] at he
    simp only [List.mem_append,List.mem_map,RealtimeServerFrame.event.injEq,
      exists_eq_right,List.mem_singleton,reduceCtorEq,or_false] at he
    obtain ⟨i,_,hi⟩ := List.mem_filterMap.mp he
    exact (h.only i e hi).1
  · rw [heq] at he
    simp at he

theorem helloOk_answer {asked : Option Nat} {k : Nat} (h : .helloOk k ∈ answer asked d) :
    k = d.seq := by
  rcases answer_cases asked d with ⟨heq,_⟩ | ⟨mark,rfl,_,⟨_,heq⟩ | ⟨_,heq⟩⟩
  all_goals
    rw [heq] at h
    simpa using h

theorem Stored.replayable (h : Stored log d) {e : RealtimeEvent δ} (he : e ∈ log)
    (hbuffer : d.seq < e.id + eventBufferSize) {last : Nat} (hlast : last < e.id)
    (hmark : d.seq ≤ last + eventBufferSize) : .event e ∈ answer (some last) d := by
  have hle := h.id_le he
  rcases answer_cases (some last) d with ⟨_,hold⟩ | ⟨mark,hmark',_,⟨_,heq⟩ | ⟨hold,_⟩⟩
  · have := hold last rfl
    omega
  · cases hmark'
    rw [heq]
    refine List.mem_append_left _ (List.mem_map_of_mem (List.mem_filterMap.mpr ⟨e.id,?_,?_⟩))
    · rw [List.mem_range'_1]
      omega
    · exact h.kept e he hbuffer
  · cases hmark'
    omega

end storage

end Yurucommu.RealtimeStream
