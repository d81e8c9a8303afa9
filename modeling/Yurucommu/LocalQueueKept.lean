import Mathlib.Data.List.Nodup
import Mathlib.Data.List.Perm.Basic
import Yurucommu.LocalQueue
import Yurucommu.MachineTrace

/-!
Every message is in one place at a time, so that the queue keeps the contract as long as the steps
are in it; two steps that are not break it.
-/

set_option autoImplicit false

namespace Yurucommu.LocalQueue

variable {α : Type}

section invariant

def places (s : Queue α) : List (Copy α) :=
  s.timers.map Prod.fst ++ s.pending ++ deliveries s

def retries (s : Queue α) : List (Copy α) :=
  (s.settled.filter fun e => e.2 = .retried).map Prod.fst

/-- Each message in one place, none early, and each of the handler's settled once. `held` is being
queued at the moment, and `owing` was retried and is not sent again yet. -/
structure Kept (held owing : List (Copy α)) (s : Queue α) : Prop where
  ids : (s.made.map Made.copy).map Copy.id = List.range s.copies
  places : (held ++ places s).Perm (s.made.map Made.copy)
  due : ∀ m ∈ s.made, ∀ due, (m.copy,due) ∈ s.timers → m.earliest ≤ due
  ready : ∀ m ∈ s.made, m.copy ∈ s.pending → m.earliest ≤ s.now
  onTime : ∀ m ∈ s.made, ∀ time, (m.copy,time) ∈ s.delivered → m.earliest ≤ time
  handed : atHandler s <:+ deliveries s
  settledKnown : ∀ copy ∈ s.settled.map Prod.fst, copy ∈ deliveries s
  settledOnce : (s.settled.map Prod.fst).Nodup
  settledAt : ∀ copy settlement, (copy,settlement) ∈ s.batch →
    (settlement = none ↔ copy ∉ s.settled.map Prod.fst)
  repeats : repeated s ++ owing = retries s
  sameBody : ∀ m ∈ s.made, ∀ origin ∈ m.origin, m.copy.body = origin.body
  rejections : ∀ copy ∈ s.rejected, copy ∈ s.settled.map Prod.fst
  busy : s.draining = true ↔ s.batch ≠ []
  live : s.pending ≠ [] → s.draining = true ∨ s.drainScheduled = true

theorem kept_start : Kept [] [] (Queue.start α) := by
  constructor <;> simp [Queue.start,places,deliveries,repeated,retries,atHandler]

variable {s : Queue α} {held owing : List (Copy α)}

theorem Kept.nodup_made (h : Kept held owing s) : (s.made.map Made.copy).Nodup := by
  refine List.Nodup.of_map Copy.id ?_
  rw [h.ids]
  exact List.nodup_range

theorem Kept.nodup_places (h : Kept held owing s) : (LocalQueue.places s).Nodup :=
  (List.nodup_append.1 (h.places.nodup_iff.2 h.nodup_made)).2.1

theorem Kept.nodup_deliveries (h : Kept held owing s) : (deliveries s).Nodup :=
  (List.nodup_append.1 h.nodup_places).2.1

theorem mem_places {copy : Copy α} : copy ∈ places s ↔
    copy ∈ s.timers.map Prod.fst ∨ copy ∈ s.pending ∨ copy ∈ deliveries s := by
  rw [places,List.mem_append,List.mem_append,or_assoc]

theorem Kept.not_delivered (h : Kept held owing s) {copy : Copy α}
    (hc : copy ∈ s.timers.map Prod.fst ∨ copy ∈ s.pending) : copy ∉ deliveries s := fun hd =>
  (List.nodup_append.1 h.nodup_places).2.2 copy (List.mem_append.2 hc) copy hd rfl

theorem Kept.fresh (h : Kept held owing s) {copy : Copy α} (hc : copy ∈ LocalQueue.places s)
    (body : α) : copy ≠ ⟨s.copies,body⟩ := by
  rintro rfl
  have hid : s.copies ∈ (s.made.map Made.copy).map Copy.id :=
    List.mem_map.2 ⟨_,h.places.mem_iff.1 (List.mem_append_right _ hc),rfl⟩
  rw [h.ids,List.mem_range] at hid
  exact Nat.lt_irrefl _ hid

theorem Kept.nodup_atHandler (h : Kept held owing s) : (atHandler s).Nodup :=
  h.nodup_deliveries.sublist h.handed.sublist

theorem Kept.record {origin : Option (Copy α)} (h : Kept [] origin.toList s) {body : α}
    (earliest : ℚ) (hbody : ∀ o ∈ origin, body = o.body) :
    Kept [⟨s.copies,body⟩] [] (record body earliest origin s) := by
  have hold : ∀ m ∈ s.made ++ [⟨⟨s.copies,body⟩,earliest,origin⟩], m.copy ∈ LocalQueue.places s →
      m ∈ s.made := by
    intro m hm hplace
    rcases List.mem_append.1 hm with hm | hm
    · exact hm
    · rw [List.mem_singleton.1 hm] at hplace
      exact absurd rfl (h.fresh hplace body)
  refine { h with
    ids := ?_
    places := ?_
    due := ?_
    ready := ?_
    onTime := ?_
    repeats := ?_
    sameBody := ?_ }
  · simp only [LocalQueue.record,List.map_append,h.ids,List.range_succ]
    rfl
  · simp only [LocalQueue.record,List.map_append]
    exact List.perm_append_comm.trans (h.places.append_right _)
  · exact fun m hm due hd => h.due m (hold m hm (mem_places.2 (.inl (List.mem_map_of_mem hd)))) due hd
  · exact fun m hm hp => h.ready m (hold m hm (mem_places.2 (.inr (.inl hp)))) hp
  · intro m hm time hd
    exact h.onTime m (hold m hm (mem_places.2 (.inr (.inr (List.mem_map_of_mem hd))))) time hd
  · have hretries := h.repeats
    simp only [repeated,LocalQueue.record,List.filterMap_append] at hretries ⊢
    cases origin <;> simpa [retries] using hretries
  · intro m hm o ho
    rcases List.mem_append.1 hm with hm | hm
    · exact h.sameBody m hm o ho
    · rw [List.mem_singleton.1 hm] at ho ⊢
      exact hbody o ho

theorem timeout_of_short {seconds : ℚ} (h : seconds * 1000 ≤ 2147483647) :
    timeout seconds = seconds := if_pos h

theorem Kept.enqueue {copy : Copy α} (h : Kept [copy] owing s) {delaySeconds : Option ℚ}
    (hearly : ∀ m ∈ s.made, m.copy = copy → m.earliest ≤ s.now + wait delaySeconds)
    (hshort : ∀ seconds ∈ delaySeconds, seconds * 1000 ≤ 2147483647) :
    Kept [] owing (enqueue copy delaySeconds s) := by
  have hplaces := h.places
  rw [LocalQueue.enqueue]
  split
  next hpos =>
    have hwait : wait delaySeconds = timeout (delaySeconds.getD 0) := by
      cases delaySeconds with
      | none => exact absurd hpos (lt_irrefl _)
      | some seconds =>
        rw [wait,max_eq_right hpos.le]
        exact (timeout_of_short (hshort seconds rfl)).symm
    refine { h with places := ?_, due := ?_ }
    · refine List.Perm.trans ?_ hplaces
      simp only [LocalQueue.places,List.map_append,List.map_singleton,List.nil_append,
        List.append_assoc]
      exact List.perm_middle
    · intro m hm due hd
      rcases List.mem_append.1 hd with hd | hd
      · exact h.due m hm due hd
      · obtain ⟨hcopy,rfl⟩ := Prod.mk.inj (List.mem_singleton.1 hd)
        rw [← hwait]
        exact hearly m hm hcopy
  next hpos =>
    have hwait : wait delaySeconds = 0 := max_eq_left (not_lt.1 hpos)
    refine { h with places := ?_, ready := ?_, live := fun _ => .inr rfl }
    · refine List.Perm.trans ?_ hplaces
      change (s.timers.map Prod.fst ++ (s.pending ++ [copy]) ++ deliveries s).Perm
        (copy :: (s.timers.map Prod.fst ++ s.pending ++ deliveries s))
      rw [← List.append_assoc,List.append_assoc _ [copy]]
      exact List.perm_middle
    · intro m hm hp
      rcases List.mem_append.1 hp with hp | hp
      · exact h.ready m hm hp
      · have hle := hearly m hm (List.mem_singleton.1 hp)
        rwa [hwait,add_zero] at hle

theorem Kept.make {origin : Option (Copy α)} (h : Kept [] origin.toList s) {body : α} {earliest : ℚ}
    {delaySeconds : Option ℚ} (hbody : ∀ o ∈ origin, body = o.body)
    (hearly : earliest ≤ s.now + wait delaySeconds)
    (hshort : ∀ seconds ∈ delaySeconds, seconds * 1000 ≤ 2147483647) :
    Kept [] [] (make body earliest origin delaySeconds s) := by
  refine (h.record earliest hbody).enqueue (fun m hm hcopy => ?_) hshort
  rcases List.mem_append.1 hm with hm | hm
  · have hplace := h.places.mem_iff.2 (List.mem_map_of_mem (f := Made.copy) hm)
    exact absurd hcopy (h.fresh hplace body)
  · rw [List.mem_singleton.1 hm]
    exact hearly

end invariant

section steps

variable {s : Queue α}

theorem Kept.drainLoop (h : Kept [] [] s) : Kept [] [] (drainLoop s) := by
  rw [LocalQueue.drainLoop]
  split
  next hnil =>
    exact { h with
      handed := List.nil_suffix
      settledAt := fun _ _ hm => absurd hm List.not_mem_nil
      busy := by simp
      live := fun hne => absurd hnil hne }
  next hne =>
    have hdeliveries : (s.delivered ++ (s.pending.take 100).map fun copy => (copy,s.now)).map
        Prod.fst = deliveries s ++ s.pending.take 100 := by
      simp [deliveries,Function.comp_def]
    have hhanded : ((s.pending.take 100).map fun copy => (copy,(none : Option Settlement))).map
        Prod.fst = s.pending.take 100 := by simp [Function.comp_def]
    refine { h with
      places := ?_
      ready := ?_
      onTime := ?_
      handed := ?_
      settledKnown := ?_
      settledAt := ?_
      busy := ?_
      live := fun _ => .inl rfl }
    · refine List.Perm.trans ?_ h.places
      have hsplit : (s.pending.drop 100 ++ (deliveries s ++ s.pending.take 100)).Perm
          (s.pending ++ deliveries s) := by
        rw [← List.append_assoc]
        refine List.perm_append_comm.trans ?_
        rw [← List.append_assoc,List.take_append_drop]
      simp only [LocalQueue.places,deliveries,List.nil_append,List.append_assoc]
        at hdeliveries hsplit ⊢
      rw [hdeliveries]
      exact hsplit.append_left _
    · exact fun m hm hp => h.ready m hm (List.mem_of_mem_drop hp)
    · intro m hm time hd
      rcases List.mem_append.1 hd with hd | hd
      · exact h.onTime m hm time hd
      · obtain ⟨copy,hcopy,heq⟩ := List.mem_map.1 hd
        obtain ⟨rfl,rfl⟩ := Prod.mk.inj heq
        exact h.ready m hm (List.mem_of_mem_take hcopy)
    · simp only [atHandler,deliveries] at hdeliveries ⊢
      rw [hdeliveries,hhanded]
      exact List.suffix_append _ _
    · intro copy hcopy
      simp only [deliveries] at hdeliveries ⊢
      rw [hdeliveries]
      exact List.mem_append_left _ (h.settledKnown copy hcopy)
    · intro copy settlement hm
      obtain ⟨other,hother,heq⟩ := List.mem_map.1 hm
      obtain ⟨rfl,rfl⟩ := Prod.mk.inj heq
      refine iff_of_true rfl fun hin => ?_
      exact h.not_delivered (.inr (List.mem_of_mem_take hother)) (h.settledKnown _ hin)
    · simpa using hne

theorem Kept.settle (h : Kept [] [] s) {i : Nat} {copy : Copy α}
    (hi : s.batch[i]? = some (copy,none)) (settlement : Settlement) :
    Kept [] (if settlement = .retried then [copy] else []) (settle settlement i copy s) := by
  obtain ⟨hlt,hget⟩ := List.getElem?_eq_some_iff.1 hi
  have hhandler : (s.batch.set i (copy,some settlement)).map Prod.fst = atHandler s := by
    have hi' : i < (atHandler s).length := by simpa [atHandler] using hlt
    have hself : (atHandler s)[i] = copy := by simp [atHandler,hget]
    rw [List.map_set]
    exact hself ▸ List.set_getElem_self _
  have hmem : (copy,none) ∈ s.batch := List.mem_of_getElem? hi
  have hunsettled := (h.settledAt _ _ hmem).1 rfl
  have hat : copy ∈ atHandler s := List.mem_map_of_mem hmem
  refine { h with
    handed := ?_
    settledKnown := ?_
    settledOnce := ?_
    settledAt := ?_
    repeats := ?_
    rejections := ?_
    busy := ?_ }
  · change (s.batch.set i (copy,some settlement)).map Prod.fst <:+ deliveries s
    exact hhandler ▸ h.handed
  · intro other hother
    simp only [LocalQueue.settle,List.map_append,List.mem_append,List.map_singleton,
      List.mem_singleton] at hother
    rcases hother with hother | rfl
    · exact h.settledKnown other hother
    · exact h.handed.subset hat
  · simp only [LocalQueue.settle,List.map_append,List.map_singleton]
    exact List.nodup_append.2 ⟨h.settledOnce,List.nodup_singleton _,fun a ha b hb hab =>
      hunsettled (by rwa [← List.mem_singleton.1 hb,← hab])⟩
  · intro other st hother
    have hnodup : ((s.batch.set i (copy,some settlement)).map Prod.fst).Nodup :=
      hhandler ▸ h.nodup_atHandler
    by_cases hsame : other = copy
    · have hnew : (copy,some settlement) ∈ s.batch.set i (copy,some settlement) :=
        List.mem_set hlt _
      have hpair := List.inj_on_of_nodup_map hnodup hother hnew hsame
      rw [(Prod.mk.inj hpair).2,hsame]
      simp [LocalQueue.settle]
    · rcases List.mem_or_eq_of_mem_set hother with hold | hnew
      · have hkept := h.settledAt other st hold
        simpa [LocalQueue.settle,hsame] using hkept
      · exact absurd (Prod.mk.inj hnew).1 hsame
  · have hretries := h.repeats
    simp only [List.append_nil] at hretries
    cases settlement <;> simp [repeated,retries,LocalQueue.settle] at hretries ⊢ <;> exact hretries
  · intro other hother
    simp only [LocalQueue.settle,List.map_append,List.mem_append]
    exact .inl (h.rejections other hother)
  · have hset : s.batch.set i (copy,some settlement) ≠ [] ↔ s.batch ≠ [] := by simp
    exact h.busy.trans hset.symm

theorem Kept.ack (h : Kept [] [] s) (i : Nat) : Kept [] [] (ack i s) := by
  rw [LocalQueue.ack]
  split
  next copy hi => exact h.settle hi .acked
  next => exact h

theorem Kept.retry (h : Kept [] [] s) (i : Nat) {delaySeconds : Option ℚ}
    (hshort : ∀ seconds ∈ delaySeconds, seconds * 1000 ≤ 2147483647) :
    Kept [] [] (retry delaySeconds i s) := by
  rw [LocalQueue.retry]
  split
  next copy hi =>
    exact Kept.make (h.settle hi .retried) (fun o ho => by rw [Option.some.inj ho]) le_rfl hshort
  next => exact h

theorem Kept.forAll {settle : Nat → Queue α → Queue α}
    (hsettle : ∀ i s, Kept [] [] s → Kept [] [] (settle i s)) (h : Kept [] [] s) :
    Kept [] [] (forAll settle s) := by
  rw [LocalQueue.forAll]
  generalize List.range s.batch.length = is
  induction is generalizing s with
  | nil => exact h
  | cons i is ih => exact ih (hsettle i s h)

theorem Kept.sendBatch {messages : List (α × Option ℚ)} {defaultSeconds : Option ℚ}
    (h : Kept [] [] s) (hmessages : ∀ message ∈ messages,
      (∀ seconds ∈ message.2, seconds * 1000 ≤ 2147483647) ∧
        (message.2 = none → wait defaultSeconds = 0)) :
    Kept [] [] (sendBatch messages defaultSeconds s) := by
  rw [LocalQueue.sendBatch]
  induction messages generalizing s with
  | nil => exact h
  | cons message messages ih =>
    obtain ⟨hshort,hdefault⟩ := hmessages message List.mem_cons_self
    have hearly : s.now + wait (message.2.or defaultSeconds) ≤ s.now + wait message.2 := by
      cases hown : message.2 with
      | none =>
        rw [Option.none_or,hdefault hown]
        exact add_le_add_right (le_max_left _ _) _
      | some seconds => rw [Option.some_or]
    exact ih (@Kept.make _ _ none h _ _ _ (fun o ho => by cases ho) hearly hshort)
      fun m hm => hmessages m (List.mem_cons_of_mem _ hm)

theorem Kept.reject (h : Kept [] [] s) (hall : ∀ message ∈ s.batch, message.2 ≠ none) :
    Kept [] [] (reject s) := by
  refine { h with
    handed := List.nil_suffix
    settledAt := ?_
    rejections := ?_
    busy := ?_
    live := ?_ }
  · exact fun _ _ hm => absurd hm List.not_mem_nil
  · intro copy hcopy
    rcases List.mem_append.1 hcopy with hcopy | hcopy
    · exact h.rejections copy hcopy
    · obtain ⟨⟨copy,settlement⟩,hm,rfl⟩ := List.mem_map.1 hcopy
      by_contra hno
      exact hall _ hm ((h.settledAt copy settlement hm).2 hno)
  · simp [LocalQueue.reject]
  · intro hne
    right
    simpa [LocalQueue.reject] using .inr hne

theorem Kept.fire (h : Kept [] [] s) {i : Nat} {copy : Copy α} {due : ℚ}
    (hi : s.timers[i]? = some (copy,due)) (hdue : due ≤ s.now) :
    Kept [] [] (LocalQueue.enqueue copy none { s with timers := s.timers.eraseIdx i }) := by
  obtain ⟨hlt,hget⟩ := List.getElem?_eq_some_iff.1 hi
  have hperm := List.getElem_cons_eraseIdx_perm hlt
  rw [hget] at hperm
  have herased : Kept [copy] [] { s with timers := s.timers.eraseIdx i } := by
    refine { h with places := ?_, due := ?_ }
    · refine List.Perm.trans ?_ h.places
      exact ((hperm.map Prod.fst).append_right _).append_right _
    · exact fun m hm d hd => h.due m hm d (List.mem_of_mem_eraseIdx hd)
  refine herased.enqueue (fun m hm hcopy => ?_) fun seconds hs => by cases hs
  have hearly : m.earliest ≤ due := h.due m hm due (hcopy ▸ List.mem_of_getElem? hi)
  have hwait : wait none = 0 := max_self 0
  rw [hwait,add_zero]
  exact hearly.trans hdue

theorem Kept.tick (h : Kept [] [] s) {seconds : ℚ} (hle : 0 ≤ seconds) :
    Kept [] [] { s with now := s.now + seconds } :=
  { h with ready := fun m hm hp => (h.ready m hm hp).trans (le_add_of_nonneg_right hle) }

theorem Kept.unscheduled (h : Kept [] [] s) (hlive : s.pending ≠ [] → s.draining = true) :
    Kept [] [] { s with drainScheduled := false } :=
  { h with live := fun hne => .inl (hlive hne) }

theorem Kept.drain (h : Kept [] [] s) : Kept [] [] (drain { s with drainScheduled := false }) := by
  rw [LocalQueue.drain]
  split
  next hdraining => exact h.unscheduled fun _ => hdraining
  next =>
    have hloop : LocalQueue.drainLoop { s with drainScheduled := false } =
        { LocalQueue.drainLoop s with drainScheduled := false } := by
      unfold LocalQueue.drainLoop
      split <;> rfl
    rw [hloop]
    refine h.drainLoop.unscheduled fun hne => ?_
    unfold LocalQueue.drainLoop at hne ⊢
    split at hne
    next hnil => exact absurd hnil hne
    next hsome => rw [if_neg hsome]

theorem kept_step {t : Queue α} {action : Action α} (h : Kept [] [] s)
    (hstep : step action s = some t) (hin : InContract s action) : Kept [] [] t := by
  cases action with
  | tick seconds =>
    obtain ⟨hle,ht⟩ := Option.ite_none_right_eq_some.1 hstep
    obtain rfl := Option.some.inj ht
    exact h.tick hle
  | send body delaySeconds =>
    obtain rfl := Option.some.inj hstep
    exact @Kept.make _ _ none h _ _ _ (fun o ho => by cases ho) le_rfl hin
  | sendBatch messages defaultSeconds =>
    obtain rfl := Option.some.inj hstep
    exact h.sendBatch hin
  | fire i =>
    simp only [step] at hstep
    split at hstep
    next copy due hi =>
      obtain ⟨hdue,ht⟩ := Option.ite_none_right_eq_some.1 hstep
      obtain rfl := Option.some.inj ht
      exact h.fire hi hdue
    next => cases hstep
  | microtask =>
    obtain ⟨_,ht⟩ := Option.ite_none_right_eq_some.1 hstep
    obtain rfl := Option.some.inj ht
    exact h.drain
  | ack i =>
    obtain ⟨_,ht⟩ := Option.ite_none_right_eq_some.1 hstep
    obtain rfl := Option.some.inj ht
    exact h.ack i
  | retry i delaySeconds =>
    obtain ⟨_,ht⟩ := Option.ite_none_right_eq_some.1 hstep
    obtain rfl := Option.some.inj ht
    exact h.retry i hin
  | ackAll =>
    obtain ⟨_,ht⟩ := Option.ite_none_right_eq_some.1 hstep
    obtain rfl := Option.some.inj ht
    exact h.forAll fun i s hs => hs.ack i
  | retryAll delaySeconds =>
    obtain ⟨_,ht⟩ := Option.ite_none_right_eq_some.1 hstep
    obtain rfl := Option.some.inj ht
    exact h.forAll fun i s hs => hs.retry i hin
  | returned =>
    obtain ⟨_,ht⟩ := Option.ite_none_right_eq_some.1 hstep
    obtain rfl := Option.some.inj ht
    exact h.drainLoop
  | rejected =>
    obtain ⟨_,ht⟩ := Option.ite_none_right_eq_some.1 hstep
    obtain rfl := Option.some.inj ht
    exact h.reject hin

theorem Kept.mem_repeated (h : Kept [] [] s) {copy : Copy α} :
    copy ∈ repeated s ↔ Owed s copy := by
  have hretries : repeated s = retries s := by simpa using h.repeats
  have hmem : copy ∈ retries s ↔ (copy,.retried) ∈ s.settled := by simp [retries]
  rw [hretries,hmem,Owed]
  refine ⟨.inl,fun hor => hor.elim id fun ⟨hrejected,hacked⟩ => ?_⟩
  obtain ⟨⟨copy,settlement⟩,hm,rfl⟩ := List.mem_map.1 (h.rejections copy hrejected)
  cases settlement with
  | acked => exact absurd hm hacked
  | retried => exact hm

theorem Kept.contract (h : Kept [] [] s) : Contract s where
  onTime := h.onTime
  once := h.nodup_deliveries
  known copy hcopy := h.places.mem_iff.1 (mem_places.2 (.inr (.inr hcopy)))
  again := by
    have hretries : repeated s = retries s := by simpa using h.repeats
    refine ⟨?_,fun copy => h.mem_repeated⟩
    rw [hretries]
    exact h.settledOnce.sublist (List.filter_sublist.map _)
  sameBody := h.sameBody
  settledOnce := h.settledOnce
  oneBatch := by
    refine ⟨h.nodup_atHandler,fun copy hcopy => ?_⟩
    have hdelivered := h.handed.subset hcopy
    exact ⟨fun hp => h.not_delivered (.inr hp) hdelivered,
      fun ht => h.not_delivered (.inl ht) hdelivered⟩
  kept m hm := mem_places.1 (h.places.mem_iff.2 (List.mem_map_of_mem hm))
  idle hidle m hm := by
    obtain ⟨htimers,hscheduled,hdraining⟩ := hidle
    have hpending : s.pending = [] := by
      by_contra hne
      rcases h.live hne with hd | hd
      · rw [hdraining] at hd
        cases hd
      · rw [hscheduled] at hd
        cases hd
    rcases mem_places.1 (h.places.mem_iff.2 (List.mem_map_of_mem hm)) with ht | hp | hd
    · rw [htimers] at ht
      cases ht
    · rw [hpending] at hp
      cases hp
    · exact hd

end steps

section results

theorem queue_contract (s : Queue α) (hs : (machine α).ReachesBy
    (fun s action _ => InContract s action) (Queue.start α) s) : Contract s := by
  have hkept : Kept [] [] s := hs.invariant kept_start fun _ _ _ h hstep hin => kept_step h hstep hin
  exact hkept.contract

def handed (body : ℕ) : Queue ℕ :=
  drain { send body none (Queue.start ℕ) with drainScheduled := false }

theorem reaches_handed (body : ℕ) : (machine ℕ).ReachesBy (fun s action _ => InContract s action)
    (Queue.start ℕ) (handed body) := by
  have hsent : (machine ℕ).step (.send body none) (Queue.start ℕ) =
      some (send body none (Queue.start ℕ)) := rfl
  have hdrained : (machine ℕ).step .microtask (send body none (Queue.start ℕ)) =
      some (handed body) := rfl
  exact ((Machine.ReachesBy.refl _).snoc hsent (by simp [InContract])).snoc hdrained trivial

instance (s : Queue α) : (action : Action α) → Decidable (InContract s action)
  | .send _ delaySeconds | .retry _ delaySeconds | .retryAll delaySeconds =>
    inferInstanceAs (Decidable (∀ seconds ∈ delaySeconds, seconds * 1000 ≤ 2147483647))
  | .sendBatch messages defaultSeconds =>
    inferInstanceAs (Decidable (∀ message ∈ messages,
      (∀ seconds ∈ message.2, seconds * 1000 ≤ 2147483647) ∧
        (message.2 = none → wait defaultSeconds = 0)))
  | .rejected => inferInstanceAs (Decidable (∀ message ∈ s.batch, message.2 ≠ none))
  | .tick _ | .fire _ | .microtask | .ack _ | .ackAll | .returned => isTrue trivial

def delayed : List (Action ℕ) :=
  [.sendBatch [(7,some 5),(8,some 0)] (some 60),.microtask,.retry 0 (some 3),.rejected,.tick 5,
    .fire 0,.fire 0,.microtask]

theorem queue_contract_retried : ∃ s, Contract s ∧ deliveries s = [⟨1,8⟩,⟨0,7⟩,⟨2,8⟩] := by
  have hrun : ((machine ℕ).runBy (fun s action _ => InContract s action) delayed
      (Queue.start ℕ)).map deliveries = some [⟨1,8⟩,⟨0,7⟩,⟨2,8⟩] := by decide +kernel
  obtain ⟨s,hs,hdeliveries⟩ := Option.map_eq_some_iff.mp hrun
  exact ⟨s,queue_contract s (Machine.reachesBy_of_runBy hs),hdeliveries⟩

def batched : Queue ℕ :=
  drain { sendBatch [(7,none)] (some 60) (Queue.start ℕ) with drainScheduled := false }

theorem contract_broken : (¬∀ s, (machine ℕ).Reaches (Queue.start ℕ) s → Contract s) ∧
    (machine ℕ).Reaches (Queue.start ℕ) batched ∧ ¬Contract batched ∧
    (machine ℕ).Reaches (Queue.start ℕ) (reject (handed 7)) ∧ ¬Contract (reject (handed 7)) := by
  have hbatched : (machine ℕ).Reaches (Queue.start ℕ) batched := by
    refine @Machine.Reaches.of_run _ _ _ _ _ [.sendBatch [(7,none)] (some 60),.microtask] ?_
    rfl
  have hrejected : (machine ℕ).Reaches (Queue.start ℕ) (reject (handed 7)) := by
    have hreject : (machine ℕ).step .rejected (handed 7) = some (reject (handed 7)) := rfl
    exact ((reaches_handed 7).mono fun _ _ _ _ => trivial).snoc hreject trivial
  have hearly : ¬Contract batched := by
    intro h
    have hle := h.onTime ⟨⟨0,7⟩,0 + wait (some 60),none⟩ (List.mem_singleton_self _) 0
      (List.mem_singleton_self _)
    norm_num [wait] at hle
  have hlost : ¬Contract (reject (handed 7)) := by
    intro h
    exact List.not_mem_nil ((h.again.2 ⟨0,7⟩).2 (.inr ⟨List.mem_singleton_self _,List.not_mem_nil⟩))
  exact ⟨fun h => hearly (h _ hbatched),hbatched,hearly,hrejected,hlost⟩

end results

end Yurucommu.LocalQueue
