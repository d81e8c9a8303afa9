import Yurucommu.Bulkhead

/-!
When the limits of the bulkhead are hard: exactly in the runs in which no waiting task is
robbed of the unit it was woken for.
-/

set_option autoImplicit false

namespace Yurucommu.Bulkhead

section counts

variable {sem sem' : Semaphore} {limit : Int} {has : Task → Bool} {thread : Nat → Task}
  {p : Nat} {y : Task}

def Counts (sem : Semaphore) (limit : Int) (has : Task → Bool) (thread : Nat → Task) : Prop :=
  ∃ units : Finset Nat, (∀ p, p ∈ units ↔ has (thread p) = true) ∧
    sem.available + units.card = limit

theorem Counts.same (h : Counts sem limit has thread) (hy : has y = has (thread p))
    (ha : sem'.available = sem.available) :
    Counts sem' limit has (Function.update thread p y) := by
  obtain ⟨units,hu,hc⟩ := h
  refine ⟨units,fun q => ?_,by rw [ha]; exact hc⟩
  by_cases hq : q = p
  · subst hq
    rw [Function.update_self,hy]
    exact hu q
  · rw [Function.update_of_ne hq]
    exact hu q

theorem Counts.take (h : Counts sem limit has thread) (hp : has (thread p) = false)
    (hy : has y = true) (ha : sem'.available = sem.available - 1) :
    Counts sem' limit has (Function.update thread p y) := by
  obtain ⟨units,hu,hc⟩ := h
  have hnot : p ∉ units := by
    rw [hu,hp]
    decide
  refine ⟨insert p units,fun q => ?_,?_⟩
  · by_cases hq : q = p
    · subst hq
      simp [hy]
    · rw [Function.update_of_ne hq,Finset.mem_insert,← hu q]
      simp [hq]
  · rw [Finset.card_insert_of_notMem hnot,ha]
    push_cast
    omega

theorem Counts.give (h : Counts sem limit has thread) (hp : has (thread p) = true)
    (hy : has y = false) (ha : sem'.available = sem.available + 1) :
    Counts sem' limit has (Function.update thread p y) := by
  obtain ⟨units,hu,hc⟩ := h
  have hmem : p ∈ units := (hu p).mpr hp
  refine ⟨units.erase p,fun q => ?_,?_⟩
  · by_cases hq : q = p
    · subst hq
      simp [hy]
    · rw [Function.update_of_ne hq,Finset.mem_erase,← hu q]
      simp [hq]
  · have hcard := Finset.card_erase_add_one hmem
    omega

theorem Counts.card_le (h : Counts sem limit has thread) (ha : 0 ≤ sem.available)
    {tasks : Finset Nat} (ht : ∀ p ∈ tasks, has (thread p) = true) :
    (tasks.card : Int) ≤ limit := by
  obtain ⟨units,hu,hc⟩ := h
  have hle : tasks.card ≤ units.card :=
    Finset.card_le_card fun p hp => (hu p).mpr (ht p hp)
  omega

theorem Counts.back (h : Counts sem limit has thread) (ht : ∀ p, has (thread p) = false) :
    sem.available = limit := by
  obtain ⟨units,hu,hc⟩ := h
  have hnone : units = ∅ := by
    refine Finset.eq_empty_of_forall_notMem fun p hp => ?_
    rw [hu,ht p] at hp
    cases hp
  rw [hnone] at hc
  simpa using hc

end counts

variable {g h : Int} {s t : Pool} {p : Nat} {i : String}

@[simp] theorem available_release (sem : Semaphore) :
    sem.release.available = sem.available + 1 := rfl

@[simp] theorem available_resume (p : Nat) (sem : Semaphore) :
    (sem.resume p).available = sem.available - 1 := rfl

theorem acquire_cases (p : Nat) (sem : Semaphore) :
    0 < sem.available ∧ (sem.acquire p).2 = true ∧
        (sem.acquire p).1.available = sem.available - 1 ∨
      (sem.acquire p).2 = false ∧ (sem.acquire p).1.available = sem.available := by
  unfold Semaphore.acquire
  split
  · exact .inl ⟨‹_›,rfl,rfl⟩
  · exact .inr ⟨rfl,rfl⟩

theorem host_setHost {s : Store} {host x : String} {sem : Semaphore} :
    (s.setHost host sem).host x = if x = host then sem else s.host x := by
  unfold Store.setHost Store.host
  by_cases hx : x = host
  · subst hx
    simp
  · simp [hx]

structure Counted (g h : Int) (s : Pool) : Prop where
  limit : s.store.perHostLimit = h
  global : Counts s.store.global g Task.hasGlobal s.thread
  host : ∀ x, Counts (s.store.host x) h (Task.hasHost x) s.thread
  present : ∀ x, (∃ p, (s.thread p).hasHost x = true) → (s.store.perHost x).isSome

theorem Counted.start : Counted g h (start g h) where
  limit := rfl
  global := ⟨∅,fun p => by simp [Bulkhead.start,Task.hasGlobal],
    by simp [Bulkhead.start,Semaphore.new]⟩
  host x := ⟨∅,fun p => by simp [Bulkhead.start,Task.hasHost],
    by simp [Bulkhead.start,Store.host,Semaphore.new]⟩
  present x hx := by
    obtain ⟨p,hp⟩ := hx
    simp [Bulkhead.start,Task.hasHost] at hp

theorem Counted.hosts (hs : Counted g h s) {y : Task}
    (hy : ∀ x, y.hasHost x = (s.thread p).hasHost x) {store : Store}
    (hp : store.perHost = s.store.perHost)
    (hl : store.perHostLimit = s.store.perHostLimit)
    (hglobal : Counts store.global g Task.hasGlobal (Function.update s.thread p y)) :
    Counted g h ⟨store,Function.update s.thread p y⟩ where
  limit := hl.trans hs.limit
  global := hglobal
  host x := by
    have hsem : store.host x = s.store.host x := by
      unfold Store.host
      rw [hp,hl]
    exact (hs.host x).same (hy x) (by rw [hsem])
  present x hx := by
    obtain ⟨q,hq⟩ := hx
    simp only [hp]
    refine hs.present x ⟨q,?_⟩
    by_cases hqp : q = p
    · subst hqp
      rw [← hy x]
      simpa using hq
    · simpa [Function.update_of_ne hqp] using hq

theorem Counted.setHost (hs : Counted g h s) {y : Task} {host : String} {sem global : Semaphore}
    (hy : ∀ x, x ≠ host → y.hasHost x = (s.thread p).hasHost x)
    (hhost : Counts sem h (Task.hasHost host) (Function.update s.thread p y))
    (hglobal : Counts global g Task.hasGlobal (Function.update s.thread p y)) :
    Counted g h ⟨{ s.store.setHost host sem with global := global },
      Function.update s.thread p y⟩ where
  limit := hs.limit
  global := hglobal
  host x := by
    have hsem : ({ s.store.setHost host sem with global := global } : Store).host x =
        if x = host then sem else s.store.host x := host_setHost
    simp only [hsem]
    by_cases hx : x = host
    · subst hx
      rw [if_pos rfl]
      exact hhost
    · rw [if_neg hx]
      exact (hs.host x).same (hy x hx) rfl
  present x hx := by
    by_cases hxh : x = host
    · subst hxh
      simp [Store.setHost]
    · simp only [Store.setHost,Function.update_of_ne hxh]
      obtain ⟨q,hq⟩ := hx
      refine hs.present x ⟨q,?_⟩
      by_cases hqp : q = p
      · subst hqp
        rw [← hy x hxh]
        simpa using hq
      · simpa [Function.update_of_ne hqp] using hq

theorem Counted.step (hs : Counted g h s) {l : Label} (hl : machine.step l s = some t) :
    Counted g h t := by
  cases l with
  | env e => exact nomatch e
  | act p i =>
    obtain ⟨_,rfl⟩ := step_task.mp hl
    cases hth : s.thread p with
    | idle =>
      rcases acquire_cases p s.store.global with ⟨_,hb,ha⟩ | ⟨hb,ha⟩
      · simp only [work,hb,if_true]
        refine hs.hosts (fun x => ?_) rfl rfl ?_
        · rw [hth]
          rfl
        · exact hs.global.take (by rw [hth]; rfl) rfl ha
      · simp only [work,hb,Bool.false_eq_true,if_false]
        refine hs.hosts (fun x => ?_) rfl rfl ?_
        · rw [hth]
          rfl
        · exact hs.global.same (by rw [hth]; rfl) ha
    | globalWait host =>
      refine hs.hosts (fun x => ?_) rfl rfl ?_
      · rw [hth]
        rfl
      · exact hs.global.take (by rw [hth]; rfl) rfl rfl
    | globalHeld host =>
      rcases acquire_cases p (s.store.host host) with ⟨_,hb,ha⟩ | ⟨hb,ha⟩
      · simp only [work,hb,if_true]
        refine hs.setHost (fun x hx => ?_) ?_ ?_
        · rw [hth]
          simpa [Task.hasHost] using Ne.symm hx
        · exact (hs.host host).take (by rw [hth]; rfl) (by simp [Task.hasHost]) ha
        · exact hs.global.same (by rw [hth]; rfl) rfl
      · simp only [work,hb,Bool.false_eq_true,if_false]
        refine hs.setHost (fun x hx => ?_) ?_ ?_
        · rw [hth]
          rfl
        · exact (hs.host host).same (by rw [hth]; rfl) ha
        · exact hs.global.same (by rw [hth]; rfl) rfl
    | hostWait host =>
      change Counted g h ⟨{ s.store.setHost host ((s.store.host host).resume p) with
        global := s.store.global },Function.update s.thread p (.hostHeld host)⟩
      refine hs.setHost (fun x hx => ?_) ?_ ?_
      · rw [hth]
        simpa [Task.hasHost] using Ne.symm hx
      · exact (hs.host host).take (by rw [hth]; rfl) (by simp [Task.hasHost]) rfl
      · exact hs.global.same (by rw [hth]; rfl) rfl
    | hostHeld host =>
      refine hs.hosts (fun x => ?_) rfl rfl ?_
      · rw [hth]
        rfl
      · exact hs.global.same (by rw [hth]; rfl) rfl
    | holding host =>
      have hpresent : (s.store.perHost host).isSome := by
        refine hs.present host ⟨p,?_⟩
        rw [hth]
        simp [Task.hasHost]
      obtain ⟨sem,hsem⟩ := Option.isSome_iff_exists.mp hpresent
      have hhost : s.store.host host = sem := by simp [Store.host,hsem]
      simp only [work,Bulkhead.release,hsem]
      refine hs.setHost (fun x hx => ?_) ?_ ?_
      · rw [hth]
        simpa [Task.hasHost] using Ne.symm hx
      · rw [← hhost]
        exact (hs.host host).give (by rw [hth]; simp [Task.hasHost]) rfl rfl
      · exact hs.global.give (by rw [hth]; rfl) rfl rfl

def Available (s : Pool) : Prop :=
  0 ≤ s.store.global.available ∧ ∀ host, 0 ≤ (s.store.host host).available

theorem Counted.within (hs : Counted g h s) (ha : Available s) : Within g h s where
  total tasks ht := by
    refine hs.global.card_le ha.1 fun p hp => ?_
    obtain ⟨host,hhost⟩ := ht p hp
    rw [hhost]
    rfl
  perHost host tasks ht := by
    refine (hs.host host).card_le (ha.2 host) fun p hp => ?_
    rw [ht p hp]
    simp [Task.hasHost]
  global := ha.1
  host := ha.2
  globalBack := hs.global.back
  hostBack host := (hs.host host).back

/-- A step takes a unit that is not there only when it robs a waiting task. -/
theorem Available.step (ha : Available s) (hl : machine.step (.act p i) s = some t) :
    Available t ↔ ¬Robbed p s := by
  obtain ⟨_,rfl⟩ := step_task.mp hl
  cases hth : s.thread p with
  | idle =>
    have hnot : ¬Robbed p s := by
      simp [Robbed,hth]
    refine ⟨fun _ => hnot,fun _ => ⟨?_,ha.2⟩⟩
    have hg := ha.1
    rcases acquire_cases p s.store.global with ⟨hpos,_,heq⟩ | ⟨_,heq⟩
    · simp only [work,heq]
      omega
    · simp only [work,heq]
      exact hg
  | globalWait host =>
    have hg := ha.1
    have hrob : Robbed p s ↔ s.store.global.available ≤ 0 := by simp [Robbed,hth]
    rw [hrob]
    constructor
    · intro h
      have hnew := h.1
      simp only [work,available_resume] at hnew
      omega
    · intro h
      refine ⟨?_,ha.2⟩
      simp only [work,available_resume]
      omega
  | globalHeld host =>
    have hnot : ¬Robbed p s := by simp [Robbed,hth]
    refine ⟨fun _ => hnot,fun _ => ⟨ha.1,fun x => ?_⟩⟩
    simp only [work,host_setHost]
    have hx := ha.2 x
    split
    · have hh := ha.2 host
      rcases acquire_cases p (s.store.host host) with ⟨hpos,_,heq⟩ | ⟨_,heq⟩
      · rw [heq]
        omega
      · rw [heq]
        exact hh
    · exact hx
  | hostWait host =>
    have hrob : Robbed p s ↔ (s.store.host host).available ≤ 0 := by simp [Robbed,hth]
    rw [hrob]
    constructor
    · intro h
      have hnew := h.2 host
      simp only [work,host_setHost,if_true,available_resume] at hnew
      omega
    · intro h
      refine ⟨ha.1,fun x => ?_⟩
      simp only [work,host_setHost]
      split
      · rw [available_resume]
        omega
      · exact ha.2 x
  | hostHeld host =>
    have hnot : ¬Robbed p s := by simp [Robbed,hth]
    exact ⟨fun _ => hnot,fun _ => ha⟩
  | holding host =>
    have hnot : ¬Robbed p s := by simp [Robbed,hth]
    refine ⟨fun _ => hnot,fun _ => ?_⟩
    have hg := ha.1
    have hrel : (work i p s.store (.holding host)).1.global.available =
        s.store.global.available + 1 := by
      simp only [work,Bulkhead.release]
      split <;> rfl
    refine ⟨by rw [hrel]; omega,fun x => ?_⟩
    have hx := ha.2 x
    cases hsem : s.store.perHost host with
    | none =>
      have hsame : (work i p s.store (.holding host)).1.host x = s.store.host x := by
        simp only [work,Bulkhead.release,hsem]
        rfl
      rw [hsame]
      exact hx
    | some sem =>
      have hhost : s.store.host host = sem := by simp [Store.host,hsem]
      have hnew : (work i p s.store (.holding host)).1.host x =
          if x = host then sem.release else s.store.host x := by
        simp only [work,Bulkhead.release,hsem]
        exact host_setHost
      rw [hnew]
      split
      · rename_i heq
        rw [heq,hhost] at hx
        rw [available_release]
        omega
      · exact hx

/-- The limits are hard in exactly the runs in which no waiting task is robbed. -/
theorem hard_limits_iff (hg : 1 ≤ g) (hh : 1 ≤ h) (ls : List Label) :
    HardLimits g h ls ↔ Undisturbed g h ls := by
  have hcounted : ∀ as s, machine.run as (start g h) = some s → Counted g h s := fun as s hr =>
    Machine.run_invariant Counted.start (fun _ _ _ hs hl => hs.step hl) hr
  constructor
  · intro hlim as p i bs s t hls hr hl
    have hs : Within g h s := hlim as (.act p i :: bs) s hls hr
    have ht : Within g h t :=
      hlim (as ++ [.act p i]) bs t (by rw [hls,List.append_assoc]; rfl) (Machine.run_snoc hr hl)
    exact (Available.step ⟨hs.global,hs.host⟩ hl).mp ⟨ht.global,ht.host⟩
  · intro hun as bs s hls hr
    refine (hcounted as s hr).within ?_
    have hstart : Available (start g h) := by
      refine ⟨by simp only [start,Semaphore.new]; omega,fun x => ?_⟩
      simp only [start,Store.host,Option.getD_none,Semaphore.new]
      omega
    have hby : machine.ReachesBy (fun a l b => ∃ p i, l = .act p i ∧ ¬Robbed p a) (start g h) s := by
      refine Machine.run_reachesBy (fun cs k ds u v he hu hv => ?_) hr
      cases k with
      | env e => exact nomatch e
      | act p i => exact ⟨p,i,rfl,hun cs p i (ds ++ bs) u v (by rw [hls,he]; simp) hu hv⟩
    refine hby.invariant hstart fun a l b ha hl hn => ?_
    obtain ⟨p,i,rfl,hn⟩ := hn
    exact (ha.step hl).mpr hn

/-- Task 1 waits for task 0, and goes on before anyone else asks. -/
def politeRun : List Label :=
  [.act 0 "a.example", .act 0 "a.example", .act 0 "a.example", .act 1 "b.example",
    .act 0 "a.example", .act 1 "b.example", .act 2 "c.example"]

theorem hard_limits_iff_polite : HardLimits 1 1 politeRun ↔ Undisturbed 1 1 politeRun :=
  hard_limits_iff (by decide) (by decide) politeRun

/-- Task 2 asks after task 0 has woken task 1 and before task 1 goes on. -/
def bargingRun : List Label :=
  [.act 0 "a.example", .act 0 "a.example", .act 0 "a.example", .act 1 "b.example",
    .act 0 "a.example", .act 2 "c.example", .act 1 "b.example", .act 1 "b.example",
    .act 1 "b.example", .act 2 "c.example", .act 2 "c.example"]

/-- Two tasks hold a bulkhead of one. -/
theorem barging_breaks_limits : ¬∀ g h ls, 1 ≤ g → 1 ≤ h → HardLimits g h ls := by
  intro h
  have hrun : ((machine.run bargingRun (start 1 1)).map fun s => (s.thread 1,s.thread 2)) =
      some (.holding "b.example",.holding "c.example") := by decide
  obtain ⟨s,hs,hth⟩ := Option.map_eq_some_iff.mp hrun
  have hwithin := h 1 1 bargingRun (by decide) (by decide) bargingRun [] s
    (List.append_nil _).symm hs
  have hle := hwithin.total {1,2} fun p hp => by
    rcases Finset.mem_insert.mp hp with rfl | hp
    · exact ⟨_,congrArg Prod.fst hth⟩
    · rw [Finset.mem_singleton.mp hp]
      exact ⟨_,congrArg Prod.snd hth⟩
  simp at hle

end Yurucommu.Bulkhead
