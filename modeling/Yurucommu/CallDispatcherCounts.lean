import Yurucommu.CallDispatcher

/-!
The counters of the dispatcher are what the requests hold: each step of a request moves its slot and
its bytes, and nothing else.
-/

set_option autoImplicit false

namespace Yurucommu.CallDispatcher

def Phase.unsettled : Phase → Bool
  | .settled _ _ => false
  | _ => true

def Phase.reservation : Phase → Nat
  | .reading _ _ reserved | .cancelling reserved _ => reserved
  | .read _ bytes => bytes.length * liveBytesPerWireByte
  | .sending _ _ reservation | .admitted _ reservation | .delivering _ _ reservation => reservation
  | .refused _ | .reporting _ | .settled _ _ => 0

def Phase.Fits : Phase → Prop
  | .reading _ bytes reserved => reserved = bytes.length * liveBytesPerWireByte
  | _ => True

/-- The request goes from one phase to the next, and the counters with it. -/
structure Moves (c : Counters) (phase : Phase) (c' : Counters) (phase' : Phase) : Prop where
  jobs : c'.activeJobs + phase.unsettled.toNat = c.activeJobs + phase'.unsettled.toNat
  fewer : phase'.unsettled.toNat ≤ phase.unsettled.toNat
  bytes : c'.activeBytes + phase.reservation = c.activeBytes + phase'.reservation
  bound : c'.activeBytes ≤ maxLiveJobBytes
  clamped : c'.clamped = c.clamped
  fits : phase'.Fits

variable {c : Counters} {parseJob : List UInt8 → Option (Option CallRelayJob)} {phase : Phase}

theorem releaseBytes_eq {bytes : Nat} (h : (bytes : ℤ) ≤ c.activeBytes) :
    releaseBytes bytes c = { c with activeBytes := c.activeBytes - bytes } := by
  have hle : 0 ≤ c.activeBytes - bytes := by omega
  unfold releaseBytes
  rw [max_eq_right hle,decide_eq_false (not_lt.mpr hle),Bool.or_false]

theorem moves_release {next : Phase} (h : (phase.reservation : ℤ) ≤ c.activeBytes)
    (hbound : c.activeBytes ≤ maxLiveJobBytes) (hheld : phase.unsettled = true)
    (hnext : next.unsettled = true) (hfree : next.reservation = 0) (hfits : next.Fits) :
    Moves c phase (releaseBytes phase.reservation c) next := by
  rw [releaseBytes_eq h]
  refine ⟨?_,?_,?_,?_,rfl,hfits⟩
  · rw [hheld,hnext]
  · rw [hheld,hnext]
  · simp only [hfree]
    omega
  · dsimp only
    omega

theorem moves_finish {status : Nat} {result : Option Outcome}
    (h : (phase.reservation : ℤ) ≤ c.activeBytes) (hbound : c.activeBytes ≤ maxLiveJobBytes)
    (hheld : phase.unsettled = true) :
    Moves c phase (finish phase.reservation status result c).1
      (finish phase.reservation status result c).2 := by
  have hrelease : (if 0 < phase.reservation then releaseBytes phase.reservation c else c) =
      { c with activeBytes := c.activeBytes - phase.reservation } := by
    split
    · exact releaseBytes_eq h
    · have hzero : phase.reservation = 0 := by omega
      rw [hzero,Nat.cast_zero,sub_zero]
  unfold finish
  rw [hrelease]
  refine ⟨?_,?_,?_,?_,rfl,trivial⟩
  · rw [hheld]
    simp [releaseJob,Phase.unsettled]
  · simp [Phase.unsettled]
  · simp [releaseJob,Phase.reservation]
  · simp only [releaseJob]
    omega

theorem moves_readChunk {request : Request} {bytes value : List UInt8} {reserved : Nat}
    {allocates : Bool} (hfits : reserved = bytes.length * liveBytesPerWireByte)
    (hbound : c.activeBytes ≤ maxLiveJobBytes) (h : (reserved : ℤ) ≤ c.activeBytes) :
    Moves c (.reading request bytes reserved) (readChunk request bytes reserved value allocates c).1
      (readChunk request bytes reserved value allocates c).2 := by
  unfold readChunk
  dsimp only
  split
  · exact ⟨rfl,le_refl _,rfl,hbound,rfl,trivial⟩
  · split
    · exact ⟨rfl,le_refl _,rfl,hbound,rfl,trivial⟩
    · rename_i hfull
      generalize hnext : (bytes.length + value.length) * liveBytesPerWireByte = next at hfull ⊢
      have hmore : reserved ≤ next := by
        rw [hfits,← hnext]
        exact Nat.mul_le_mul_right _ (Nat.le_add_right _ _)
      split
      · refine ⟨rfl,le_refl _,?_,by dsimp only; omega,rfl,?_⟩
        · simp only [Phase.reservation]
          omega
        · rw [Phase.Fits,List.length_append,hnext]
      · rw [releaseBytes_eq (by dsimp only; omega)]
        refine ⟨rfl,le_refl _,?_,by dsimp only; omega,rfl,trivial⟩
        simp only [Phase.reservation]
        omega

theorem moves_accept {request : Request} {bytes : List UInt8} {clock before : Clock} {waits : Bool}
    (h : ((Phase.read request bytes).reservation : ℤ) ≤ c.activeBytes)
    (hbound : c.activeBytes ≤ maxLiveJobBytes) :
    Moves c (.read request bytes) (accept parseJob request bytes clock before waits c).1
      (accept parseJob request bytes clock before waits c).2 := by
  have hrefused : Moves c (.read request bytes)
      (finish (bytes.length * liveBytesPerWireByte) 400 none c).1
      (finish (bytes.length * liveBytesPerWireByte) 400 none c).2 :=
    @moves_finish _ (.read request bytes) _ _ h hbound rfl
  unfold accept
  dsimp only
  split
  · split
    · exact hrefused
    · split
      · exact ⟨rfl,le_refl _,rfl,hbound,rfl,trivial⟩
      · split
        · exact ⟨rfl,le_refl _,rfl,hbound,rfl,trivial⟩
        · exact hrefused
  · exact hrefused

theorem moves_resume {answer : Answer} {next : Counters × Phase} (hfits : phase.Fits)
    (h : (phase.reservation : ℤ) ≤ c.activeBytes) (hbound : c.activeBytes ≤ maxLiveJobBytes)
    (hstep : resume parseJob phase answer c = some next) : Moves c phase next.1 next.2 := by
  cases phase with
  | settled status result => cases answer <;> cases hstep
  | reading request bytes reserved =>
    cases answer with
    | goes | sent => cases hstep
    | chunk value allocates =>
      obtain rfl := Option.some.inj hstep
      exact moves_readChunk hfits hbound h
    | fails =>
      obtain rfl := Option.some.inj hstep
      exact moves_release h hbound rfl rfl rfl trivial
    | done =>
      obtain rfl := Option.some.inj hstep
      split
      · exact moves_release h hbound rfl rfl rfl trivial
      · refine ⟨rfl,le_refl _,?_,hbound,rfl,trivial⟩
        simp only [Phase.reservation]
        rw [show reserved = bytes.length * liveBytesPerWireByte from hfits]
  | cancelling reserved status =>
    cases answer with
    | chunk | done | fails | sent => cases hstep
    | goes =>
      obtain rfl := Option.some.inj hstep
      exact moves_release h hbound rfl rfl rfl trivial
  | refused status =>
    cases answer with
    | chunk | done | fails | sent => cases hstep
    | goes =>
      obtain rfl := Option.some.inj hstep
      exact @moves_finish _ (.refused status) _ _ h hbound rfl
  | read request bytes =>
    cases answer with
    | chunk | done | fails | sent => cases hstep
    | goes =>
      obtain rfl := Option.some.inj hstep
      exact moves_accept h hbound
  | sending job before reservation =>
    cases answer with
    | chunk | done | fails | goes => cases hstep
    | sent =>
      obtain rfl := Option.some.inj hstep
      exact @moves_finish _ (.sending job before reservation) _ _ h hbound rfl
  | admitted job reservation =>
    cases answer with
    | chunk | done | fails | sent => cases hstep
    | goes =>
      obtain rfl := Option.some.inj hstep
      exact ⟨rfl,le_refl _,rfl,hbound,rfl,trivial⟩
  | delivering job before reservation =>
    cases answer with
    | chunk | done | fails | goes => cases hstep
    | sent =>
      obtain rfl := Option.some.inj hstep
      exact @moves_release _ (.delivering job before reservation) _ h hbound rfl rfl rfl trivial
  | reporting outcome =>
    cases answer with
    | chunk | done | fails | sent => cases hstep
    | goes =>
      obtain rfl := Option.some.inj hstep
      refine ⟨?_,?_,rfl,hbound,rfl,trivial⟩
      · simp [releaseJob,Phase.unsettled]
      · simp [Phase.unsettled]

theorem fetch_spec (request : Request) (h : c.activeJobs ≤ maxActiveJobs) :
    (fetch request c).1.activeJobs = c.activeJobs + (fetch request c).2.unsettled.toNat ∧
      (fetch request c).1.activeJobs ≤ maxActiveJobs ∧
      (fetch request c).1.activeBytes = c.activeBytes ∧
      (fetch request c).1.clamped = c.clamped ∧ (fetch request c).2.reservation = 0 ∧
      (fetch request c).2.Fits := by
  unfold fetch
  split
  · simp [Phase.unsettled,Phase.reservation,Phase.Fits,h]
  · split
    · simp [Phase.unsettled,Phase.reservation,Phase.Fits,h]
    · split
      · simp [Phase.unsettled,Phase.reservation,Phase.Fits,h]
      · rename_i hfree
        have hmore : c.activeJobs + 1 ≤ maxActiveJobs := by omega
        split
        · exact ⟨rfl,hmore,rfl,rfl,rfl,trivial⟩
        · exact ⟨rfl,hmore,rfl,rfl,rfl,rfl⟩

section sums

variable {α : Type} {f : α → Nat} {l : List α} {i : Nat} {a b : α}

theorem le_sum_of_getElem? (h : l[i]? = some a) : f a ≤ (l.map f).sum :=
  List.single_le_sum (fun _ _ => Nat.zero_le _) _
    (List.mem_map_of_mem (List.mem_of_getElem? h))

theorem sum_map_set (h : l[i]? = some a) :
    ((l.set i b).map f).sum + f a = (l.map f).sum + f b := by
  induction l generalizing i with
  | nil => cases h
  | cons c l ih =>
    cases i with
    | zero =>
      obtain rfl := Option.some.inj h
      simp only [List.set_cons_zero,List.map_cons,List.sum_cons]
      omega
    | succ i =>
      have hrest := ih (i := i) h
      simp only [List.set_cons_succ,List.map_cons,List.sum_cons]
      omega

theorem sum_toNat (p : α → Bool) (l : List α) :
    (l.map fun a => (p a).toNat).sum = (l.filter p).length := by
  induction l with
  | nil => rfl
  | cons a l ih =>
    rw [List.map_cons,List.sum_cons,ih,List.filter_cons]
    cases p a with
    | true => simp [Nat.add_comm]
    | false => simp

end sums

/-- The counters are what the requests hold, within their limits. -/
structure Counted (s : State) : Prop where
  jobs : s.counters.activeJobs = ((s.requests.map fun p => p.unsettled.toNat).sum : Nat)
  few : s.counters.activeJobs ≤ maxActiveJobs
  bytes : s.counters.activeBytes = ((s.requests.map (·.reservation)).sum : Nat)
  small : s.counters.activeBytes ≤ maxLiveJobBytes
  clamped : s.counters.clamped = false
  fits : ∀ p ∈ s.requests, p.Fits

theorem counted_start : Counted start :=
  ⟨rfl,by decide,rfl,by decide,rfl,fun _ h => (by cases h)⟩

theorem counted_step {s t : State} {l : Label} (h : Counted s)
    (hstep : (machine parseJob).step l s = some t) : Counted t := by
  cases l with
  | fetch request =>
    obtain rfl := Option.some.inj hstep
    obtain ⟨hjobs,hfew,hbytes,hclamped,hfree,hfits⟩ := fetch_spec request h.few
    refine ⟨?_,hfew,?_,?_,hclamped.trans h.clamped,?_⟩
    · rw [hjobs,h.jobs]
      simp
    · rw [hbytes,h.bytes]
      simp [hfree]
    · rw [hbytes]
      exact h.small
    · intro p hp
      rcases List.mem_append.mp hp with hp | hp
      · exact h.fits p hp
      · rw [List.mem_singleton.mp hp]
        exact hfits
  | resume i answer =>
    obtain ⟨phase,hphase,hstep⟩ := Option.bind_eq_some_iff.mp hstep
    obtain ⟨next,hnext,rfl⟩ := Option.map_eq_some_iff.mp hstep
    have hheld : (phase.reservation : ℤ) ≤ s.counters.activeBytes := by
      rw [h.bytes]
      exact_mod_cast le_sum_of_getElem? hphase
    have hmoves := moves_resume (h.fits phase (List.mem_of_getElem? hphase)) hheld h.small hnext
    have hslots := @sum_map_set _ (fun p : Phase => p.unsettled.toNat) _ _ phase next.2 hphase
    have hreserved := @sum_map_set _ (fun p : Phase => p.reservation) _ _ phase next.2 hphase
    have hjobs := hmoves.jobs
    have hbytes := hmoves.bytes
    have hfewer := hmoves.fewer
    have hcounted := h.jobs
    have hsummed := h.bytes
    refine ⟨?_,?_,?_,hmoves.bound,hmoves.clamped.trans h.clamped,fun p hp => ?_⟩
    · dsimp only
      omega
    · have hfew := h.few
      dsimp only
      omega
    · dsimp only
      omega
    · rcases List.mem_or_eq_of_mem_set hp with hp | rfl
      · exact h.fits p hp
      · exact hmoves.fits

/-- In every run the counters of the dispatcher are the jobs that are admitted and not settled, and
the bytes that they hold; both stay within their limits, no release is clamped, and behind the last
request both are zero. -/
theorem dispatcher_accounts (parseJob : List UInt8 → Option (Option CallRelayJob)) {s : State}
    (h : (machine parseJob).Reaches start s) :
    s.counters.activeJobs = (s.requests.filter (·.unsettled)).length ∧
      s.counters.activeJobs ≤ maxActiveJobs ∧
      s.counters.activeBytes = ((s.requests.map (·.reservation)).sum : Nat) ∧
      s.counters.activeBytes ≤ maxLiveJobBytes ∧
      s.counters.clamped = false ∧
      ((∀ p ∈ s.requests, p.unsettled = false) →
        s.counters.activeJobs = 0 ∧ s.counters.activeBytes = 0) := by
  have hcounted : Counted s := h.invariant counted_start fun _ _ _ ha hl _ => counted_step ha hl
  have hjobs := hcounted.jobs
  rw [sum_toNat] at hjobs
  refine ⟨hjobs,hcounted.few,hcounted.bytes,hcounted.small,hcounted.clamped,fun hall => ?_⟩
  have hnone : s.requests.filter (·.unsettled) = [] := by
    rw [List.filter_eq_nil_iff]
    intro p hp
    simp [hall p hp]
  have hfree : ∀ p ∈ s.requests, p.reservation = 0 := by
    intro p hp
    have hsettled := hall p hp
    cases p with
    | settled => rfl
    | _ => cases hsettled
  refine ⟨by rw [hjobs,hnone]; rfl,?_⟩
  rw [hcounted.bytes,List.sum_eq_zero]
  · rfl
  · intro n hn
    obtain ⟨p,hp,rfl⟩ := List.mem_map.mp hn
    exact hfree p hp

section dispatched

def relayJob : CallRelayJob := ⟨some 1000,some 0,some 30000⟩

def dispatchRequest : Request := ⟨"/_dispatch","POST",none,.stream⟩

/-- A job of one byte that is read, admitted, sent and reported, and a second one on the way. -/
def dispatchedRun : List Label :=
  [.fetch dispatchRequest,.resume 0 (.chunk [1] true),.fetch dispatchRequest,
    .resume 0 .done,.resume 1 (.chunk [1] true),
    .resume 0 (.goes (.reads (some 0)) (.reads (some 0)) true),
    .resume 0 (.goes (.reads (some 0)) (.reads (some 0)) true),
    .resume 0 (.sent ⟨true,false,.reads (some 1)⟩),
    .resume 0 (.goes (.reads (some 1)) (.reads (some 1)) true)]

def dispatched : State :=
  ((machine fun _ => some (some relayJob)).run dispatchedRun start).getD start

theorem dispatcher_accounts_dispatched :
    dispatched.requests.map (·.reservation) = [0,4] ∧
      dispatched.counters.activeJobs = (dispatched.requests.filter (·.unsettled)).length :=
  ⟨by decide +kernel,
    (dispatcher_accounts (fun _ => some (some relayJob))
      (Machine.reaches_run (by decide +kernel))).1⟩

end dispatched

end Yurucommu.CallDispatcher
