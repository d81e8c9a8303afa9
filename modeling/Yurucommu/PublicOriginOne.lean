import Yurucommu.PublicOrigin

/-!
All isolates answer with one origin exactly as long as no call that found KV empty puts its own
origin when another one has been answered.
-/

set_option autoImplicit false

namespace Yurucommu.PublicOrigin

open Whatwg (Text URL HostParser parse_origin hash_origin origin_bare)

section origins

variable {H : HostParser} {value origin : Text}

def Bare (H : HostParser) (origin : Text) : Prop :=
  ∃ url, Whatwg.parse H.parse origin = some url ∧ url.origin = origin ∧
    url.username = [] ∧ url.password = [] ∧ url.search = [] ∧ Whatwg.hash origin = [] ∧
    url.pathname = ['/'] ∧ (url.protocol = "https:".toList ∨
      url.protocol = "http:".toList ∧ isLoopbackHostname url.hostname = true)

theorem secure_iff {p q : Prop} [Decidable p] [Decidable q] {loopback : Bool} :
    ¬(decide (¬p) && !(decide q && loopback)) = true ↔ p ∨ q ∧ loopback = true := by
  by_cases hp : p <;> by_cases hq : q <;> simp [hp,hq]

theorem canonical_ok (h : canonicalPublicOrigin H value = .ok origin) : ∃ url,
    Whatwg.parse H.parse value = some url ∧ url.origin = origin ∧
      (url.protocol = "https:".toList ∨
        url.protocol = "http:".toList ∧ isLoopbackHostname url.hostname = true) := by
  unfold canonicalPublicOrigin at h
  cases hp : Whatwg.parse H.parse value with
  | none =>
    rw [hp] at h
    cases h
  | some url =>
    rw [hp] at h
    simp only at h
    split at h
    · cases h
    · split at h
      · cases h
      · rename_i hhttps
        exact ⟨url,rfl,Except.ok.inj h,secure_iff.mp hhttps⟩

theorem canonical_of_bare (h : Bare H origin) : canonicalPublicOrigin H origin = .ok origin := by
  obtain ⟨url,hp,ho,hu,hw,hs,hh,hpath,hhttps⟩ := h
  unfold canonicalPublicOrigin
  rw [hp]
  simp only [hu,hw,hs,hh,hpath,ne_eq,not_true_eq_false,decide_false,Bool.or_self,
    Bool.false_eq_true,if_false]
  rw [if_neg (secure_iff.mpr hhttps),ho]

theorem bare_of_canonical (h : canonicalPublicOrigin H value = .ok origin) : Bare H origin := by
  obtain ⟨url,hp,rfl,hhttps⟩ := canonical_ok h
  exact ⟨url.bare,parse_origin hp,origin_bare url,rfl,rfl,rfl,hash_origin hp,rfl,hhttps⟩

theorem canonical_canonical (h : canonicalPublicOrigin H value = .ok origin) :
    canonicalPublicOrigin H origin = .ok origin := canonical_of_bare (bare_of_canonical h)

theorem requestOrigin_ok {url : Text} (h : requestOrigin H url = .ok origin) :
    canonicalPublicOrigin H origin = .ok origin ∧
      ∃ u, Whatwg.parse H.parse url = some u ∧ u.origin = origin := by
  unfold requestOrigin at h
  cases hp : Whatwg.parse H.parse url with
  | none =>
    rw [hp] at h
    cases h
  | some u =>
    rw [hp] at h
    simp only at h
    refine ⟨canonical_canonical h,u,rfl,?_⟩
    obtain ⟨v,hv,ho,_⟩ := canonical_ok h
    rw [parse_origin hp] at hv
    rw [← ho,← Option.some.inj hv,origin_bare]

end origins

section step

variable {H : HostParser} {d : Store} {c : Call}

inductive Move (H : HostParser) (d : Store) (c : Call) : Store × Call → Prop where
  | reads : Move H d c (d,c.move .pinned)
  | fails (e : PublicOriginError) : Move H d c (d,c.move (.done (.error e)))
  | cached (origin : Text) (h : d.observedPublicOrigin c.isolate = some origin) :
      Move H d c (d,c.move (.done (.ok origin)))
  | pinned (stored origin : Text) (hpin : d.pin = some stored)
      (h : canonicalPublicOrigin H stored = .ok origin) : Move H d c (settle c origin d)
  | unconverged (origin : Text) (hstage : c.stage = .readback origin) (hpin : d.pin = none) :
      Move H d c (settle c origin d)
  | asks (url origin : Text) (hpin : d.pin = none) (hurl : c.request = .establish url)
      (h : requestOrigin H url = .ok origin) : Move H d c (d,c.move (.put origin))
  | puts (origin : Text) (hstage : c.stage = .put origin) :
      Move H d c ({ d with pin := some origin },c.move (.readback origin))

theorem work_move (h : running c = true) : Move H d c (work H d c) := by
  unfold work
  cases hstage : c.stage with
  | enter =>
    simp only
    cases ho : d.observedPublicOrigin c.isolate with
    | none => exact .reads
    | some origin => exact .cached origin ho
  | pinned =>
    simp only [readPinned]
    cases hpin : d.pin with
    | some stored =>
      simp only
      cases hc : canonicalPublicOrigin H stored with
      | ok origin => exact .pinned stored origin hpin hc
      | error e => exact .fails e
    | none =>
      simp only
      cases hrequest : c.request with
      | background => exact .fails _
      | establish url =>
        simp only
        cases ho : requestOrigin H url with
        | ok origin => exact .asks url origin hpin hrequest ho
        | error e => exact .fails e
  | put origin => exact .puts origin hstage
  | readback origin =>
    simp only [readBack]
    cases hpin : d.pin with
    | none => exact .unconverged origin hstage hpin
    | some stored =>
      simp only
      cases hc : canonicalPublicOrigin H stored with
      | error e => exact .fails e
      | ok canonical =>
        simp only
        split
        · exact .fails _
        · rename_i heq
          rw [not_not] at heq
          exact .pinned stored origin hpin (heq ▸ hc)
  | done answer =>
    rw [running,hstage] at h
    cases h

end step

section runs

variable {H : HostParser} {s₀ s t : Threads.Pool Store Call}

def Returned (s : Threads.Pool Store Call) (origin : Text) : Prop :=
  ∃ p, (s.thread p).stage = .done (.ok origin)

def Carried (H : HostParser) (s₀ : Threads.Pool Store Call) (origin : Text) : Prop :=
  ∃ p url u, (s₀.thread p).request = .establish url ∧ Whatwg.parse H.parse url = some u ∧
    u.origin = origin

/-- Whoever puts its origin, no other one has been answered. -/
def Meets (s : Threads.Pool Store Call) : Threads.Label Unit Empty → Prop
  | .act p _ => ∀ origin, (s.thread p).stage = .put origin → ∀ r, Returned s r → r = origin
  | .env e => nomatch e

def Own (H : HostParser) (s₀ : Threads.Pool Store Call) (origin : Text) : Prop :=
  canonicalPublicOrigin H origin = .ok origin ∧ Carried H s₀ origin

structure Kept (H : HostParser) (s₀ s : Threads.Pool Store Call) : Prop where
  requests : ∀ p, (s.thread p).request = (s₀.thread p).request
  pinned : ∀ x, s₀.store.pin = some x → s.store.pin = some x
  fresh : s₀.store.pin = none → ∀ x, s.store.pin = some x → Own H s₀ x
  put : ∀ p o, (s.thread p).stage = .put o → s₀.store.pin = none ∧ Own H s₀ o
  readback : ∀ p o, (s.thread p).stage = .readback o →
    s₀.store.pin = none ∧ Own H s₀ o ∧ s.store.pin ≠ none
  observed : ∀ i o, s.store.observedPublicOrigin i = some o → Returned s o
  agreed : ∀ o, Returned s o → ∃ x, s.store.pin = some x ∧ canonicalPublicOrigin H x = .ok o

theorem Start.kept (h : Start s₀) : Kept H s₀ s₀ := by
  have hstage : ∀ p stage, (s₀.thread p).stage = stage → stage = .enter := by
    intro p stage hs
    rw [← hs,h.enter p]
  refine ⟨fun _ => rfl,fun _ hx => hx,?_,?_,?_,?_,?_⟩
  · intro hnone x hx
    rw [hnone] at hx
    cases hx
  · intro p o hs
    cases hstage p _ hs
  · intro p o hs
    cases hstage p _ hs
  · intro i o ho
    rw [h.observed i] at ho
    cases ho
  · rintro o ⟨p,hs⟩
    cases hstage p _ hs

section act

variable {p : Nat} {r : Store × Call}

theorem returned_act {o : Text} (hrun : running (s.thread p) = true) :
    Returned ⟨r.1,Function.update s.thread p r.2⟩ o ↔
      r.2.stage = .done (.ok o) ∨ Returned s o := by
  constructor
  · rintro ⟨q,hq⟩
    by_cases hqp : q = p
    · subst hqp
      simp only [Function.update_self] at hq
      exact .inl hq
    · simp only [Function.update_of_ne hqp] at hq
      exact .inr ⟨q,hq⟩
  · rintro (hr | ⟨q,hq⟩)
    · exact ⟨p,by simpa using hr⟩
    · have hqp : q ≠ p := by
        rintro rfl
        rw [running,hq] at hrun
        cases hrun
      exact ⟨q,by simpa [hqp] using hq⟩

theorem Kept.same_pin (h : Kept H s₀ s) (hrun : running (s.thread p) = true)
    (hpin : r.1.pin = s.store.pin) (hrequest : r.2.request = (s.thread p).request)
    (hput : ∀ o, r.2.stage = .put o → s₀.store.pin = none ∧ Own H s₀ o)
    (hreadback : ∀ o, r.2.stage ≠ .readback o)
    (hobserved : ∀ i o, r.1.observedPublicOrigin i = some o →
      r.2.stage = .done (.ok o) ∨ s.store.observedPublicOrigin i = some o)
    (hdone : ∀ o, r.2.stage = .done (.ok o) →
      ∃ x, s.store.pin = some x ∧ canonicalPublicOrigin H x = .ok o) :
    Kept H s₀ ⟨r.1,Function.update s.thread p r.2⟩ := by
  constructor
  case requests =>
    intro q
    by_cases hqp : q = p
    · subst hqp
      simpa using hrequest.trans (h.requests q)
    · simpa [hqp] using h.requests q
  case pinned =>
    intro x hx
    exact hpin.trans (h.pinned x hx)
  case fresh =>
    intro hnone x hx
    exact h.fresh hnone x (hpin ▸ hx)
  case put =>
    intro q o hq
    by_cases hqp : q = p
    · subst hqp
      simp only [Function.update_self] at hq
      exact hput o hq
    · simp only [Function.update_of_ne hqp] at hq
      exact h.put q o hq
  case readback =>
    intro q o hq
    by_cases hqp : q = p
    · subst hqp
      simp only [Function.update_self] at hq
      exact absurd hq (hreadback o)
    · simp only [Function.update_of_ne hqp] at hq
      simpa only [hpin] using h.readback q o hq
  case observed =>
    intro i o ho
    rw [returned_act hrun]
    exact (hobserved i o ho).imp id (h.observed i o)
  case agreed =>
    intro o ho
    simp only [hpin]
    rcases (returned_act hrun).mp ho with ho | ho
    · exact hdone o ho
    · exact h.agreed o ho

theorem Kept.put_same (h : Kept H s₀ s) {o : Text} (hstage : (s.thread p).stage = .put o)
    (hmeets : ∀ r, Returned s r → r = o) {origin : Text} (hr : Returned s origin) :
    s.store.pin = some o := by
  obtain ⟨x,hx,hc⟩ := h.agreed origin hr
  have hfresh := h.fresh (h.put p o hstage).1 x hx
  rw [hfresh.1] at hc
  rw [hx,Except.ok.inj hc,hmeets origin hr]

theorem Kept.puts (h : Kept H s₀ s) {o : Text} (hstage : (s.thread p).stage = .put o)
    (hmeets : ∀ r, Returned s r → r = o) :
    Kept H s₀ ⟨{ s.store with pin := some o },
      Function.update s.thread p ((s.thread p).move (.readback o))⟩ := by
  obtain ⟨hnone,hown⟩ := h.put p o hstage
  have hrun : running (s.thread p) = true := by simp [running,hstage]
  have hreturned : ∀ origin, Returned ⟨{ s.store with pin := some o },
      Function.update s.thread p ((s.thread p).move (.readback o))⟩ origin ↔
        Returned s origin := by
    intro origin
    rw [returned_act (r := ({ s.store with pin := some o },(s.thread p).move (.readback o))) hrun]
    simp
  constructor
  case requests =>
    intro q
    by_cases hqp : q = p
    · subst hqp
      simpa using h.requests q
    · simpa [hqp] using h.requests q
  case pinned =>
    intro x hx
    rw [hnone] at hx
    cases hx
  case fresh =>
    intro _ x hx
    cases hx
    exact hown
  case put =>
    intro q o' hq
    by_cases hqp : q = p
    · subst hqp
      simp at hq
    · simp only [Function.update_of_ne hqp] at hq
      exact h.put q o' hq
  case readback =>
    intro q o' hq
    by_cases hqp : q = p
    · subst hqp
      simp only [Function.update_self,Call.move_stage,Stage.readback.injEq] at hq
      subst hq
      exact ⟨hnone,hown,by simp⟩
    · simp only [Function.update_of_ne hqp] at hq
      obtain ⟨_,hown',_⟩ := h.readback q o' hq
      exact ⟨hnone,hown',by simp⟩
  case observed =>
    intro i o' ho
    exact (hreturned o').mpr (h.observed i o' ho)
  case agreed =>
    intro origin hr
    refine ⟨o,rfl,?_⟩
    rw [hmeets origin ((hreturned origin).mp hr)]
    exact hown.1

end act

theorem Kept.step {l : Threads.Label Unit Empty} (h : Kept H s₀ s)
    (hl : (machine H).step l s = some t) (hmeets : Meets s l) : Kept H s₀ t := by
  cases l with
  | env e => exact e.elim
  | act p i =>
    obtain ⟨hrun,rfl⟩ := Threads.guarded_step_act.mp hl
    have hmove := work_move (H := H) (d := s.store) hrun
    generalize work H s.store (s.thread p) = r at hmove ⊢
    cases hmove with
    | reads =>
      exact h.same_pin hrun rfl rfl (by simp) (by simp) (fun _ _ ho => .inr ho) (by simp)
    | fails e =>
      exact h.same_pin hrun rfl rfl (by simp) (by simp) (fun _ _ ho => .inr ho) (by simp)
    | cached origin ho =>
      refine h.same_pin hrun rfl rfl (by simp) (by simp) (fun _ _ ho => .inr ho) ?_
      intro o hdone
      cases hdone
      exact h.agreed origin (h.observed _ origin ho)
    | pinned stored origin hpin hc =>
      refine h.same_pin hrun rfl rfl (by simp [settle]) (by simp [settle]) ?_ ?_
      · intro i o ho
        by_cases hi : i = (s.thread p).isolate
        · subst hi
          simp only [settle,Function.update_self,Option.some.injEq] at ho
          exact .inl (by simp [settle,ho])
        · simp only [settle,Function.update_of_ne hi] at ho
          exact .inr ho
      · intro o hdone
        cases hdone
        exact ⟨stored,hpin,hc⟩
    | unconverged origin hstage hpin => exact absurd hpin (h.readback p origin hstage).2.2
    | asks url origin hpin hurl ho =>
      obtain ⟨hc,u,hu⟩ := requestOrigin_ok ho
      refine h.same_pin hrun rfl rfl ?_ (by simp) (fun _ _ ho => .inr ho) (by simp)
      intro o hput
      cases hput
      refine ⟨?_,hc,p,url,u,by rw [← h.requests p,hurl],hu⟩
      cases hnone : s₀.store.pin with
      | none => rfl
      | some x =>
        rw [h.pinned x hnone] at hpin
        cases hpin
    | puts origin hstage => exact h.puts hstage (hmeets origin hstage)

theorem Start.holds (h : Start s₀) (hr : (machine H).ReachesBy (fun s l _ => Meets s l) s₀ s) :
    Kept H s₀ s :=
  hr.invariant h.kept fun _ _ _ hk hl hm => hk.step hl hm

theorem Returned.step {l : Threads.Label Unit Empty} {origin : Text} (h : Returned s origin)
    (hl : (machine H).step l s = some t) : Returned t origin := by
  cases l with
  | env e => exact e.elim
  | act p i =>
    obtain ⟨hrun,rfl⟩ := Threads.guarded_step_act.mp hl
    exact (returned_act hrun).mpr (.inr h)

theorem Kept.pin_step {l : Threads.Label Unit Empty} {origin : Text} (h : Kept H s₀ s)
    (hr : Returned s origin) (hl : (machine H).step l s = some t) (hmeets : Meets s l) :
    t.store.pin = s.store.pin := by
  cases l with
  | env e => exact e.elim
  | act p i =>
    obtain ⟨hrun,rfl⟩ := Threads.guarded_step_act.mp hl
    have hmove := work_move (H := H) (d := s.store) hrun
    generalize work H s.store (s.thread p) = r at hmove ⊢
    cases hmove with
    | puts o hstage => exact (h.put_same hstage (hmeets o hstage) hr).symm
    | _ => rfl

/-- One public identity, in every run in which no call puts its origin after another answer. -/
theorem one_public_origin (h : Start s₀)
    (hr : (machine H).ReachesBy (fun s l _ => Meets s l) s₀ s) :
    (∀ a b, Returned s a → Returned s b → a = b) ∧
      (∀ t a, Returned s a → (machine H).ReachesBy (fun s l _ => Meets s l) s t →
        t.store.pin = s.store.pin) ∧
      ∀ a, Returned s a → Bare H a ∧ (Carried H s₀ a ∨
        ∃ x, s₀.store.pin = some x ∧ canonicalPublicOrigin H x = .ok a) := by
  have hkept := h.holds hr
  refine ⟨?_,?_,?_⟩
  · intro a b ha hb
    obtain ⟨x,hx,hca⟩ := hkept.agreed a ha
    obtain ⟨y,hy,hcb⟩ := hkept.agreed b hb
    rw [hx] at hy
    cases hy
    rw [hca] at hcb
    exact Except.ok.inj hcb
  · intro t a ha hst
    have hstays := hst.invariant
      (P := fun t => Kept H s₀ t ∧ Returned t a ∧ t.store.pin = s.store.pin) ⟨hkept,ha,rfl⟩ ?_
    · exact hstays.2.2
    · rintro u l v ⟨hu,hret,hpin⟩ hl hm
      exact ⟨hu.step hl hm,hret.step hl,(hu.pin_step hret hl hm).trans hpin⟩
  · intro a ha
    obtain ⟨x,hx,hc⟩ := hkept.agreed a ha
    refine ⟨bare_of_canonical hc,?_⟩
    cases hpin : s₀.store.pin with
    | some y =>
      rw [hkept.pinned y hpin] at hx
      cases hx
      exact .inr ⟨x,rfl,hc⟩
    | none =>
      obtain ⟨hown,hcarried⟩ := hkept.fresh hpin x hx
      rw [hown] at hc
      exact .inl (Except.ok.inj hc ▸ hcarried)

/-- A call that puts its origin after another answer moves the pin. -/
theorem unmet_put_repins {l : Threads.Label Unit Empty} (h : Start s₀)
    (hr : (machine H).ReachesBy (fun s l _ => Meets s l) s₀ s)
    (hl : (machine H).step l s = some t) (hunmet : ¬Meets s l) :
    (∃ a, Returned s a) ∧ t.store.pin ≠ s.store.pin := by
  cases l with
  | env e => exact e.elim
  | act p i =>
    obtain ⟨hrun,rfl⟩ := Threads.guarded_step_act.mp hl
    simp only [Meets,not_forall] at hunmet
    obtain ⟨o,hstage,a,ha,hne⟩ := hunmet
    refine ⟨⟨a,ha⟩,?_⟩
    have hkept := h.holds hr
    obtain ⟨x,hx,hc⟩ := hkept.agreed a ha
    have hown := hkept.fresh (hkept.put p o hstage).1 x hx
    simp only [work,hstage,hx]
    intro heq
    cases heq
    rw [hown.1] at hc
    exact hne (Except.ok.inj hc).symm

end runs

section racing

def plainHosts : HostParser where
  parse t := if t ≠ [] ∧ t.all (fun c => c.isLower || c = '.') then some t else none
  serialized t host hp := by
    simp only [Option.ite_none_right_eq_some,Option.some.injEq,List.all_eq_true,
      Bool.or_eq_true,decide_eq_true_eq] at hp
    obtain ⟨⟨hne,hall⟩,rfl⟩ := hp
    have hother : ∀ d : Char, d.isLower = false → d ≠ '.' → ∀ c ∈ t, c ≠ d := by
      rintro d hd hdot c hc rfl
      rcases hall c hc with h | h
      · rw [hd] at h
        cases h
      · exact hdot h
    refine ⟨hne,?_,.inl fun c hc => ⟨hother ':' (by decide) (by decide) c hc,
      hother '[' (by decide) (by decide) c hc⟩⟩
    intro c hc
    have hslash := hother '/' (by decide) (by decide) c hc
    have hback := hother '\\' (by decide) (by decide) c hc
    refine ⟨?_,by simp [Whatwg.isSlash,hslash,hback],hother '#' (by decide) (by decide) c hc,
      hother '?' (by decide) (by decide) c hc,hother '@' (by decide) (by decide) c hc⟩
    rcases hall c hc with h | rfl
    · exact Nat.lt_of_lt_of_le (by decide) (Nat.le_of_lt (Whatwg.lt_of_isAlpha
        (by simp [Char.isAlpha,h])))
    · decide
  stable t host hp := by
    have hp' := hp
    simp only [Option.ite_none_right_eq_some,Option.some.injEq] at hp'
    rw [← hp'.2] at hp ⊢
    exact hp

def request (p : Nat) : Text :=
  if p = 0 then "https://a.example/inbox".toList else "https://b.example/".toList

/-- Two isolates, each with a request of its own, and nothing pinned. -/
def racing : Threads.Pool Store Call where
  store := ⟨none,fun _ => none⟩
  thread p := ⟨p,.establish (request p),.enter⟩

theorem start_racing : Start racing := ⟨fun _ => rfl,fun _ => rfl⟩

def originA : Text := "https://a.example".toList

def originB : Text := "https://b.example".toList

def asking : Threads.Pool Store Call :=
  ⟨racing.store,Function.update (Function.update racing.thread 0
    ((racing.thread 0).move .pinned)) 0 ((racing.thread 0).move (.put originA))⟩

def established : Threads.Pool Store Call :=
  ⟨⟨some originA,Function.update (fun _ => none) 0 (some originA)⟩,
    Function.update (Function.update asking.thread 0 ((racing.thread 0).move (.readback originA)))
      0 ((racing.thread 0).move (.done (.ok originA)))⟩

theorem not_returned_asking (r : Text) : ¬Returned asking r := by
  rintro ⟨q,hq⟩
  by_cases h0 : q = 0
  · subst h0
    cases hq
  · simp [asking,racing,h0] at hq

theorem established_reached :
    (machine plainHosts).ReachesBy (fun s l _ => Meets s l) racing established := by
  have hasking : (machine plainHosts).ReachesBy (fun s l _ => Meets s l) racing asking :=
    ((Machine.ReachesBy.refl racing).snoc (l := .act 0 ()) rfl fun o h => nomatch h).snoc
      (l := .act 0 ()) rfl fun o h => nomatch h
  refine (hasking.snoc (l := .act 0 ()) rfl ?_).snoc (l := .act 0 ()) rfl fun o h => nomatch h
  intro o _ r hr
  exact absurd hr (not_returned_asking r)

theorem one_public_origin_racing : Bare plainHosts originA ∧
    (Carried plainHosts racing originA ∨ ∃ x, racing.store.pin = some x ∧
      canonicalPublicOrigin plainHosts x = .ok originA) :=
  (one_public_origin start_racing established_reached).2.2 originA ⟨0,rfl⟩

/-- Both isolates find KV empty; the second one puts its origin when the first has answered. -/
theorem racing_two_origins : ¬∀ (H : HostParser) (s₀ s : Threads.Pool Store Call), Start s₀ →
    (machine H).Reaches s₀ s → ∀ a b, Returned s a → Returned s b → a = b := by
  intro h
  have hrun : ((machine plainHosts).run [.act 0 (),.act 0 (),.act 1 (),.act 1 (),.act 0 (),
      .act 0 (),.act 1 (),.act 1 ()] racing).map
        (fun s => ((s.thread 0).stage,(s.thread 1).stage)) =
      some (.done (.ok originA),.done (.ok originB)) := rfl
  obtain ⟨s,hs,hstages⟩ := Option.map_eq_some_iff.mp hrun
  obtain ⟨ha,hb⟩ := Prod.mk.inj hstages
  have hsame := h plainHosts racing s start_racing (Machine.Reaches.of_run hs) originA originB
    ⟨0,ha⟩ ⟨1,hb⟩
  exact absurd hsame (by decide)

end racing

end Yurucommu.PublicOrigin
