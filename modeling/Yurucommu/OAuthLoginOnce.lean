import Yurucommu.OAuthLogin

/-!
A session that a callback makes belongs to a login start of the same browser, a state makes one
session at most, and a refused callback leaves the sessions alone, in runs without two users of
one state and without failures between the two halves of a rotation.
-/

set_option autoImplicit false

namespace Yurucommu.OAuthLogin

open Whatwg (Text)

section promise

structure Issued (d : Db) (request : Callback) (checkedAt : Nat) (start : Start) : Prop where
  mem : start ∈ d.starts
  provider : start.provider = request.provider
  state : request.state = some start.state
  nonce : request.cookieNonce = some start.nonce
  earlier : start.startedAt ≤ checkedAt
  recent : checkedAt ≤ start.startedAt + stateTtlMs

variable (providers : Text → Option Provider) (validates : Jwk → IdToken → Bool)

def Proven (start : Start) (identity : Identity) : Prop :=
  ∀ provider, providers start.provider = some provider → provider.oidc = true →
    ∃ token key issuer iss, identity.claims = some token.claims ∧ validates key token = true ∧
      provider.issuer = some issuer ∧ token.claims.iss = some iss ∧ norm iss = norm issuer ∧
        provider.clientId ∈ token.claims.aud ∧ token.claims.nonce = some start.nonce ∧
          token.claims.sub = some identity.userId

structure Right (s : Threads.Pool Db Call) : Prop where
  bound : ∀ x ∈ s.store.created, ∃ start, Issued s.store x.request x.checkedAt start ∧
    Proven providers validates start x.identity
  once : (s.store.created.map (·.request.state)).Nodup
  refused : ∀ p, (s.thread p).stage = .refused →
    (s.thread p).deleted = [] ∧ ∀ x ∈ s.store.created, x.call ≠ p

/-- When it holds: no callback is let pass with a state that another one passed with and has not yet
deleted, and once a callback has deleted the old session, nothing fails. -/
structure Meets (s : Threads.Pool Db Call) (l : Threads.Label Answer Event)
    (_ : Threads.Pool Db Call) : Prop where
  alone : ∀ p i state stored, l = .act p i → (s.thread p).stage = .enter →
    (enter s.store (s.thread p)).stage = .consume state stored →
      ∀ q stored', (s.thread q).stage ≠ .consume state stored'
  whole : ∀ p i identity, l = .act p i → (s.thread p).stage = .insert identity →
    (s.thread p).deleted ≠ [] → i.encrypts = true ∧ i.identityHolds = true

end promise

section invariant

variable (providers : Text → Option Provider) (validates : Jwk → IdToken → Bool)

def Stage.live : Stage → Bool
  | .consume _ _ | .exchange _ | .rotate _ | .insert _ => true
  | .enter | .drop _ | .done | .refused => false

def Stage.spent : Stage → Bool
  | .exchange _ | .rotate _ | .insert _ => true
  | .enter | .drop _ | .consume _ _ | .done | .refused => false

def Fits (d : Db) (c : Call) : Prop :=
  match c.stage with
  | .enter | .drop _ | .refused => c.deleted = []
  | .consume state stored => c.deleted = [] ∧ c.request.state = some state ∧
      ∃ start, Issued d c.request c.checkedAt start ∧ stored.nonce = some start.nonce
  | .exchange stored => c.deleted = [] ∧
      ∃ start, Issued d c.request c.checkedAt start ∧ stored.nonce = some start.nonce
  | .rotate identity => c.deleted = [] ∧
      ∃ start, Issued d c.request c.checkedAt start ∧ Proven providers validates start identity
  | .insert identity =>
      ∃ start, Issued d c.request c.checkedAt start ∧ Proven providers validates start identity
  | .done => True

def Entered (d : Db) (state : Text) (stored : OAuthState) : Prop :=
  ∃ start ∈ d.starts, start.state = state ∧ start.provider = stored.provider ∧
    stored.nonce = some start.nonce ∧ start.nonce ≠ [] ∧ stored.createdAt = start.startedAt

structure Inv (s : Threads.Pool Db Call) : Prop where
  entered : ∀ state stored, s.store.kv.get state = some stored → Entered s.store state stored
  times : ∀ start ∈ s.store.starts, start.startedAt ≤ s.store.now
  fits : ∀ p, Fits providers validates s.store (s.thread p)
  spent : ∀ p state, (s.thread p).stage.spent = true → (s.thread p).request.state = some state →
    s.store.kv.get state = none
  apart : ∀ p q, p ≠ q → (s.thread p).stage.live = true → (s.thread q).stage.live = true →
    (s.thread p).request.state ≠ (s.thread q).request.state
  bound : ∀ x ∈ s.store.created, ∃ start, Issued s.store x.request x.checkedAt start ∧
    Proven providers validates start x.identity
  gone : ∀ x ∈ s.store.created, ∀ state, x.request.state = some state →
    s.store.kv.get state = none
  used : ∀ x ∈ s.store.created, ∀ p, (s.thread p).stage.live = true →
    (s.thread p).request.state ≠ x.request.state
  once : (s.store.created.map (·.request.state)).Nodup
  author : ∀ x ∈ s.store.created, (s.thread x.call).stage = .done

end invariant

section steps

variable {providers : Text → Option Provider} {validates : Jwk → IdToken → Bool}
  {s s' : Threads.Pool Db Call} {d d' : Db} {c c' : Call} {p : Nat} {i : Answer} {e : Event}

theorem Inv.right (h : Inv providers validates s) : Right providers validates s := by
  refine ⟨h.bound,h.once,fun p hp => ⟨?_,fun x hx hcall => ?_⟩⟩
  · have hfits := h.fits p
    unfold Fits at hfits
    rw [hp] at hfits
    exact hfits
  · have hdone := h.author x hx
    rw [hcall,hp] at hdone
    cases hdone

theorem inv_start (now : Nat) (requests : Nat → Callback) :
    Inv providers validates (start now requests) := by
  refine ⟨fun state stored h => ?_,fun start h => ?_,fun p => rfl,fun p state h => ?_,
    fun p q _ h => ?_,fun x h => ?_,fun x h => ?_,fun x h => ?_,List.nodup_nil,fun x h => ?_⟩
  · simp [start] at h
  · cases h
  · cases h
  · cases h
  · cases h
  · cases h
  · cases h
  · cases h

/-- What a callback does to the store leaves the starts, and no state comes back. -/
structure Shrinks (d d' : Db) : Prop where
  starts : d'.starts = d.starts
  now : d'.now = d.now
  kv : ∀ state stored, d'.kv.get state = some stored → d.kv.get state = some stored

theorem Issued.mono {request : Callback} {checkedAt : Nat} {start : Start}
    (h : Issued d request checkedAt start) (hs : ∀ start ∈ d.starts, start ∈ d'.starts) :
    Issued d' request checkedAt start :=
  ⟨hs start h.mem,h.provider,h.state,h.nonce,h.earlier,h.recent⟩

theorem Fits.mono (h : Fits providers validates d c)
    (hs : ∀ start ∈ d.starts, start ∈ d'.starts) : Fits providers validates d' c := by
  unfold Fits at h ⊢
  split at h
  · exact h
  · exact h
  · exact h
  · obtain ⟨hdeleted,hstate,start,hissued,hnonce⟩ := h
    exact ⟨hdeleted,hstate,start,hissued.mono hs,hnonce⟩
  · obtain ⟨hdeleted,start,hissued,hnonce⟩ := h
    exact ⟨hdeleted,start,hissued.mono hs,hnonce⟩
  · obtain ⟨hdeleted,start,hissued,hproven⟩ := h
    exact ⟨hdeleted,start,hissued.mono hs,hproven⟩
  · obtain ⟨start,hissued,hproven⟩ := h
    exact ⟨start,hissued.mono hs,hproven⟩
  · exact h

theorem Shrinks.get_eq_none (h : Shrinks d d') {state : Text} (hnone : d.kv.get state = none) :
    d'.kv.get state = none := by
  cases hget : d'.kv.get state with
  | none => rfl
  | some stored =>
    rw [h.kv state stored hget] at hnone
    cases hnone

theorem Inv.move (h : Inv providers validates s) (hd : Shrinks s.store d')
    (hcreated : d'.created = s.store.created) (hrequest : c'.request = (s.thread p).request)
    (hrunning : (s.thread p).stage ≠ .done) (hfits : Fits providers validates d' c')
    (hspent : c'.stage.spent = true → ∀ state, c'.request.state = some state →
      d'.kv.get state = none)
    (hlive : c'.stage.live = true → (s.thread p).stage.live = true ∨
      (∀ q, q ≠ p → (s.thread q).stage.live = true →
        (s.thread q).request.state ≠ c'.request.state) ∧
        ∀ x ∈ s.store.created, c'.request.state ≠ x.request.state) :
    Inv providers validates ⟨d',Function.update s.thread p c'⟩ := by
  have hstarts : ∀ start ∈ s.store.starts, start ∈ d'.starts := fun start hin => by
    rw [hd.starts]
    exact hin
  have hother : ∀ q, q ≠ p → Function.update s.thread p c' q = s.thread q :=
    fun q hq => Function.update_of_ne hq ..
  have hself : Function.update s.thread p c' p = c' := Function.update_self ..
  have hnew : ∀ q, q ≠ p → c'.stage.live = true → (s.thread q).stage.live = true →
      (s.thread q).request.state ≠ c'.request.state := by
    intro q hq hc hl
    rcases hlive hc with hold | ⟨hfresh,_⟩
    · rw [hrequest]
      exact h.apart q p hq hl hold
    · exact hfresh q hq hl
  refine ⟨fun state stored hget => ?_,?_,fun q => ?_,fun q => ?_,fun q r hqr => ?_,?_,?_,?_,?_,?_⟩
  · obtain ⟨start,hin,hrest⟩ := h.entered state stored (hd.kv state stored hget)
    exact ⟨start,hstarts start hin,hrest⟩
  · dsimp only
    rw [hd.starts,hd.now]
    exact h.times
  · by_cases hq : q = p
    · rw [hq]
      dsimp only
      rw [hself]
      exact hfits
    · dsimp only
      rw [hother q hq]
      exact (h.fits q).mono hstarts
  · by_cases hq : q = p
    · rw [hq]
      dsimp only
      rw [hself]
      exact fun state hs => hspent hs state
    · dsimp only
      rw [hother q hq]
      exact fun state hs hstate => hd.get_eq_none (h.spent q state hs hstate)
  · dsimp only
    by_cases hq : q = p
    · have hr : r ≠ p := fun heq => hqr (hq.trans heq.symm)
      rw [hq,hself,hother r hr]
      exact fun hc hl heq => hnew r hr hc hl heq.symm
    · by_cases hr : r = p
      · rw [hr,hself,hother q hq]
        exact fun hl hc => hnew q hq hc hl
      · rw [hother q hq,hother r hr]
        exact h.apart q r hqr
  · dsimp only
    rw [hcreated]
    intro x hx
    obtain ⟨start,hissued,hproven⟩ := h.bound x hx
    exact ⟨start,hissued.mono hstarts,hproven⟩
  · dsimp only
    rw [hcreated]
    exact fun x hx state hstate => hd.get_eq_none (h.gone x hx state hstate)
  · dsimp only
    rw [hcreated]
    intro x hx q hl
    by_cases hq : q = p
    · rw [hq,hself] at hl ⊢
      rcases hlive hl with hold | ⟨_,hfresh⟩
      · rw [hrequest]
        exact h.used x hx p hold
      · exact hfresh x hx
    · rw [hother q hq] at hl ⊢
      exact h.used x hx q hl
  · dsimp only
    rw [hcreated]
    exact h.once
  · dsimp only
    rw [hcreated]
    intro x hx
    have hdone := h.author x hx
    have hne : x.call ≠ p := fun heq => hrunning (heq ▸ hdone)
    rw [hother _ hne]
    exact hdone

theorem step_act_iff {t : Threads.Pool Db Call} :
    (machine providers validates).step (.act p i) s = some t ↔ running (s.thread p) = true ∧
      t = ⟨(work providers validates i p s.store (s.thread p)).1,
        Function.update s.thread p (work providers validates i p s.store (s.thread p)).2⟩ := by
  rw [machine,callbacks,Threads.guarded_step_act]

theorem step_env_iff {t : Threads.Pool Db Call} :
    (machine providers validates).step (.env e) s = some t ↔
      possible providers e s.store = true ∧ t = ⟨happen e s.store,s.thread⟩ := by
  rw [machine,callbacks,Threads.guarded_step_env]

theorem Shrinks.refl (d : Db) : Shrinks d d := ⟨rfl,rfl,fun _ _ h => h⟩

theorem shrinks_delete (d : Db) (state : Text) : Shrinks d { d with kv := d.kv.delete state } := by
  refine ⟨rfl,rfl,fun state' stored h => ?_⟩
  have hget : (d.kv.delete state).get state' = some stored := h
  by_cases heq : state' = state
  · rw [heq,JsMap.get_delete_self] at hget
    cases hget
  · rwa [JsMap.get_delete_of_ne heq] at hget

theorem shrinks_sessions (d : Db) (sessions : List Session) : Shrinks d { d with sessions } :=
  ⟨rfl,rfl,fun _ _ h => h⟩

/-- How a callback leaves its checks. -/
theorem enter_cases (d : Db) (c : Call) : enter d c = c.move .refused ∨
    (∃ state, enter d c = c.move (.drop state)) ∨
    ∃ state stored, c.request.state = some state ∧ d.kv.get state = some stored ∧
      d.now - stored.createdAt ≤ stateTtlMs ∧ stored.provider = c.request.provider ∧
        nonceMatches stored c.request = true ∧
          enter d c = { c with stage := .consume state stored, checkedAt := d.now } := by
  unfold enter
  split
  · rename_i state _ _ hstate
    have hstate' : c.request.state = some state := (Option.filter_eq_some_iff.mp hstate).1
    cases hget : d.kv.get state with
    | none => exact .inl rfl
    | some stored =>
      dsimp only
      by_cases hold : stateTtlMs < d.now - stored.createdAt
      · rw [if_pos hold]
        exact .inr (.inl ⟨state,rfl⟩)
      rw [if_neg hold]
      by_cases hprovider : stored.provider = c.request.provider
      · rw [if_neg (not_not.mpr hprovider)]
        cases hnonce : nonceMatches stored c.request with
        | false => exact .inr (.inl ⟨state,rfl⟩)
        | true =>
          exact .inr (.inr ⟨state,stored,hstate',hget,Nat.le_of_not_lt hold,hprovider,hnonce,rfl⟩)
      · rw [if_pos hprovider]
        exact .inl rfl
  · exact .inl rfl

theorem verifyOidcIdToken_eq_some {keys : Option (List Jwk)} {token : IdToken}
    {issuer clientId : Text} {expectedNonce : Option Text} {now : Nat}
    {claims : OidcIdTokenClaims}
    (h : verifyOidcIdToken validates keys token issuer clientId expectedNonce now = some claims) :
    claims = token.claims ∧ ∃ key, validates key token = true ∧
      claimsValid token.claims issuer clientId expectedNonce ((now / 1000 : Nat) : Int) = true := by
  unfold verifyOidcIdToken at h
  split at h
  · cases h
  · split at h
    · cases h
    · rename_i key _
      split at h
      · rename_i hvalid
        rw [Bool.and_eq_true] at hvalid
        exact ⟨(Option.some.inj h).symm,key,hvalid⟩
      · cases h

/-- What an identity that a callback accepts is worth. -/
theorem proven_identify {now : Nat} {stored : OAuthState} {identity : Identity} {start : Start}
    {providerId : Text} (hprovider : start.provider = providerId)
    (hnonce : stored.nonce = some start.nonce)
    (h : identify providers validates i now stored providerId = some identity) :
    Proven providers validates start identity := by
  intro provider hconfigured hoidc
  rw [hprovider] at hconfigured
  unfold identify at h
  rw [hconfigured] at h
  split at h
  · rename_i provider' tokens userInfo hsome htokens huser
    rw [Option.some.injEq] at hsome
    subst hsome
    rw [if_pos hoidc] at h
    cases htoken : tokens.idToken with
    | none => simp [htoken] at h
    | some token =>
      rw [htoken] at h
      dsimp only at h
      cases hverify : verifyOidcIdToken validates i.keys token (provider.issuer.getD [])
          provider.clientId stored.nonce now with
      | none => simp [hverify] at h
      | some claims =>
        rw [hverify] at h
        dsimp only at h
        obtain ⟨member,_,rfl⟩ := Option.map_eq_some_iff.mp h
        obtain ⟨rfl,key,hkey,hvalid⟩ := verifyOidcIdToken_eq_some hverify
        simp only [claimsValid,Bool.and_eq_true,Option.any_eq_true,decide_eq_true_eq,
          List.contains_iff_mem,hnonce,Option.all_some] at hvalid
        obtain ⟨⟨⟨⟨⟨iss,hiss,_,hnorm⟩,haud⟩,_⟩,sub,hsub,hne⟩,hsame⟩ := hvalid
        rw [Provider.oidc,Bool.and_eq_true,Option.any_eq_true] at hoidc
        obtain ⟨⟨issuer,hissuer,_⟩,_⟩ := hoidc
        rw [hissuer,Option.getD_some] at hnorm
        refine ⟨token,key,issuer,iss,rfl,hkey,hissuer,hiss,hnorm,haud,hsame,?_⟩
        have hgiven : given token.claims.sub = some sub := by
          rw [given,hsub]
          simpa using hne
        rw [hgiven,Option.getD_some]
        exact hsub
  · cases h

theorem Issued.at_state {request : Callback} {checkedAt : Nat} {start : Start} {state : Text}
    (h : Issued d request checkedAt start) (hstate : request.state = some state) :
    start.state = state :=
  Option.some.inj (h.state.symm.trans hstate)

theorem Fits.issued (h : Fits providers validates d c) (hlive : c.stage.live = true) :
    ∃ start, Issued d c.request c.checkedAt start := by
  unfold Fits at h
  cases hstage : c.stage with
  | consume state stored =>
    rw [hstage] at h
    obtain ⟨_,_,start,hissued,_⟩ := h
    exact ⟨start,hissued⟩
  | exchange stored =>
    rw [hstage] at h
    obtain ⟨_,start,hissued,_⟩ := h
    exact ⟨start,hissued⟩
  | rotate identity =>
    rw [hstage] at h
    obtain ⟨_,start,hissued,_⟩ := h
    exact ⟨start,hissued⟩
  | insert identity =>
    rw [hstage] at h
    obtain ⟨start,hissued,_⟩ := h
    exact ⟨start,hissued⟩
  | _ =>
    rw [hstage] at hlive
    cases hlive

theorem live_cases {stage : Stage} (h : stage.live = true) :
    stage.spent = true ∨ ∃ state stored, stage = .consume state stored := by
  cases stage with
  | consume state stored => exact .inr ⟨state,stored,rfl⟩
  | exchange stored => exact .inl rfl
  | rotate identity => exact .inl rfl
  | insert identity => exact .inl rfl
  | _ => cases h

theorem Inv.stop (h : Inv providers validates s) (hd : Shrinks s.store d')
    (hcreated : d'.created = s.store.created) (hrunning : (s.thread p).stage ≠ .done)
    {stage : Stage} (hstage : stage = .refused ∨ ∃ state, stage = .drop state)
    (hdeleted : (s.thread p).deleted = []) :
    Inv providers validates ⟨d',Function.update s.thread p ((s.thread p).move stage)⟩ := by
  refine h.move hd hcreated rfl hrunning ?_ (fun hs => ?_) fun hl => ?_
  · unfold Fits
    obtain rfl | ⟨state,rfl⟩ := hstage
    · exact hdeleted
    · exact hdeleted
  · obtain rfl | ⟨state,rfl⟩ := hstage <;> cases hs
  · obtain rfl | ⟨state,rfl⟩ := hstage <;> cases hl

theorem Inv.enter (h : Inv providers validates s) (hstage : (s.thread p).stage = .enter)
    (halone : ∀ state stored, (OAuthLogin.enter s.store (s.thread p)).stage =
      .consume state stored → ∀ q stored', (s.thread q).stage ≠ .consume state stored') :
    Inv providers validates
      ⟨s.store,Function.update s.thread p (OAuthLogin.enter s.store (s.thread p))⟩ := by
  have hfits := h.fits p
  unfold Fits at hfits
  rw [hstage] at hfits
  have hrunning : (s.thread p).stage ≠ .done := by
    rw [hstage]
    simp
  obtain heq | ⟨state,heq⟩ | ⟨state,stored,hstate,hget,hage,hprovider,hnonce,heq⟩ :=
    enter_cases s.store (s.thread p)
  · rw [heq]
    exact h.stop (.refl _) rfl hrunning (.inl rfl) hfits
  · rw [heq]
    exact h.stop (.refl _) rfl hrunning (.inr ⟨state,rfl⟩) hfits
  · rw [heq]
    obtain ⟨start,hin,hs,hp,hn,hne,hat⟩ := h.entered state stored hget
    have hcookie : (s.thread p).request.cookieNonce = some start.nonce := by
      have hgiven : given stored.nonce = some start.nonce := by
        rw [given,hn]
        simpa using hne
      rw [nonceMatches,hgiven] at hnonce
      simpa using hnonce
    have hissued : Issued s.store (s.thread p).request s.store.now start := by
      refine ⟨hin,hp.trans hprovider,by rw [hstate,hs],hcookie,h.times start hin,?_⟩
      omega
    refine h.move (.refl _) rfl rfl hrunning ⟨hfits,hstate,start,hissued,hn⟩ (fun hs => ?_)
      fun _ => .inr ⟨fun q hq hl => ?_,fun x hx heq' => ?_⟩
    · cases hs
    · intro heq'
      dsimp only at heq'
      rw [hstate] at heq'
      obtain hqs | ⟨state',stored',hqstage⟩ := live_cases hl
      · rw [h.spent q state hqs heq'] at hget
        cases hget
      · have hqfits := h.fits q
        unfold Fits at hqfits
        rw [hqstage] at hqfits
        obtain rfl := Option.some.inj (heq'.symm.trans hqfits.2.1)
        exact halone state stored (by rw [heq]) q stored' hqstage
    · dsimp only at heq'
      rw [hstate] at heq'
      rw [h.gone x hx state heq'.symm] at hget
      cases hget

theorem Inv.goOn (h : Inv providers validates s) (hd : Shrinks s.store d')
    (hcreated : d'.created = s.store.created) (hrequest : c'.request = (s.thread p).request)
    (hlive : (s.thread p).stage.live = true) (hfits : Fits providers validates d' c')
    (hspent : ∀ state, (s.thread p).request.state = some state → d'.kv.get state = none) :
    Inv providers validates ⟨d',Function.update s.thread p c'⟩ := by
  refine h.move hd hcreated hrequest (fun hdone => ?_) hfits (fun _ state hstate => ?_)
    fun _ => .inl hlive
  · rw [hdone] at hlive
    cases hlive
  · rw [hrequest] at hstate
    exact hspent state hstate

theorem Inv.consume (h : Inv providers validates s) {state : Text} {stored : OAuthState}
    (hstage : (s.thread p).stage = .consume state stored) :
    Inv providers validates ⟨{ s.store with kv := s.store.kv.delete state },
      Function.update s.thread p ((s.thread p).move (.exchange stored))⟩ := by
  have hfits := h.fits p
  unfold Fits at hfits
  rw [hstage] at hfits
  obtain ⟨hdeleted,hstate,start,hissued,hnonce⟩ := hfits
  refine h.goOn (shrinks_delete _ state) rfl rfl (by rw [hstage]; rfl)
    ⟨hdeleted,start,hissued.mono fun _ hs => hs,hnonce⟩ fun state' hstate' => ?_
  rw [hstate,Option.some.injEq] at hstate'
  subst hstate'
  exact JsMap.get_delete_self ..

theorem Inv.exchange (h : Inv providers validates s) {stored : OAuthState}
    (hstage : (s.thread p).stage = .exchange stored) {identity : Identity}
    (hidentity : identify providers validates i s.store.now stored (s.thread p).request.provider =
      some identity) :
    Inv providers validates
      ⟨s.store,Function.update s.thread p ((s.thread p).move (.rotate identity))⟩ := by
  have hfits := h.fits p
  unfold Fits at hfits
  rw [hstage] at hfits
  obtain ⟨hdeleted,start,hissued,hnonce⟩ := hfits
  refine h.goOn (.refl _) rfl rfl (by rw [hstage]; rfl)
    ⟨hdeleted,start,hissued,proven_identify hissued.provider hnonce hidentity⟩ ?_
  exact fun state hstate => h.spent p state (by rw [hstage]; rfl) hstate

theorem Inv.rotate (h : Inv providers validates s) {identity : Identity}
    (hstage : (s.thread p).stage = .rotate identity) :
    Inv providers validates ⟨(OAuthLogin.rotate i identity s.store (s.thread p)).1,
      Function.update s.thread p (OAuthLogin.rotate i identity s.store (s.thread p)).2⟩ := by
  have hfits := h.fits p
  unfold Fits at hfits
  rw [hstage] at hfits
  obtain ⟨hdeleted,start,hissued,hproven⟩ := hfits
  have hrunning : (s.thread p).stage ≠ .done := by
    rw [hstage]
    simp
  have hspent : ∀ state, (s.thread p).request.state = some state → s.store.kv.get state = none :=
    fun state hstate => h.spent p state (by rw [hstage]; rfl) hstate
  unfold OAuthLogin.rotate
  split
  · exact h.stop (.refl _) rfl hrunning (.inl rfl) hdeleted
  · split
    · exact h.goOn (.refl _) rfl rfl (by rw [hstage]; rfl) ⟨start,hissued,hproven⟩ hspent
    · split
      · exact h.goOn (shrinks_sessions _ _) rfl rfl (by rw [hstage]; rfl)
          ⟨start,hissued.mono fun _ hs => hs,hproven⟩ hspent
      · exact h.stop (.refl _) rfl hrunning (.inl rfl) hdeleted

theorem Inv.create (h : Inv providers validates s) {identity : Identity} {session : Session}
    {sessions : List Session} (hstage : (s.thread p).stage = .insert identity) :
    Inv providers validates ⟨{ s.store with
        sessions
        created := ⟨p,(s.thread p).request,(s.thread p).checkedAt,identity,session⟩ ::
          s.store.created },
      Function.update s.thread p ((s.thread p).move .done)⟩ := by
  have hlive : (s.thread p).stage.live = true := by rw [hstage]; rfl
  have hfits := h.fits p
  unfold Fits at hfits
  rw [hstage] at hfits
  obtain ⟨start,hissued,hproven⟩ := hfits
  have hself : Function.update s.thread p ((s.thread p).move .done) p =
      (s.thread p).move .done := Function.update_self ..
  have hother : ∀ q, q ≠ p → Function.update s.thread p ((s.thread p).move .done) q = s.thread q :=
    fun q hq => Function.update_of_ne hq ..
  refine ⟨h.entered,h.times,fun q => ?_,fun q state => ?_,fun q r hqr => ?_,?_,?_,?_,?_,?_⟩
  · by_cases hq : q = p
    · rw [hq]
      dsimp only
      rw [hself]
      exact trivial
    · dsimp only
      rw [hother q hq]
      exact (h.fits q).mono fun _ hs => hs
  · by_cases hq : q = p
    · rw [hq]
      dsimp only
      rw [hself]
      exact fun hs => by cases hs
    · dsimp only
      rw [hother q hq]
      exact h.spent q state
  · dsimp only
    intro hl hl'
    have hq : q ≠ p := by
      rintro rfl
      rw [hself] at hl
      cases hl
    have hr : r ≠ p := by
      rintro rfl
      rw [hself] at hl'
      cases hl'
    rw [hother q hq] at hl ⊢
    rw [hother r hr] at hl' ⊢
    exact h.apart q r hqr hl hl'
  · intro x hx
    rcases List.mem_cons.mp hx with rfl | hx
    · exact ⟨start,hissued.mono fun _ hs => hs,hproven⟩
    · obtain ⟨start',hissued',hproven'⟩ := h.bound x hx
      exact ⟨start',hissued'.mono fun _ hs => hs,hproven'⟩
  · intro x hx state hstate
    rcases List.mem_cons.mp hx with rfl | hx
    · exact h.spent p state (by rw [hstage]; rfl) hstate
    · exact h.gone x hx state hstate
  · intro x hx q hl
    dsimp only at hl ⊢
    have hq : q ≠ p := by
      rintro rfl
      rw [hself] at hl
      cases hl
    rw [hother q hq] at hl ⊢
    rcases List.mem_cons.mp hx with rfl | hx
    · exact h.apart q p hq hl hlive
    · exact h.used x hx q hl
  · rw [List.map_cons,List.nodup_cons]
    refine ⟨fun hin => ?_,h.once⟩
    obtain ⟨x,hx,heq⟩ := List.mem_map.mp hin
    exact h.used x hx p hlive heq.symm
  · intro x hx
    dsimp only
    rcases List.mem_cons.mp hx with rfl | hx
    · rw [hself]
      rfl
    · have hdone := h.author x hx
      have hne : x.call ≠ p := by
        intro heq
        rw [heq,hstage] at hdone
        cases hdone
      rw [hother _ hne]
      exact hdone

theorem Inv.insert (h : Inv providers validates s) {identity : Identity}
    (hstage : (s.thread p).stage = .insert identity)
    (hwhole : (s.thread p).deleted ≠ [] → i.encrypts = true ∧ i.identityHolds = true) :
    Inv providers validates ⟨(OAuthLogin.insert i p identity s.store (s.thread p)).1,
      Function.update s.thread p (OAuthLogin.insert i p identity s.store (s.thread p)).2⟩ := by
  unfold OAuthLogin.insert
  split
  · exact h.create hstage
  · rename_i hfails
    refine h.stop (.refl _) rfl (by rw [hstage]; simp) (.inl rfl) ?_
    by_contra hdeleted
    obtain ⟨hencrypts,hholds⟩ := hwhole hdeleted
    exact hfails (by rw [hencrypts,hholds]; rfl)

theorem Inv.act (h : Inv providers validates s) {t : Threads.Pool Db Call}
    (hstep : (machine providers validates).step (.act p i) s = some t)
    (hmeets : Meets s (.act p i) t) : Inv providers validates t := by
  obtain ⟨hrunning,rfl⟩ := step_act_iff.mp hstep
  unfold work
  cases hstage : (s.thread p).stage with
  | enter => exact h.enter hstage fun state stored => hmeets.alone p i state stored rfl hstage
  | drop state =>
    have hfits := h.fits p
    unfold Fits at hfits
    rw [hstage] at hfits
    exact h.stop (shrinks_delete _ state) rfl (by rw [hstage]; simp) (.inl rfl) hfits
  | consume state stored => exact h.consume hstage
  | exchange stored =>
    dsimp only
    cases hidentity : identify providers validates i s.store.now stored
        (s.thread p).request.provider with
    | none =>
      have hfits := h.fits p
      unfold Fits at hfits
      rw [hstage] at hfits
      exact h.stop (.refl _) rfl (by rw [hstage]; simp) (.inl rfl) hfits.1
    | some identity => exact h.exchange hstage hidentity
  | rotate identity => exact h.rotate hstage
  | insert identity => exact h.insert hstage (hmeets.whole p i identity rfl hstage)
  | done => simp [running,hstage] at hrunning
  | refused => simp [running,hstage] at hrunning

theorem Inv.others (h : Inv providers validates s)
    (hstarts : ∀ start ∈ s.store.starts, start ∈ d'.starts)
    (hcreated : d'.created = s.store.created)
    (htimes : ∀ start ∈ d'.starts, start.startedAt ≤ d'.now)
    (hentered : ∀ state stored, d'.kv.get state = some stored → Entered d' state stored)
    (hkv : ∀ start ∈ s.store.starts, s.store.kv.get start.state = none →
      d'.kv.get start.state = none) :
    Inv providers validates ⟨d',s.thread⟩ := by
  refine ⟨hentered,htimes,fun p => (h.fits p).mono hstarts,fun p state hs hstate => ?_,h.apart,
    ?_,?_,?_,?_,?_⟩
  · have hnone := h.spent p state hs hstate
    have hlive : (s.thread p).stage.live = true := by
      generalize (s.thread p).stage = stage at hs
      cases stage <;> first | rfl | cases hs
    obtain ⟨start,hissued⟩ := (h.fits p).issued hlive
    rw [← hissued.at_state hstate] at hnone ⊢
    exact hkv start hissued.mem hnone
  · dsimp only
    rw [hcreated]
    intro x hx
    obtain ⟨start,hissued,hproven⟩ := h.bound x hx
    exact ⟨start,hissued.mono hstarts,hproven⟩
  · dsimp only
    rw [hcreated]
    intro x hx state hstate
    have hnone := h.gone x hx state hstate
    obtain ⟨start,hissued,_⟩ := h.bound x hx
    rw [← hissued.at_state hstate] at hnone ⊢
    exact hkv start hissued.mem hnone
  · dsimp only
    rw [hcreated]
    exact h.used
  · dsimp only
    rw [hcreated]
    exact h.once
  · dsimp only
    rw [hcreated]
    exact h.author

theorem Inv.env (h : Inv providers validates s) {t : Threads.Pool Db Call}
    (hstep : (machine providers validates).step (.env e) s = some t) :
    Inv providers validates t := by
  obtain ⟨hpossible,rfl⟩ := step_env_iff.mp hstep
  cases e with
  | tick ms =>
    exact h.others (fun _ hs => hs) rfl
      (fun start hs => (h.times start hs).trans (Nat.le_add_right ..)) h.entered
      fun _ _ hnone => hnone
  | login provider state nonce codeVerifier =>
    simp only [possible,Bool.and_eq_true,decide_eq_true_eq,List.all_eq_true] at hpossible
    obtain ⟨⟨⟨_,_⟩,hnonce⟩,hfresh⟩ := hpossible
    refine h.others (fun _ hs => List.mem_cons_of_mem _ hs) rfl (fun start hs => ?_)
      (fun state' stored hget => ?_) fun start hs hnone => ?_
    · rcases List.mem_cons.mp hs with rfl | hs
      · exact Nat.le_refl _
      · exact h.times start hs
    · have hget' : (s.store.kv.set state ⟨provider,codeVerifier,s.store.now,some nonce⟩).get
          state' = some stored := hget
      by_cases heq : state' = state
      · rw [heq,JsMap.get_set_self,Option.some.injEq] at hget'
        subst hget'
        exact ⟨_,List.mem_cons_self ..,heq.symm,rfl,rfl,hnonce,rfl⟩
      · rw [JsMap.get_set_of_ne heq] at hget'
        obtain ⟨start,hs,hrest⟩ := h.entered state' stored hget'
        exact ⟨start,List.mem_cons_of_mem _ hs,hrest⟩
    · have hget : (s.store.kv.set state ⟨provider,codeVerifier,s.store.now,some nonce⟩).get
          start.state = none := by
        rw [JsMap.get_set_of_ne (hfresh start hs).1]
        exact hnone
      exact hget
  | expire state =>
    refine h.others (fun _ hs => hs) rfl h.times (fun state' stored hget => ?_)
      fun start _ hnone => (shrinks_delete s.store state).get_eq_none hnone
    exact h.entered state' stored ((shrinks_delete s.store state).kv state' stored hget)
  | setSessions sessions =>
    exact h.others (fun _ hs => hs) rfl h.times h.entered fun _ _ hnone => hnone

/-- In every run in which no two callbacks pass with one state and no rotation is cut in half, a
session belongs to a login of its browser, a state makes one session at most, and a refused callback
makes and deletes none. -/
theorem login_belongs_to_browser (providers : Text → Option Provider)
    (validates : Jwk → IdToken → Bool) (now : Nat) (requests : Nat → Callback)
    (s : Threads.Pool Db Call)
    (h : (machine providers validates).ReachesBy Meets (start now requests) s) :
    Right providers validates s := by
  refine Inv.right (h.invariant (inv_start now requests) fun a l b ha hstep hmeets => ?_)
  cases l with
  | act p i => exact ha.act hstep hmeets
  | env e => exact ha.env hstep

end steps

section examples

def plainProvider (_ : Text) : Option Provider := some ⟨"client".toList,none,none⟩

def anySignature (_ : Jwk) (_ : IdToken) : Bool := true

def browser (_ : Nat) : Callback where
  provider := "forge".toList
  code := some "code".toList
  state := some "state".toList
  cookieNonce := some "nonce".toList

def succeeds (sessionKey : String) : Answer where
  tokens := some ⟨"token".toList,none⟩
  userInfo := some "user".toList
  keys := none
  member := some "alice".toList
  reserved := false
  identityHolds := true
  encrypts := true
  sessionKey := sessionKey.toList

def loginStart : Threads.Label Answer Event :=
  .env (.login "forge".toList "state".toList "nonce".toList "verifier".toList)

abbrev plainMachine : Machine (Threads.Pool Db Call) (Threads.Label Answer Event) :=
  machine plainProvider anySignature

def after (labels : List (Threads.Label Answer Event)) : Threads.Pool Db Call :=
  (plainMachine.run labels (start 0 browser)).getD (start 0 browser)

theorem run_after {labels : List (Threads.Label Answer Event)}
    (h : (plainMachine.run labels (start 0 browser)).isSome = true) :
    plainMachine.run labels (start 0 browser) = some (after labels) := by
  obtain ⟨s,hs⟩ := Option.isSome_iff_exists.mp h
  rw [after,hs]
  rfl

def overlapping : List (Threads.Label Answer Event) :=
  let first := Threads.Label.act 0 (succeeds "first")
  let second := Threads.Label.act 1 (succeeds "second")
  [loginStart,first,second,first,second,first,second,first,second,first,second]

theorem state_used_twice : ¬ ∀ (providers : Text → Option Provider)
    (validates : Jwk → IdToken → Bool) (now : Nat) (requests : Nat → Callback) (s : Threads.Pool Db Call),
    (machine providers validates).Reaches (start now requests) s → Right providers validates s := by
  intro hall
  have hrun : plainMachine.run overlapping (start 0 browser) = some (after overlapping) :=
    run_after (by decide +kernel)
  have hright := hall plainProvider anySignature 0 browser _ (Machine.Reaches.of_run hrun)
  have hstates : (after overlapping).store.created.map (·.request.state) =
      [some "state".toList,some "state".toList] := by decide +kernel
  have honce := hright.once
  rw [hstates] at honce
  simp at honce

/-- A call without an old session deletes none. -/
theorem work_deleted {providers : Text → Option Provider} {validates : Jwk → IdToken → Bool}
    {i : Answer} {p : Nat} {d : Db} {c : Call} (hsession : c.request.cookieSession = none)
    (hdeleted : c.deleted = []) : (work providers validates i p d c).2.request = c.request ∧
      (work providers validates i p d c).2.deleted = [] := by
  unfold work
  split
  · obtain heq | ⟨state,heq⟩ | ⟨state,stored,_,_,_,_,_,heq⟩ := enter_cases d c
    · rw [heq]
      exact ⟨rfl,hdeleted⟩
    · rw [heq]
      exact ⟨rfl,hdeleted⟩
    · rw [heq]
      exact ⟨rfl,hdeleted⟩
  · exact ⟨rfl,hdeleted⟩
  · exact ⟨rfl,hdeleted⟩
  · split <;> exact ⟨rfl,hdeleted⟩
  · unfold rotate
    split
    · exact ⟨rfl,hdeleted⟩
    · rw [hsession]
      exact ⟨rfl,hdeleted⟩
  · unfold insert
    split <;> exact ⟨rfl,hdeleted⟩
  · exact ⟨rfl,hdeleted⟩
  · exact ⟨rfl,hdeleted⟩

def Solo (s : Threads.Pool Db Call) : Prop :=
  (∀ q, q ≠ 0 → (s.thread q).stage = .enter) ∧ (s.thread 0).request.cookieSession = none ∧
    (s.thread 0).deleted = []

def solo : List (Threads.Label Answer Event) :=
  let first := Threads.Label.act 0 (succeeds "first")
  [loginStart,first,first,first,first,first]

theorem mem_solo {l : Threads.Label Answer Event} (h : l ∈ solo) :
    l = loginStart ∨ l = .act 0 (succeeds "first") := by
  simpa [solo] using h

theorem Solo.step {l : Threads.Label Answer Event} {s t : Threads.Pool Db Call} (h : Solo s)
    (hl : l ∈ solo) (hstep : plainMachine.step l s = some t) : Solo t := by
  obtain ⟨hothers,hsession,hdeleted⟩ := h
  obtain rfl | rfl := mem_solo hl
  · obtain ⟨_,rfl⟩ := step_env_iff.mp hstep
    exact ⟨hothers,hsession,hdeleted⟩
  · obtain ⟨_,rfl⟩ := step_act_iff.mp hstep
    obtain ⟨hrequest,hkept⟩ := @work_deleted plainProvider anySignature (succeeds "first") 0
      s.store _ hsession hdeleted
    refine ⟨fun q hq => ?_,?_,?_⟩
    · simp only [Function.update_of_ne hq]
      exact hothers q hq
    · simp only [Function.update_self]
      rw [hrequest]
      exact hsession
    · simp only [Function.update_self]
      exact hkept

theorem Solo.meets {l : Threads.Label Answer Event} {s t : Threads.Pool Db Call} (h : Solo s)
    (hl : l ∈ solo) : Meets s l t := by
  obtain ⟨hothers,_,hdeleted⟩ := h
  refine ⟨fun p i state stored heq hstage _ q stored' hq => ?_,fun p i identity heq _ hne => ?_⟩
  · obtain rfl | rfl := mem_solo hl
    · cases heq
    · obtain ⟨rfl,_⟩ := Threads.Label.act.inj heq
      by_cases hzero : q = 0
      · rw [hzero,hstage] at hq
        cases hq
      · rw [hothers q hzero] at hq
        cases hq
  · obtain rfl | rfl := mem_solo hl
    · cases heq
    · obtain ⟨rfl,_⟩ := Threads.Label.act.inj heq
      exact absurd hdeleted hne

theorem login_belongs_to_browser_solo : Right plainProvider anySignature (after solo) ∧
    (after solo).store.sessions = [⟨"first".toList,"alice".toList⟩] := by
  have hrun : plainMachine.run solo (start 0 browser) = some (after solo) :=
    run_after (by decide +kernel)
  refine ⟨login_belongs_to_browser plainProvider anySignature 0 browser _
    (Machine.run_reachesBy (fun as l bs u v hsplit hu _ => ?_) hrun),by decide +kernel⟩
  have hsolo : Solo u := by
    refine Machine.run_history (P := fun as u => as ⊆ solo → Solo u)
      (fun _ => ⟨fun _ _ => rfl,rfl,rfl⟩) (fun as l u v _ ih hstep hsub => ?_) hu ?_
    · rw [List.append_subset] at hsub
      exact (ih hsub.1).step (hsub.2 (List.mem_singleton.mpr rfl)) hstep
    · rw [hsplit]
      exact List.subset_append_left ..
  refine hsolo.meets ?_
  rw [hsplit]
  exact List.mem_append_right _ (List.mem_cons_self ..)

end examples

end Yurucommu.OAuthLogin
