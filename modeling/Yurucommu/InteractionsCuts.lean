import Yurucommu.InteractionsRetry

/-!
What a retry makes of a cut, from what is kept at the stage where the cut is: either one dispatch
can come to the same tables and end there, or no dispatch leaves what the retry leaves.
-/

set_option autoImplicit false

namespace Yurucommu.Interactions

open Whatwg (Text)
open Inbox (Processed Outcome)

variable {w : Site} {p q : Nat} {a : Activity}

section tables

variable {d e : Db} {id actor : Text} {n m : Nat} {state state' : Processed}

theorem any_setProcessed (key : Text) : (setProcessed id state d).activities.any
    (sameActivity key) = d.activities.any (sameActivity key) := by
  unfold setProcessed Table.update
  rw [List.any_map]
  congr 1
  funext r
  unfold sameActivity
  simp only [Function.comp_apply]
  split <;> rfl

theorem processed_setProcessed (h : d.activities.any (sameActivity id) = true) :
    processed id (setProcessed id state d) = some state := by
  have hcomp : (sameActivity id ∘ fun r => if sameActivity id r = true then
      ({ r with processed := state } : ActivityRow) else r) = sameActivity id := by
    funext r
    unfold sameActivity
    simp only [Function.comp_apply]
    split <;> rfl
  obtain ⟨r,hr⟩ := Option.isSome_iff_exists.mp (List.find?_isSome.mpr (List.any_eq_true.mp h))
  unfold processed setProcessed Table.update
  simp only [List.find?_map,hcomp,hr,Option.map_some,List.find?_some hr,if_true]

theorem setProcessed_apIds (h : setProcessed id state d = setProcessed id state' e) :
    d.activities.map (·.apId) = e.activities.map (·.apId) := by
  have hmap : ∀ (s : Processed) (f : Db),
      (setProcessed id s f).activities.map (·.apId) = f.activities.map (·.apId) := by
    intro s f
    unfold setProcessed Table.update
    rw [List.map_map]
    refine List.map_congr_left fun r _ => ?_
    simp only [Function.comp_apply]
    split <;> rfl
  rw [← hmap state d,← hmap state' e,h]

theorem upsertActivity_of_any {row : ActivityRow}
    (h : d.activities.any (sameActivity row.apId) = true) : upsertActivity row d = d := by
  unfold upsertActivity
  rw [Table.insertIgnore_of_any row h]

theorem notify_of_any {recipient : Text} (h : d.inbox.any (sameInbox recipient id) = true) :
    notify recipient id n d = d := by
  unfold notify
  rw [Table.insertIgnore_of_any _ h]

theorem any_notify (recipient id : Text) (n : Nat) (d : Db) :
    (notify recipient id n d).inbox.any (sameInbox recipient id) = true :=
  Table.any_insertIgnore (by simp [sameInbox]) _

theorem any_insertRequest (id recipient : Text) (n : Nat) (d : Db) :
    (insertRequest id recipient n d).requests.any (sameRequest id recipient) = true :=
  Table.any_insertIgnore (by simp [sameRequest]) _

theorem insertRequest_of_any (h : d.requests.any (sameRequest id actor) = true) :
    insertRequest id actor n d = d := by
  unfold insertRequest
  rw [Table.insertIgnore_of_any _ h]

theorem requested_insertRequest (h : w.queueAvailable = false) (id : Text) (n : Nat) (d : Db) :
    requested w a id (insertRequest id a.actor n d) = true := by
  unfold requested
  simpa [h] using any_insertRequest id a.actor n d

end tables

section answers

variable {s₀ s t : Store} {st : Stage} {d b : Db} {n m l : Nat} {id recipient : Text}

def apIds (d : Db) : List Text := d.activities.map (·.apId)

structure SameRows (d e : Db) : Prop where
  apIds : apIds d = apIds e
  likes : d.likes = e.likes
  announces : d.announces = e.announces
  objects : d.objects = e.objects
  inbox : d.inbox = e.inbox
  requests : d.requests = e.requests

theorem sameRows {e : Db} {state state' : Processed}
    (h : setProcessed a.activityId state d = setProcessed a.activityId state' e) :
    SameRows d e := by
  refine ⟨setProcessed_apIds h,?_,?_,?_,?_,?_⟩
  · exact (congrArg Db.likes h : _)
  · exact (congrArg Db.announces h : _)
  · exact (congrArg Db.objects h : _)
  · exact (congrArg Db.inbox h : _)
  · exact (congrArg Db.requests h : _)

theorem passes_read (hw : a.entry.working = true) (ht : ∀ i, i.fails = false → throws a i d a.entry = false)
    (h : ∀ i k, handle w a i k d a.entry = (d,processedDone)) (hany : d.activities.any
      (sameActivity a.activityId) = true) :
    Passes w a d n processedDone ∧
      ∀ q l m, n ≤ m → ∃ t, Completes w q a (⟨d,held q l,m⟩,a.entry) t := by
  constructor
  · exact (passes_entry d n).step hw fun i k _ _ => h i k
  · intro q l m _
    have hcommit : Completes w q a (⟨d,held q l,m⟩,processedDone)
        ⟨setProcessed a.activityId .done d,some ⟨none,none⟩,m⟩ :=
      (completes_commit hany).mpr ⟨m,le_refl m,rfl⟩
    refine ⟨⟨setProcessed a.activityId .done d,some ⟨none,none⟩,m⟩,?_⟩
    rw [completes_working hw]
    refine ⟨{},m,le_refl m,ht {} rfl,?_⟩
    rw [h]
    exact hcommit

theorem reached_notified
    (hi : d.inbox.any (sameInbox recipient a.activityId) = true)
    (hr : Reached w p a s₀ (⟨d,held p l,n⟩,.insertInbox recipient false)) :
    Reached w p a s₀ (⟨d,held p l,n⟩,processedDone) := by
  have hnext := hr.next { now := n }
  rw [next_working rfl (by simp only [throws,hi]; rfl)] at hnext
  simpa only [handle,notify_of_any hi,max_self,Bool.false_eq_true,if_false] using hnext

theorem reached_upserted {type : ActivityType} {objectId : Text}
    (hany : d.activities.any (sameActivity a.activityId) = true)
    (hi : d.inbox.any (sameInbox recipient a.activityId) = true)
    (hr : Reached w p a s₀ (⟨d,held p l,n⟩,.upsertActivity type objectId recipient false)) :
    Reached w p a s₀ (⟨d,held p l,n⟩,processedDone) := by
  have hnext := hr.next { now := n }
  rw [next_working rfl rfl] at hnext
  have hup : upsertActivity ⟨a.activityId,type,a.actor,some objectId,none,.unprocessed⟩ d = d :=
    upsertActivity_of_any hany
  refine reached_notified hi ?_
  simpa only [handle,hup,max_self] using hnext

end answers

section cuts

variable {s₀ s s' t : Store} {st : Stage} {d : Db} {n m l : Nat} {H : Nat → Store → Stage → Prop}

/-- A retry does not get past its reads, and does not leave what any dispatch leaves. -/
structure Stuck (w : Site) (a : Activity) (H : Nat → Store → Stage → Prop) (d : Db) (n : Nat) :
    Prop where
  passes : Passes w a d n processedDone
  completes : ∀ q l m, n ≤ m → ∃ t, Completes w q a (⟨d,held q l,m⟩,a.entry) t
  apart : ∀ r s state, Begun a s.db → H r s (.commit state) →
    setProcessed a.activityId state.1 s.db ≠ setProcessed a.activityId .done d

structure Cuts (w : Site) (a : Activity) (s₀ : Store) (H : Nat → Store → Stage → Prop) :
    Prop where
  keeps : ∀ p, Keeps w p a s₀ (H p)
  rewinds : ∀ p d l n st, H p ⟨d,held p l,n⟩ st → Begun a d →
    Reached w p a s₀ (⟨d,held p l,n⟩,st) → ¬Stranded w a (⟨d,held p l,n⟩,st) →
      Rewinds w p a s₀ d n
  stuck : ∀ p d l n st, H p ⟨d,held p l,n⟩ st → Begun a d →
    Stranded w a (⟨d,held p l,n⟩,st) → Stuck w a H d n

/-- Whatever a dispatch can come to without a change of the tables, it can end with. -/
theorem rewinds_of_reached (hb : Begun a d) (hst : st.handling = true) (hn : m ≤ n)
    (hr : Reached w p a s₀ (⟨d,held p l,m⟩,st)) (hp : Passes w a d n st) :
    Rewinds w p a s₀ d n := ⟨hb,l,m,st,hst,hn,hr,hp⟩

theorem Stuck.not_retried (h : Stuck w a H d n) (hcuts : Cuts w a s₀ H)
    (hstart : Begun a (begin_ a s₀.db)) (hbegun : Begun a d)
    (hb : isActorBlockedStrict w a.actor = false) (hdb : s.db = d) (hn : n ≤ s.now) :
    ¬Retried w a s₀ s := by
  subst hdb
  intro hretried
  have hbegin := begin_of_any hbegun.1
  have hun : processed a.activityId (begin_ a s.db) = some .unprocessed := by
    rw [hbegin]
    exact hbegun.2
  obtain ⟨t,hc⟩ := h.completes 0 s.now s.now hn
  have hretry : Completes w 0 a (freed s,.gate) t := by
    rw [completes_start hb hun,hbegin]
    exact ⟨s.now,le_refl _,hc⟩
  obtain ⟨k,_,hcommit⟩ := h.passes 0 s.now s.now t hn hc
  obtain ⟨_,_,rfl⟩ := (completes_commit hbegun.1).mp hcommit
  obtain ⟨r,t',hwhole,hdb⟩ := hretried 0 _ hretry
  have hinv := (hcuts.keeps r).reached hwhole
  obtain ⟨_,⟨hblocked,_⟩ | ⟨_,hsame,hp⟩ | ⟨_,s',state,hbegun',hH,hended⟩⟩ := hinv
  · rw [hb] at hblocked
    cases hblocked
  · rw [hsame] at hp
    exact hp hstart.2
  · exact h.apart r s' state hbegun' hH (hended.symm.trans hdb)

theorem Cuts.handled (h : Cuts w a s₀ H) (hw : st.working = true ∨ ∃ state, st = .commit state)
    (hr : Reached w p a s₀ (s',st)) (hdb : s.db = s'.db) (hn : s'.now ≤ s.now) :
    Retried w a s₀ s ↔ ¬Stranded w a (s',st) := by
  obtain ⟨_,hb,⟨l,hl⟩,hstart,hbegun,hH⟩ := (inv_handling hw).mp ((h.keeps p).reached hr)
  obtain ⟨d,claim,n⟩ := s'
  subst hl
  constructor
  · intro hretried hstranded
    have hstuck := h.stuck p d l n st hH hbegun hstranded
    exact hstuck.not_retried h hstart hbegun hb hdb hn hretried
  · intro hstranded
    have hrewinds := (h.rewinds p d l n st hH hbegun hr hstranded).later hn
    have heq : d = s.db := hdb.symm
    rw [heq] at hrewinds
    exact hrewinds.retried hb

theorem Cuts.early (h : Cuts w a s₀ H) (hst : st.handling = false)
    (hr : Reached w p a s₀ (s',st)) (hdb : s.db = s'.db) (hn : s'.now ≤ s.now) :
    Retried w a s₀ s := by
  have hinv := (h.keeps p).reached hr
  have hnow : s₀.now ≤ s.now := le_trans hinv.1 hn
  cases st with
  | gate =>
    obtain ⟨_,hsame,_⟩ := hinv
    have hsame : s.db = s₀.db := hdb.trans hsame
    cases hb : isActorBlockedStrict w a.actor with
    | true => exact retried_of_blocked hb hsame
    | false => exact retried_of_begun hb (by rw [hsame]) hnow
  | insertActivity =>
    obtain ⟨_,hb,hsame,_⟩ := hinv
    exact retried_of_begun hb (by rw [hdb,hsame]) hnow
  | insertClaim | readProcessed =>
    obtain ⟨_,hb,hsame,_⟩ := hinv
    exact retried_of_begun hb (by rw [hdb,hsame,begin_begin]) hnow
  | claim =>
    obtain ⟨_,hb,hsame,_⟩ := hinv
    exact retried_of_begun hb (by rw [hdb,hsame,begin_begin]) hnow
  | _ => cases hst

theorem Ended.retried {p' : Nat} (h : Ended a (H p') s.db) (hb : isActorBlockedStrict w a.actor = false)
    (hc : ∃ t, Completes w p a (freed s₀,.gate) t ∧ t.db = s.db) : Retried w a s₀ s := by
  obtain ⟨s',state,hbegun,_,hdb⟩ := h
  refine retried_of_ended hb ?_ ?_ hc
  · rw [hdb,any_setProcessed]
    exact hbegun.1
  · rw [hdb,processed_setProcessed hbegun.1]
    intro heq
    exact state.2 (Option.some.inj heq)

theorem Cuts.committed (h : Cuts w a s₀ H) (hst : st = .clear ∨ st = .done)
    (hr : Reached w p a s₀ (s',st)) (hdb : s.db = s'.db) (hn : s'.now ≤ s.now) :
    Retried w a s₀ s := by
  have hinv := (h.keeps p).reached hr
  rcases hst with rfl | rfl
  · obtain ⟨_,hb,⟨l,hl⟩,hended⟩ := hinv
    obtain ⟨d,claim,n⟩ := s'
    subst hl
    rw [← hdb] at hended
    exact hended.retried (p := p) hb
      ⟨_,hr.completes (completes_clear.mpr ⟨n,le_refl n,rfl⟩),hdb.symm⟩
  · obtain ⟨hnow,⟨hb,hsame⟩ | ⟨hb,hsame,hp⟩ | ⟨hb,hended⟩⟩ := hinv
    · exact retried_of_blocked hb (hdb.trans hsame)
    · exact retried_of_begun hb (by rw [hdb,hsame,begin_begin]) (le_trans hnow hn)
    · rw [← hdb] at hended
      exact hended.retried (p := p) hb ⟨s',hr,hdb.symm⟩

theorem stages (st : Stage) : st.handling = false ∨ (st.working = true ∨ ∃ state, st = .commit state) ∨
    (st = .clear ∨ st = .done) ∨ (∃ id, st = .retain id) ∨ ∃ at_, st = .thrown at_ := by
  cases st with
  | gate | insertActivity | insertClaim | readProcessed | claim => exact .inl rfl
  | commit state => exact .inr (.inl (.inr ⟨state,rfl⟩))
  | clear => exact .inr (.inr (.inl (.inl rfl)))
  | done => exact .inr (.inr (.inl (.inr rfl)))
  | retain id => exact .inr (.inr (.inr (.inl ⟨id,rfl⟩)))
  | thrown at_ => exact .inr (.inr (.inr (.inr ⟨at_,rfl⟩)))
  | _ => exact .inr (.inl (.inl rfl))

theorem stranded_congr (hdb : s.db = s'.db) (st : Stage) :
    Stranded w a (s,st) ↔ Stranded w a (s',st) := by
  unfold Stranded
  rw [hdb]

theorem owes_early (hst : st.handling = false ∨ st = .clear ∨ st = .done) :
    owes w a d st = false := by
  rcases hst with hst | rfl | rfl
  · cases st <;> first | rfl | cases hst
  · rfl
  · rfl

theorem Cuts.retain (h : Cuts w a s₀ H) {id : Text} (hr : Reached w p a s₀ (s',.retain id))
    (hdb : s.db = s'.db) (hn : s'.now ≤ s.now) :
    Retried w a s₀ s ↔ ¬Stranded w a (s',.retain id) := by
  obtain ⟨s'',hblocked,hsame,hnow⟩ := hr.retain
  rw [h.handled (.inl rfl) hblocked (hdb.trans hsame.symm) (le_trans hnow hn)]
  exact not_congr (stranded_congr hsame _)

/-- A request left behind by a blocklist that could not be read is one that could have been
written with it. -/
theorem reached_retained {id : Text} (hb : isActorBlockedStrict w a.actor = false)
    (hr : Reached w p a s₀ (⟨d,held p l,m⟩,.isBlocked id)) (hn : m ≤ n) :
    Reached w p a s₀ (⟨insertRequest id a.actor n d,held p l,n⟩,
      if w.queueAvailable then .readDue id else processedDone) := by
  have hfirst := hr.next { now := m }
  rw [next_working rfl rfl] at hfirst
  simp only [handle,hb,Bool.false_eq_true,if_false,max_self] at hfirst
  have hsecond := hfirst.next { now := n }
  rw [next_working rfl rfl] at hsecond
  simpa only [handle,max_eq_right hn] using hsecond

theorem Cuts.left (h : Cuts w a s₀ H) {id : Text} (hr : Reached w p a s₀ (s',.retain id))
    (hdb : s.db = insertRequest id a.actor s.now s'.db) (hn : s'.now ≤ s.now) :
    Retried w a s₀ s ↔ ¬Stranded w a (s,.retain id) := by
  obtain ⟨⟨d,claim,m⟩,hblocked,hsame,hnow⟩ := hr.retain
  obtain ⟨_,hb,⟨l,hl⟩,_⟩ := (inv_handling (.inl rfl)).mp ((h.keeps p).reached hblocked)
  subst hl
  have hmoved := reached_retained hb hblocked (le_trans hnow hn)
  simp only at hsame
  rw [hsame,← hdb] at hmoved
  cases hq : w.queueAvailable with
  | true =>
    simp only [hq,if_true] at hmoved
    rw [h.handled (s := s) (.inl rfl) hmoved rfl (le_refl _)]
    exact not_congr Iff.rfl
  | false =>
    simp only [hq,Bool.false_eq_true,if_false] at hmoved
    rw [h.handled (s := s) (.inr ⟨_,rfl⟩) hmoved rfl (le_refl _)]
    have hrequested := requested_insertRequest (a := a) hq id s.now s'.db
    rw [← hdb] at hrequested
    simp [Stranded,owes,hrequested]

theorem Cuts.retried_iff (h : Cuts w a s₀ H) (hr : Reached w p a s₀ (s,st)) :
    Retried w a s₀ s ↔ ¬Stranded w a (s,st) := by
  have hnone : ∀ st' : Stage, (st'.handling = false ∨ st' = .clear ∨ st' = .done) →
      ¬Stranded w a (s,st') := by
    rintro st' hst ⟨_,howes⟩
    rw [owes_early hst] at howes
    cases howes
  rcases stages st with hst | hst | hst | ⟨id,rfl⟩ | ⟨at_,rfl⟩
  · exact iff_of_true (h.early hst hr rfl (le_refl _)) (hnone _ (.inl hst))
  · exact h.handled hst hr rfl (le_refl _)
  · exact iff_of_true (h.committed hst hr rfl (le_refl _)) (hnone _ (.inr hst))
  · exact h.retain hr rfl (le_refl _)
  · obtain ⟨s',hat,hn,hhalted,hdb | ⟨id,rfl,hdb⟩⟩ := hr.thrown
    · rcases stages at_ with hst | hst | hst | ⟨id,rfl⟩ | ⟨at_',rfl⟩
      · exact iff_of_true (h.early hst hat hdb.symm hn) (hnone at_ (.inl hst))
      · rw [h.handled hst hat hdb.symm hn]
        exact not_congr (stranded_congr hdb _)
      · exact iff_of_true (h.committed hst hat hdb.symm hn) (hnone at_ (.inr hst))
      · rw [h.retain hat hdb.symm hn]
        exact not_congr (stranded_congr hdb _)
      · cases hhalted
    · exact h.left hat hdb hn

end cuts

end Yurucommu.Interactions
