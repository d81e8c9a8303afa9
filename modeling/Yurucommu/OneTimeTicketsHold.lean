import Yurucommu.OneTimeTickets
import Yurucommu.MachineTrace
import Mathlib.Logic.Equiv.Basic

/-!
What a storage of tickets holds in every run, and what a ticket that is accepted has been through.
-/

set_option autoImplicit false

namespace Yurucommu.OneTimeTickets

open Whatwg (Text)

section mint

variable {D : Digest} {L : Listing} {start ticket k : Text} {options : OneTimeTicketOptions}
  {now : ℤ} {storage : Storage} {v : StoredTicket} {stored : List (Text × StoredTicket)}

theorem get_deleteKeys (storage : Storage) (keys : List Text) (k : Text) :
    (deleteKeys storage keys).get k = if k ∈ keys then none else storage.get k := by
  induction keys generalizing storage with
  | nil => rfl
  | cons key keys ih =>
    rw [deleteKeys,List.foldl_cons,← deleteKeys,ih,JsMap.get_delete]
    by_cases hk : k = key
    · simp [hk]
    · simp [hk]

def surplus (maxOutstanding : Nat) (live : List (Text × StoredTicket)) : List Text :=
  (live.take (live.length + 1 - maxOutstanding)).map Prod.fst

theorem evict_eq (maxOutstanding : Nat) (live : List (Text × StoredTicket)) (storage : Storage) :
    evict maxOutstanding live storage =
      (deleteKeys storage (surplus maxOutstanding live),surplus maxOutstanding live) := by
  induction live generalizing storage with
  | nil => simp [evict,surplus,deleteKeys]
  | cons oldest rest ih =>
    rw [evict,List.length_cons]
    split
    · rename_i hmore
      have hcount : (oldest :: rest).length + 1 - maxOutstanding =
          (rest.length + 1 - maxOutstanding) + 1 := by
        rw [List.length_cons]
        omega
      have hsurplus : surplus maxOutstanding (oldest :: rest) =
          oldest.1 :: surplus maxOutstanding rest := by
        rw [surplus,hcount,List.take_succ_cons,List.map_cons,surplus]
      rw [ih,hsurplus]
      rfl
    · rename_i hfew
      have hcount : (oldest :: rest).length + 1 - maxOutstanding = 0 := by
        rw [List.length_cons]
        omega
      rw [surplus,hcount]
      rfl

theorem mem_list : (k,v) ∈ L.list storage start ↔
    storage.get k = some v ∧ start.isPrefixOf k = true := by
  rw [(L.perm storage start).mem_iff,List.mem_filter,JsMap.get_eq_some_iff]

theorem mem_live : (k,v) ∈ live stored now ↔ (k,v) ∈ stored ∧ now < v.expiresAt := by
  rw [live,List.mem_mergeSort,List.mem_filter,decide_eq_true_eq]

theorem live_ordered :
    (live stored now).Pairwise fun a b => a.2.expiresAt ≤ b.2.expiresAt := by
  have hsorted : (live stored now).Pairwise fun a b =>
      decide (a.2.expiresAt ≤ b.2.expiresAt) = true := by
    refine List.pairwise_mergeSort (fun a b c hab hbc => ?_) (fun a b => ?_) _
    · rw [decide_eq_true_eq] at hab hbc ⊢
      exact hab.trans hbc
    · rw [Bool.or_eq_true,decide_eq_true_eq,decide_eq_true_eq]
      exact Int.le_total ..
  exact hsorted.imp fun h => of_decide_eq_true h

theorem mint_evicted : (mintOneTimeTicket D L start options now ticket storage).2 =
    surplus options.maxOutstanding (live (L.list storage start) now) := by
  simp only [mintOneTimeTicket,evict_eq]

theorem evicted_live (h : k ∈ (mintOneTimeTicket D L start options now ticket storage).2) :
    ∃ v, storage.get k = some v ∧ start.isPrefixOf k = true ∧ now < v.expiresAt := by
  rw [mint_evicted,surplus] at h
  obtain ⟨⟨key,v⟩,hmem,rfl⟩ := List.mem_map.mp h
  obtain ⟨hstored,hlive⟩ := mem_live.mp (List.mem_of_mem_take hmem)
  obtain ⟨hget,hstart⟩ := mem_list.mp hstored
  exact ⟨v,hget,hstart,hlive⟩

theorem get_mint_iff (hk : k ≠ ticketKey D start ticket) :
    (mintOneTimeTicket D L start options now ticket storage).1.get k = some v ↔
      storage.get k = some v ∧
        k ∉ (mintOneTimeTicket D L start options now ticket storage).2 ∧
        (start.isPrefixOf k = true → now < v.expiresAt) := by
  have hdead : ∀ u, storage.get k = some u →
      (k ∈ ((L.list storage start).map Prod.fst).filter (fun key =>
          key ∉ (live (L.list storage start) now).map Prod.fst) ↔
        start.isPrefixOf k = true ∧ ¬now < u.expiresAt) := by
    intro u hu
    rw [List.mem_filter,decide_eq_true_eq,List.mem_map,List.mem_map]
    constructor
    · rintro ⟨⟨⟨key,w⟩,hmem,rfl⟩,hnot⟩
      have hget := (mem_list.mp hmem).1
      rw [hu] at hget
      cases hget
      exact ⟨(mem_list.mp hmem).2,fun hlive => hnot ⟨_,mem_live.mpr ⟨hmem,hlive⟩,rfl⟩⟩
    · rintro ⟨hstart,hnot⟩
      refine ⟨⟨(k,u),mem_list.mpr ⟨hu,hstart⟩,rfl⟩,?_⟩
      rintro ⟨⟨key,w⟩,hmem,rfl⟩
      obtain ⟨hstored,hlive⟩ := mem_live.mp hmem
      have hget := (mem_list.mp hstored).1
      rw [hu] at hget
      cases hget
      exact hnot hlive
  rw [mint_evicted]
  simp only [mintOneTimeTicket,evict_eq]
  rw [← ticketKey,JsMap.get_set_of_ne hk,get_deleteKeys,get_deleteKeys]
  by_cases hs : k ∈ surplus options.maxOutstanding (live (L.list storage start) now)
  · simp [hs]
  · rw [if_neg hs]
    cases hu : storage.get k with
    | none => simp
    | some u =>
      have hiff := hdead u hu
      split
      · rename_i hgone
        have hno := hiff.mp hgone
        constructor
        · intro h
          cases h
        · rintro ⟨h,_,hlive⟩
          cases h
          exact absurd (hlive hno.1) hno.2
      · rename_i hthere
        constructor
        · intro h
          cases h
          exact ⟨rfl,hs,fun hstart => by
            by_contra hlive
            exact hthere (hiff.mpr ⟨hstart,hlive⟩)⟩
        · exact fun h => h.1

theorem get_mint_new : (mintOneTimeTicket D L start options now ticket storage).1.get
    (ticketKey D start ticket) = some ⟨D.sha256Hex ticket,now + options.ttlMs⟩ := by
  simp only [mintOneTimeTicket,ticketKey,JsMap.get_set_self]

theorem evicted_oldest (h : k ∈ (mintOneTimeTicket D L start options now ticket storage).2)
    (hget : storage.get k = some v) {l : Text} {w : StoredTicket}
    (hl : storage.get l = some w) (hstart : start.isPrefixOf l = true) (hlive : now < w.expiresAt)
    (hkept : l ∉ (mintOneTimeTicket D L start options now ticket storage).2) :
    v.expiresAt ≤ w.expiresAt := by
  rw [mint_evicted,surplus] at h hkept
  set n := (live (L.list storage start) now).length + 1 - options.maxOutstanding
  have hordered : ((live (L.list storage start) now).take n ++
      (live (L.list storage start) now).drop n).Pairwise fun a b =>
        a.2.expiresAt ≤ b.2.expiresAt := by
    rw [List.take_append_drop]
    exact live_ordered
  have hmem : (l,w) ∈ (live (L.list storage start) now).take n ++
      (live (L.list storage start) now).drop n := by
    rw [List.take_append_drop]
    exact mem_live.mpr ⟨mem_list.mpr ⟨hl,hstart⟩,hlive⟩
  obtain ⟨⟨key,u⟩,htake,rfl⟩ := List.mem_map.mp h
  have hu := (mem_list.mp (mem_live.mp (List.mem_of_mem_take htake)).1).1
  rw [hget] at hu
  cases hu
  rcases List.mem_append.mp hmem with htaken | hdrop
  · exact absurd (List.mem_map.mpr ⟨_,htaken,rfl⟩) hkept
  · exact (List.pairwise_append.mp hordered).2.2 _ htake _ hdrop

/-- At most as many tickets as may be outstanding have not expired after a mint. -/
theorem unexpired_mint_le :
    (unexpired start (mintOneTimeTicket D L start options now ticket storage).1 now).length ≤
      options.maxOutstanding := by
  set after := mintOneTimeTicket D L start options now ticket storage with hafter
  set n := (live (L.list storage start) now).length + 1 - options.maxOutstanding with hn
  have hkeys : ((unexpired start after.1 now).map Prod.fst) ⊆ ticketKey D start ticket ::
      ((live (L.list storage start) now).drop n).map Prod.fst := by
    intro k hk
    obtain ⟨⟨key,v⟩,hmem,rfl⟩ := List.mem_map.mp hk
    rw [unexpired,List.mem_filter,Bool.and_eq_true,decide_eq_true_eq] at hmem
    obtain ⟨hentry,hstart,hlive⟩ := hmem
    by_cases hnew : key = ticketKey D start ticket
    · exact List.mem_cons.mpr (.inl hnew)
    · have hget := JsMap.get_eq_some_iff.mpr hentry
      rw [hafter,get_mint_iff hnew] at hget
      have hin : (key,v) ∈ (live (L.list storage start) now).take n ++
          (live (L.list storage start) now).drop n := by
        rw [List.take_append_drop]
        exact mem_live.mpr ⟨mem_list.mpr ⟨hget.1,hstart⟩,hlive⟩
      rcases List.mem_append.mp hin with htaken | hdrop
      · refine absurd ?_ hget.2.1
        rw [mint_evicted,surplus]
        exact List.mem_map.mpr ⟨_,htaken,rfl⟩
      · exact List.mem_cons_of_mem _ (List.mem_map.mpr ⟨_,hdrop,rfl⟩)
  have hnodup : ((unexpired start after.1 now).map Prod.fst).Nodup :=
    after.1.nodup.sublist (List.filter_sublist.map _)
  have hlength := (hnodup.subperm hkeys).length_le
  rw [List.length_map,List.length_cons,List.length_map,List.length_drop] at hlength
  have hroomy := options.roomy
  omega

end mint

section logs

variable {D : Digest} {start t : Text} {log : List Event} {e x : Event} {m ttl : ℤ}

theorem snoc_split {before after : List Event} (h : log ++ [e] = before ++ x :: after) :
    (before = log ∧ x = e ∧ after = []) ∨ ∃ rest, after = rest ++ [e] ∧
      log = before ++ x :: rest := by
  rcases List.eq_nil_or_concat' after with rfl | ⟨rest,y,rfl⟩
  · obtain ⟨hlog,he⟩ := List.append_inj' h rfl
    exact .inl ⟨hlog.symm,(List.singleton_inj.mp he).symm,rfl⟩
  · rw [← List.cons_append,← List.append_assoc] at h
    obtain ⟨hlog,he⟩ := List.append_inj' h rfl
    rw [List.singleton_inj] at he
    exact .inr ⟨rest,by rw [he],hlog⟩

theorem outstanding_snoc : Outstanding D start (log ++ [e]) t m ttl ↔
    (Outstanding D start log t m ttl ∧ ¬Uses D start t e) ∨
      ∃ options evicted, e = .minted t m options evicted ∧ options.ttlMs = ttl := by
  constructor
  · rintro ⟨before,after,options,evicted,hlog,httl,hnot⟩
    rcases snoc_split hlog with ⟨rfl,he,rfl⟩ | ⟨rest,rfl,hrest⟩
    · exact .inr ⟨options,evicted,he.symm,httl⟩
    · exact .inl ⟨⟨before,rest,options,evicted,hrest,httl,fun y hy =>
        hnot y (List.mem_append_left _ hy)⟩,hnot e (by simp)⟩
  · rintro (⟨⟨before,after,options,evicted,rfl,httl,hnot⟩,huse⟩ | ⟨options,evicted,rfl,httl⟩)
    · refine ⟨before,after ++ [e],options,evicted,by simp,httl,fun y hy => ?_⟩
      rcases List.mem_append.mp hy with hy | hy
      · exact hnot y hy
      · exact List.mem_singleton.mp hy ▸ huse
    · exact ⟨log,[],options,evicted,rfl,httl,fun y hy => absurd hy List.not_mem_nil⟩

theorem Outstanding.minted (h : Outstanding D start log t m ttl) :
    log.any (Event.mints t) = true := by
  obtain ⟨before,after,options,evicted,rfl,_⟩ := h
  simp [Event.mints]

theorem ticketKey_inj {u : Text} : ticketKey D start t = ticketKey D start u ↔ t = u := by
  rw [ticketKey,ticketKey,List.append_cancel_left_eq,D.injective.eq_iff]

end logs

section runs

variable {D : Digest} {L : Listing} {start : Text} {w w' : World} {now : ℤ} {ticket k : Text}
  {options : OneTimeTicketOptions}

structure Holds (D : Digest) (start : Text) (w : World) : Prop where
  stored : ∀ k v, w.storage.get k = some v → start.isPrefixOf k = true → ∃ t m ttl,
    Outstanding D start w.log t m ttl ∧ k = ticketKey D start t ∧ v = ⟨D.sha256Hex t,m + ttl⟩
  present : ∀ t m ttl, Outstanding D start w.log t m ttl → w.clock < m + ttl →
    w.storage.get (ticketKey D start t) = some ⟨D.sha256Hex t,m + ttl⟩
  earlier : ∀ t m ttl, Outstanding D start w.log t m ttl → m ≤ w.clock
  distinct : ∀ (before : List Event) (t : Text) m options evicted (after : List Event),
    w.log = before ++ .minted t m options evicted :: after → before.any (Event.mints t) = false
  decided : ∀ (before : List Event) (t : Text) (now : ℤ) (ok : Bool) (after : List Event),
    w.log = before ++ .consumed t now ok :: after →
    (ok = true ↔ ∃ m ttl, Outstanding D start before t m ttl ∧ m ≤ now ∧ now < m + ttl)

theorem holds_start {storage : Storage} {clock : ℤ}
    (h : ∀ k v, storage.get k = some v → start.isPrefixOf k = false) :
    Holds D start ⟨storage,clock,[]⟩ := by
  have hnone : ∀ t m ttl, ¬Outstanding D start [] t m ttl := by
    rintro t m ttl ⟨before,after,options,evicted,hlog,_⟩
    exact absurd hlog.symm (by simp)
  constructor
  · intro k v hget hstart
    rw [h k v hget] at hstart
    cases hstart
  · exact fun t m ttl h => absurd h (hnone t m ttl)
  · exact fun t m ttl h => absurd h (hnone t m ttl)
  · exact fun before t m options evicted after hlog => absurd hlog.symm (by simp)
  · exact fun before t now ok after hlog => absurd hlog.symm (by simp)

theorem holds_mint (h : Holds D start w) (hnow : w.clock ≤ now)
    (hfresh : w.log.any (Event.mints ticket) = false) :
    Holds D start ⟨(mintOneTimeTicket D L start options now ticket w.storage).1,now,
      w.log ++ [.minted ticket now options
        (mintOneTimeTicket D L start options now ticket w.storage).2]⟩ := by
  constructor
  · intro k v hget hstart
    by_cases hk : k = ticketKey D start ticket
    · subst hk
      rw [get_mint_new] at hget
      cases hget
      exact ⟨ticket,now,options.ttlMs,outstanding_snoc.mpr (.inr ⟨options,_,rfl,rfl⟩),rfl,rfl⟩
    · rw [get_mint_iff hk] at hget
      obtain ⟨t,m,ttl,ho,rfl,rfl⟩ := h.stored k v hget.1 hstart
      exact ⟨t,m,ttl,outstanding_snoc.mpr (.inl ⟨ho,hget.2.1⟩),rfl,rfl⟩
  · intro t m ttl ho hlive
    rcases outstanding_snoc.mp ho with ⟨hold,hkept⟩ | ⟨_,_,he,rfl⟩
    · have hne : ticketKey D start t ≠ ticketKey D start ticket := by
        rw [ne_eq,ticketKey_inj]
        intro hsame
        rw [← hsame,hold.minted] at hfresh
        cases hfresh
      exact (get_mint_iff hne).mpr ⟨h.present t m ttl hold (by dsimp only at hlive; omega),hkept,
        fun _ => hlive⟩
    · cases he
      exact get_mint_new
  · intro t m ttl ho
    rcases outstanding_snoc.mp ho with ⟨ho,_⟩ | ⟨_,_,he,rfl⟩
    · exact (h.earlier t m ttl ho).trans hnow
    · cases he
      exact le_rfl
  · intro before t m other evicted after hlog
    rcases snoc_split hlog with ⟨rfl,he,rfl⟩ | ⟨rest,rfl,hrest⟩
    · cases he
      exact hfresh
    · exact h.distinct before t m other evicted rest hrest
  · intro before t at' ok after hlog
    rcases snoc_split hlog with ⟨_,he,_⟩ | ⟨rest,rfl,hrest⟩
    · cases he
    · exact h.decided before t at' ok rest hrest

theorem get_consume : (consumeOneTimeTicket D start now ticket w.storage).2.get k =
    if k = ticketKey D start ticket then none else w.storage.get k := by
  unfold consumeOneTimeTicket
  cases hget : w.storage.get (start ++ D.sha256Hex ticket) with
  | none =>
    simp only [hget]
    by_cases hk : k = ticketKey D start ticket
    · rw [if_pos hk,hk,ticketKey,hget]
    · rw [if_neg hk]
  | some v =>
    simp only [hget]
    exact JsMap.get_delete ..

theorem consume_accepts_iff (h : Holds D start w) (hnow : w.clock ≤ now) :
    (consumeOneTimeTicket D start now ticket w.storage).1 = true ↔
      ∃ m ttl, Outstanding D start w.log ticket m ttl ∧ m ≤ now ∧ now < m + ttl := by
  unfold consumeOneTimeTicket
  have hpresent : ∀ m ttl, Outstanding D start w.log ticket m ttl → now < m + ttl →
      w.storage.get (start ++ D.sha256Hex ticket) = some ⟨D.sha256Hex ticket,m + ttl⟩ :=
    fun m ttl ho hlive => h.present ticket m ttl ho (by omega)
  cases hget : w.storage.get (start ++ D.sha256Hex ticket) with
  | none =>
    simp only [hget,Bool.false_eq_true,false_iff]
    rintro ⟨m,ttl,ho,_,hlive⟩
    rw [hpresent m ttl ho hlive] at hget
    cases hget
  | some v =>
    obtain ⟨t,m,ttl,ho,hkey,rfl⟩ := h.stored _ v hget (by simp)
    rw [show start ++ D.sha256Hex ticket = ticketKey D start ticket from rfl,ticketKey_inj] at hkey
    subst hkey
    simp only [hget,timingSafeEqualStrings,decide_true]
    constructor
    · intro haccepted
      split at haccepted
      · cases haccepted
      · rename_i hlive
        exact ⟨m,ttl,ho,(h.earlier _ m ttl ho).trans hnow,Int.not_le.mp hlive⟩
    · rintro ⟨n,life,hn,_,hlive⟩
      rw [hpresent n life hn hlive] at hget
      have hsame : n + life = m + ttl := congrArg StoredTicket.expiresAt (Option.some.inj hget)
      rw [if_neg (by omega)]

theorem holds_consume (h : Holds D start w) (hnow : w.clock ≤ now) :
    Holds D start ⟨(consumeOneTimeTicket D start now ticket w.storage).2,now,
      w.log ++ [.consumed ticket now
        (consumeOneTimeTicket D start now ticket w.storage).1]⟩ := by
  constructor
  · intro k v hget hstart
    rw [get_consume] at hget
    split at hget
    · cases hget
    · rename_i hk
      obtain ⟨t,m,ttl,ho,rfl,rfl⟩ := h.stored k v hget hstart
      refine ⟨t,m,ttl,outstanding_snoc.mpr (.inl ⟨ho,fun huse => hk ?_⟩),rfl,rfl⟩
      rw [show ticket = t from huse]
  · intro t m ttl ho hlive
    rcases outstanding_snoc.mp ho with ⟨ho,hkept⟩ | ⟨_,_,he,_⟩
    · have hne : ticketKey D start t ≠ ticketKey D start ticket := by
        rw [ne_eq,ticketKey_inj]
        exact fun hsame => hkept hsame.symm
      rw [get_consume,if_neg hne]
      exact h.present t m ttl ho (by dsimp only at hlive; omega)
    · cases he
  · intro t m ttl ho
    rcases outstanding_snoc.mp ho with ⟨ho,_⟩ | ⟨_,_,he,_⟩
    · exact (h.earlier t m ttl ho).trans hnow
    · cases he
  · intro before t m other evicted after hlog
    rcases snoc_split hlog with ⟨_,he,_⟩ | ⟨rest,rfl,hrest⟩
    · cases he
    · exact h.distinct before t m other evicted rest hrest
  · intro before t at' ok after hlog
    rcases snoc_split hlog with ⟨rfl,he,rfl⟩ | ⟨rest,rfl,hrest⟩
    · cases he
      exact consume_accepts_iff h hnow
    · exact h.decided before t at' ok rest hrest

theorem holds_step {call : Call} (h : Holds D start w)
    (hs : (machine D L start).step call w = some w') : Holds D start w' := by
  cases call with
  | mint now ticket options =>
    simp only [machine,step,Option.ite_none_left_eq_some,not_or,Option.some.injEq] at hs
    obtain ⟨⟨hnow,hfresh⟩,rfl⟩ := hs
    exact holds_mint h (Int.not_lt.mp hnow) (Bool.eq_false_iff.mpr hfresh)
  | consume now ticket =>
    simp only [machine,step,Option.ite_none_left_eq_some,Option.some.injEq] at hs
    obtain ⟨hnow,rfl⟩ := hs
    exact holds_consume h (Int.not_lt.mp hnow)

/-- No ticket is accepted twice. -/
theorem Holds.once (h : Holds D start w) {before after : List Event} {t : Text} {m earlier : ℤ}
    (hlog : w.log = before ++ .consumed t m true :: after) :
    .consumed t earlier true ∉ before := by
  intro hmem
  obtain ⟨since,ttl,⟨a,b,options,evicted,rfl,_,hnot⟩,_⟩ :=
    (h.decided before t m true after hlog).mp rfl
  rcases List.mem_append.mp hmem with ha | hb
  · obtain ⟨a₁,a₂,rfl⟩ := List.append_of_mem ha
    obtain ⟨_,_,ho,_⟩ := (h.decided a₁ t earlier true _ (by
      rw [hlog,List.append_assoc,List.append_assoc,List.cons_append])).mp rfl
    have hdistinct := h.distinct (a₁ ++ .consumed t earlier true :: a₂) t since options evicted _
      (by rw [hlog,List.append_assoc]; rfl)
    rw [List.any_append,ho.minted] at hdistinct
    cases hdistinct
  · rcases List.mem_cons.mp hb with he | hb
    · cases he
    · exact hnot _ hb rfl

structure Mints (D : Digest) (start : Text) (w w' : World) (now : ℤ) (ticket : Text)
    (options : OneTimeTicketOptions) : Prop where
  bounded : (unexpired start w'.storage now).length ≤ options.maxOutstanding
  new : (ticketKey D start ticket,⟨D.sha256Hex ticket,now + options.ttlMs⟩) ∈
    unexpired start w'.storage now
  removed : ∀ k v, w.storage.get k = some v → w'.storage.get k ≠ some v →
    start.isPrefixOf k = true ∧ (v.expiresAt ≤ now ∨
      ∀ l u, w'.storage.get l = some u → w.storage.get l = some u →
        start.isPrefixOf l = true → v.expiresAt ≤ u.expiresAt)

theorem Holds.mints (h : Holds D start w)
    (hs : (machine D L start).step (.mint now ticket options) w = some w') :
    Mints D start w w' now ticket options := by
  simp only [machine,step,Option.ite_none_left_eq_some,not_or,Option.some.injEq] at hs
  obtain ⟨⟨_,hfresh⟩,rfl⟩ := hs
  have hnew : ∀ k v, w.storage.get k = some v → k ≠ ticketKey D start ticket := by
    rintro k v hget rfl
    obtain ⟨t,m,ttl,ho,hkey,_⟩ := h.stored _ v hget (by simp [ticketKey])
    rw [ticketKey_inj] at hkey
    subst hkey
    exact hfresh ho.minted
  constructor
  · exact unexpired_mint_le
  · rw [unexpired,List.mem_filter,← JsMap.get_eq_some_iff]
    refine ⟨get_mint_new,?_⟩
    have hlasting := options.lasting
    simp [ticketKey]
    omega
  · intro k v hget hgone
    dsimp only at hgone
    rw [ne_eq,get_mint_iff (hnew k v hget)] at hgone
    by_cases hev : k ∈ (mintOneTimeTicket D L start options now ticket w.storage).2
    · obtain ⟨u,hu,hstart,hlive⟩ := evicted_live hev
      refine ⟨hstart,.inr fun l x hl hold hstart => ?_⟩
      rw [get_mint_iff (hnew l x hold)] at hl
      exact evicted_oldest hev hget hold hstart (hl.2.2 hstart) hl.2.1
    · by_contra hno
      refine hgone ⟨hget,hev,fun hstart => ?_⟩
      by_contra hdead
      exact hno ⟨hstart,.inl (Int.not_lt.mp hdead)⟩

/-- In every run a ticket is accepted exactly if it was minted, within its lifetime, and neither
presented nor evicted since; it is accepted once; and every mint keeps the bound. -/
theorem tickets_one_time (D : Digest) (L : Listing) (start : Text) {storage : Storage} {clock : ℤ}
    {calls : List Call} (hstart : ∀ k v, storage.get k = some v → start.isPrefixOf k = false)
    (h : (machine D L start).run calls ⟨storage,clock,[]⟩ = some w) :
    (∀ before t now ok after, w.log = before ++ .consumed t now ok :: after →
      (ok = true ↔ ∃ m ttl, Outstanding D start before t m ttl ∧ m ≤ now ∧ now < m + ttl) ∧
        (ok = true → ∀ earlier, .consumed t earlier true ∉ before)) ∧
      ∀ now ticket options w', (machine D L start).step (.mint now ticket options) w = some w' →
        Mints D start w w' now ticket options := by
  have hw : Holds D start w :=
    Machine.run_invariant (P := Holds D start) (holds_start hstart) (fun _ _ _ => holds_step) h
  refine ⟨fun before t now ok after hlog => ⟨hw.decided before t now ok after hlog,?_⟩,
    fun now ticket options w' => hw.mints⟩
  rintro rfl earlier
  exact hw.once hlog

end runs

section concrete

def mintedTicket : Text := "0123456789abcdef0123456789abcdef0123456789abcdef0123456789abcdef".toList

def mintedHash : Text := "a8ae6e6ee929abea3afcfc5258c8ccd6f85273e0d4626d26c7279f3250f77c8e".toList

def hashOfHash : Text := "2b7777de6aec4c7e96d8d9c3357667db6270c1c51144ed62f096a4cd979332a2".toList

/-- A permutation of the texts that is SHA-256 on the two that are digested. -/
def digestOnTicket : Digest :=
  let cycle := (Equiv.swap mintedHash hashOfHash).trans (Equiv.swap mintedTicket mintedHash)
  ⟨cycle,cycle.injective⟩

def inOrder : Listing := ⟨fun storage start => storage.entries.filter fun e => start.isPrefixOf e.1,
  fun _ _ => .refl _⟩

def presentedTwice : List Call :=
  [.mint 0 mintedTicket defaultOptions,.consume 59999 mintedTicket,.consume 59999 mintedTicket]

def presented : World :=
  ((machine digestOnTicket inOrder "ticket:".toList).run presentedTwice
    ⟨.empty,0,[]⟩).getD ⟨.empty,0,[]⟩

theorem tickets_one_time_presented :
    ∃ m ttl, Outstanding digestOnTicket "ticket:".toList
      [.minted mintedTicket 0 defaultOptions []] mintedTicket m ttl ∧
        m ≤ 59999 ∧ 59999 < m + ttl := by
  have hrun : (machine digestOnTicket inOrder "ticket:".toList).run presentedTwice
      ⟨.empty,0,[]⟩ = some presented := Machine.some_getD (by decide +kernel) _
  have hlog : presented.log = [.minted mintedTicket 0 defaultOptions []] ++
      .consumed mintedTicket 59999 true :: [.consumed mintedTicket 59999 false] := by
    decide +kernel
  have hstart : ∀ k v, (JsMap.empty : Storage).get k = some v →
      "ticket:".toList.isPrefixOf k = false := fun _ _ h => by cases h
  exact ((tickets_one_time digestOnTicket inOrder "ticket:".toList hstart hrun).1
    _ _ _ _ _ hlog).1.1 rfl

end concrete

end Yurucommu.OneTimeTickets
