import Yurucommu.FormUrlencoded
import Yurucommu.JsMap
import Yurucommu.Machine

/-!
The rate limiter: counters in a store that may answer with anything it had, and in the memory of an
isolate beside it. A refusal is earned, and memory forgets a key only for ten thousand others.
-/

set_option autoImplicit false

namespace Yurucommu.RateLimit

open Whatwg (Text)

structure RateLimitEntry where
  count : ℕ
  resetAt : ℕ

def windowMs : ℕ := 60000

def getRateLimitStorageKey (key : Text) : Text :=
  "rate-limit:v1:".toList ++ Whatwg.encodeURIComponent key

/-- What follows the entry that was found, unless its window is over. -/
def consume (current : Option RateLimitEntry) (now : ℕ) : RateLimitEntry :=
  match current.filter (now < ·.resetAt) with
  | some current => ⟨current.count + 1,current.resetAt⟩
  | none => ⟨1,now + windowMs⟩

def limited (maxRequests : ℕ) (entry : RateLimitEntry) : Bool := maxRequests < entry.count

def retryAfter (entry : RateLimitEntry) (now : ℕ) : ℤ := -(((now : ℤ) - entry.resetAt) / 1000)

section fallback

abbrev FallbackStore := JsMap Text RateLimitEntry

def keepEntries (entries : List (Text × RateLimitEntry)) (m : FallbackStore)
    (h : entries.Sublist m.entries) : FallbackStore := ⟨entries,m.nodup.sublist (h.map _)⟩

def keepLast (cap : ℕ) (m : FallbackStore) : FallbackStore :=
  keepEntries (m.entries.drop (m.entries.length - cap)) m (List.drop_sublist _ _)

def fallbackRateLimitMaxEntries : ℕ := 10000

def enforceFallbackLruCap : FallbackStore → FallbackStore := keepLast fallbackRateLimitMaxEntries

def evictExpiredFallbackEntries (now : ℕ) (m : FallbackStore) : FallbackStore :=
  enforceFallbackLruCap (keepEntries (m.entries.filter (now < ·.2.resetAt)) m List.filter_sublist)

def touchFallbackEntry (key : Text) (entry : RateLimitEntry) (m : FallbackStore) : FallbackStore :=
  (m.delete key).set key entry

def fallbackEntry (key : Text) (now : ℕ) (m : FallbackStore) : RateLimitEntry :=
  consume ((evictExpiredFallbackEntries now m).get key) now

def consumeLocalFallback (key : Text) (now : ℕ) (m : FallbackStore) : FallbackStore :=
  enforceFallbackLruCap (touchFallbackEntry key (fallbackEntry key now m)
    (evictExpiredFallbackEntries now m))

end fallback

section host

structure Hit where
  key : Text
  began : ℕ
  counted : ℕ
  entry : RateLimitEntry

/-- `puts` is all that was put in the store, and `hits` all that an isolate counted in memory. -/
structure Host where
  now : ℕ
  puts : List Hit
  fallback : FallbackStore
  hits : List Hit

/-- A get finds any entry that was put under its key before, or none. A call that finds no store, or
whose get or put throws, counts in memory. -/
inductive Event where
  | elapse (ms : ℕ)
  | consumeDistributed (key : Text) (began : ℕ) (found : Option ℕ)
  | consumeLocalFallback (key : Text) (began : ℕ)
  | restart

def kvGet (puts : List Hit) (key : Text) (n : ℕ) : Option RateLimitEntry :=
  ((puts.filter fun put => getRateLimitStorageKey put.key = getRateLimitStorageKey key).map
    (·.entry))[n]?

def step (event : Event) (h : Host) : Option Host :=
  match event with
  | .elapse ms => some { h with now := h.now + ms }
  | .consumeDistributed key began found =>
    if began ≤ h.now then
      some { h with
        puts := ⟨key,began,h.now,consume (found.bind (kvGet h.puts key)) began⟩ :: h.puts }
    else none
  | .consumeLocalFallback key began =>
    if began ≤ h.now then
      some { h with
        fallback := consumeLocalFallback key began h.fallback
        hits := ⟨key,began,h.now,fallbackEntry key began h.fallback⟩ :: h.hits }
    else none
  | .restart => some { h with fallback := .empty }

def machine : Machine Host Event := ⟨step⟩

def start (now : ℕ) : Host := ⟨now,[],.empty,[]⟩

end host

section earned

variable {h h' : Host} {key : Text} {now cap : ℕ} {m : FallbackStore} {hits : List Hit}
  {hit : Hit} {e : Text × RateLimitEntry} {entry : RateLimitEntry}

/-- As many calls of the key as the entry counts, this one among them. Each began before the window
was over and was counted after it was open. -/
def Earned (hits : List Hit) (hit : Hit) : Prop :=
  ∃ counted : List Hit, counted.Sublist hits ∧ hit ∈ counted ∧
    counted.length = hit.entry.count ∧ ∀ other ∈ counted, other.key = hit.key ∧
      other.began < hit.entry.resetAt ∧ hit.entry.resetAt ≤ other.counted + windowMs

def AllEarned (now : ℕ) (hits : List Hit) : Prop :=
  ∀ hit ∈ hits, hit.counted ≤ now ∧ Earned hits hit

theorem AllEarned.later {ms : ℕ} (h : AllEarned now hits) : AllEarned (now + ms) hits :=
  fun hit hhit => ⟨(h hit hhit).1.trans (Nat.le_add_right now ms),(h hit hhit).2⟩

theorem AllEarned.count {began : ℕ} {current : Option RateLimitEntry} (h : AllEarned now hits)
    (hbegan : began ≤ now)
    (hfound : ∀ entry ∈ current, ∃ hit ∈ hits, hit.key = key ∧ hit.entry = entry) :
    AllEarned now (⟨key,began,now,consume current began⟩ :: hits) := by
  have hnew : Earned (⟨key,began,now,consume current began⟩ :: hits)
      ⟨key,began,now,consume current began⟩ := by
    unfold consume
    split
    · rename_i entry hentry
      obtain ⟨hcurrent,hopen⟩ := Option.filter_eq_some_iff.1 hentry
      obtain ⟨hit,hhit,rfl,rfl⟩ := hfound entry hcurrent
      obtain ⟨hle,counted,hsub,hmem,hlength,hcounted⟩ := h hit hhit
      have hlt : began < hit.entry.resetAt := of_decide_eq_true hopen
      refine ⟨_ :: counted,hsub.cons_cons _,List.mem_cons_self,by rw [List.length_cons,hlength],?_⟩
      rw [List.forall_mem_cons]
      exact ⟨⟨rfl,hlt,(hcounted hit hmem).2.2.trans (Nat.add_le_add_right hle windowMs)⟩,hcounted⟩
    · have hlt : began < began + windowMs := Nat.lt_add_of_pos_right (by decide)
      refine ⟨[_],List.singleton_sublist.2 List.mem_cons_self,List.mem_singleton_self _,rfl,?_⟩
      rw [List.forall_mem_singleton]
      exact ⟨rfl,hlt,Nat.add_le_add_right hbegan windowMs⟩
  refine List.forall_mem_cons.2 ⟨⟨le_rfl,hnew⟩,fun hit hhit => ?_⟩
  obtain ⟨hle,counted,hsub,hcounted⟩ := h hit hhit
  exact ⟨hle,counted,hsub.cons _,hcounted⟩

theorem mem_keepLast (h : e ∈ (keepLast cap m).entries) : e ∈ m.entries := List.mem_of_mem_drop h

theorem mem_evict (h : e ∈ (evictExpiredFallbackEntries now m).entries) :
    e ∈ m.entries ∧ now < e.2.resetAt :=
  (List.mem_filter.1 (mem_keepLast h)).imp_right of_decide_eq_true

theorem mem_consumeLocalFallback (h : e ∈ (consumeLocalFallback key now m).entries) :
    e = (key,fallbackEntry key now m) ∨ e ∈ (evictExpiredFallbackEntries now m).entries := by
  unfold consumeLocalFallback touchFallbackEntry enforceFallbackLruCap at h
  generalize fallbackEntry key now m = next at h ⊢
  have hset := JsMap.get_eq_some_iff.2 (mem_keepLast h)
  rw [JsMap.get_set] at hset
  split at hset
  · exact .inl (Prod.ext ‹_› (Option.some.inj hset).symm)
  · rw [JsMap.get_delete_of_ne ‹_›] at hset
    exact .inr (JsMap.get_eq_some_iff.1 hset)

structure Sound (h : Host) : Prop where
  puts : AllEarned h.now h.puts
  hits : AllEarned h.now h.hits
  fallback : ∀ e ∈ h.fallback.entries, ∃ hit ∈ h.hits, hit.key = e.1 ∧ hit.entry = e.2

theorem mem_kvGet {puts : List Hit} {n : ℕ} (h : kvGet puts key n = some entry) :
    ∃ put ∈ puts, put.key = key ∧ put.entry = entry := by
  obtain ⟨put,hput,rfl⟩ := List.mem_map.1 (List.mem_of_getElem? h)
  obtain ⟨hput,hkey⟩ := List.mem_filter.1 hput
  exact ⟨put,hput,Whatwg.encodeURIComponent_injective
    (List.append_cancel_left (of_decide_eq_true hkey)),rfl⟩

theorem Sound.step {event : Event} (hsound : Sound h) (hs : machine.step event h = some h') :
    Sound h' := by
  obtain ⟨hputs,hhits,hfallback⟩ := hsound
  cases event with
  | elapse ms =>
    cases hs
    exact ⟨hputs.later,hhits.later,hfallback⟩
  | consumeDistributed key began found =>
    obtain ⟨hbegan,hs⟩ := Option.ite_none_right_eq_some.1 hs
    cases hs
    refine ⟨hputs.count hbegan fun entry hentry => ?_,hhits,hfallback⟩
    obtain ⟨n,_,hn⟩ := Option.bind_eq_some_iff.1 hentry
    exact mem_kvGet hn
  | consumeLocalFallback key began =>
    obtain ⟨hbegan,hs⟩ := Option.ite_none_right_eq_some.1 hs
    cases hs
    refine ⟨hputs,hhits.count hbegan fun entry hentry => ?_,fun e he => ?_⟩
    · exact hfallback _ (mem_evict (JsMap.get_eq_some_iff.1 hentry)).1
    · obtain rfl | he := mem_consumeLocalFallback he
      · exact ⟨_,List.mem_cons_self,rfl,rfl⟩
      · obtain ⟨hit,hhit,hsame⟩ := hfallback e (mem_evict he).1
        exact ⟨hit,List.mem_cons_of_mem _ hhit,hsame⟩
  | restart =>
    cases hs
    exact ⟨hputs,hhits,fun e he => absurd he List.not_mem_nil⟩

/-- A call is refused only after more calls of its key, in its window, than are allowed, whatever
the store answers, and it is told to wait. -/
theorem refusals_earned (hrun : machine.Reaches (start now) h) (maxRequests : ℕ) :
    ∀ hits ∈ [h.puts,h.hits], ∀ hit ∈ hits, limited maxRequests hit.entry = true →
      0 < retryAfter hit.entry hit.began ∧
        ∃ counted : List Hit, counted.Sublist hits ∧ maxRequests < counted.length ∧
          ∀ other ∈ counted, other.key = hit.key ∧ other.began < hit.entry.resetAt ∧
            hit.entry.resetAt ≤ other.counted + windowMs := by
  have hstart : Sound (start now) := ⟨by simp [AllEarned,start],by simp [AllEarned,start],by
    simp [start,JsMap.empty]⟩
  have hsound : Sound h := hrun.invariant hstart fun a l b ha hb _ => ha.step hb
  intro hits hhits hit hhit hlimited
  have hearned : AllEarned h.now hits := by
    obtain rfl | rfl := List.mem_pair.1 hhits
    · exact hsound.puts
    · exact hsound.hits
  obtain ⟨_,counted,hsub,hmem,hlength,hcounted⟩ := hearned hit hhit
  have hopen := (hcounted hit hmem).2.1
  refine ⟨?_,counted,hsub,hlength ▸ of_decide_eq_true hlimited,hcounted⟩
  unfold retryAfter
  omega

def twice : Host where
  now := 0
  puts := [⟨['a'],0,0,⟨2,60000⟩⟩,⟨['a'],0,0,⟨1,60000⟩⟩]
  fallback := .empty
  hits := []

theorem run_twice : machine.run
    [.consumeDistributed ['a'] 0 none,.consumeDistributed ['a'] 0 (some 0)] (start 0) =
      some twice := rfl

theorem refusals_earned_twice :
    ∃ counted : List Hit, counted.Sublist twice.puts ∧ 1 < counted.length ∧
      ∀ other ∈ counted, other.key = ['a'] ∧ other.began < 60000 ∧
        60000 ≤ other.counted + windowMs :=
  (refusals_earned (.of_run run_twice) 1 twice.puts List.mem_cons_self _ List.mem_cons_self
    rfl).2

end earned

section kept

variable {key other : Text} {now cap : ℕ} {entry next : RateLimitEntry} {m : FallbackStore}
  {seen : List Text} {entries : List (Text × RateLimitEntry)}

/-- What was touched after the key is of the keys seen since. -/
def Kept (key : Text) (entry : RateLimitEntry) (seen : List Text)
    (entries : List (Text × RateLimitEntry)) : Prop :=
  ∃ back, (key,entry) :: back <:+ entries ∧ ∀ e ∈ back, e.1 ∈ seen

theorem Kept.filter {p : Text × RateLimitEntry → Bool} (h : Kept key entry seen entries)
    (hp : p (key,entry) = true) : Kept key entry seen (entries.filter p) := by
  obtain ⟨back,hkept,hback⟩ := h
  have hfilter := hkept.filter p
  rw [List.filter_cons_of_pos hp] at hfilter
  exact ⟨_,hfilter,fun e he => hback e (List.mem_of_mem_filter he)⟩

theorem Kept.keepLast (h : Kept key entry seen m.entries) (hfew : seen.dedup.length < cap) :
    Kept key entry seen (keepLast cap m).entries := by
  obtain ⟨back,hkept,hback⟩ := h
  have hnodup : (back.map Prod.fst).Nodup :=
    (List.nodup_cons.1 (m.nodup.sublist (hkept.sublist.map Prod.fst))).2
  have hlength : (back.map Prod.fst).length ≤ seen.dedup.length := by
    refine (List.subperm_of_subset hnodup fun k hk => ?_).length_le
    obtain ⟨e,he,rfl⟩ := List.mem_map.1 hk
    exact List.mem_dedup.2 (hback e he)
  refine ⟨back,List.suffix_of_suffix_length_le hkept (List.drop_suffix _ _) ?_,hback⟩
  have hle := hkept.length_le
  rw [List.length_map] at hlength
  simp only [RateLimit.keepLast,keepEntries,List.length_drop,List.length_cons] at hle ⊢
  omega

theorem Kept.evict (h : Kept key entry seen m.entries)
    (hfew : seen.dedup.length < fallbackRateLimitMaxEntries) (hopen : now < entry.resetAt) :
    Kept key entry seen (evictExpiredFallbackEntries now m).entries :=
  Kept.keepLast (h.filter (decide_eq_true hopen)) hfew

theorem entries_touch (key : Text) (next : RateLimitEntry) (m : FallbackStore) :
    (touchFallbackEntry key next m).entries =
      m.entries.filter (fun e => e.1 ≠ key) ++ [(key,next)] := by
  simp only [touchFallbackEntry,JsMap.set,JsMap.delete]
  induction m.entries with
  | nil => rfl
  | cons e es ih => by_cases he : e.1 = key <;> simpa [JsMap.setEntries,he] using ih

theorem Kept.touch (h : Kept key entry seen m.entries) (hne : other ≠ key) (hseen : other ∈ seen) :
    Kept key entry seen (touchFallbackEntry other next m).entries := by
  obtain ⟨back,⟨front,hfront⟩,hback⟩ := h.filter (p := fun e => e.1 ≠ other)
    (decide_eq_true hne.symm)
  refine ⟨back ++ [(other,next)],⟨front,?_⟩,fun e he => ?_⟩
  · rw [entries_touch,← hfront,List.append_assoc,List.cons_append]
  · obtain he | he := List.mem_append.1 he
    · exact hback e he
    · exact List.mem_singleton.1 he ▸ hseen

/-- Between two calls of a key in its window, fewer than ten thousand other keys leave the count of
the first to the second. -/
theorem window_kept (key : Text) (now now' : ℕ) (m : FallbackStore) (calls : List (Text × ℕ))
    (hopen : now' < (fallbackEntry key now m).resetAt)
    (hcalls : ∀ call ∈ calls, call.1 ≠ key ∧ call.2 ≤ now')
    (hfew : (calls.map Prod.fst).dedup.length < fallbackRateLimitMaxEntries) :
    fallbackEntry key now' (calls.foldl (fun m call => consumeLocalFallback call.1 call.2 m)
        (consumeLocalFallback key now m)) =
      ⟨(fallbackEntry key now m).count + 1,(fallbackEntry key now m).resetAt⟩ := by
  generalize hentry : fallbackEntry key now m = entry at hopen ⊢
  have hfirst : Kept key entry (calls.map Prod.fst) (consumeLocalFallback key now m).entries := by
    refine Kept.keepLast ⟨[],?_,by simp⟩ hfew
    rw [hentry,entries_touch]
    exact List.suffix_append _ _
  have hlast := List.foldlRecOn (motive := fun m => Kept key entry (calls.map Prod.fst) m.entries)
    calls (fun m call => consumeLocalFallback call.1 call.2 m) hfirst fun m hm call hcall =>
      ((hm.evict hfew ((hcalls call hcall).2.trans_lt hopen)).touch (hcalls call hcall).1
        (List.mem_map_of_mem hcall)).keepLast hfew
  obtain ⟨back,hkept,_⟩ := hlast.evict hfew hopen
  rw [fallbackEntry,JsMap.get_eq_some_iff.2 (hkept.subset List.mem_cons_self),consume,
    Option.filter_some,if_pos (decide_eq_true hopen)]

theorem window_kept_between :
    fallbackEntry ['a'] 7 (consumeLocalFallback ['b'] 5 (consumeLocalFallback ['a'] 0 .empty)) =
      ⟨2,60000⟩ :=
  window_kept ['a'] 0 7 .empty [(['b'],5)] (by decide) (by simp) (by decide)

end kept

end Yurucommu.RateLimit
