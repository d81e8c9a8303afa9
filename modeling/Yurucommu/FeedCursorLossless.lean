import Yurucommu.FeedCursor
import Yurucommu.KeysetWalk

/-!
The feeds of objects lose no row between two pages; the bookmarks lose those of one day.
-/

set_option autoImplicit false

namespace Yurucommu.FeedCursor

open Whatwg (Text)

section cursors

variable {sep : Char} {r k : Row} {s text : Text}

def cursorOf (sep : Char) (k : Row) : Row :=
  let before := encodeFeedCursor sep k
  toLex (before.takeWhile (· ≠ sep),(before.dropWhile (· ≠ sep)).drop 1)

theorem sep_mem_encodeFeedCursor : sep ∈ encodeFeedCursor sep k := by
  simp [encodeFeedCursor]

theorem row_lt_iff : r < k ↔
    r.sortKey < k.sortKey ∨ (r.sortKey = k.sortKey ∧ r.tiebreaker < k.tiebreaker) :=
  Prod.Lex.lt_iff

/-- The predicate of a page is the order of the tuple. -/
theorem feedCursorWhere_encodeFeedCursor :
    feedCursorWhere sep (some (encodeFeedCursor sep k)) r = decide (r < cursorOf sep k) := by
  have hmem : sep ∈ encodeFeedCursor sep k := sep_mem_encodeFeedCursor
  have hne : encodeFeedCursor sep k ≠ [] := List.ne_nil_of_mem hmem
  have hsome : (some (encodeFeedCursor sep k)).filter (· ≠ []) = some (encodeFeedCursor sep k) := by
    simp [hne]
  rw [feedCursorWhere,hsome,Bool.eq_iff_iff]
  dsimp only
  rw [if_pos (List.contains_iff_mem.mpr hmem),decide_eq_true_eq,row_lt_iff]
  simp only [Bool.or_eq_true,Bool.and_eq_true,decide_eq_true_eq]
  rfl

theorem lt_append_cons (c : Char) (t : Text) : s < s ++ c :: t := by
  induction s with
  | nil => exact List.nil_lt_cons c t
  | cons x s ih => exact List.cons_lt_cons_iff.mpr (.inr ⟨rfl,ih⟩)

theorem takeWhile_of_not_mem (h : sep ∉ s) :
    (s ++ sep :: text).takeWhile (· ≠ sep) = s := by
  rw [List.takeWhile_append_of_pos fun c hc => decide_eq_true (ne_of_mem_of_not_mem hc h)]
  simp

theorem dropWhile_of_not_mem (h : sep ∉ s) :
    (s ++ sep :: text).dropWhile (· ≠ sep) = sep :: text := by
  rw [List.dropWhile_append_of_pos fun c hc => decide_eq_true (ne_of_mem_of_not_mem hc h)]
  simp

theorem cursorOf_of_not_mem (h : sep ∉ k.sortKey) : cursorOf sep k = k := by
  simp only [cursorOf,encodeFeedCursor,takeWhile_of_not_mem h,dropWhile_of_not_mem h,
    List.drop_succ_cons,List.drop_zero]
  rfl

theorem cursorOf_lt_of_mem (h : sep ∈ k.sortKey) : cursorOf sep k < k := by
  obtain ⟨before,after,hsplit,hfirst⟩ := List.eq_append_cons_of_mem h
  have hcut : (cursorOf sep k).sortKey = before := by
    change ((k.sortKey ++ sep :: k.tiebreaker).takeWhile (· ≠ sep)) = before
    rw [hsplit,List.append_assoc,List.cons_append,takeWhile_of_not_mem hfirst]
  refine row_lt_iff.mpr (.inl ?_)
  rw [hcut,hsplit]
  exact lt_append_cons sep after

theorem cursorOf_le (k : Row) : cursorOf sep k ≤ k := by
  by_cases h : sep ∈ k.sortKey
  · exact (cursorOf_lt_of_mem h).le
  · exact (cursorOf_of_not_mem h).le

end cursors

section pages

variable {sep : Char} {limit : Nat} {rows : List Row}

theorem filter_eq (cursor : Option Row) :
    (rows.filter fun r => feedCursorWhere sep (cursor.map (encodeFeedCursor sep)) r) =
      rows.filter (Keyset.Below (cursorOf sep) cursor) := by
  refine List.filter_congr fun r _ => ?_
  cases cursor with
  | none => simp [feedCursorWhere,Keyset.Below]
  | some k =>
    rw [Option.map_some,feedCursorWhere_encodeFeedCursor]
    simp [Keyset.Below]

theorem feedPage_eq (cursor : Option Row) :
    feedPage sep limit rows (cursor.map (encodeFeedCursor sep)) =
      ⟨Keyset.shown (cursorOf sep) limit rows cursor,
        (Keyset.next (cursorOf sep) limit rows cursor).map (encodeFeedCursor sep)⟩ := by
  have hscanned : ((rows.filter fun r =>
      feedCursorWhere sep (cursor.map (encodeFeedCursor sep)) r).insertionSort (· ≥ ·)).take
        (limit + 1) = Keyset.scanned (cursorOf sep) limit rows cursor := by
    rw [filter_eq]
    rfl
  unfold feedPage Keyset.next Keyset.shown
  dsimp only
  rw [hscanned]
  by_cases h : limit < (Keyset.scanned (cursorOf sep) limit rows cursor).length
  · rw [if_pos h,if_pos h]
  · rw [if_neg h,if_neg h]
    rfl

theorem readAll_eq (fuel : Nat) (cursor : Option Row) :
    readAll sep limit rows fuel (cursor.map (encodeFeedCursor sep)) =
      Keyset.walk (cursorOf sep) limit rows fuel cursor := by
  induction fuel generalizing cursor with
  | zero => rfl
  | succ fuel ih =>
    simp only [readAll,Keyset.walk,feedPage_eq]
    cases Keyset.next (cursorOf sep) limit rows cursor with
    | none => rfl
    | some k =>
      have hk := ih (some k)
      rw [Option.map_some] at hk
      rw [Option.map_some]
      dsimp only
      rw [hk]

/-- Following the cursors ends, and shows every row once, newest first. -/
def Lossless (sep : Char) (limit : Nat) (rows : List Row) : Prop :=
  readAll sep limit rows (rows.length + 1) none = some (rows.insertionSort (· ≥ ·)) ∧
    (rows.insertionSort (· ≥ ·)).Nodup

theorem lossless_iff (hrows : rows.Nodup) (hlimit : 0 < limit) :
    Lossless sep limit rows ↔
      Keyset.Seamless (cursorOf sep) limit (rows.insertionSort (· ≥ ·)) := by
  have hnodup : (rows.insertionSort (· ≥ ·)).Nodup :=
    (List.perm_insertionSort _ rows).nodup_iff.mpr hrows
  have hread : readAll sep limit rows (rows.length + 1) none =
      Keyset.walk (cursorOf sep) limit rows (rows.length + 1) none := readAll_eq _ none
  rw [Lossless,hread,Keyset.walk_eq_iff hrows cursorOf_le hlimit (Nat.lt_succ_self _)]
  exact and_iff_left hnodup

/-- Pages meet where no timestamp has the separator. -/
theorem seamless_of_not_mem (hrows : rows.Nodup) (hlimit : 0 < limit)
    (h : ∀ r ∈ rows, sep ∉ r.sortKey) :
    Keyset.Seamless (cursorOf sep) limit (rows.insertionSort (· ≥ ·)) := by
  intro j last first hj hlast hfirst
  obtain ⟨hi,rfl⟩ := List.getElem?_eq_some_iff.mp hlast
  obtain ⟨hi',rfl⟩ := List.getElem?_eq_some_iff.mp hfirst
  have hmem : (rows.insertionSort (· ≥ ·))[j * limit - 1] ∈ rows :=
    List.mem_insertionSort _ |>.mp (List.getElem_mem hi)
  rw [cursorOf_of_not_mem (h _ hmem)]
  have hpos : 0 < j * limit := Nat.mul_pos hj hlimit
  have hsorted : (rows.insertionSort (· ≥ ·)).Pairwise (· ≥ ·) := List.pairwise_insertionSort _ _
  have hnodup : (rows.insertionSort (· ≥ ·)).Nodup :=
    (List.perm_insertionSort _ rows).nodup_iff.mpr hrows
  have hlt : j * limit - 1 < j * limit := by omega
  have hge := List.pairwise_iff_getElem.mp hsorted _ _ hi hi' hlt
  have hne := List.pairwise_iff_getElem.mp hnodup _ _ hi hi' hlt
  exact lt_of_le_of_ne hge (Ne.symm hne)

end pages

section dates

def digits : Text := "0123456789".toList

def dateChars : Text := ['0','1','2','3','4','5','6','7','8','9','+','-']

def isoChars : Text := "0123456789+-:.TZ".toList

theorem chars_facts : (∀ m < 10, digit m ∈ digits) ∧
    (digits ⊆ dateChars ∧ ['-','+'] ⊆ dateChars ∧ 'T' ∉ dateChars ∧ 'Z' ∉ dateChars) ∧
    dateChars ⊆ isoChars ∧ ['T',':','.','Z'] ⊆ isoChars ∧
    FEED_CURSOR_SEP ∉ isoChars ∧ CURSOR_SEP ∉ isoChars := by
  decide +kernel

theorem digit_mem (n : Nat) : digit n ∈ digits := by
  have hdigit := chars_facts.1 (n % 10) (Nat.mod_lt n (by decide))
  rw [digit,Nat.mod_mod] at hdigit
  exact hdigit

theorem pad_subset (k n : Nat) : pad k n ⊆ dateChars := by
  have hdigits : digits ⊆ dateChars := chars_facts.2.1.1
  induction k generalizing n with
  | zero => exact List.nil_subset _
  | succ k ih =>
    refine List.append_subset.mpr ⟨ih _,?_⟩
    exact List.cons_subset.mpr ⟨hdigits (digit_mem n),List.nil_subset _⟩

theorem yearText_subset (year : Int) : yearText year ⊆ dateChars := by
  have hsigned : ∀ c ∈ ['-','+'], c :: pad 6 year.natAbs ⊆ dateChars := by
    intro c hc
    exact List.cons_subset.mpr ⟨chars_facts.2.1.2.1 hc,pad_subset 6 _⟩
  unfold yearText
  split
  · exact hsigned '-' (by decide)
  · split
    · exact hsigned '+' (by decide)
    · exact pad_subset 4 _

theorem toISOString_split (ms : Int) : ∃ date time, toISOString ms = date ++ 'T' :: time ∧
    date ⊆ dateChars ∧ time ⊆ isoChars := by
  obtain ⟨_,⟨_,hsigns,_⟩,hiso,hmarks,_⟩ := chars_facts
  have hdash : '-' ∈ dateChars := hsigns List.mem_cons_self
  simp only [List.cons_subset] at hmarks
  obtain ⟨_,hcolon,hdot,hz,_⟩ := hmarks
  let date := civil (ms / 86400000)
  let time := (ms % 86400000).toNat
  refine ⟨yearText date.1 ++ '-' :: pad 2 date.2.1 ++ '-' :: pad 2 date.2.2,
    pad 2 (time / 3600000) ++ ':' :: pad 2 (time / 60000 % 60) ++ ':' :: pad 2 (time / 1000 % 60) ++
      '.' :: pad 3 (time % 1000) ++ ['Z'],?_,?_,?_⟩
  · simp only [toISOString,date,time,List.append_assoc,List.cons_append]
  · simp only [List.append_subset,List.cons_subset,yearText_subset,pad_subset,hdash,and_self]
  · have hpad : ∀ k n, pad k n ⊆ isoChars := fun k n => List.Subset.trans (pad_subset k n) hiso
    simp only [List.append_subset,List.cons_subset,hpad,hcolon,hdot,hz,List.nil_subset,and_self]

theorem sep_not_mem_toISOString {sep : Char} (h : sep = FEED_CURSOR_SEP ∨ sep = CURSOR_SEP)
    (ms : Int) : sep ∉ toISOString ms := by
  obtain ⟨date,time,heq,hdate,htime⟩ := toISOString_split ms
  obtain ⟨_,_,hiso,hmarks,hseps⟩ := chars_facts
  have hall : toISOString ms ⊆ isoChars := by
    rw [heq]
    exact List.append_subset.mpr ⟨List.Subset.trans hdate hiso,
      List.cons_subset.mpr ⟨hmarks List.mem_cons_self,htime⟩⟩
  intro hmem
  rcases h with rfl | rfl
  · exact hseps.1 (hall hmem)
  · exact hseps.2 (hall hmem)

theorem replace_of_not_mem {c : Char} {s t replacement : Text} (h : c ∉ s) :
    replace c replacement (s ++ t) = s ++ replace c replacement t := by
  induction s with
  | nil => rfl
  | cons x s ih =>
    rw [List.mem_cons,not_or] at h
    rw [List.cons_append,replace,if_neg (Ne.symm h.1),ih h.2,List.cons_append]

theorem space_lt {c : Char} (hc : c ∈ dateChars) : ' ' < c := by
  simp only [dateChars,List.mem_cons,List.not_mem_nil,or_false] at hc
  rcases hc with rfl | rfl | rfl | rfl | rfl | rfl | rfl | rfl | rfl | rfl | rfl | rfl <;> decide

def Spaced (text : Text) : Prop := ∃ date time, text = date ++ ' ' :: time ∧ ∀ c ∈ date, ' ' < c

theorem spaced_nowIso (ms : Int) : Spaced (nowIso ms) := by
  obtain ⟨date,time,heq,hdate,_⟩ := toISOString_split ms
  have hmarks : 'T' ∉ dateChars ∧ 'Z' ∉ dateChars := chars_facts.2.1.2.2
  refine ⟨date,replace 'Z' [] time,?_,fun c hc => space_lt (hdate hc)⟩
  rw [nowIso,heq,replace_of_not_mem fun h => hmarks.1 (hdate h),replace,if_pos rfl,
    replace_of_not_mem fun h => hmarks.2 (hdate h),List.singleton_append,replace,
    if_neg (by decide)]

def Row.day (r : Row) : Text := r.sortKey.takeWhile (· ≠ FEED_CURSOR_SEP)

theorem append_lt_iff {a b t : Text} (ha : ∀ c ∈ a, ' ' < c) (hb : ∀ c ∈ b, ' ' < c) :
    a ++ ' ' :: t < b ↔ a < b := by
  induction a generalizing b with
  | nil =>
    cases b with
    | nil => simp
    | cons y b =>
      rw [List.forall_mem_cons] at hb
      exact iff_of_true (List.cons_lt_cons_iff.mpr (.inl hb.1)) (List.nil_lt_cons y b)
  | cons x a ih =>
    rw [List.forall_mem_cons] at ha
    cases b with
    | nil => simp
    | cons y b =>
      rw [List.forall_mem_cons] at hb
      rw [List.cons_append,List.cons_lt_cons_iff,List.cons_lt_cons_iff,ih ha.2 hb.2]

/-- Among rows with default timestamps, what a cursor leaves are the rows of earlier days. -/
theorem lt_cursorOf_iff {r k : Row} (hr : Spaced r.sortKey) (hk : Spaced k.sortKey) :
    r < cursorOf FEED_CURSOR_SEP k ↔ r.day < k.day := by
  obtain ⟨date,time,heq,habove⟩ := hr
  obtain ⟨date',time',heq',habove'⟩ := hk
  have hnot : ∀ {d : Text}, (∀ c ∈ d, ' ' < c) → FEED_CURSOR_SEP ∉ d :=
    fun h hc => lt_irrefl ' ' (h _ hc)
  have hday : r.day = date := by
    rw [Row.day,heq]
    exact takeWhile_of_not_mem (hnot habove)
  have hday' : k.day = date' := by
    rw [Row.day,heq']
    exact takeWhile_of_not_mem (hnot habove')
  have hcursor : (cursorOf FEED_CURSOR_SEP k).sortKey = date' := by
    change ((k.sortKey ++ FEED_CURSOR_SEP :: k.tiebreaker).takeWhile (· ≠ FEED_CURSOR_SEP)) = date'
    rw [heq',List.append_assoc,List.cons_append]
    exact takeWhile_of_not_mem (hnot habove')
  rw [row_lt_iff,hcursor,hday,hday',heq,append_lt_iff habove habove']
  refine or_iff_left fun h => hnot habove' ?_
  rw [← h.1]
  exact List.mem_append_right _ (List.mem_cons_self ..)

end dates

section tables

structure Kept (d : Db) : Prop where
  bookmarks : (d.bookmarks.map fun b => (b.actorApId,b.objectApId)).Nodup
  objects : (d.objects.map (·.apId)).Nodup
  createdAt : ∀ b ∈ d.bookmarks, ∃ ms, b.createdAt = nowIso ms
  published : ∀ o ∈ d.objects, ∃ ms, o.published = toISOString ms

theorem kept_empty (now : Int) : Kept (empty now) :=
  ⟨List.nodup_nil,List.nodup_nil,fun b hb => (by cases hb),fun o ho => (by cases ho)⟩

variable {d : Db}

theorem Kept.step (h : Kept d) (e : Event) : Kept (happen e d) := by
  cases e with
  | tick ms => exact ⟨h.bookmarks,h.objects,h.createdAt,h.published⟩
  | bookmark actor object =>
    refine ⟨Table.nodup_insertIgnore h.bookmarks fun r hr => ?_,h.objects,fun b hb => ?_,
      h.published⟩
    · simpa using hr
    · rcases Table.mem_insertIgnore hb with hb | rfl
      · exact h.createdAt b hb
      · exact ⟨d.now,rfl⟩
  | unbookmark actor object =>
    exact ⟨h.bookmarks.sublist (List.filter_sublist.map _),h.objects,
      fun b hb => h.createdAt b (List.filter_subset_self _ hb),h.published⟩
  | insertObject apId published =>
    refine ⟨h.bookmarks,Table.nodup_insertIgnore h.objects fun r hr => ?_,h.createdAt,
      fun o ho => ?_⟩
    · simpa using hr
    · rcases Table.mem_insertIgnore ho with ho | rfl
      · exact h.published o ho
      · exact ⟨published,rfl⟩
  | deleteObject apId =>
    exact ⟨h.bookmarks,h.objects.sublist (List.filter_sublist.map _),h.createdAt,
      fun o ho => h.published o (List.filter_subset_self _ ho)⟩

theorem kept_reached {now : Int} (h : machine.Reaches (empty now) d) : Kept d := by
  refine h.invariant (kept_empty now) fun a e b ha hstep _ => ?_
  obtain rfl := Option.some.inj hstep
  exact ha.step e

theorem nodup_bookmarkRows (h : Kept d) (actor : Text) (moderated : Object → Bool) :
    (bookmarkRows d actor moderated).Nodup := by
  refine List.Nodup.map_on (fun a ha b hb heq => ?_) ?_
  · rw [List.mem_filter,Bool.and_eq_true,decide_eq_true_eq] at ha hb
    have hobject : a.objectApId = b.objectApId := congrArg Row.tiebreaker heq
    exact List.inj_on_of_nodup_map h.bookmarks ha.1 hb.1
      (Prod.ext (ha.2.1.trans hb.2.1.symm) hobject)
  · exact (List.Nodup.of_map _ h.bookmarks).sublist List.filter_sublist

theorem nodup_objectRows (h : Kept d) (matching : Object → Bool) :
    (objectRows d matching).Nodup := by
  refine List.Nodup.map_on (fun a ha b hb heq => ?_) ?_
  · have hid : a.apId = b.apId := congrArg Row.tiebreaker heq
    exact List.inj_on_of_nodup_map h.objects (List.filter_subset_self _ ha)
      (List.filter_subset_self _ hb) hid
  · exact (List.Nodup.of_map _ h.objects).sublist List.filter_sublist

theorem sep_not_mem_objectRows (h : Kept d) (matching : Object → Bool) {sep : Char}
    (hsep : sep = FEED_CURSOR_SEP ∨ sep = CURSOR_SEP) :
    ∀ r ∈ objectRows d matching, sep ∉ r.sortKey := by
  intro r hr
  obtain ⟨o,ho,rfl⟩ := List.mem_map.mp hr
  obtain ⟨ms,hms⟩ := h.published o (List.filter_subset_self _ ho)
  have hkey : Row.sortKey (toLex (o.published,o.apId)) = toISOString ms := hms
  rw [hkey]
  exact sep_not_mem_toISOString hsep ms

theorem spaced_bookmarkRows (h : Kept d) (actor : Text) (moderated : Object → Bool) :
    ∀ r ∈ bookmarkRows d actor moderated, Spaced r.sortKey := by
  intro r hr
  obtain ⟨b,hb,rfl⟩ := List.mem_map.mp hr
  obtain ⟨ms,hms⟩ := h.createdAt b (List.filter_subset_self _ hb)
  have hkey : Row.sortKey (toLex (b.createdAt,b.objectApId)) = nowIso ms := hms
  rw [hkey]
  exact spaced_nowIso ms

def PagesEndDays (limit : Nat) (rows : List Row) : Prop :=
  ∀ j last first, 0 < j → (rows.insertionSort (· ≥ ·))[j * limit - 1]? = some last →
    (rows.insertionSort (· ≥ ·))[j * limit]? = some first → first.day < last.day

theorem seamless_iff_pagesEndDays {limit : Nat} {rows : List Row}
    (h : ∀ r ∈ rows, Spaced r.sortKey) :
    Keyset.Seamless (cursorOf FEED_CURSOR_SEP) limit (rows.insertionSort (· ≥ ·)) ↔
      PagesEndDays limit rows := by
  have hmem : ∀ {i r}, (rows.insertionSort (· ≥ ·))[i]? = some r → r ∈ rows :=
    fun hr => (List.mem_insertionSort _).mp (List.mem_of_getElem? hr)
  constructor
  · intro hseam j last first hj hlast hfirst
    exact (lt_cursorOf_iff (h _ (hmem hfirst)) (h _ (hmem hlast))).mp
      (hseam j last first hj hlast hfirst)
  · intro hdays j last first hj hlast hfirst
    exact (lt_cursorOf_iff (h _ (hmem hfirst)) (h _ (hmem hlast))).mpr
      (hdays j last first hj hlast hfirst)

/-- On all tables that the code writes, every feed of objects is read without loss, by either codec;
the bookmarks are exactly if no page ends within a day. -/
theorem feeds_lossless (now : Int) (d : Db) (h : machine.Reaches (empty now) d) (limit : Nat)
    (hlimit : 0 < limit) :
    (∀ sep matching, sep = FEED_CURSOR_SEP ∨ sep = CURSOR_SEP →
      Lossless sep limit (objectRows d matching)) ∧
    ∀ actor moderated, Lossless FEED_CURSOR_SEP limit (bookmarkRows d actor moderated) ↔
      PagesEndDays limit (bookmarkRows d actor moderated) := by
  have hkept := kept_reached h
  refine ⟨fun sep matching hsep => ?_,fun actor moderated => ?_⟩
  · have hnodup := nodup_objectRows hkept matching
    exact (lossless_iff hnodup hlimit).mpr
      (seamless_of_not_mem hnodup hlimit (sep_not_mem_objectRows hkept matching hsep))
  · rw [lossless_iff (nodup_bookmarkRows hkept actor moderated) hlimit]
    exact seamless_iff_pagesEndDays (spaced_bookmarkRows hkept actor moderated)

end tables

section examples

def oneDay : List Event :=
  [.insertObject "a".toList 1795094283123,.insertObject "b".toList 1795094283123,
    .bookmark "alice".toList "a".toList,.tick 1000,.bookmark "alice".toList "b".toList]

def after (events : List Event) : Db := events.foldl (fun d e => happen e d) (empty 1795094283123)

theorem reaches_after (events : List Event) :
    machine.Reaches (empty 1795094283123) (after events) := by
  induction events using List.reverseRecOn with
  | nil => exact .refl _
  | append_singleton events e ih =>
    rw [after,List.foldl_append]
    exact ih.snoc (l := e) rfl trivial

theorem older_bookmark_skipped : ¬ ∀ (now : Int) (d : Db), machine.Reaches (empty now) d →
    ∀ limit, 0 < limit → ∀ actor moderated,
      Lossless FEED_CURSOR_SEP limit (bookmarkRows d actor moderated) := by
  intro hall
  have hlossless := hall _ _ (reaches_after oneDay) 1 (by decide) "alice".toList fun _ => false
  have hread : readAll FEED_CURSOR_SEP 1
      (bookmarkRows (after oneDay) "alice".toList fun _ => false) 3 none =
        some [toLex ("2026-11-19 13:18:04.123".toList,"b".toList)] := by decide +kernel
  have hlength : (bookmarkRows (after oneDay) "alice".toList fun _ => false).length = 2 := by
    decide +kernel
  have hboth := hlossless.1
  rw [hlength,hread,Option.some.injEq] at hboth
  have hcontra := congrArg List.length hboth
  rw [List.length_insertionSort,hlength] at hcontra
  cases hcontra

theorem feeds_lossless_one_day :
    Lossless CURSOR_SEP 1 (objectRows (after oneDay) fun _ => true) ∧
      (Lossless FEED_CURSOR_SEP 1 (bookmarkRows (after oneDay) "alice".toList fun _ => false) ↔
        PagesEndDays 1 (bookmarkRows (after oneDay) "alice".toList fun _ => false)) := by
  obtain ⟨hobjects,hbookmarks⟩ := feeds_lossless _ _ (reaches_after oneDay) 1 (by decide)
  exact ⟨hobjects CURSOR_SEP _ (.inr rfl),hbookmarks _ _⟩

end examples

end Yurucommu.FeedCursor
