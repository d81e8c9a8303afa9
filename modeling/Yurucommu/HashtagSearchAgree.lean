import Mathlib.Data.List.Range
import Yurucommu.HashtagSearch

/-!
What the search and the trending tags come to: every post that carries a tag, and the numbers of
its tokens.
-/

set_option autoImplicit false

namespace Yurucommu.HashtagSearch

open Whatwg (Text)
open ActorIdentity (isJsSpace trim)

section found

variable {U : Unicode} {posts : List Post} {tag param : Text} {sort : PostSort}

def carrying (U : Unicode) (posts : List Post) (tag : Text) : List Post :=
  posts.filter (carries U tag)

/-- The search selects the posts that carry the tag: each once over all pages, and their number. -/
structure FindsAll (U : Unicode) (posts : List Post) (param : Text) (sort : PostSort) : Prop where
  pages : ∀ limit n, (carrying U posts (tagOf param)).length ≤ n * limit →
    ((List.range n).flatMap fun k => (hashtag U posts param sort limit (k * limit)).posts).Perm
      (carrying U posts (tagOf param))
  total : ∀ limit offset,
    (hashtag U posts param sort limit offset).total = (carrying U posts (tagOf param)).length

theorem flatMap_pages {α : Type} (l : List α) (limit n : Nat) :
    ((List.range n).flatMap fun k => (l.drop (k * limit)).take limit) = l.take (n * limit) := by
  induction n with
  | zero => simp
  | succ n ih =>
    rw [List.range_succ,List.flatMap_append,ih,List.flatMap_singleton,Nat.succ_mul,List.take_add]

theorem length_tokens {t : Text} {content : Text} (h : t ∈ extractHashtags U content) :
    ∃ word, word ≠ [] ∧ (∀ c ∈ word, isWord U c = true) ∧ t = U.toLowerCase word := by
  induction content using extractHashtags.induct U with
  | case1 => simp [extractHashtags] at h
  | case2 c rest hword ih =>
    rw [extractHashtags,if_pos hword,List.mem_cons] at h
    rcases h with rfl | h
    · exact ⟨_,hword.2,fun c hc => List.mem_takeWhile_imp hc,rfl⟩
    · exact ih h
  | case3 c rest hno ih =>
    rw [extractHashtags,if_neg hno] at h
    exact ih h

theorem token_spec {t content : Text} (h : t ∈ extractHashtags U content) :
    t ≠ [] ∧ U.toLowerCase t = t ∧ ∀ c ∈ t, isJsSpace c = false ∧ c ≠ '#' := by
  obtain ⟨word,hne,hword,rfl⟩ := length_tokens h
  obtain ⟨hlower,hchars⟩ := U.word word hword hne
  exact ⟨hlower,U.again word,hchars⟩

theorem carries_iff {post : Post} :
    carries U tag post = true ↔ U.toLowerCase tag ∈ extractHashtags U post.content := by
  rw [carries,List.contains_iff_mem]

theorem perm_matched (hcap : posts.length ≤ hashtagSearchScanCap) :
    (matched U posts tag sort).Perm ((carrying U posts tag).filter (spelled tag)) := by
  have hall : candidates posts tag sort =
      (posts.filter (spelled tag)).mergeSort (postOrder sort) := by
    refine List.take_of_length_le ?_
    rw [List.length_mergeSort]
    exact (List.length_filter_le _ _).trans hcap
  rw [matched,hall,carrying,List.filter_filter]
  refine ((List.mergeSort_perm _ _).filter _).trans (List.Perm.of_eq ?_)
  rw [List.filter_filter]
  exact List.filter_congr fun post _ => Bool.and_comm _ _

theorem carrying_nil : carrying U posts [] = [] := by
  refine List.filter_eq_nil_iff.2 fun post _ hcarries => ?_
  rw [carries_iff,U.empty] at hcarries
  exact (token_spec hcarries).1 rfl

theorem hashtag_posts (h : tagOf param ≠ []) (limit offset : Nat) :
    (hashtag U posts param sort limit offset).posts =
      ((matched U posts (tagOf param) sort).drop offset).take limit := by
  rw [hashtag,if_neg h]

theorem hashtag_total (h : tagOf param ≠ []) (limit offset : Nat) :
    (hashtag U posts param sort limit offset).total =
      (matched U posts (tagOf param) sort).length := by
  rw [hashtag,if_neg h]

theorem finds_all_nil (h : tagOf param = []) : FindsAll U posts param sort where
  pages limit n _ := by
    simp [h,hashtag,carrying_nil]
  total limit offset := by
    rw [hashtag,if_pos h,h,carrying_nil]
    rfl

/-- The posts that carry the tag are found where each of them spells it, but for the case of the
letters that the database folds. -/
theorem finds_all_iff (hcap : posts.length ≤ hashtagSearchScanCap) :
    FindsAll U posts param sort ↔
      ∀ post ∈ posts, carries U (tagOf param) post = true → spelled (tagOf param) post = true := by
  by_cases hempty : tagOf param = []
  · refine iff_of_true (finds_all_nil hempty) fun post hpost hcarries => ?_
    have hmem : post ∈ carrying U posts (tagOf param) := List.mem_filter.2 ⟨hpost,hcarries⟩
    rw [hempty,carrying_nil] at hmem
    cases hmem
  have hperm : (matched U posts (tagOf param) sort).Perm
      ((carrying U posts (tagOf param)).filter (spelled (tagOf param))) := perm_matched hcap
  constructor
  · intro h post hpost hcarries
    have htotal := h.total 1 0
    rw [hashtag_total hempty,hperm.length_eq] at htotal
    exact (List.length_filter_eq_length_iff.1 htotal) post (List.mem_filter.2 ⟨hpost,hcarries⟩)
  · intro h
    have hall : (carrying U posts (tagOf param)).filter (spelled (tagOf param)) =
        carrying U posts (tagOf param) := by
      refine List.filter_eq_self.2 fun post hpost => ?_
      obtain ⟨hmem,hcarries⟩ := List.mem_filter.1 hpost
      exact h post hmem hcarries
    rw [hall] at hperm
    constructor
    · intro limit n hle
      simp only [hashtag_posts hempty,flatMap_pages]
      rw [List.take_of_length_le (hperm.length_eq ▸ hle)]
      exact hperm
    · intro limit offset
      rw [hashtag_total hempty,hperm.length_eq]

end found

section counts

variable {tokens : List Text} {counts : JsMap Text Count} {t : Text}

theorem get_foldl_addToken (hplain : ∀ t ∈ tokens, t ∉ inherited) (counts : JsMap Text Count)
    (hnumbers : ∀ t c, counts.get t = some c → ∃ n, c = .number n) (t : Text) :
    (tokens.foldl addToken counts).get t =
      if t ∈ tokens then
        some (.number (((counts.get t).elim 0 Count.value) + tokens.count t))
      else counts.get t := by
  induction tokens generalizing counts with
  | nil => rfl
  | cons u tokens ih =>
    obtain ⟨hu,hplain⟩ := List.forall_mem_cons.1 hplain
    have hproto : u ≠ "__proto__".toList := by
      rintro rfl
      exact hu (by decide)
    have hvalue : ∃ n, (addToken counts u).get u = some (.number (n + 1)) ∧
        (counts.get u).elim 0 Count.value = n := by
      rw [addToken,if_neg hproto,JsMap.get_set_self]
      cases hget : counts.get u with
      | none => exact ⟨0,by simp [hu],rfl⟩
      | some c =>
        obtain ⟨n,rfl⟩ := hnumbers u c hget
        exact ⟨n,rfl,rfl⟩
    have hother : ∀ v, v ≠ u → (addToken counts u).get v = counts.get v := fun v hv => by
      rw [addToken,if_neg hproto,JsMap.get_set_of_ne hv]
    obtain ⟨n,hget,hn⟩ := hvalue
    rw [List.foldl_cons,ih hplain]
    · by_cases htu : t = u
      · subst htu
        rw [hget,hn,List.count_cons_self]
        by_cases hin : t ∈ tokens
        · simp only [hin,if_true,List.mem_cons_self,Option.elim_some,Count.value]
          congr 2
          omega
        · simp only [hin,if_false,List.mem_cons_self,if_true,List.count_eq_zero_of_not_mem hin]
      · rw [hother t htu,List.count_cons_of_ne (Ne.symm htu)]
        simp only [List.mem_cons,htu,false_or]
    · intro v c hv
      by_cases hvu : v = u
      · rw [hvu,hget] at hv
        exact ⟨n + 1,(Option.some.inj hv).symm⟩
      · exact hnumbers v c (hother v hvu ▸ hv)

theorem get_hashtagCounts (hplain : ∀ t ∈ tokens, t ∉ inherited) (t : Text) :
    (hashtagCounts tokens).get t =
      if t ∈ tokens then some (.number (tokens.count t)) else none := by
  rw [hashtagCounts,get_foldl_addToken hplain _ (fun t c h => by cases h)]
  simp

theorem inherited_no_number (h : t ∈ inherited) (n : Nat) :
    (hashtagCounts tokens).get t ≠ some (.number n) := by
  have hfold : ∀ counts : JsMap Text Count, (∀ n, counts.get t ≠ some (.number n)) →
      ∀ n, (tokens.foldl addToken counts).get t ≠ some (.number n) := by
    induction tokens with
    | nil => exact fun counts hcounts => hcounts
    | cons u tokens ih =>
      refine fun counts hcounts => ih _ fun n => ?_
      rw [addToken]
      split
      · exact hcounts n
      · by_cases htu : t = u
        · subst htu
          rw [JsMap.get_set_self]
          cases hget : counts.get t with
          | none => simp [h]
          | some c =>
            cases c with
            | text => simp
            | number m => exact absurd hget (hcounts m)
        · rw [JsMap.get_set_of_ne htu]
          exact hcounts n
  exact hfold _ (fun n hn => by cases hn) n

theorem perm_objectEntries (counts : JsMap Text Count) :
    (objectEntries counts).Perm counts.entries := by
  refine ((List.mergeSort_perm _ _).append_right _).trans ?_
  have hnone : (counts.entries.filter fun e => (arrayIndex e.1).isNone) =
      counts.entries.filter fun e => !(arrayIndex e.1).isSome := by
    refine List.filter_congr fun e _ => ?_
    cases arrayIndex e.1 <;> rfl
  rw [hnone]
  exact List.filter_append_perm _ _

end counts

section trends

variable {U : Unicode} {mixed : List (Text × Count) → List (Text × Count)} {posts : List Post}
  {tokens tokens' : List Text} {since t : Text} {limit : Nat} {result : List (Text × Count)}

/-- The tags with the largest numbers of tokens, each with its number, the larger ones first. -/
structure Trends (tokens : List Text) (limit : Nat) (result : List (Text × Count)) : Prop where
  length : result.length = min limit tokens.dedup.length
  counts : ∀ e ∈ result, e.1 ∈ tokens ∧ e.2 = .number (tokens.count e.1)
  nodup : (result.map Prod.fst).Nodup
  ordered : result.Pairwise fun a b => tokens.count b.1 ≤ tokens.count a.1
  largest : ∀ t ∈ tokens, t ∉ result.map Prod.fst → ∀ e ∈ result,
    tokens.count t ≤ tokens.count e.1

theorem Trends.perm (h : Trends tokens limit result) (hperm : tokens.Perm tokens') :
    Trends tokens' limit result where
  length := hperm.dedup.length_eq ▸ h.length
  counts e he := by
    obtain ⟨hmem,hcount⟩ := h.counts e he
    exact ⟨hperm.mem_iff.1 hmem,hperm.count_eq e.1 ▸ hcount⟩
  nodup := h.nodup
  ordered := h.ordered.imp fun hle => by rwa [← hperm.count_eq,← hperm.count_eq]
  largest t ht hno e he := by
    rw [← hperm.count_eq,← hperm.count_eq]
    exact h.largest t (hperm.mem_iff.2 ht) hno e he

theorem mem_entries_iff (hplain : ∀ t ∈ tokens, t ∉ inherited) (e : Text × Count) :
    e ∈ (hashtagCounts tokens).entries ↔ e.1 ∈ tokens ∧ e.2 = .number (tokens.count e.1) := by
  rw [← JsMap.get_eq_some_iff,get_hashtagCounts hplain]
  split
  next hin => simp [hin,eq_comm]
  next hno => simp [hno]

theorem length_entries (hplain : ∀ t ∈ tokens, t ∉ inherited) :
    (hashtagCounts tokens).entries.length = tokens.dedup.length := by
  have hperm : ((hashtagCounts tokens).entries.map Prod.fst).Perm tokens.dedup := by
    refine (List.perm_ext_iff_of_nodup (hashtagCounts tokens).nodup (List.nodup_dedup _)).2
      fun t => ?_
    rw [List.mem_dedup,List.mem_map]
    constructor
    · rintro ⟨e,he,rfl⟩
      exact ((mem_entries_iff hplain e).1 he).1
    · intro ht
      exact ⟨(t,.number (tokens.count t)),(mem_entries_iff hplain _).2 ⟨ht,rfl⟩,rfl⟩
  rw [← hperm.length_eq,List.length_map]

theorem trends_of_plain (hplain : ∀ t ∈ tokens, t ∉ inherited) (limit : Nat) :
    Trends tokens limit
      ((sortCounts mixed (objectEntries (hashtagCounts tokens))).take limit) := by
  have hentries := perm_objectEntries (hashtagCounts tokens)
  have hmem : ∀ e ∈ objectEntries (hashtagCounts tokens),
      e.1 ∈ tokens ∧ e.2 = .number (tokens.count e.1) := fun e he =>
    (mem_entries_iff hplain e).1 (hentries.mem_iff.1 he)
  have hnumbers : (objectEntries (hashtagCounts tokens)).all (fun e => e.2 ≠ .text) = true := by
    rw [List.all_eq_true]
    intro e he
    rw [(hmem e he).2]
    rfl
  rw [sortCounts,if_pos hnumbers]
  generalize hsorted : ((objectEntries (hashtagCounts tokens)).mergeSort
    fun a b => decide (b.2.value ≤ a.2.value)) = sorted
  have hperm : sorted.Perm (objectEntries (hashtagCounts tokens)) :=
    hsorted ▸ List.mergeSort_perm _ _
  have hall : sorted.Perm (hashtagCounts tokens).entries := hperm.trans hentries
  have hcount : ∀ e ∈ sorted, e.1 ∈ tokens ∧ e.2 = .number (tokens.count e.1) := fun e he =>
    hmem e (hperm.mem_iff.1 he)
  have hvalue : sorted.Pairwise fun a b => b.2.value ≤ a.2.value := by
    rw [← hsorted]
    refine (List.pairwise_mergeSort ?_ ?_ _).imp fun h => of_decide_eq_true h
    · intro a b c hab hbc
      exact decide_eq_true ((of_decide_eq_true hbc).trans (of_decide_eq_true hab))
    · intro a b
      rcases Nat.le_total b.2.value a.2.value with h | h
      · simp [h]
      · simp [h]
  have hordered : sorted.Pairwise fun a b => tokens.count b.1 ≤ tokens.count a.1 := by
    refine hvalue.imp_of_mem fun {a b} ha hb hle => ?_
    rw [(hcount a ha).2,(hcount b hb).2] at hle
    exact hle
  have hnodup : (sorted.map Prod.fst).Nodup :=
    (hall.map Prod.fst).nodup_iff.2 (hashtagCounts tokens).nodup
  constructor
  · rw [List.length_take,hall.length_eq,length_entries hplain]
  · exact fun e he => hcount e (List.mem_of_mem_take he)
  · exact hnodup.sublist ((List.take_sublist _ _).map _)
  · exact hordered.sublist (List.take_sublist _ _)
  · intro t ht hno e he
    have hin : (t,Count.number (tokens.count t)) ∈ sorted :=
      hall.mem_iff.2 ((mem_entries_iff hplain _).2 ⟨ht,rfl⟩)
    rw [← List.take_append_drop limit sorted,List.mem_append] at hin
    rcases hin with hin | hin
    · exact absurd (List.mem_map_of_mem hin) hno
    · rw [← List.take_append_drop limit sorted] at hordered
      exact (List.pairwise_append.1 hordered).2.2 e he _ hin

theorem plain_of_trends (hmixed : ∀ l, (mixed l).Perm l)
    (h : Trends tokens limit
      ((sortCounts mixed (objectEntries (hashtagCounts tokens))).take limit))
    (hlimit : tokens.dedup.length ≤ limit) : ∀ t ∈ tokens, t ∉ inherited := by
  intro t ht hinherited
  have hperm : (sortCounts mixed (objectEntries (hashtagCounts tokens))).Perm
      (hashtagCounts tokens).entries := by
    rw [sortCounts]
    split
    · exact (List.mergeSort_perm _ _).trans (perm_objectEntries _)
    · exact (hmixed _).trans (perm_objectEntries _)
  have hlength := h.length
  rw [Nat.min_eq_right hlimit] at hlength
  have hsub : (((sortCounts mixed (objectEntries (hashtagCounts tokens))).take limit).map
      Prod.fst).Subperm tokens.dedup := by
    refine List.subperm_of_subset h.nodup fun u hu => ?_
    obtain ⟨e,he,rfl⟩ := List.mem_map.1 hu
    exact List.mem_dedup.2 (h.counts e he).1
  have hall := hsub.perm_of_length_le (by rw [List.length_map,hlength])
  obtain ⟨e,he,rfl⟩ := List.mem_map.1 (hall.mem_iff.2 (List.mem_dedup.2 ht))
  have hget := JsMap.get_eq_some_iff.2 (hperm.mem_iff.1 (List.mem_of_mem_take he))
  rw [(h.counts e he).2] at hget
  exact inherited_no_number hinherited _ hget

def tokensSince (U : Unicode) (posts : List Post) (since : Text) : List Text :=
  (posts.filter fun post => since < post.published).flatMap fun post =>
    extractHashtags U post.content

theorem perm_tokens (hcap : posts.length ≤ trendingScanLimit) :
    ((trendingPosts posts since).flatMap fun post => extractHashtags U post.content).Perm
      (tokensSince U posts since) := by
  have hall : trendingPosts posts since =
      (posts.filter fun post => since < post.published).mergeSort
        fun a b => b.published ≤ a.published := by
    refine List.take_of_length_le ?_
    rw [List.length_mergeSort]
    exact (List.length_filter_le _ _).trans hcap
  rw [hall]
  exact (List.mergeSort_perm _ _).flatMap_right _

theorem trends_trending (hcap : posts.length ≤ trendingScanLimit)
    (hplain : ∀ t ∈ tokensSince U posts since, t ∉ inherited) (limit : Nat) :
    Trends (tokensSince U posts since) limit (trending U mixed posts since limit) := by
  have hperm : ((trendingPosts posts since).flatMap fun post =>
      extractHashtags U post.content).Perm (tokensSince U posts since) := perm_tokens hcap
  exact (trends_of_plain (fun t ht => hplain t (hperm.mem_iff.1 ht)) limit).perm hperm

theorem plain_trending (hcap : posts.length ≤ trendingScanLimit) (hmixed : ∀ l, (mixed l).Perm l)
    (h : Trends (tokensSince U posts since) limit (trending U mixed posts since limit))
    (hlimit : (tokensSince U posts since).dedup.length ≤ limit) :
    ∀ t ∈ tokensSince U posts since, t ∉ inherited := by
  have hperm : ((trendingPosts posts since).flatMap fun post =>
      extractHashtags U post.content).Perm (tokensSince U posts since) := perm_tokens hcap
  intro t ht
  refine plain_of_trends hmixed (h.perm hperm.symm) ?_ t (hperm.mem_iff.2 ht)
  rw [hperm.dedup.length_eq]
  exact hlimit

theorem tagOf_token {content : Text} (h : t ∈ extractHashtags U content) : tagOf t = t := by
  obtain ⟨_,_,hchars⟩ := token_spec h
  have htrim : trim t = t := by
    rw [trim,List.dropWhile_eq_self_iff.2 fun hpos => by simp [(hchars _ (List.getElem_mem _)).1],
      List.rdropWhile_eq_self_iff.2 fun hne => by simp [(hchars _ (List.getLast_mem _)).1]]
  rw [tagOf,htrim]
  split
  next rest => exact absurd rfl (hchars '#' List.mem_cons_self).2
  next => rfl

end trends

section results

variable {U : Unicode} {mixed : List (Text × Count) → List (Text × Count)} {posts : List Post}

/-- What is true of the search and of the trending tags over these posts. -/
structure HashtagsAgree (U : Unicode) (mixed : List (Text × Count) → List (Text × Count))
    (posts : List Post) : Prop where
  found : ∀ param sort, FindsAll U posts param sort ↔
    ∀ post ∈ posts, carries U (tagOf param) post = true → spelled (tagOf param) post = true
  trends : ∀ since limit, (∀ t ∈ tokensSince U posts since, t ∉ inherited) →
    Trends (tokensSince U posts since) limit (trending U mixed posts since limit)
  allTrends : ∀ since limit, (tokensSince U posts since).dedup.length ≤ limit →
    (Trends (tokensSince U posts since) limit (trending U mixed posts since limit) ↔
      ∀ t ∈ tokensSince U posts since, t ∉ inherited)
  searched : ∀ since limit, (∀ t ∈ tokensSince U posts since, t ∉ inherited) →
    ∀ e ∈ trending U mixed posts since limit,
      (∀ post ∈ posts, carries U e.1 post = true → spelled e.1 post = true) →
        ∀ sort shown offset, 0 < (hashtag U posts e.1 sort shown offset).total

theorem carries_token {t : Text} {post : Post} (h : t ∈ extractHashtags U post.content) :
    carries U t post = true := by
  rw [carries_iff,(token_spec h).2.1]
  exact h

theorem hashtags_agree (U : Unicode) (mixed : List (Text × Count) → List (Text × Count))
    (posts : List Post) (hmixed : ∀ l, (mixed l).Perm l)
    (hcap : posts.length < hashtagSearchScanCap) : HashtagsAgree U mixed posts := by
  have hscan : posts.length ≤ trendingScanLimit := hcap.le.trans (by decide)
  constructor
  · exact fun param sort => finds_all_iff hcap.le
  · exact fun since limit hplain => trends_trending hscan hplain limit
  · intro since limit hlimit
    exact ⟨fun h => plain_trending hscan hmixed h hlimit,
      fun hplain => trends_trending hscan hplain limit⟩
  · intro since limit hplain e he hspelled sort shown offset
    have htrends : Trends (tokensSince U posts since) limit (trending U mixed posts since limit) :=
      trends_trending hscan hplain limit
    obtain ⟨post,hpost,htoken⟩ := List.mem_flatMap.1 (htrends.counts e he).1
    have htag := tagOf_token htoken
    have hfinds : FindsAll U posts e.1 sort := (finds_all_iff hcap.le).2 (by rwa [htag])
    rw [hfinds.total shown offset,htag]
    exact List.length_pos_of_mem
      (List.mem_filter.2 ⟨(List.mem_filter.1 hpost).1,carries_token htoken⟩)

end results

section concrete

/-- Lower case where the letters are those of ASCII and one with an accent. -/
def lowerChar (c : Char) : Char := if c.toLower = 'É' then 'é' else c.toLower

def latinLetter (c : Char) : Bool := c.isAlpha || c = 'É' || c = 'é'

theorem lowerChar_again (c : Char) : lowerChar (lowerChar c) = lowerChar c := by
  by_cases h : c.toLower = 'É'
  · rw [lowerChar,lowerChar,if_pos h]
    decide
  · have hlower : lowerChar c = c.toLower := if_neg h
    rw [hlower,lowerChar,Char.toLower_toLower_eq_toLower,if_neg h]

theorem not_space_of_isAlpha {c : Char} (h : c.isAlpha = true) :
    isJsSpace c = false ∧ c ≠ '#' := by
  simp only [Char.isAlpha,Char.isUpper,Char.isLower,Bool.or_eq_true,Bool.and_eq_true,
    decide_eq_true_eq,ge_iff_le,UInt32.le_iff_toNat_le] at h
  have hrange : 65 ≤ c.toNat ∧ c.toNat ≤ 122 := by
    rcases h with h | h
    · exact ⟨h.1,h.2.trans (by decide)⟩
    · exact ⟨le_trans (by decide) h.1,h.2⟩
  refine ⟨?_,?_⟩
  · simp only [isJsSpace,List.contains_cons,List.contains_nil,Bool.or_false,Bool.or_eq_false_iff,
      beq_eq_false_iff_ne,Bool.and_eq_false_iff,decide_eq_false_iff_not]
    omega
  · rintro rfl
    have hlow : 65 ≤ 35 := hrange.1
    omega

theorem lowerChar_word {c : Char} (h : (latinLetter c || false || c = '_') = true) :
    isJsSpace (lowerChar c) = false ∧ lowerChar c ≠ '#' := by
  by_cases haccent : c.toLower = 'É'
  · rw [lowerChar,if_pos haccent]
    decide
  · rw [lowerChar,if_neg haccent]
    simp only [latinLetter,Bool.or_eq_true,decide_eq_true_eq,Bool.or_false] at h
    rcases h with (hc | rfl) | rfl
    · rcases hc with hc | rfl
      · exact not_space_of_isAlpha (by rw [Char.isAlpha_toLower_eq_isAlpha,hc])
      · decide
    · decide
    · decide

def latin : Unicode where
  letter := latinLetter
  number _ := false
  toLowerCase := List.map lowerChar
  empty := rfl
  again t := by simp [Function.comp_def,lowerChar_again]
  hash := by decide
  word t ht hne := by
    refine ⟨by simpa using hne,fun c hc => ?_⟩
    obtain ⟨d,hd,rfl⟩ := List.mem_map.1 hc
    exact lowerChar_word (ht d hd)

theorem extractHashtags_word {U : Unicode} {word : Text} (h : ∀ c ∈ word, isWord U c = true)
    (hne : word ≠ []) : extractHashtags U ('#' :: word) = [U.toLowerCase word] := by
  have htake : word.takeWhile (isWord U) = word := List.takeWhile_eq_self_iff.2 h
  have hdrop : word.dropWhile (isWord U) = [] := List.dropWhile_eq_nil_iff.2 h
  rw [extractHashtags,htake,hdrop,if_pos ⟨rfl,hne⟩,extractHashtags]

def cafe : Post := ⟨"1".toList,"#CAFÉ".toList,"2026".toList,0⟩

def builtIn : Post := ⟨"2".toList,"#constructor".toList,"2026".toList,0⟩

def plain : Post := ⟨"3".toList,"#tea".toList,"2026".toList,0⟩

def both : Post := ⟨"4".toList,"#coffee or #Tea".toList,"2027".toList,1⟩

theorem tokens_concrete : extractHashtags latin cafe.content = ["café".toList] ∧
    extractHashtags latin builtIn.content = ["constructor".toList] := by
  have hcafe : ∀ c ∈ "CAFÉ".toList, isWord latin c = true := by
    simp [isWord,latin,latinLetter]
  have hbuiltIn : ∀ c ∈ "constructor".toList, isWord latin c = true := by
    simp [isWord,latin,latinLetter]
  have hlower : [latin.toLowerCase "CAFÉ".toList] = ["café".toList] := by
    simp [latin,lowerChar]
  have hsame : [latin.toLowerCase "constructor".toList] = ["constructor".toList] := by
    simp [latin,lowerChar]
  exact ⟨(extractHashtags_word hcafe (by simp)).trans hlower,
    (extractHashtags_word hbuiltIn (by simp)).trans hsame⟩

theorem hashtags_agree_tea : HashtagsAgree latin List.reverse [plain,both] :=
  hashtags_agree latin List.reverse [plain,both] List.reverse_perm (by decide)

/-- A post with a capital that only the language folds is not found, and a tag that names a member
of every object has no number. -/
theorem accent_not_found :
    ¬(∀ (U : Unicode) (posts : List Post), posts.length < hashtagSearchScanCap →
      ∀ param sort, FindsAll U posts param sort) ∧
    ¬∀ (U : Unicode) (posts : List Post), posts.length < hashtagSearchScanCap →
      ∀ mixed : List (Text × Count) → List (Text × Count), (∀ l, (mixed l).Perm l) →
        ∀ since limit, Trends (tokensSince U posts since) limit
          (trending U mixed posts since limit) := by
  obtain ⟨hcafe,hbuiltIn⟩ := tokens_concrete
  constructor
  · intro h
    have hfinds := h latin [cafe] (by decide) "café".toList .recent
    have htag : tagOf "café".toList = "café".toList := by decide
    have hspelled := (finds_all_iff (by decide)).1 hfinds cafe List.mem_cons_self (by
      rw [carries_iff,htag,hcafe]
      decide)
    rw [htag] at hspelled
    exact absurd hspelled (by decide)
  · intro h
    have htrends := h latin [builtIn] (by decide) id (fun l => .refl l) [] 1
    have htokens : tokensSince latin [builtIn] [] = ["constructor".toList] := by
      have hsince : [builtIn].filter (fun post => [] < post.published) = [builtIn] := by decide
      rw [tokensSince,hsince,List.flatMap_singleton,hbuiltIn]
    have hno := plain_trending (by decide) (fun l => .refl l) htrends (by rw [htokens]; decide)
      "constructor".toList (by rw [htokens]; exact List.mem_cons_self)
    exact hno (by decide)

end concrete

end Yurucommu.HashtagSearch
