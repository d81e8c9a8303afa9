import Yurucommu.ResponseCache

/-!
What a stored answer promises, and the requests for which the promise is kept.
-/

set_option autoImplicit false

namespace Yurucommu.ResponseCache

open Whatwg (Text SearchParams)
open ActorIdentity (trim)
open ConditionalRequest

section promise

variable (router : Text → Option Route)

def found (s : State) (r : Request) : Option Entry :=
  (cachedRoute router r).bind fun route =>
    (LRUCache.get s.now (generateCacheKey route.config r) (maybeCleanup s).cache).1

/-- A date counts only where there is no `If-None-Match`. -/
def Identifies (r : Request) (e : Entry) : Prop :=
  (∀ field, r.ifNoneMatch = some field → Names field e.etag) ∧
    (r.ifNoneMatch = none → ∃ date time, r.ifModifiedSince = some date ∧ date.httpDate = true ∧
      date.time = some time ∧ (e.lastModified : Int) ≤ time)

structure Same (route : Route) (r r' : Request) : Prop where
  pathname : r.pathname = r'.pathname
  params : ∀ name ∈ route.reads, r.query.get name = r'.query.get name
  viewer : r.viewer = r'.viewer

def Selected (s : State) (r : Request) (body : Text) : Prop :=
  ∃ route, cachedRoute router r = some route ∧ ∃ p ∈ s.produced, p.body = body ∧
    p.finishedAt ≤ s.now ∧ s.now ≤ p.finishedAt + route.config.ttl * 1000 ∧ Same route p.request r

structure Right (s : State) (r : Request) : Prop where
  selected : ∀ body, (withCache router r s).2 = .stored body → Selected router s r body
  validated : (withCache router r s).2 = .notModified →
    ∃ e, found router s r = some e ∧ Selected router s r e.body ∧ Identifies r e

/-- When it is kept: a request that does not name the entry that it finds sends no date from that
entry's on, a date without tags is an HTTP-date, and tags have the characters of tags. -/
structure Meets (s : State) (r : Request) : Prop where
  ignored : ∀ e, found router s r = some e → r.ifNoneMatch ≠ none →
    ifNoneMatchIsFresh r.ifNoneMatch e.etag = false →
      modifiedSinceIsFresh r.ifModifiedSince e.lastModified = false
  date : ∀ e, found router s r = some e → r.ifNoneMatch = none →
    modifiedSinceIsFresh r.ifModifiedSince e.lastModified = true →
      r.ifModifiedSince.all (·.httpDate) = true
  tags : ∀ e, found router s r = some e → ∀ field, r.ifNoneMatch = some field →
    ifNoneMatchIsFresh (some field) e.etag = true → trim field ≠ ['*'] →
      (entityTags (trim field)).all (fun tag => (tag.drop 1).dropLast.all etagc) = true

end promise

section keys

variable {query params : SearchParams} {keys : List Text} {name : Text} {config : CacheConfig}

theorem get_copyParam {key : Text} : (copyParam query params key).get name =
    if name = key then (query.get key).or (params.get name) else params.get name := by
  unfold copyParam
  cases h : query.get key with
  | none => simp
  | some value =>
    dsimp only
    rw [SearchParams.get_set]
    simp

theorem get_foldl_copyParam : (keys.foldl (copyParam query) params).get name =
    if name ∈ keys then (query.get name).or (params.get name) else params.get name := by
  induction keys generalizing params with
  | nil => simp
  | cons key keys ih =>
    rw [List.foldl_cons,ih,get_copyParam]
    by_cases hkey : name = key
    · subst hkey
      cases query.get name with
      | none => simp
      | some value => simp
    · simp [hkey]

theorem mem_sortKeys {key : Text} : key ∈ sortKeys keys ↔ key ∈ keys :=
  (List.perm_insertionSort _ keys).mem_iff

theorem get_cacheParams (hinclude : config.includeQueryParams = true)
    (h : config.queryParamsToInclude.all (fun keys => decide (name ∈ keys)) = true) :
    (cacheParams config query).get name = query.get name := by
  have hnil : SearchParams.get [] name = none := rfl
  unfold cacheParams
  rw [if_pos hinclude]
  cases hkeys : config.queryParamsToInclude with
  | some keys =>
    rw [hkeys] at h
    have hmem : name ∈ keys := by simpa using h
    simp [get_foldl_copyParam,hmem,hnil]
  | none =>
    dsimp only
    rw [get_foldl_copyParam]
    split
    · simp [hnil]
    · rename_i hno
      rw [mem_sortKeys] at hno
      rw [hnil,SearchParams.get_eq_none hno]

def keyTail (config : CacheConfig) (r : Request) : Text :=
  match Whatwg.formSerialize (cacheParams config r.query) with
  | [] => []
  | c :: rest => '?' :: c :: rest

variable {r r' : Request}

theorem generateCacheKey_eq (hvary : config.varyByActor = false) :
    generateCacheKey config r = r.pathname.text ++ keyTail config r := by
  unfold generateCacheKey keyTail
  dsimp only
  rw [hvary]
  cases Whatwg.formSerialize (cacheParams config r.query) with
  | nil => simp
  | cons c rest => simp

theorem takeWhile_keyTail : (keyTail config r).takeWhile (· ≠ '?') = [] := by
  unfold keyTail
  split
  · rfl
  · simp

theorem takeWhile_key (hvary : config.varyByActor = false) :
    (generateCacheKey config r).takeWhile (· ≠ '?') = r.pathname.text := by
  rw [generateCacheKey_eq hvary,List.takeWhile_append_of_pos fun c hc => ?_,takeWhile_keyTail,
    List.append_nil]
  exact decide_eq_true fun heq => r.pathname.clean (heq ▸ hc)

theorem pathname_of_key {config' : CacheConfig} (hvary : config.varyByActor = false)
    (hvary' : config'.varyByActor = false)
    (h : generateCacheKey config r = generateCacheKey config' r') : r.pathname = r'.pathname := by
  have htext : r.pathname.text = r'.pathname.text := by
    rw [← takeWhile_key hvary,h,takeWhile_key hvary']
  cases hp : r.pathname
  cases hp' : r'.pathname
  rw [hp,hp'] at htext
  cases htext
  rfl

theorem cacheParams_of_key (hvary : config.varyByActor = false)
    (h : generateCacheKey config r = generateCacheKey config r') :
    cacheParams config r.query = cacheParams config r'.query := by
  have hpath := pathname_of_key hvary hvary h
  rw [generateCacheKey_eq hvary,generateCacheKey_eq hvary,hpath] at h
  have htail := List.append_cancel_left h
  have hdrop : ∀ r, (keyTail config r).drop 1 =
      Whatwg.formSerialize (cacheParams config r.query) := by
    intro r
    unfold keyTail
    split
    · rename_i hnil
      rw [hnil]
      rfl
    · rename_i hcons
      rw [hcons]
      rfl
  refine Whatwg.formSerialize_injective ?_
  rw [← hdrop r,← hdrop r',htail]

end keys

section runs

variable {digestHex : Text → Text} {router : Text → Option Route} {s s' : State} {r r' : Request}
  {route route' : Route}

theorem varyByActor_config : route.config.varyByActor = false := by cases route <;> rfl

theorem reads_included {name : Text} (h : name ∈ route.reads) :
    route.config.includeQueryParams = true ∧
      route.config.queryParamsToInclude.all (fun keys => decide (name ∈ keys)) = true := by
  cases route with
  | timeline => exact ⟨rfl,decide_eq_true h⟩
  | trendingHashtags => exact ⟨rfl,decide_eq_true h⟩
  | webfinger => exact ⟨rfl,decide_eq_true h⟩
  | actors => exact ⟨rfl,rfl⟩
  | user => exact ⟨rfl,rfl⟩
  | instanceActor => exact ⟨rfl,rfl⟩
  | group => exact ⟨rfl,rfl⟩

theorem cachedRoute_eq_some : cachedRoute router r = some route ↔
    r.isGet = true ∧ router r.pathname.text = some route ∧ r.viewer = none := by
  unfold cachedRoute
  cases r.isGet with
  | false => simp
  | true => simp [Option.filter_eq_some_iff,varyByActor_config]

theorem same_of_key (hr : cachedRoute router r = some route)
    (hr' : cachedRoute router r' = some route')
    (h : generateCacheKey route.config r = generateCacheKey route'.config r') :
    route = route' ∧ Same route r r' := by
  obtain ⟨_,hrouter,hviewer⟩ := cachedRoute_eq_some.mp hr
  obtain ⟨_,hrouter',hviewer'⟩ := cachedRoute_eq_some.mp hr'
  have hpath := pathname_of_key varyByActor_config varyByActor_config h
  rw [hpath,hrouter'] at hrouter
  cases hrouter
  have hparams := cacheParams_of_key varyByActor_config h
  refine ⟨rfl,hpath,fun name hname => ?_,hviewer.trans hviewer'.symm⟩
  obtain ⟨hinclude,hall⟩ := reads_included hname
  calc r.query.get name = (cacheParams route.config r.query).get name :=
        (get_cacheParams hinclude hall).symm
    _ = (cacheParams route.config r'.query).get name := by rw [hparams]
    _ = r'.query.get name := get_cacheParams hinclude hall

/-- Every entry is what a handler has produced for a request with its key. -/
structure Sourced (digestHex : Text → Text) (router : Text → Option Route) (s : State) : Prop where
  entries : ∀ key e, s.cache.get key = some e → ∃ p ∈ s.produced, ∃ route,
    cachedRoute router p.request = some route ∧
      generateCacheKey route.config p.request = key ∧ e = p.entry digestHex route
  times : ∀ p ∈ s.produced, p.finishedAt ≤ s.now

variable {cache cache' : JsMap Text Entry} {key key' : Text} {e : Entry} {now : Nat}

theorem get_keepEntries {entries : List (Text × Entry)} {h : entries.Sublist cache.entries}
    (hget : (keepEntries entries cache h).get key = some e) : cache.get key = some e := by
  rw [JsMap.get_eq_some_iff] at hget ⊢
  exact h.subset hget

theorem get_delete_subset (hget : (cache.delete key').get key = some e) :
    cache.get key = some e := by
  rw [JsMap.get_delete] at hget
  split at hget
  · cases hget
  · exact hget

theorem get_lruGet (hget : (LRUCache.get now key' cache).2.get key = some e) :
    cache.get key = some e := by
  unfold LRUCache.get at hget
  split at hget
  · exact hget
  · rename_i entry hentry
    split at hget
    · exact get_delete_subset hget
    · rw [JsMap.get_set] at hget
      split at hget
      · rename_i heq
        rw [heq,hentry]
        exact hget
      · exact get_delete_subset hget

theorem lruGet_eq_some (h : (LRUCache.get now key cache).1 = some e) :
    cache.get key = some e ∧ now ≤ e.expiresAt := by
  unfold LRUCache.get at h
  split at h
  · cases h
  · rename_i entry hentry
    split at h
    · cases h
    · rename_i hexpires
      cases h
      exact ⟨hentry,Nat.le_of_not_lt hexpires⟩

theorem get_maybeCleanup (hget : (maybeCleanup s).cache.get key = some e) :
    s.cache.get key = some e := by
  unfold maybeCleanup at hget
  split at hget
  · exact get_keepEntries (h := List.filter_sublist) hget
  · exact hget

theorem now_maybeCleanup : (maybeCleanup s).now = s.now := by
  unfold maybeCleanup
  split
  · rfl
  · rfl

theorem produced_maybeCleanup : (maybeCleanup s).produced = s.produced := by
  unfold maybeCleanup
  split
  · rfl
  · rfl

/-- What a request leaves: no new entry. -/
theorem withCache_spec : (withCache router r s).1.now = s.now ∧
    (withCache router r s).1.produced = s.produced ∧ ∀ key e,
      (withCache router r s).1.cache.get key = some e → s.cache.get key = some e := by
  unfold withCache
  split
  · exact ⟨rfl,rfl,fun _ _ h => h⟩
  · rename_i route _
    have hcache : ∀ key e, (LRUCache.get (maybeCleanup s).now
        (generateCacheKey route.config r) (maybeCleanup s).cache).2.get key = some e →
          s.cache.get key = some e := fun _ _ h => get_maybeCleanup (get_lruGet h)
    unfold handleMemoryCache
    dsimp only
    split
    · split
      · exact ⟨now_maybeCleanup,produced_maybeCleanup,hcache⟩
      · exact ⟨now_maybeCleanup,produced_maybeCleanup,hcache⟩
    · exact ⟨now_maybeCleanup,produced_maybeCleanup,hcache⟩

theorem Sourced.storeResponse {p : Production} (h : Sourced digestHex router s)
    (hroute : cachedRoute router p.request = some route) (hnow : p.finishedAt ≤ s.now) :
    Sourced digestHex router (ResponseCache.storeResponse digestHex route p s) := by
  unfold ResponseCache.storeResponse
  refine ⟨fun key e hget => ?_,fun q hq => ?_⟩
  · dsimp only at hget
    rw [LRUCache.set,JsMap.get_set] at hget
    split at hget
    · rename_i hkey
      cases hget
      exact ⟨p,List.mem_cons_self,route,hroute,hkey.symm,rfl⟩
    · obtain ⟨q,hq,hentry⟩ := h.entries key e (get_keepEntries (h := List.drop_sublist _ _) hget)
      exact ⟨q,List.mem_cons_of_mem _ hq,hentry⟩
  · dsimp only
    rcases List.mem_cons.mp hq with rfl | hq
    · exact hnow
    · exact h.times q hq

theorem Sourced.step {event : Event} (h : Sourced digestHex router s)
    (hs : (machine digestHex router).step event s = some s') : Sourced digestHex router s' := by
  cases event with
  | tick ms =>
    cases hs
    exact ⟨h.entries,fun p hp => (h.times p hp).trans (Nat.le_add_right _ _)⟩
  | forget key =>
    cases hs
    exact ⟨fun key e hget => h.entries key e (get_delete_subset hget),h.times⟩
  | request r =>
    cases hs
    have hspec : (withCache router r s).1.now = s.now ∧ _ := withCache_spec
    refine ⟨fun key e hget => ?_,fun p hp => ?_⟩
    · rw [hspec.2.1]
      exact h.entries key e (hspec.2.2 key e hget)
    · rw [hspec.2.1] at hp
      rw [hspec.1]
      exact h.times p hp
  | respond r status body =>
    simp only [machine,work] at hs
    split at hs
    · split at hs
      · rename_i route hroute
        have hpending : Sourced digestHex router { s with pending := s.pending.erase r } :=
          ⟨h.entries,h.times⟩
        split at hs
        · cases hs
          exact hpending.storeResponse hroute (le_refl _)
        · cases hs
          exact hpending
      · cases hs
    · cases hs

theorem sourced_start (now : Nat) : Sourced digestHex router (start now) :=
  ⟨fun key e h => by simp [start] at h,fun p hp => by cases hp⟩

theorem Sourced.reaches {now : Nat} (h : (machine digestHex router).Reaches (start now) s) :
    Sourced digestHex router s :=
  h.invariant (sourced_start now) fun _ _ _ hsourced hs _ => hsourced.step hs

theorem found_eq_some (h : found router s r = some e) :
    ∃ route, cachedRoute router r = some route ∧
      s.cache.get (generateCacheKey route.config r) = some e ∧ s.now ≤ e.expiresAt := by
  obtain ⟨route,hroute,hget⟩ := Option.bind_eq_some_iff.mp h
  obtain ⟨hget,hexpires⟩ := lruGet_eq_some hget
  exact ⟨route,hroute,get_maybeCleanup hget,hexpires⟩

theorem Sourced.selected (h : Sourced digestHex router s) (hfound : found router s r = some e) :
    Selected router s r e.body ∧ ∃ body, e.etag = generateETag digestHex body := by
  obtain ⟨route,hroute,hget,hexpires⟩ := found_eq_some hfound
  obtain ⟨p,hp,route',hroute',hkey,rfl⟩ := h.entries _ e hget
  obtain ⟨rfl,hsame⟩ := same_of_key hroute' hroute hkey
  exact ⟨⟨route',hroute,p,hp,rfl,h.times p hp,hexpires,hsame⟩,p.body,rfl⟩

theorem answer_eq : (withCache router r s).2 = (found router s r).elim .handler fun e =>
    if isConditionalHit r e.etag e.lastModified then .notModified else .stored e.body := by
  unfold withCache found
  cases cachedRoute router r with
  | none => rfl
  | some route =>
    rw [Option.bind_some]
    unfold handleMemoryCache
    dsimp only
    rw [now_maybeCleanup]
    cases (LRUCache.get s.now (generateCacheKey route.config r) (maybeCleanup s).cache).1 with
    | none => rfl
    | some e =>
      dsimp only
      rw [Option.elim_some]
      split
      · rfl
      · rfl

theorem fresh_iff {field body : Text} :
    ifNoneMatchIsFresh (some field) (generateETag digestHex body) = true ↔
      trim field = ['*'] ∨ generateETag digestHex body ∈ entityTags (trim field) := by
  have htag : opaqueTagOf (generateETag digestHex body) =
      some (generateETag digestHex body) := by
    have hlast : ('"' :: ((digestHex body).take 16 ++ ['"'])).getLast? = some '"' := by
      rw [← List.cons_append,List.getLast?_append]
      rfl
    unfold opaqueTagOf generateETag
    simp [unmark,hlast]
  have hne : generateETag digestHex body ≠ [] := List.cons_ne_nil _ _
  unfold ifNoneMatchIsFresh
  dsimp only
  by_cases hnil : field = []
  · rw [hnil]
    simp [trim,entityTags,scanTags]
  · rw [if_neg (by simp [hnil,hne])]
    split
    · rename_i hstar
      simp [hstar]
    · rename_i hstar
      rw [htag]
      simp [hstar]

theorem fresh_of_names {field body : Text} (h : Names field (generateETag digestHex body)) :
    ifNoneMatchIsFresh (some field) (generateETag digestHex body) = true := by
  refine fresh_iff.mpr (h.imp_right fun hlist => ?_)
  obtain ⟨tags,hlist,hin⟩ := hlist
  rw [entityTags_of_tagList hlist]
  exact hin

theorem names_iff {field body : Text}
    (h : ifNoneMatchIsFresh (some field) (generateETag digestHex body) = true) :
    Names field (generateETag digestHex body) ↔ (trim field ≠ ['*'] →
      ((entityTags (trim field)).all fun tag => (tag.drop 1).dropLast.all etagc) = true) := by
  unfold Names
  rcases fresh_iff.mp h with hstar | hin
  · simp [hstar]
  · rw [entityTags_iff hin]
    by_cases hstar : trim field = ['*']
    · simp [hstar]
    · simp [hstar]

theorem modifiedSince_iff {header : Option DateField} {lastModified : Nat} :
    modifiedSinceIsFresh header lastModified = true ↔ ∃ date time, header = some date ∧
      date.time = some time ∧ (lastModified : Int) ≤ time := by
  unfold modifiedSinceIsFresh
  cases header with
  | none => simp
  | some date =>
    cases htime : date.time with
    | none => simp [htime]
    | some time => simp [htime]

structure Identifying (r : Request) (e : Entry) : Prop where
  named : r.ifNoneMatch ≠ none → ifNoneMatchIsFresh r.ifNoneMatch e.etag = true
  date : r.ifNoneMatch = none → r.ifModifiedSince.all (·.httpDate) = true
  tags : ∀ field, r.ifNoneMatch = some field → trim field ≠ ['*'] →
    ((entityTags (trim field)).all fun tag => (tag.drop 1).dropLast.all etagc) = true

theorem identifies_iff {body : Text} (he : e.etag = generateETag digestHex body)
    (hit : isConditionalHit r e.etag e.lastModified = true) : Identifies r e ↔ Identifying r e := by
  rw [isConditionalHit,Bool.or_eq_true] at hit
  unfold Identifies
  rw [he] at hit ⊢
  cases hfield : r.ifNoneMatch with
  | some field =>
    rw [hfield] at hit
    constructor
    · rintro ⟨hnames,_⟩
      have hfresh := fresh_of_names (hnames field rfl)
      refine ⟨fun _ => ?_,fun hno => ?_,fun field' hfield' => ?_⟩
      · rw [hfield,he]
        exact hfresh
      · rw [hfield] at hno
        cases hno
      · rw [hfield] at hfield'
        cases hfield'
        exact (names_iff hfresh).mp (hnames field rfl)
    · intro h
      have hfresh := h.named (by rw [hfield]; exact Option.some_ne_none _)
      rw [hfield,he] at hfresh
      refine ⟨fun field' hfield' => ?_,fun hno => by cases hno⟩
      cases hfield'
      exact (names_iff hfresh).mpr (h.tags field hfield)
  | none =>
    rw [hfield] at hit
    have hsince := hit.resolve_left (by simp [ifNoneMatchIsFresh])
    obtain ⟨date,time,hdate,htime,hle⟩ := modifiedSince_iff.mp hsince
    constructor
    · rintro ⟨_,hdated⟩
      obtain ⟨date',_,hdate',hhttp,_⟩ := hdated rfl
      refine ⟨fun hno => absurd hfield hno,fun _ => ?_,fun field hfield' => ?_⟩
      · rw [hdate']
        exact hhttp
      · rw [hfield] at hfield'
        cases hfield'
    · intro h
      have hhttp := h.date hfield
      rw [hdate] at hhttp
      refine ⟨fun field hfield' => ?_,fun _ => ⟨date,time,hdate,hhttp,htime,hle⟩⟩
      cases hfield'

theorem meets_iff (hfound : found router s r = some e) :
    Meets router s r ↔ (isConditionalHit r e.etag e.lastModified = true → Identifying r e) := by
  have hsame : ∀ e', found router s r = some e' → e' = e := fun e' he' =>
    Option.some.inj (he'.symm.trans hfound)
  rw [isConditionalHit,Bool.or_eq_true]
  constructor
  · intro h hit
    refine ⟨fun hsome => ?_,fun hnone => ?_,fun field hfield hstar => ?_⟩
    · by_contra hno
      rw [Bool.not_eq_true] at hno
      have hsince := h.ignored e hfound hsome hno
      rw [hno,hsince] at hit
      simp at hit
    · refine h.date e hfound hnone (hit.resolve_left ?_)
      rw [hnone]
      exact Bool.false_ne_true
    · refine h.tags e hfound field hfield ?_ hstar
      rcases hit with hfresh | hsince
      · rw [← hfield]
        exact hfresh
      · by_contra hno
        rw [Bool.not_eq_true,← hfield] at hno
        rw [h.ignored e hfound (by rw [hfield]; exact Option.some_ne_none _) hno] at hsince
        cases hsince
  · intro h
    refine ⟨fun e' he' hsome hno => ?_,fun e' he' hnone hsince => ?_,
      fun e' he' field hfield hfresh hstar => ?_⟩
    · rw [hsame e' he'] at hno ⊢
      by_contra hsince
      rw [Bool.not_eq_false] at hsince
      rw [(h (.inr hsince)).named hsome] at hno
      cases hno
    · rw [hsame e' he'] at hsince
      exact (h (.inr hsince)).date hnone
    · rw [hsame e' he',← hfield] at hfresh
      exact (h (.inl hfresh)).tags field hfield hstar

/-- A request is answered right exactly when these hold. -/
theorem cached_responses_right {now : Nat}
    (h : (machine digestHex router).Reaches (start now) s) (r : Request) :
    Right router s r ↔ Meets router s r := by
  have hsourced := Sourced.reaches h
  have hanswer : (withCache router r s).2 = _ := answer_eq
  cases hfound : found router s r with
  | none =>
    rw [hfound] at hanswer
    constructor
    · intro _
      refine ⟨fun e he => ?_,fun e he => ?_,fun e he => ?_⟩
      · rw [hfound] at he
        cases he
      · rw [hfound] at he
        cases he
      · rw [hfound] at he
        cases he
    · intro _
      refine ⟨fun body hbody => ?_,fun hno => ?_⟩
      · rw [hanswer] at hbody
        cases hbody
      · rw [hanswer] at hno
        cases hno
  | some e =>
    obtain ⟨hselected,body,he⟩ := hsourced.selected hfound
    rw [hfound,Option.elim_some] at hanswer
    rw [meets_iff hfound]
    constructor
    · intro hright hit
      rw [if_pos hit] at hanswer
      obtain ⟨e',he',_,hident⟩ := hright.validated hanswer
      rw [Option.some.inj (he'.symm.trans hfound)] at hident
      exact (identifies_iff he hit).mp hident
    · intro hmeets
      refine ⟨fun stored hstored => ?_,fun hvalidated => ?_⟩
      · rw [hanswer] at hstored
        split at hstored
        · cases hstored
        · cases hstored
          exact hselected
      · rw [hanswer] at hvalidated
        split at hvalidated
        · rename_i hit
          exact ⟨e,hfound,hselected,(identifies_iff he hit).mpr (hmeets hit)⟩
        · cases hvalidated

def digestOfTwo (body : Text) : Text :=
  if body = "one".toList then "7692c3ad3540bb803c020b3aee66cd88".toList
  else "3fc4ccfe745870e2c0d99f71f30ff065".toList

def timelineOnly (path : Text) : Option Route :=
  if path = "/api/timeline".toList then some .timeline else none

def readTimeline (ifNoneMatch : Option Text) (ifModifiedSince : Option DateField) : Request where
  pathname := ⟨"/api/timeline".toList,by decide⟩
  query := [("limit".toList,"5".toList)]
  viewer := none
  ifNoneMatch
  ifModifiedSince

/-- Two readers miss at once; the second answer takes the place of the first in the same second. -/
def overlap : List Event :=
  [.request (readTimeline none none),.request (readTimeline none none),
    .respond (readTimeline none none) 200 "one".toList,
    .respond (readTimeline none none) 200 "two".toList]

def after (events : List Event) : State :=
  ((machine digestOfTwo timelineOnly).run events (start 1000000)).getD (start 0)

def revalidation : Request :=
  readTimeline (some (generateETag digestOfTwo "one".toList)) (some ⟨some 1000000,true⟩)

theorem replaced_answer_not_modified :
    (machine digestOfTwo timelineOnly).Reaches (start 1000000) (after overlap) ∧
      (withCache timelineOnly revalidation (after overlap)).2 = .notModified ∧
        (withCache timelineOnly (readTimeline none none) (after overlap)).2 =
          .stored "two".toList ∧ ¬Right timelineOnly (after overlap) revalidation := by
  have hrun : (machine digestOfTwo timelineOnly).run overlap (start 1000000) =
      some (after overlap) := by decide +kernel
  have hanswer : (withCache timelineOnly revalidation (after overlap)).2 = .notModified := by
    decide +kernel
  refine ⟨.of_run hrun,hanswer,by decide +kernel,fun h => ?_⟩
  obtain ⟨e,hfound,_,hnames,_⟩ := h.validated hanswer
  have hentry : found timelineOnly (after overlap) revalidation =
      some ⟨"two".toList,200,1120000,generateETag digestOfTwo "two".toList,1000000⟩ := by
    decide +kernel
  rw [hentry] at hfound
  cases hfound
  have hfresh := fresh_of_names (hnames _ rfl)
  revert hfresh
  decide +kernel

theorem cached_responses_right_once : Right timelineOnly (after (overlap.take 3)) revalidation ∧
    (withCache timelineOnly revalidation (after (overlap.take 3))).2 = .notModified := by
  have hrun : (machine digestOfTwo timelineOnly).run (overlap.take 3) (start 1000000) =
      some (after (overlap.take 3)) := by decide +kernel
  have hentry : found timelineOnly (after (overlap.take 3)) revalidation =
      some ⟨"one".toList,200,1120000,generateETag digestOfTwo "one".toList,1000000⟩ := by
    decide +kernel
  refine ⟨(cached_responses_right (.of_run hrun) revalidation).mpr ⟨?_,?_,?_⟩,by decide +kernel⟩
  · intro e he _ hno
    rw [hentry] at he
    cases he
    revert hno
    decide +kernel
  · intro e he hnone
    cases hnone
  · intro e he field hfield _ _
    cases hfield
    decide +kernel

end runs

end Yurucommu.ResponseCache
