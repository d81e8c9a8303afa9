import Yurucommu.ConditionalRequest
import Yurucommu.FormUrlencoded
import Yurucommu.JsMap
import Yurucommu.JsString
import Yurucommu.Machine

/-!
The cache of responses: the key of a request, the store that answers it, the validators that turn
the answer into 304, and the routes that are wrapped in it.
-/

set_option autoImplicit false

namespace Yurucommu.ResponseCache

open Whatwg (Text SearchParams)
open ConditionalRequest (ifNoneMatchIsFresh)

structure CacheConfig where
  ttl : Nat
  includeQueryParams : Bool := true
  queryParamsToInclude : Option (List Text) := none
  varyByActor : Bool := false
deriving DecidableEq, Repr

inductive Route where
  | timeline | actors | trendingHashtags | webfinger | user | instanceActor | group
deriving DecidableEq, Repr

def feedParams : List Text := ["limit".toList,"offset".toList,"before".toList,"community".toList]

def trendingParams : List Text := ["limit".toList,"days".toList]

def webfingerParams : List Text := ["resource".toList]

def Route.config : Route → CacheConfig
  | .timeline => { ttl := 120, queryParamsToInclude := some feedParams }
  | .actors => { ttl := 300 }
  | .trendingHashtags => { ttl := 600, queryParamsToInclude := some trendingParams }
  | .webfinger => { ttl := 3600, queryParamsToInclude := some webfingerParams }
  | .user | .instanceActor | .group => { ttl := 600 }

def Route.reads : Route → List Text
  | .timeline => feedParams
  | .actors => ["limit".toList,"offset".toList]
  | .trendingHashtags => trendingParams
  | .webfinger => webfingerParams
  | .user | .instanceActor | .group => []

/-- A date field: what `new Date` makes of its text, in milliseconds, and whether the text is an
HTTP-date. -/
structure DateField where
  time : Option Int
  httpDate : Bool
deriving DecidableEq, Repr

/-- The path of a URL; a question mark in it is percent-encoded. -/
structure Pathname where
  text : Text
  clean : '?' ∉ text
deriving DecidableEq

/-- `query` are the parameters of the URL as they come. -/
structure Request where
  isGet : Bool := true
  pathname : Pathname
  query : SearchParams
  viewer : Option Text
  ifNoneMatch : Option Text
  ifModifiedSince : Option DateField
deriving DecidableEq

section key

/-- In the order of UTF-16 code units. -/
def sortKeys (keys : List Text) : List Text :=
  keys.insertionSort fun key key' => !JsString.ltUnits (key'.flatMap JsString.codeUnits)
    (key.flatMap JsString.codeUnits)

def copyParam (query params : SearchParams) (key : Text) : SearchParams :=
  match query.get key with
  | some value => params.set key value
  | none => params

def cacheParams (config : CacheConfig) (query : SearchParams) : SearchParams :=
  if config.includeQueryParams then
    match config.queryParamsToInclude with
    | some keys => keys.foldl (copyParam query) []
    | none => (sortKeys (query.map (·.1))).foldl (copyParam query) []
  else []

def generateCacheKey (config : CacheConfig) (r : Request) : Text :=
  let queryString := Whatwg.formSerialize (cacheParams config r.query)
  let cacheKey :=
    if queryString ≠ [] then r.pathname.text ++ '?' :: queryString else r.pathname.text
  if config.varyByActor then
    cacheKey ++ (if cacheKey.contains '?' then '&' else '?') ::
      ("__actor=".toList ++ Whatwg.encodeURIComponent (r.viewer.getD "anonymous".toList))
  else cacheKey

end key

section validators

/-- The comparison of the two dates; an invalid one is never at or after the other. -/
def modifiedSinceIsFresh (header : Option DateField) (lastModified : Nat) : Bool :=
  header.any fun date => date.time.any fun time => (lastModified : Int) ≤ time

def isConditionalHit (r : Request) (etag : Text) (lastModified : Nat) : Bool :=
  ifNoneMatchIsFresh r.ifNoneMatch etag || modifiedSinceIsFresh r.ifModifiedSince lastModified

end validators

/-- `lastModified` is a date in whole seconds. -/
structure Entry where
  body : Text
  status : Nat
  expiresAt : Nat
  etag : Text
  lastModified : Nat
deriving DecidableEq, Repr

structure Production where
  request : Request
  body : Text
  finishedAt : Nat
deriving DecidableEq

/-- `pending` are the requests whose handlers run; `produced` is a history. -/
structure State where
  now : Nat
  cache : JsMap Text Entry
  lastCleanup : Nat
  pending : List Request
  produced : List Production
deriving DecidableEq

inductive Answer where
  | notModified
  | stored (body : Text)
  | handler
deriving DecidableEq, Repr

def maxSize : Nat := 1000

def cleanupInterval : Nat := 5 * 60 * 1000

section store

variable (now : Nat)

def LRUCache.get (key : Text) (cache : JsMap Text Entry) : Option Entry × JsMap Text Entry :=
  match cache.get key with
  | none => (none,cache)
  | some entry =>
    if entry.expiresAt < now then (none,cache.delete key)
    else (some entry,(cache.delete key).set key entry)

def keepEntries (entries : List (Text × Entry)) (cache : JsMap Text Entry)
    (h : entries.Sublist cache.entries) : JsMap Text Entry :=
  ⟨entries,cache.nodup.sublist (h.map _)⟩

def evictFirst (cache : JsMap Text Entry) : JsMap Text Entry :=
  keepEntries (cache.entries.drop (cache.entries.length + 1 - maxSize)) cache
    (List.drop_sublist _ _)

def LRUCache.set (key : Text) (entry : Entry) (cache : JsMap Text Entry) : JsMap Text Entry :=
  (evictFirst cache).set key entry

def LRUCache.cleanup (cache : JsMap Text Entry) : JsMap Text Entry :=
  keepEntries (cache.entries.filter fun e => now ≤ e.2.expiresAt) cache List.filter_sublist

end store

section middleware

variable (digestHex : Text → Text) (router : Text → Option Route)

def generateETag (body : Text) : Text := '"' :: ((digestHex body).take 16 ++ ['"'])

/-- A date as a header has it, in milliseconds. -/
def toSeconds (now : Nat) : Nat := now / 1000 * 1000

def cachedRoute (r : Request) : Option Route :=
  if !r.isGet then none
  else (router r.pathname.text).filter fun route => route.config.varyByActor || r.viewer.isNone

def maybeCleanup (s : State) : State :=
  if cleanupInterval ≤ s.now - s.lastCleanup then
    { s with lastCleanup := s.now, cache := LRUCache.cleanup s.now s.cache }
  else s

def handleMemoryCache (route : Route) (r : Request) (s : State) : State × Answer :=
  let s := maybeCleanup s
  let (cached,cache) := LRUCache.get s.now (generateCacheKey route.config r) s.cache
  match cached with
  | some entry =>
    if isConditionalHit r entry.etag entry.lastModified then ({ s with cache },.notModified)
    else ({ s with cache },.stored entry.body)
  | none => ({ s with cache, pending := r :: s.pending },.handler)

def withCache (r : Request) (s : State) : State × Answer :=
  match cachedRoute router r with
  | none => (s,.handler)
  | some route => handleMemoryCache route r s

def Production.entry (route : Route) (p : Production) : Entry where
  body := p.body
  status := 200
  expiresAt := p.finishedAt + route.config.ttl * 1000
  etag := generateETag digestHex p.body
  lastModified := toSeconds p.finishedAt

def storeResponse (route : Route) (p : Production) (s : State) : State :=
  { s with
    cache :=
      LRUCache.set (generateCacheKey route.config p.request) (p.entry digestHex route) s.cache
    produced := p :: s.produced }

/-- `forget` is a runtime whose store drops what it likes. -/
inductive Event where
  | tick (ms : Nat)
  | request (r : Request)
  | respond (r : Request) (status : Nat) (body : Text)
  | forget (key : Text)
deriving DecidableEq

def work (e : Event) (s : State) : Option State :=
  match e with
  | .tick ms => some { s with now := s.now + ms }
  | .request r => some (withCache router r s).1
  | .respond r status body =>
    if r ∈ s.pending then
      let s := { s with pending := s.pending.erase r }
      match cachedRoute router r with
      | some route =>
        some (if status = 200 then storeResponse digestHex route ⟨r,body,s.now⟩ s else s)
      | none => none
    else none
  | .forget key => some { s with cache := s.cache.delete key }

def machine : Machine State Event := ⟨work digestHex router⟩

def start (now : Nat) : State := ⟨now,.empty,now,[],[]⟩

end middleware

end Yurucommu.ResponseCache
