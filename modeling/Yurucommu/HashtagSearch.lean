import Mathlib.Data.List.Dedup
import Mathlib.Data.List.Perm.Basic
import Mathlib.Data.List.Count
import Yurucommu.ActorIdentity
import Yurucommu.JsMap

/-!
The search for a hashtag and the trending hashtags: a prefilter of the database, the tokens of a
text, and an object that counts them.
-/

set_option autoImplicit false

namespace Yurucommu.HashtagSearch

open Whatwg (Text)
open ActorIdentity (isJsSpace trim)

/-- The classes `\p{L}` and `\p{N}` and the case mapping of the language. -/
structure Unicode where
  letter : Char → Bool
  number : Char → Bool
  toLowerCase : Text → Text
  empty : toLowerCase [] = []
  again : ∀ t, toLowerCase (toLowerCase t) = toLowerCase t
  hash : letter '#' = false ∧ number '#' = false
  word : ∀ t, (∀ c ∈ t, (letter c || number c || c = '_') = true) → t ≠ [] →
    toLowerCase t ≠ [] ∧ ∀ c ∈ toLowerCase t, isJsSpace c = false ∧ c ≠ '#'

structure Post where
  apId : Text
  content : Text
  published : Text
  likeCount : ℤ
deriving DecidableEq, Repr

inductive PostSort where
  | recent | popular
deriving DecidableEq, Repr

section search

variable (U : Unicode)

def isWord (c : Char) : Bool := U.letter c || U.number c || c = '_'

/-- The matches of `/#([\p{L}\p{N}_]+)/gu`; the next is looked for behind the last. -/
def extractHashtags : Text → List Text
  | [] => []
  | c :: rest =>
    if c = '#' ∧ rest.takeWhile (isWord U) ≠ [] then
      U.toLowerCase (rest.takeWhile (isWord U)) :: extractHashtags (rest.dropWhile (isWord U))
    else extractHashtags rest
termination_by content => content.length
decreasing_by
  · have hlen := (List.dropWhile_suffix (isWord U) (l := rest)).length_le
    rw [List.length_cons]
    omega
  · exact Nat.lt_succ_self _

def tagOf (param : Text) : Text :=
  match trim param with
  | '#' :: rest => rest
  | tag => tag

def recentFirst (a b : Post) : Bool :=
  b.published < a.published || (a.published = b.published && b.apId ≤ a.apId)

def postOrder : PostSort → Post → Post → Bool
  | .recent, a, b => recentFirst a b
  | .popular, a, b => b.likeCount < a.likeCount || (a.likeCount = b.likeCount && recentFirst a b)

def hashtagSearchScanCap : Nat := 1000

/-- `instr(lower(content), lower(pattern)) > 0`. -/
def spelled (tag : Text) (post : Post) : Bool :=
  0 < Sqlite.instr (Sqlite.lower post.content) (Sqlite.lower ('#' :: tag))

def candidates (posts : List Post) (tag : Text) (sort : PostSort) : List Post :=
  ((posts.filter (spelled tag)).mergeSort (postOrder sort)).take hashtagSearchScanCap

def carries (tag : Text) (post : Post) : Bool :=
  (extractHashtags U post.content).contains (U.toLowerCase tag)

def matched (posts : List Post) (tag : Text) (sort : PostSort) : List Post :=
  (candidates posts tag sort).filter (carries U tag)

structure Response where
  posts : List Post
  total : Nat
  hasMore : Bool
deriving DecidableEq, Repr

def hashtag (posts : List Post) (param : Text) (sort : PostSort) (limit offset : Nat) : Response :=
  if tagOf param = [] then ⟨[],0,false⟩
  else
    let matched := matched U posts (tagOf param) sort
    let pagePosts := (matched.drop offset).take limit
    ⟨pagePosts,matched.length,offset + pagePosts.length < matched.length⟩

end search

section trending

/-- A count is a number, or the text that adding 1 to an inherited member makes. -/
inductive Count where
  | number (n : Nat)
  | text
deriving DecidableEq, Repr

def inherited : List Text :=
  ["constructor","__proto__","hasOwnProperty","isPrototypeOf","propertyIsEnumerable",
    "toLocaleString","toString","valueOf","__defineGetter__","__defineSetter__",
    "__lookupGetter__","__lookupSetter__"].map String.toList

/-- `(hashtagCounts[tagName] || 0) + 1`; the setter of `__proto__` takes no text. -/
def addToken (counts : JsMap Text Count) (tagName : Text) : JsMap Text Count :=
  if tagName = "__proto__".toList then counts
  else
    counts.set tagName
      (match counts.get tagName with
      | some (.number n) => .number (n + 1)
      | some .text => .text
      | none => if inherited.contains tagName then .text else .number 1)

def hashtagCounts (tokens : List Text) : JsMap Text Count := tokens.foldl addToken JsMap.empty

/-- A key that an object lists before the others, in the order of its number. -/
def arrayIndex (key : Text) : Option Nat :=
  if key ≠ [] ∧ key.all (fun c => '0' ≤ c && c ≤ '9') ∧ (key.head? = some '0' → key = ['0']) then
    some (key.foldl (fun n c => 10 * n + (c.toNat - 48)) 0) |>.filter (· < 2 ^ 32 - 1)
  else none

def objectEntries (counts : JsMap Text Count) : List (Text × Count) :=
  ((counts.entries.filter fun e => (arrayIndex e.1).isSome).mergeSort fun a b =>
      (arrayIndex a.1).getD 0 ≤ (arrayIndex b.1).getD 0) ++
    counts.entries.filter fun e => (arrayIndex e.1).isNone

def Count.value : Count → Nat
  | number n => n
  | text => 0

/-- `b[1] - a[1]` is no number where one of the counts is a text; the order is the engine's then. -/
def sortCounts (mixed : List (Text × Count) → List (Text × Count)) (entries : List (Text × Count)) :
    List (Text × Count) :=
  if entries.all fun e => e.2 ≠ .text then
    entries.mergeSort fun a b => b.2.value ≤ a.2.value
  else mixed entries

def trendingScanLimit : Nat := 2000

variable (U : Unicode) (mixed : List (Text × Count) → List (Text × Count))

def trendingPosts (posts : List Post) (since : Text) : List Post :=
  ((posts.filter fun post => since < post.published).mergeSort fun a b =>
    b.published ≤ a.published).take trendingScanLimit

def trending (posts : List Post) (since : Text) (limit : Nat) : List (Text × Count) :=
  (sortCounts mixed (objectEntries (hashtagCounts
    ((trendingPosts posts since).flatMap fun post => extractHashtags U post.content)))).take limit

end trending

end Yurucommu.HashtagSearch
