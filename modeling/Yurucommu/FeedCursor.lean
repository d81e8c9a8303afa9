import Yurucommu.Machine
import Yurucommu.Table
import Yurucommu.Whatwg

/-!
Feeds that are read page by page, newest first, and the writers of what they read. A cursor is the
timestamp and the id of the last row scanned, with a separator between them.
-/

set_option autoImplicit false

namespace Yurucommu.FeedCursor

open Whatwg (Text)

section dates

def digit (n : Nat) : Char := "0123456789".toList.getD (n % 10) '0'

def pad : Nat → Nat → Text
  | 0, _ => []
  | k + 1, n => pad k (n / 10) ++ [digit n]

/-- The proleptic Gregorian date of a number of days since the epoch. -/
def civil (days : Int) : Int × Nat × Nat :=
  let z := days + 719468
  let dayOfEra := (z % 146097).toNat
  let yearOfEra := (dayOfEra - dayOfEra / 1460 + dayOfEra / 36524 - dayOfEra / 146096) / 365
  let dayOfYear := dayOfEra - (365 * yearOfEra + yearOfEra / 4 - yearOfEra / 100)
  let shifted := (5 * dayOfYear + 2) / 153
  let month := if shifted < 10 then shifted + 3 else shifted - 9
  let year := yearOfEra + z / 146097 * 400
  (if month ≤ 2 then year + 1 else year,month,dayOfYear - (153 * shifted + 2) / 5 + 1)

def yearText (year : Int) : Text :=
  if year < 0 then '-' :: pad 6 year.natAbs
  else if 9999 < year then '+' :: pad 6 year.natAbs
  else pad 4 year.natAbs

/-- `new Date(ms).toISOString()`. -/
def toISOString (ms : Int) : Text :=
  let date := civil (ms / 86400000)
  let time := (ms % 86400000).toNat
  yearText date.1 ++ '-' :: pad 2 date.2.1 ++ '-' :: pad 2 date.2.2 ++
    'T' :: pad 2 (time / 3600000) ++ ':' :: pad 2 (time / 60000 % 60) ++
      ':' :: pad 2 (time / 1000 % 60) ++ '.' :: pad 3 (time % 1000) ++ ['Z']

def replace (c : Char) (replacement : Text) : Text → Text
  | [] => []
  | x :: text => if x = c then replacement ++ text else x :: replace c replacement text

def nowIso (ms : Int) : Text := replace 'Z' [] (replace 'T' [' '] (toISOString ms))

end dates

section cursors

abbrev Row := Text ×ₗ Text

def Row.sortKey (r : Row) : Text := (ofLex r).1

def Row.tiebreaker (r : Row) : Text := (ofLex r).2

def FEED_CURSOR_SEP : Char := ' '

def CURSOR_SEP : Char := Char.ofNat 0

variable (sep : Char)

def encodeFeedCursor (r : Row) : Text := r.sortKey ++ sep :: r.tiebreaker

def feedCursorWhere (before : Option Text) (r : Row) : Bool :=
  match before.filter (· ≠ []) with
  | none => true
  | some before =>
    if before.contains sep then
      let cPublished := before.takeWhile (· ≠ sep)
      let cApId := (before.dropWhile (· ≠ sep)).drop 1
      r.sortKey < cPublished || (r.sortKey = cPublished && r.tiebreaker < cApId)
    else r.sortKey < before

structure Page where
  rows : List Row
  nextCursor : Option Text
deriving DecidableEq

/-- One row beyond the limit is scanned, for `hasMore`. -/
def feedPage (limit : Nat) (rows : List Row) (before : Option Text) : Page :=
  let scanned := ((rows.filter fun r => feedCursorWhere sep before r).insertionSort (· ≥ ·)).take
    (limit + 1)
  let hasMore := limit < scanned.length
  let page := scanned.take limit
  ⟨page,if hasMore then page.getLast?.map (encodeFeedCursor sep) else none⟩

/-- A reader who follows `next_cursor` until it is null. -/
def readAll (limit : Nat) (rows : List Row) : Nat → Option Text → Option (List Row)
  | 0, _ => none
  | fuel + 1, before =>
    let page := feedPage sep limit rows before
    match page.nextCursor with
    | none => some page.rows
    | some cursor => (readAll limit rows fuel (some cursor)).map (page.rows ++ ·)

end cursors

structure Bookmark where
  actorApId : Text
  objectApId : Text
  createdAt : Text
deriving DecidableEq, Repr

structure Object where
  apId : Text
  published : Text
deriving DecidableEq, Repr

structure Db where
  now : Int
  bookmarks : List Bookmark
  objects : List Object
deriving DecidableEq, Repr

section feeds

variable (d : Db)

/-- The rows of GET /bookmarks, where `moderated` are the objects that the viewer is not shown. -/
def bookmarkRows (actor : Text) (moderated : Object → Bool) : List Row :=
  (d.bookmarks.filter fun b => b.actorApId = actor &&
    d.objects.any fun o => o.apId = b.objectApId && !moderated o).map fun b =>
      toLex (b.createdAt,b.objectApId)

/-- The rows of the feeds of objects: the replies of a post, the posts of a profile, the timeline of
the agents, and the timelines. -/
def objectRows (matching : Object → Bool) : List Row :=
  (d.objects.filter matching).map fun o => toLex (o.published,o.apId)

end feeds

section writers

inductive Event where
  | tick (ms : Nat)
  | bookmark (actor object : Text)
  | unbookmark (actor object : Text)
  | insertObject (apId : Text) (published : Int)
  | deleteObject (apId : Text)
deriving DecidableEq, Repr

/-- A bookmark takes the default of its column; every writer of an object has a timestamp of its
own. -/
def happen (e : Event) (d : Db) : Db :=
  match e with
  | .tick ms => { d with now := d.now + ms }
  | .bookmark actor object =>
    let same (b : Bookmark) : Bool := b.actorApId = actor && b.objectApId = object
    { d with bookmarks := Table.insertIgnore same ⟨actor,object,nowIso d.now⟩ d.bookmarks }
  | .unbookmark actor object =>
    { d with
      bookmarks := d.bookmarks.filter fun b => !(b.actorApId = actor && b.objectApId = object) }
  | .insertObject apId published =>
    { d with objects := Table.insertIgnore (·.apId = apId) ⟨apId,toISOString published⟩ d.objects }
  | .deleteObject apId => { d with objects := d.objects.filter (·.apId ≠ apId) }

def machine : Machine Db Event := ⟨fun e d => some (happen e d)⟩

def empty (now : Int) : Db := ⟨now,[],[]⟩

end writers

end Yurucommu.FeedCursor
