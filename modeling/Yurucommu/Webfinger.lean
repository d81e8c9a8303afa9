import Mathlib.Data.List.DropRight
import Mathlib.Data.List.Nodup
import Yurucommu.Machine
import Yurucommu.Sqlite
import Yurucommu.Whatwg

/-!
WebFinger: the identities of the instance, how they come into being, and which of them a resource
names.
-/

set_option autoImplicit false

namespace Yurucommu.Webfinger

open Whatwg (Text)

/-- `APP_URL` and its host, the host that `new URL` reads, and the lower case of the language. -/
structure Site where
  baseUrl : Text
  domain : Text
  hostOf : Text → Option Text
  toLowerCase : Text → Text
  http : "http".toList <+: baseUrl
  hosted : ∀ path, hostOf (baseUrl ++ '/' :: path) = some domain
  named : domain ≠ [] ∧ '@' ∉ domain ∧ toLowerCase domain = domain
  kept : ∀ t c, c = '@' ∨ c = '/' → c ∉ t → c ∉ toLowerCase t

structure Actor where
  apId : Text
  preferredUsername : Text
  deleted : Bool := false
deriving DecidableEq, Repr

structure Community where
  apId : Text
  preferredUsername : Text
  deleted : Bool := false
  isPublic : Bool := true
deriving DecidableEq, Repr

structure Db where
  actors : List Actor := []
  communities : List Community := []
deriving DecidableEq, Repr

section identities

variable (S : Site)

def actorApId (username : Text) : Text := S.baseUrl ++ "/ap/users/".toList ++ username

def communityApId (name : Text) : Text :=
  S.baseUrl.rdropWhile (· = '/') ++ "/ap/groups/".toList ++ name

def instanceApId : Text := S.baseUrl ++ "/ap/actor".toList

/-- `/^[a-zA-Z0-9_]{1,30}$/`. -/
def isWordChar (c : Char) : Bool := c.isAlphanum || c = '_'

def live (d : Db) (apId : Text) : Bool :=
  d.actors.any fun a => a.apId = apId && !a.deleted

/-- A tombstone of the id is revived; an id or a name that another row has is an error. -/
def createActor (username : Text) (d : Db) : Option Db :=
  let apId := actorApId S username
  if d.actors.any fun a => a.preferredUsername = username && a.apId ≠ apId then none
  else if d.actors.any fun a => a.apId = apId && a.deleted then
    some { d with
      actors := d.actors.map fun a =>
        if a.apId = apId then ⟨apId,username,false⟩ else a }
  else if live d apId then none
  else some { d with actors := d.actors ++ [⟨apId,username,false⟩] }

/-- The name with a counter behind it, from the second on. -/
def numbered (baseUsername : Text) (counter : Nat) : Text :=
  if counter = 0 then baseUsername else baseUsername ++ (toString counter).toList

def reservedNames : List String :=
  ["admin","administrator","system","root","moderator","mod","community","communities","group",
    "groups","user","users","api","ap","activitypub","webfinger","well_known","settings","config",
    "configuration","help","support","about","terms","privacy","legal","dmca","copyright","login",
    "logout","register","signup","signin","auth","null","undefined","true","false","test","demo"]

/-- The error for a name that has no space around it. -/
def validateCommunityName (name : Text) : Option String :=
  if name.length < 2 then some "Name must be at least 2 characters"
  else if 32 < name.length then some "Name must be at most 32 characters"
  else if !name.all isWordChar then
    some "Name can only contain letters, numbers, and underscores"
  else if reservedNames.contains (String.ofList (name.map Char.toLower)) then
    some "This name is reserved"
  else if name.all Char.isDigit then some "Name cannot be all numbers"
  else if name.head? = some '_' || name.getLast? = some '_' then
    some "Name cannot start or end with underscore"
  else none

inductive Op where
  /-- `POST /accounts`. -/
  | account (username : Text)
  /-- `createActorFromOAuth`, where the names before this counter are taken. -/
  | oauth (baseUsername : Text) (counter : Nat)
  /-- `getPasswordOwner`. -/
  | password
  /-- The row is kept, under another name. -/
  | deleteAccount (apId name : Text)
  | createCommunity (name : Text)
  /-- A community is retired or its visibility changed. -/
  | setCommunity (apId : Text) (deleted isPublic : Bool)
deriving DecidableEq, Repr

def step (op : Op) (d : Db) : Option Db :=
  match op with
  | .account username =>
    if username ≠ [] ∧ username.length ≤ 30 ∧ username.all isWordChar ∧
        live d (actorApId S username) = false then
      createActor S username d
    else none
  | .oauth baseUsername counter =>
    if baseUsername ≠ [] ∧ ((List.range counter).all fun k =>
          live d (actorApId S (numbered baseUsername k))) ∧
        live d (actorApId S (numbered baseUsername counter)) = false then
      createActor S (numbered baseUsername counter) d
    else none
  | .password => createActor S "tako".toList d
  | .deleteAccount apId name =>
    if d.actors.any fun a => a.preferredUsername = name then none
    else some { d with
      actors := d.actors.map fun a =>
        if a.apId = apId then { a with preferredUsername := name, deleted := true } else a }
  | .createCommunity name =>
    if validateCommunityName name = none ∧
        (d.communities.any fun c => c.apId = communityApId S name || c.preferredUsername = name) =
          false then
      some { d with communities := d.communities ++ [⟨communityApId S name,name,false,true⟩] }
    else none
  | .setCommunity apId deleted isPublic => some { d with
      communities := d.communities.map fun c =>
        if c.apId = apId then { c with deleted := deleted, isPublic := isPublic } else c }

def machine : Machine Db Op := ⟨step S⟩

end identities

section lookup

variable (S : Site)

inductive Answer where
  | found (subject apId profile : Text)
  | invalid
  | notFound
deriving DecidableEq, Repr

def instanceActorUsername : Text := "community".toList

/-- The first two of the parts between the `@`s. -/
def acctParts (part : Text) : Text × Option Text :=
  (part.takeWhile (· ≠ '@'),
    match part.dropWhile (· ≠ '@') with
    | [] => none
    | _ :: rest => some (rest.takeWhile (· ≠ '@')))

/-- What `/\/users\/([^\/]+)$/` takes. -/
def usersMatch (resource : Text) : Option Text :=
  if resource.rtakeWhile (· ≠ '/') ≠ [] ∧
      "/users/".toList <:+ resource.rdropWhile (· ≠ '/') then
    some (resource.rtakeWhile (· ≠ '/'))
  else none

def parseResource (resource : Text) : Option (Text × Text) :=
  if "acct:".toList <+: resource then
    match acctParts (resource.drop 5) with
    | (username,some host) => some (username,S.toLowerCase host)
    | (_,none) => none
  else if "http".toList <+: resource then
    match S.hostOf resource, usersMatch resource with
    | some domain, some username => some (username,domain)
    | _, _ => none
  else none

def acct (username : Text) : Text := "acct:".toList ++ username ++ '@' :: S.domain

def respond (username apId profile : Text) : Answer := .found (acct S username) apId profile

def named (username : Text) (a : Actor) : Bool :=
  Sqlite.lower a.preferredUsername = S.toLowerCase username && !a.deleted

def federated (c : Community) : Bool := !c.deleted && c.isPublic

def loadFederatedCommunity (d : Db) (apId : Text) : Option Community :=
  d.communities.find? fun c => c.apId = apId && federated c

/-- Which of the matching rows the database gives first is its own. -/
structure Picker where
  pick : List Actor → Option Actor
  mem : ∀ rows a, pick rows = some a → a ∈ rows
  some_of_ne : ∀ rows, rows ≠ [] → pick rows ≠ none

variable (K : Picker)

def lookup (d : Db) (username : Text) : Answer :=
  if S.toLowerCase username = S.toLowerCase instanceActorUsername then
    respond S instanceActorUsername (instanceApId S) (S.baseUrl ++ "/groups".toList)
  else
    match K.pick (d.actors.filter (named S username)) with
    | some actor =>
      respond S actor.preferredUsername actor.apId
        (S.baseUrl ++ "/users/".toList ++ actor.preferredUsername)
    | none =>
      match loadFederatedCommunity d (communityApId S username) with
      | some community =>
        respond S community.preferredUsername community.apId
          (S.baseUrl ++ "/groups/".toList ++ community.preferredUsername)
      | none => .notFound

/-- `GET /.well-known/webfinger`. -/
def webfinger (d : Db) (resource : Text) : Answer :=
  match parseResource S resource with
  | none => .invalid
  | some (username,domain) =>
    if username = [] ∨ domain = [] then .invalid
    else if domain ≠ S.domain then .notFound
    else lookup S K d username

end lookup

end Yurucommu.Webfinger
