import Yurucommu.ActorIdentityAgree

/-!
The three decisions on a blocked actor: for one actor, for a list of recipients, and as an SQL
predicate on a row. The raw queries are taken to be supported by the database.
-/

set_option autoImplicit false

namespace Yurucommu.Blocklist

open Whatwg (Text lower)
open Sqlite (instr substr substrFrom)
open ActorIdentity

section normalize

variable (P : Platform)

def normalizeDomain (input : Text) : Option Text :=
  let candidate :=
    if "://".toList <:+: input then (Whatwg.parse P.parseHost input).map (·.hostname)
    else some input
  candidate.bind fun candidate =>
    let trimmed := P.toLowerCase (dropDot (trim candidate))
    if 0 < trimmed.length then some trimmed else none

def domainSuffixCandidates (domain : Text) : List Text :=
  let labels := domain.splitOn '.'
  let out := (List.range (labels.length - 1)).map fun i => ['.'].intercalate (labels.drop i)
  if out.length = 0 then [domain] else out

end normalize

section strict

variable (P : Platform) (blockedDomains blockedActors : List Text)

def isDomainBlockedStrict (hostnameOrUrl : Text) : Bool :=
  match normalizeDomain P hostnameOrUrl with
  | none => false
  | some domain => (domainSuffixCandidates domain).any fun candidate => candidate ∈ blockedDomains

def isActorBlockedStrict (actorApId : Text) : Bool :=
  if actorApId.length = 0 then false
  else if actorApId ∈ blockedActors then true
  else if (activityPubActorIdentityMatchesSql blockedActors actorApId).head?.any (· ≠ []) then true
  else
    match normalizeDomain P actorApId with
    | none => false
    | some domain => isDomainBlockedStrict P blockedDomains domain

end strict

section filter

variable (P : Platform) (blockedDomains blockedActors : List Text)

def blocklistInChunk : Nat := 90

def chunks (l : List Text) : List (List Text) :=
  (List.range ((l.length + (blocklistInChunk - 1)) / blocklistInChunk)).map fun i =>
    (l.drop (blocklistInChunk * i)).take blocklistInChunk

def filterBlockedActorApIds (actorApIds : List Text) : List Text :=
  let uniqueIds := (actorApIds.filter fun id => 0 < id.length).dedup
  let blockedActorSet := (chunks uniqueIds).flatMap fun chunk =>
    blockedActors.filter fun actor => actor ∈ chunk
  let requestedIdentities := (uniqueIds.filterMap (normalizeActivityPubActorId P)).dedup
  let retainedActorIdentities := (chunks requestedIdentities).flatMap fun chunk =>
    (activityPubActorIdentitySetSql blockedActors).filter fun identity => identity ∈ chunk
  let idToCandidates := fun id =>
    match normalizeDomain P id with
    | none => []
    | some domain => domainSuffixCandidates domain
  let domainList := (uniqueIds.flatMap idToCandidates).dedup
  let blockedDomainSet := (chunks domainList).flatMap fun chunk =>
    blockedDomains.filter fun domain => domain ∈ chunk
  uniqueIds.filter fun id =>
    id ∈ blockedActorSet ||
      (normalizeActivityPubActorId P id).any (· ∈ retainedActorIdentities) ||
      (idToCandidates id).any (· ∈ blockedDomainSet)

end filter

namespace Sql

def separator (actorId : Text) : Nat := instr (Sqlite.lower actorId) "://".toList

def scheme (actorId : Text) : Text := substr (Sqlite.lower actorId) 1 (separator actorId - 1)

def tail (actorId : Text) : Text := substrFrom (Sqlite.lower actorId) (separator actorId + 3)

def host (authority : Text) : Text :=
  if substr authority 1 1 = ['['] && 1 < instr authority [']'] then
    substr authority 1 (instr authority [']'])
  else if 0 < instr authority [':'] then substr authority 1 (instr authority [':'] - 1)
  else authority

def withoutRootDot (host : Text) : Text :=
  if substrFrom host (-1) = ['.'] then substr host 1 (host.length - 1) else host

def hostname (actorId : Text) : Option Text :=
  let actorId := ActorIdentity.Sql.fragmentless actorId
  let authority := ActorIdentity.Sql.authority (tail actorId)
  if 1 < separator actorId &&
      (scheme actorId = "http".toList || scheme actorId = "https".toList) &&
      0 < authority.length && instr authority ['@'] = 0 then
    some (withoutRootDot (host authority))
  else none

def covers (hostname domain : Text) : Bool :=
  hostname = domain || substrFrom hostname (-(('.' :: domain).length : Int)) = '.' :: domain

end Sql

section sql

variable (blockedDomains blockedActors : List Text)

def operatorActorDomainNotBlockedSql (actorApId : Text) : Bool :=
  !(Sql.hostname actorApId).any fun hostname => blockedDomains.any (Sql.covers hostname)

def operatorActorNotBlockedSql (actorApId : Text) : Bool :=
  (activityPubActorIdentityMatchesSql blockedActors actorApId).isEmpty &&
    operatorActorDomainNotBlockedSql blockedDomains actorApId

end sql

end Yurucommu.Blocklist
