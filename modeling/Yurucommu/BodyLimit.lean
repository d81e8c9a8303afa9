import Yurucommu.BlocklistCovers

/-!
The cap on the body of a request: the declared length is checked, and a body with no length is
counted as it flows. The runtime is relied on for one thing: it ends a body where a length that is
plain decimal digits says it ends.
-/

set_option autoImplicit false

namespace Yurucommu.BodyLimit

open ActorIdentity (trim)
open Whatwg (Text)

section streams

inductive Ending where
  | closed
  | failed
  | tooLarge (limit : Nat)
deriving DecidableEq, Repr

/-- The chunks that a stream gives out, and how it ends after them. -/
structure Body where
  chunks : List (List UInt8)
  ending : Ending
deriving DecidableEq, Repr

def byteLength (chunks : List (List UInt8)) : Nat := (chunks.map List.length).sum

def Reads (body : Body) (got : List (List UInt8)) : Prop := got <+: body.chunks

def transform (maxBytes : Nat) : Nat → List (List UInt8) → List (List UInt8) × Bool
  | _, [] => ([],false)
  | seen, chunk :: rest =>
    if maxBytes < seen + chunk.length then ([],true)
    else
      let later := transform maxBytes (seen + chunk.length) rest
      (chunk :: later.1,later.2)

def capBody (maxBytes : Nat) (body : Body) : Body :=
  let passed := transform maxBytes 0 body.chunks
  ⟨passed.1,if passed.2 then .tooLarge maxBytes else body.ending⟩

end streams

section requests

/-- The header names are in small letters. -/
structure Request where
  method : Text
  url : Text
  headers : List (Text × Text)
  redirect : Text
  body : Option Body
deriving DecidableEq

def getHeader (headers : List (Text × Text)) (name : Text) : Option Text :=
  let values := (headers.filter fun h => h.1 = name).map Prod.snd
  if values = [] then none else some (", ".toList.intercalate values)

def contentLength (request : Request) : Option Text :=
  getHeader request.headers "content-length".toList

def bodyLength (request : Request) : Nat :=
  match request.body with
  | none => 0
  | some body => byteLength body.chunks

end requests

section limit

def bodyBearingMethods : List Text := ["POST".toList,"PUT".toList,"PATCH".toList]

/-- The cap is a safe integer. -/
structure BodyLimitOptions where
  maxBytes : Nat
  isSafe : maxBytes < 2 ^ 53
  requireContentLength : Bool

/-- Digits, and nothing else. -/
def plainDecimal (text : Text) : Option Nat :=
  if text ≠ [] ∧ text.all Char.isDigit then some (Nat.ofDigitChars 10 text 0) else none

/-- From here on a number is rounded to infinity. -/
def infinite : Nat := 2 ^ 1024 - 2 ^ 970

/-- No rounding shows: the number is compared with a safe integer. -/
def parseContentLength (header : Option Text) : Option Nat := do
  let header ← header
  let parsed ← plainDecimal (trim header)
  if parsed < infinite then some parsed else none

inductive Reason where
  | bodyTooLarge
  | bodyLengthRequired
deriving DecidableEq, Repr

inductive BodyLimitDecision where
  | ok
  | refuse (reason : Reason) (limit : Nat) (declared : Option Nat)
deriving DecidableEq, Repr

def isBodyBearing (request : Request) : Bool :=
  request.method.map Char.toUpper ∈ bodyBearingMethods

def evaluateBodyLimit (request : Request) (options : BodyLimitOptions) : BodyLimitDecision :=
  if isBodyBearing request then
    match parseContentLength (contentLength request) with
    | none =>
      if options.requireContentLength then .refuse .bodyLengthRequired options.maxBytes none
      else .ok
    | some declared =>
      if options.maxBytes < declared then .refuse .bodyTooLarge options.maxBytes (some declared)
      else .ok
  else .ok

def capRequestBodyStream (request : Request) (maxBytes : Nat) : Request :=
  match request.body with
  | none => request
  | some body => { request with body := some (capBody maxBytes body) }

/-- A response with its error, message and limit, or the request that the handler gets. -/
inductive Outcome where
  | response (status : Nat) (error message : Text) (limit : Nat)
  | next (request : Request)
deriving DecidableEq

def errorText : Reason → Text
  | .bodyTooLarge => "body_too_large".toList
  | .bodyLengthRequired => "body_length_required".toList

def messageText (limit : Nat) : Reason → Text
  | .bodyTooLarge => "Request body exceeds the ".toList ++ (toString limit).toList ++
      " byte cap".toList
  | .bodyLengthRequired => "Content-Length header is required".toList

def status : Reason → Nat
  | .bodyLengthRequired => 411
  | .bodyTooLarge => 413

def bodyLimit (options : BodyLimitOptions) (request : Request) : Outcome :=
  match evaluateBodyLimit request options with
  | .ok =>
    if isBodyBearing request && contentLength request = none && request.body.isSome then
      .next (capRequestBodyStream request options.maxBytes)
    else .next request
  | .refuse reason limit _ => .response (status reason) (errorText reason) (messageText limit reason)
      limit

end limit

section promise

/-- The runtime ends the body at a length that is plain decimal. -/
def Admitted (request : Request) : Prop :=
  ∀ header declared, contentLength request = some header → plainDecimal header = some declared →
    bodyLength request ≤ declared

/-- The handler is not reached, or reads no more than the cap: a longer body ends with an error, a
shorter one is as it was. -/
inductive Airtight (options : BodyLimitOptions) (request : Request) : Outcome → Prop where
  | refused {status : Nat} (error message : Text) (limit : Nat) (which : status = 411 ∨ status = 413) :
      Airtight options request (.response status error message limit)
  | handed {other : Request}
      (capped : ∀ body ∈ other.body, ∀ got, Reads body got → byteLength got ≤ options.maxBytes)
      (stops : options.maxBytes < bodyLength request →
        ∃ body, other.body = some body ∧ body.ending = .tooLarge options.maxBytes)
      (unchanged : bodyLength request ≤ options.maxBytes → other.body = request.body)
      (kept : other.method = request.method ∧ other.url = request.url ∧
        other.headers = request.headers) : Airtight options request (.next other)

/-- The body is short enough, or the method is one that bodies are counted for and its length is
absent, plain decimal and finite, too large, or missing where it is required. -/
def Guarded (options : BodyLimitOptions) (request : Request) : Prop :=
  bodyLength request ≤ options.maxBytes ∨ isBodyBearing request = true ∧
    (contentLength request = none ∨
      (∃ header declared, contentLength request = some header ∧
        plainDecimal header = some declared ∧ declared < infinite) ∨
      (∃ declared, parseContentLength (contentLength request) = some declared ∧
        options.maxBytes < declared) ∨
      options.requireContentLength = true ∧ parseContentLength (contentLength request) = none)

end promise

section streams

variable {maxBytes seen : Nat} {chunks got : List (List UInt8)} {body : Body}

@[simp] theorem byteLength_nil : byteLength [] = 0 := rfl

@[simp] theorem byteLength_cons (chunk : List UInt8) (chunks : List (List UInt8)) :
    byteLength (chunk :: chunks) = chunk.length + byteLength chunks := rfl

theorem byteLength_mono (h : got <+: chunks) : byteLength got ≤ byteLength chunks := by
  obtain ⟨rest,rfl⟩ := h
  rw [byteLength,byteLength,List.map_append,List.sum_append]
  exact Nat.le_add_right ..

theorem transform_spec (h : seen ≤ maxBytes) :
    seen + byteLength (transform maxBytes seen chunks).1 ≤ maxBytes ∧
      (seen + byteLength chunks ≤ maxBytes → transform maxBytes seen chunks = (chunks,false)) ∧
      (maxBytes < seen + byteLength chunks → (transform maxBytes seen chunks).2 = true) := by
  induction chunks generalizing seen with
  | nil => exact ⟨h,fun _ => rfl,fun hlong => absurd hlong (Nat.not_lt.mpr h)⟩
  | cons chunk rest ih =>
    rw [transform,byteLength_cons]
    split
    · rename_i hlong
      exact ⟨h,fun hfits => by omega,fun _ => rfl⟩
    · rename_i hfits
      obtain ⟨hcap,hall,hstop⟩ := ih (Nat.not_lt.mp hfits)
      refine ⟨?_,fun hshort => ?_,fun hlong => hstop (by omega)⟩
      · simp only [byteLength_cons]
        omega
      · simp only [hall (by omega)]

theorem capBody_capped (h : Reads (capBody maxBytes body) got) : byteLength got ≤ maxBytes := by
  have hcap : 0 + byteLength (transform maxBytes 0 body.chunks).1 ≤ maxBytes :=
    (transform_spec (Nat.zero_le maxBytes)).1
  have hread := byteLength_mono h
  simp only [capBody] at hread
  omega

theorem capBody_short (h : byteLength body.chunks ≤ maxBytes) : capBody maxBytes body = body := by
  have hall : transform maxBytes 0 body.chunks = (body.chunks,false) :=
    (transform_spec (Nat.zero_le maxBytes)).2.1 (by omega)
  simp [capBody,hall]

theorem capBody_long (h : maxBytes < byteLength body.chunks) :
    (capBody maxBytes body).ending = .tooLarge maxBytes := by
  have hstop : (transform maxBytes 0 body.chunks).2 = true :=
    (transform_spec (Nat.zero_le maxBytes)).2.2 (by omega)
  simp [capBody,hstop]

end streams

section exact

variable {options : BodyLimitOptions} {request : Request} {header : Text} {declared : Nat}

theorem bodyLength_some {body : Body} (h : request.body = some body) :
    bodyLength request = byteLength body.chunks := by
  rw [bodyLength,h]

theorem airtight_same (h : bodyLength request ≤ options.maxBytes) :
    Airtight options request (.next request) := by
  refine .handed (fun body hbody got hgot => ?_) (fun hlong => absurd hlong (Nat.not_lt.mpr h))
    (fun _ => rfl) ⟨rfl,rfl,rfl⟩
  have hread := byteLength_mono hgot
  rw [bodyLength_some hbody] at h
  exact hread.trans h

theorem not_airtight_same (h : options.maxBytes < bodyLength request) :
    ¬Airtight options request (.next request) := by
  intro hair
  cases hair with
  | handed capped =>
    cases hbody : request.body with
    | none =>
      rw [bodyLength,hbody] at h
      exact absurd h (Nat.not_lt_zero _)
    | some body =>
      rw [bodyLength_some hbody] at h
      exact absurd (capped body hbody body.chunks List.prefix_rfl) (Nat.not_le.mpr h)

theorem airtight_capped :
    Airtight options request (.next (capRequestBodyStream request options.maxBytes)) := by
  cases hbody : request.body with
  | none =>
    have hsame : capRequestBodyStream request options.maxBytes = request := by
      rw [capRequestBodyStream,hbody]
    rw [hsame]
    refine airtight_same ?_
    rw [bodyLength,hbody]
    exact Nat.zero_le _
  | some body =>
    have hcapped : capRequestBodyStream request options.maxBytes =
        { request with body := some (capBody options.maxBytes body) } := by
      rw [capRequestBodyStream,hbody]
    rw [hcapped]
    refine .handed ?_ (fun hlong => ?_) (fun hshort => ?_) ⟨rfl,rfl,rfl⟩
    · intro other hother got hgot
      cases hother
      exact capBody_capped hgot
    · rw [bodyLength_some hbody] at hlong
      exact ⟨_,rfl,capBody_long hlong⟩
    · rw [bodyLength_some hbody] at hshort
      rw [capBody_short hshort,hbody]

/-- What becomes of a request: it is refused, its body is counted, or it is left as it is. -/
inductive Becomes (options : BodyLimitOptions) (request : Request) : Outcome → Prop where
  | tooLarge {declared : Nat} (message : Text) (bearing : isBodyBearing request = true)
      (parsed : parseContentLength (contentLength request) = some declared)
      (more : options.maxBytes < declared) : Becomes options request
        (.response 413 "body_too_large".toList message options.maxBytes)
  | lengthRequired (message : Text) (bearing : isBodyBearing request = true)
      (missing : parseContentLength (contentLength request) = none)
      (required : options.requireContentLength = true) : Becomes options request
        (.response 411 "body_length_required".toList message options.maxBytes)
  | counted (bearing : isBodyBearing request = true) (absent : contentLength request = none) :
      Becomes options request (.next (capRequestBodyStream request options.maxBytes))
  | bodiless (none : request.body = none) : Becomes options request (.next request)
  | unlisted (bearing : isBodyBearing request = false) : Becomes options request (.next request)
  | trusted {header : Text} {declared : Nat} (there : contentLength request = some header)
      (parsed : parseContentLength (some header) = some declared)
      (few : declared ≤ options.maxBytes) : Becomes options request (.next request)
  | unread {header : Text} (there : contentLength request = some header)
      (unparsed : parseContentLength (some header) = none)
      (optional : options.requireContentLength = false) : Becomes options request (.next request)

theorem bodyLimit_becomes (options : BodyLimitOptions) (request : Request) :
    Becomes options request (bodyLimit options request) := by
  unfold bodyLimit evaluateBodyLimit
  cases hbearing : isBodyBearing request with
  | false => exact .unlisted hbearing
  | true =>
    cases hparsed : parseContentLength (contentLength request) with
    | none =>
      cases hrequired : options.requireContentLength with
      | true => exact .lengthRequired _ hbearing hparsed hrequired
      | false =>
        cases hthere : contentLength request with
        | none =>
          cases hbody : request.body with
          | none =>
            simp only [if_true,Bool.false_eq_true,if_false,Bool.true_and,decide_true,
              Option.isSome_none]
            exact .bodiless hbody
          | some body =>
            simp only [if_true,Bool.false_eq_true,if_false,Bool.true_and,decide_true,
              Option.isSome_some]
            exact .counted hbearing hthere
        | some header =>
          rw [hthere] at hparsed
          simp only [if_true,Bool.false_eq_true,if_false,Bool.true_and,reduceCtorEq,decide_false,
            Bool.false_and]
          exact .unread hthere hparsed hrequired
    | some declared =>
      cases hthere : contentLength request with
      | none =>
        rw [hthere] at hparsed
        cases hparsed
      | some header =>
        by_cases hmore : options.maxBytes < declared
        · simp only [if_true,if_pos hmore]
          exact .tooLarge _ hbearing hparsed hmore
        · rw [hthere] at hparsed
          simp only [if_true,if_neg hmore,Bool.true_and,reduceCtorEq,decide_false,
            Bool.false_and,Bool.false_eq_true,if_false]
          exact .trusted hthere hparsed (Nat.not_lt.mp hmore)

theorem trim_of_digits {text : Text} (h : text.all Char.isDigit = true) : trim text = text :=
  Blocklist.trim_host fun c hc => by
    have hdigit := List.all_eq_true.mp h c hc
    simp [ActorIdentity.isHostnameChar,Char.isAlphanum,hdigit]

theorem parse_plain (hplain : plainDecimal header = some declared) (hfinite : declared < infinite) :
    parseContentLength (some header) = some declared := by
  have hdigits : header.all Char.isDigit = true := by
    unfold plainDecimal at hplain
    split at hplain
    · rename_i h
      exact h.2
    · cases hplain
  simp only [parseContentLength,Option.bind_eq_bind,Option.bind_some,trim_of_digits hdigits,hplain,
    if_pos hfinite]

/-- The cap is airtight exactly on the requests that are guarded. -/
theorem airtight_iff_guarded (options : BodyLimitOptions) (h : Admitted request) :
    Airtight options request (bodyLimit options request) ↔ Guarded options request := by
  have hbecomes := bodyLimit_becomes options request
  generalize bodyLimit options request = outcome at hbecomes
  cases hbecomes with
  | tooLarge message bearing parsed more =>
    exact ⟨fun _ => .inr ⟨bearing,.inr (.inr (.inl ⟨_,parsed,more⟩))⟩,
      fun _ => .refused _ _ _ (.inr rfl)⟩
  | lengthRequired message bearing missing required =>
    exact ⟨fun _ => .inr ⟨bearing,.inr (.inr (.inr ⟨required,missing⟩))⟩,
      fun _ => .refused _ _ _ (.inl rfl)⟩
  | counted bearing absent => exact ⟨fun _ => .inr ⟨bearing,.inl absent⟩,fun _ => airtight_capped⟩
  | bodiless none =>
    have hshort : bodyLength request ≤ options.maxBytes := by
      rw [bodyLength,none]
      exact Nat.zero_le _
    exact ⟨fun _ => .inl hshort,fun _ => airtight_same hshort⟩
  | unlisted bearing =>
    refine ⟨fun hair => .inl (Nat.not_lt.mp fun hlong => not_airtight_same hlong hair),?_⟩
    rintro (hshort | ⟨hbearing,_⟩)
    · exact airtight_same hshort
    · rw [bearing] at hbearing
      cases hbearing
  | @trusted header declared there parsed few =>
    refine ⟨fun hair => .inl (Nat.not_lt.mp fun hlong => not_airtight_same hlong hair),?_⟩
    rw [Guarded,there]
    rintro (hshort | ⟨_,hnone | ⟨plain,length,hplain,hlength,hfinite⟩ | ⟨more,hmore,hlarge⟩ | ⟨_,hnone⟩⟩)
    · exact airtight_same hshort
    · cases hnone
    · cases hplain
      rw [parse_plain hlength hfinite] at parsed
      cases parsed
      exact airtight_same ((h _ _ there hlength).trans few)
    · rw [parsed] at hmore
      cases hmore
      exact absurd hlarge (Nat.not_lt.mpr few)
    · rw [parsed] at hnone
      cases hnone
  | @unread header there unparsed optional =>
    refine ⟨fun hair => .inl (Nat.not_lt.mp fun hlong => not_airtight_same hlong hair),?_⟩
    rw [Guarded,there]
    rintro (hshort | ⟨_,hnone | ⟨plain,length,hplain,hlength,hfinite⟩ | ⟨more,hmore,_⟩ | ⟨hrequired,_⟩⟩)
    · exact airtight_same hshort
    · cases hnone
    · cases hplain
      rw [parse_plain hlength hfinite] at unparsed
      cases unparsed
    · rw [unparsed] at hmore
      cases hmore
    · rw [optional] at hrequired
      cases hrequired

end exact

section concrete

def oneByte : BodyLimitOptions := ⟨1,by decide,false⟩

def twiceDeclared : Request where
  method := "POST".toList
  url := "https://yuru.example/api/posts".toList
  headers := [("content-length".toList,"5".toList),("content-length".toList,"5".toList)]
  redirect := "follow".toList
  body := some ⟨[[123,125]],.closed⟩

def chunked : Request := { twiceDeclared with headers := [] }

theorem lengths_concrete : contentLength twiceDeclared = some "5, 5".toList ∧
    plainDecimal "5, 5".toList = none ∧ contentLength chunked = none := by
  decide +kernel

theorem admitted_twiceDeclared : Admitted twiceDeclared := by
  intro header declared hheader hdeclared
  rw [lengths_concrete.1] at hheader
  cases hheader
  rw [lengths_concrete.2.1] at hdeclared
  cases hdeclared

theorem admitted_chunked : Admitted chunked := by
  intro header declared hheader
  rw [lengths_concrete.2.2] at hheader
  cases hheader

theorem airtight_iff_guarded_chunked : Admitted chunked ∧
    Airtight oneByte chunked (bodyLimit oneByte chunked) :=
  ⟨admitted_chunked,(airtight_iff_guarded oneByte admitted_chunked).mpr
    (.inr ⟨by decide +kernel,.inl (by decide +kernel)⟩)⟩

theorem body_of_two_lengths_uncapped : ¬∀ (options : BodyLimitOptions) (request : Request),
    Admitted request → Airtight options request (bodyLimit options request) := by
  intro h
  have hair := h oneByte twiceDeclared admitted_twiceDeclared
  have hnext : bodyLimit oneByte twiceDeclared = .next twiceDeclared := by decide +kernel
  rw [hnext] at hair
  exact not_airtight_same (by decide +kernel) hair

end concrete

end Yurucommu.BodyLimit
