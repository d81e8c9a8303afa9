import Yurucommu.FormUrlencoded
import Yurucommu.JsString
import Yurucommu.ConditionalRequest

/-!
The object store over S3 requests: how a key becomes the path of a request, and what `put`, `get`
and `delete` send.
-/

set_option autoImplicit false

namespace Yurucommu.S3Fetch

open Whatwg
open ConditionalRequest (httpEtagOf)

section urls

def syntheticOrigin : Text := "https://s3.invalid".toList

def escapeReserved (t : Text) : Text :=
  t.flatMap fun c =>
    if ".!'()*".toList.contains c then percentEncodeByte (UInt8.ofNat c.toNat) else [c]

/-- `.replace(/%2E/gu, "%252E")` -/
def escapeDots : Text → Text
  | '%' :: '2' :: 'E' :: rest => "%252E".toList ++ escapeDots rest
  | c :: rest => c :: escapeDots rest
  | [] => []

def encodePathSegment (value : Text) : Text :=
  let encoded := escapeReserved (encodeURIComponent value)
  if value = ['.'] || value = ['.','.'] then escapeDots encoded else encoded

def objectUrl (key : Text) : Text :=
  syntheticOrigin ++ '/' :: ['/'].intercalate ((key.splitOn '/').map encodePathSegment)

/-- The pathname of `new Request(objectUrl(key))`. -/
def requestPath (parseHost : Text → Option Text) (key : Text) : Option Text :=
  (parse parseHost (objectUrl key)).map URL.pathname

end urls

section requests

inductive Operation where
  | put
  | get
  | delete
  deriving DecidableEq

structure S3FetchObjectStoreError where
  operation : Operation
  code : String
  status : Option Nat
  deriving DecidableEq

inductive Failure where
  | s3 (error : S3FetchObjectStoreError)
  | aggregate (errors : List S3FetchObjectStoreError) (message : String)
  | invalidUrl

/-- A request: its headers and its body matter to the host alone. -/
structure Request (β : Type) where
  operation : Operation
  url : URL
  payload : Option β

structure Response (β : Type) where
  status : Nat
  contentLength : Option Text
  contentType : Option Text
  etag : Option Text
  body : Option β

/-- The capability of the host: it answers a request or rejects it, and it is scoped to one bucket,
in which a request reaches the object of its path and no other. -/
structure S3ObjectFetcher (σ β : Type) where
  fetch : σ → Request β → Option (Response β) × σ
  object : σ → Text → Option β
  confined : ∀ s request path, request.url.pathname ≠ path →
    object (fetch s request).2 path = object s path

def fetchRejectionCode : Operation → String
  | .put => "s3_fetcher_put_rejected"
  | .get => "s3_fetcher_get_rejected"
  | .delete => "s3_fetcher_delete_rejected"

def maxHeaderValueLength : Nat := 8 * 1024

def stringLength (t : Text) : Nat := (t.flatMap JsString.codeUnits).length

variable {σ β : Type} (parseHost : Text → Option Text) (fetcher : S3ObjectFetcher σ β)

/-- `new Request(objectUrl(key), …)` and `fetchFromS3`. -/
def fetchFromS3 (s : σ) (operation : Operation) (key : Text) (payload : Option β) :
    Except Failure (Response β) × σ :=
  match parse parseHost (objectUrl key) with
  | none => (.error .invalidUrl,s)
  | some url =>
    match fetcher.fetch s { operation,url,payload } with
    | (none,s) => (.error (.s3 ⟨operation,fetchRejectionCode operation,none⟩),s)
    | (some response,s) => (.ok response,s)

def expectSuccess (operation : Operation) (response : Response β) : Except Failure Unit :=
  if 200 ≤ response.status && response.status < 300 then .ok ()
  else .error (.s3 ⟨operation,"s3_response_unexpected_status",some response.status⟩)

def send (s : σ) (operation : Operation) (key : Text) (payload : Option β) :
    Except Failure Unit × σ :=
  match fetchFromS3 parseHost fetcher s operation key payload with
  | (.error failure,s) => (.error failure,s)
  | (.ok response,s) => (expectSuccess operation response,s)

def put (s : σ) (key : Text) (payload : β) (contentType : Option Text) :
    Except Failure Unit × σ :=
  if contentType.any fun value => maxHeaderValueLength < stringLength value then
    (.error (.s3 ⟨.put,"s3_request_header_too_large",none⟩),s)
  else send parseHost fetcher s .put key (some payload)

def parseContentLength (value : Option Text) (maxObjectBytes : Nat) (operation : Operation)
    (status : Nat) : Except Failure (Option Nat) :=
  match value with
  | none => .ok none
  | some value =>
    if maxHeaderValueLength < stringLength value || value = [] || !value.all Char.isDigit ||
        2 ^ 53 ≤ Nat.ofDigitChars 10 value 0 then
      .error (.s3 ⟨operation,"s3_response_content_length_invalid",some status⟩)
    else if maxObjectBytes < Nat.ofDigitChars 10 value 0 then
      .error (.s3 ⟨operation,"s3_response_object_too_large",some status⟩)
    else .ok (some (Nat.ofDigitChars 10 value 0))

def boundedHeader (value : Option Text) (operation : Operation) (status : Nat) :
    Except Failure (Option Text) :=
  match value with
  | none | some [] => .ok none
  | some value =>
    if maxHeaderValueLength < stringLength value then
      .error (.s3 ⟨operation,"s3_response_header_too_large",some status⟩)
    else .ok (some value)

structure ObjectStoreObject (β : Type) where
  key : Text
  body : Option β
  contentType : Option Text
  etag : Option Text
  httpEtag : Option Text
  byteLength : Option Nat

def objectOf (key : Text) (maxObjectBytes : Nat) (response : Response β) :
    Except Failure (Option (ObjectStoreObject β)) :=
  if response.status = 404 then .ok none
  else do
    expectSuccess .get response
    let byteLength ← parseContentLength response.contentLength maxObjectBytes .get response.status
    let contentType ← boundedHeader response.contentType .get response.status
    let etag ← boundedHeader response.etag .get response.status
    return some {
      key,contentType,etag,byteLength
      body := response.body
      httpEtag := etag.map httpEtagOf }

def get (s : σ) (key : Text) (maxObjectBytes : Nat) :
    Except Failure (Option (ObjectStoreObject β)) × σ :=
  match fetchFromS3 parseHost fetcher s .get key none with
  | (.error failure,s) => (.error failure,s)
  | (.ok response,s) => (objectOf key maxObjectBytes response,s)

/-- What a failure of one key of `delete` is reported as. -/
def deleteFailure : Failure → S3FetchObjectStoreError
  | .s3 error => error
  | .aggregate _ _ | .invalidUrl => ⟨.delete,"s3_delete_operation_failed",none⟩

def deleteEach (s : σ) : List Text → List S3FetchObjectStoreError × σ
  | [] => ([],s)
  | entry :: keys =>
    match send parseHost fetcher s .delete entry none with
    | (.ok (),s) => deleteEach s keys
    | (.error failure,s) =>
      let (failures,s) := deleteEach s keys
      (deleteFailure failure :: failures,s)

def uniqueKeys (keys : List Text) : List Text := keys.reverse.dedup.reverse

def delete (s : σ) (keys : List Text) (isBatch : Bool) : Except Failure Unit × σ :=
  match deleteEach parseHost fetcher s (uniqueKeys keys) with
  | ([],s) => (.ok (),s)
  | (failure :: failures,s) =>
    if isBatch then (.error (.aggregate (failure :: failures) "s3_batch_delete_failed"),s)
    else (.error (.s3 failure),s)

inductive Command (β : Type) where
  | put (key : Text) (payload : β) (contentType : Option Text)
  | get (key : Text) (maxObjectBytes : Nat)
  | delete (keys : List Text) (isBatch : Bool)

def Command.keys : Command β → List Text
  | .put key _ _ | .get key _ => [key]
  | .delete keys _ => keys

def perform (s : σ) : Command β → σ
  | .put key payload contentType => (put parseHost fetcher s key payload contentType).2
  | .get key maxObjectBytes => (get parseHost fetcher s key maxObjectBytes).2
  | .delete keys isBatch => (delete parseHost fetcher s keys isBatch).2

end requests

end Yurucommu.S3Fetch
