import ChatServer.Lib.Bytes

/-!
# HTTP messages

The parts of `http::request` and `http::response` that the server reads and sets. A request
carries what the parser gives: `keepAlive` is `req.keep_alive()` and `upgrade` is
`websocket::is_upgrade(req)`. A response keeps the fields the server sets, and a body of one of
the three body types the server uses.

`setKeepAlive` and `keepAlive` are `keep_alive` of a Beast message: from HTTP/1.1 on a connection
persists unless the message says `close`, before that only if it says `keep-alive`.
-/

namespace ChatServer

open Lib

/-- `http::verb`. -/
inductive Verb where
  | unknown | delete | get | head | post | put | connect | options | trace | copy | lock | mkcol
  | move | propfind | proppatch | search | unlock | bind | rebind | unbind | acl | report
  | mkactivity | checkout | merge | msearch | notify | subscribe | unsubscribe | patch | purge
  | mkcalendar | link | unlink
  deriving DecidableEq

/-- A parsed `http::request`. The default is the request of `req_ = {}`. -/
structure Request where
  method : Verb := .unknown
  target : Bytes := []
  version : Nat := 11
  keepAlive : Bool := true
  upgrade : Bool := false
  deriving DecidableEq

/-- The values of `http::status` the server uses. -/
inductive Status where
  | ok | badRequest | unauthorized | notFound | internalServerError
  deriving DecidableEq

/-- The number of a status on the wire. -/
def Status.code : Status → Nat
  | .ok => 200
  | .badRequest => 400
  | .unauthorized => 401
  | .notFound => 404
  | .internalServerError => 500

/-- The value of a `Connection` field. -/
inductive Connection where
  | close | keepAlive
  deriving DecidableEq

/-- The body of a response: `empty_body`, `string_body` or `file_body`. -/
inductive Body where
  | empty
  | string (s : Bytes)
  | file (content : Bytes)
  deriving DecidableEq

/-- The octets a body puts on the wire. -/
def Body.octets : Body → Bytes
  | .empty => []
  | .string s => s
  | .file content => content

/-- An `http::response` with the fields the server sets. -/
structure Response where
  status : Status
  version : Nat
  server : Bytes := []
  contentType : Bytes := []
  contentLength : Option Nat := none
  connection : Option Connection := none
  body : Body
  deriving DecidableEq

/-- `http::response<>{}`. -/
instance : Inhabited Response := ⟨{ status := .ok, version := 11, body := .empty }⟩

namespace Response

/-- `res.keep_alive(value)`. -/
def setKeepAlive (res : Response) (value : Bool) : Response :=
  if res.version < 11 then { res with connection := if value then some .keepAlive else none }
  else { res with connection := if value then none else some .close }

/-- `res.keep_alive()`. -/
def keepAlive (res : Response) : Bool :=
  if res.version < 11 then res.connection == some .keepAlive else res.connection != some .close

/-- `res.prepare_payload()` of a response with a body of known size. -/
def preparePayload (res : Response) : Response :=
  { res with contentLength := some res.body.octets.length }

/-- `res.need_eof()`: the end of the response is the end of the stream, or the response says
that the connection does not persist. -/
def needEof (res : Response) : Bool :=
  if res.contentLength.isSome then !res.keepAlive else true

@[simp] theorem keepAlive_setKeepAlive (res : Response) (value : Bool) :
    (res.setKeepAlive value).keepAlive = value := by
  unfold setKeepAlive keepAlive
  by_cases h : res.version < 11 <;> cases value <;> simp [h]

@[simp] theorem status_setKeepAlive (res : Response) (value : Bool) :
    (res.setKeepAlive value).status = res.status := by
  unfold setKeepAlive
  split <;> rfl

@[simp] theorem contentLength_setKeepAlive (res : Response) (value : Bool) :
    (res.setKeepAlive value).contentLength = res.contentLength := by
  unfold setKeepAlive
  split <;> rfl

@[simp] theorem body_setKeepAlive (res : Response) (value : Bool) :
    (res.setKeepAlive value).body = res.body := by
  unfold setKeepAlive
  split <;> rfl

@[simp] theorem server_setKeepAlive (res : Response) (value : Bool) :
    (res.setKeepAlive value).server = res.server := by
  unfold setKeepAlive
  split <;> rfl

@[simp] theorem contentType_setKeepAlive (res : Response) (value : Bool) :
    (res.setKeepAlive value).contentType = res.contentType := by
  unfold setKeepAlive
  split <;> rfl

@[simp] theorem status_preparePayload (res : Response) :
    res.preparePayload.status = res.status := rfl

@[simp] theorem server_preparePayload (res : Response) :
    res.preparePayload.server = res.server := rfl

@[simp] theorem contentType_preparePayload (res : Response) :
    res.preparePayload.contentType = res.contentType := rfl

@[simp] theorem contentLength_preparePayload (res : Response) :
    res.preparePayload.contentLength = some res.body.octets.length := rfl

@[simp] theorem body_preparePayload (res : Response) : res.preparePayload.body = res.body := rfl

end Response

end ChatServer
