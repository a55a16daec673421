import ChatServer.Http.Message
import ChatServer.Lib.Framing

/-!
# `handle_request`

The handler of a plain request. It reads the document root and the clock and opens a file; what it
takes from elsewhere is in `HttpEnv` and `Call`. `send` is the callback that takes the response:
the model passes the state `σ` on which it works, so that a path that calls it twice, or not at
all, can be told from one that calls it once.

* `handleRequest_eq`: every path calls `send` exactly once, with the response `Call.response`.
* `Answer`: the paths, each with what led to it and its response.
* `Answer.needEof`: the response ends the connection if the request asked for that.
-/

namespace ChatServer

open Lib

/-! ## Paths and types -/

/-- The last position of a byte, `none` for `npos`. -/
def rfind (c : UInt8) : Bytes → Option Nat
  | [] => none
  | d :: s =>
    match rfind c s with
    | some pos => some (pos + 1)
    | none => if d = c then some 0 else none

/-- `boost::beast::detail::ascii_tolower`. -/
def asciiTolower (c : UInt8) : UInt8 := if chr 'A' ≤ c ∧ c ≤ chr 'Z' then c + 32 else c

/-- `boost::beast::iequals`. -/
def iequals (a b : Bytes) : Bool := a.map asciiTolower == b.map asciiTolower

/-- The extensions that `mime_type` knows, in the order of its tests. -/
def mimeTypes : List (String × String) :=
  [(".htm", "text/html"), (".html", "text/html"), (".php", "text/html"), (".css", "text/css"),
    (".txt", "text/plain"), (".js", "application/javascript"), (".json", "application/json"),
    (".xml", "application/xml"), (".swf", "application/x-shockwave-flash"),
    (".flv", "video/x-flv"), (".png", "image/png"), (".jpe", "image/jpeg"),
    (".jpeg", "image/jpeg"), (".jpg", "image/jpeg"), (".gif", "image/gif"), (".bmp", "image/bmp"),
    (".ico", "image/vnd.microsoft.icon"), (".tiff", "image/tiff"), (".tif", "image/tiff"),
    (".svg", "image/svg+xml"), (".svgz", "image/svg+xml")]

/-- The extension of a path, from its last dot on. -/
def extension (path : Bytes) : Bytes :=
  match rfind (chr '.') path with
  | none => []
  | some pos => path.drop pos

/-- `mime_type`. -/
def mimeType (path : Bytes) : Bytes :=
  let ext := extension path
  match mimeTypes.find? fun entry => iequals ext (ascii entry.1) with
  | some entry => ascii entry.2
  | none => ascii "application/text"

/-- `path_cat`, where paths are separated by slashes. -/
def pathCat (base path : Bytes) : Bytes :=
  if base = [] then path
  else
    let result := if base.getLast? = some (chr '/') then base.dropLast else base
    result ++ path

/-- The path that `handle_request` builds for a target. -/
def filePath (docRoot target : Bytes) : Bytes :=
  let path := pathCat docRoot target
  if target.getLast? = some (chr '/') then path ++ ascii "index.html" else path

/-- What a function that takes `c_str()` sees. -/
def cStr (s : Bytes) : Bytes := s.takeWhile (· ≠ 0)

/-- The test of the request path: it is absolute and does not contain `..`. -/
def legalTarget (target : Bytes) : Bool :=
  target != [] && target.head? == some (chr '/') && (find (ascii "..") target).isNone

/-! ## The handler -/

/-- The `error_code` of an attempt to open a file. -/
inductive OpenError where
  | noSuchFile
  | other (message : Bytes)
  deriving DecidableEq

/-- What opening each path gives: the content of the file, or an error. -/
abbrev FileSystem := Bytes → Except OpenError Bytes

/-- What the handler takes from elsewhere: the document root, `BOOST_BEAST_VERSION_STRING`, which
is the value of a field, and the serialized token for two readings of the clock. -/
structure HttpEnv where
  docRoot : Bytes
  beastVersion : Bytes
  mint : Nat → Nat → Bytes
  beastVersion_value : IsValue beastVersion

/-- A call of the handler: the request, the files, and the two readings of the clock. -/
structure Call where
  req : Request
  files : FileSystem
  now₁ : Nat
  now₂ : Nat

variable {σ : Type}

/-- The response to a request for a token. -/
def tokenResponse (env : HttpEnv) (req : Request) (token : Bytes) : Response :=
  (Response.setKeepAlive
    { status := .ok, version := req.version, server := env.beastVersion,
      contentType := ascii "application/json", body := .string token }
    req.keepAlive).preparePayload

/-- The error responses: `bad_request`, `not_found` and `server_error` differ in their status and
in the text. -/
def errorResponse (env : HttpEnv) (req : Request) (status : Status) (text : Bytes) : Response :=
  (Response.setKeepAlive
    { status, version := req.version, server := env.beastVersion,
      contentType := ascii "text/html", body := .string text }
    req.keepAlive).preparePayload

/-- `bad_request`. -/
def badRequest (env : HttpEnv) (req : Request) (why : Bytes) : Response :=
  errorResponse env req .badRequest (ascii "bad request :" ++ why)

/-- `not_found`. -/
def notFound (env : HttpEnv) (req : Request) (target : Bytes) : Response :=
  errorResponse env req .notFound (ascii "not founded :" ++ target)

/-- `server_error`. -/
def serverError (env : HttpEnv) (req : Request) (what : Bytes) : Response :=
  errorResponse env req .internalServerError (ascii "server error :" ++ what)

/-- The response to a request for a file of the given size: the body is empty or the file. -/
def fileResponse (env : HttpEnv) (req : Request) (path : Bytes) (size : Nat) (body : Body) :
    Response :=
  Response.setKeepAlive
    { status := .ok, version := req.version, server := env.beastVersion,
      contentType := mimeType path, contentLength := some size, body }
    req.keepAlive

/-- `handle_request`. -/
def handleRequest (env : HttpEnv) (call : Call) (send : Response → σ → σ) : σ → σ :=
  let req := call.req
  if req.target = ascii "/api/ws" ∧ req.method = .get then
    send (tokenResponse env req (env.mint call.now₁ call.now₂))
  -- Make sure we can handle the method
  else if req.method ≠ .get ∧ req.method ≠ .head then
    send (badRequest env req (ascii "Unknown HTTP-method"))
  -- Request path must be absolute and not contain "..".
  else if !legalTarget req.target then
    send (badRequest env req (ascii "Illegal request-target"))
  else
    let path := filePath env.docRoot req.target
    -- Attempt to open the file
    match call.files (cStr path) with
    | .error .noSuchFile => send (notFound env req req.target)
    | .error (.other message) => send (serverError env req message)
    | .ok content =>
      if req.method = .head then send (fileResponse env req path content.length .empty)
      else send (fileResponse env req path content.length (.file content))

/-- The response of a call. -/
def Call.response (env : HttpEnv) (call : Call) : Response :=
  handleRequest env call (fun res _ => res) default

/-! ## The seven paths -/

variable {env : HttpEnv} {call : Call} {res : Response}

/-- The paths through the handler, each with the response that it sends. -/
inductive Answer (env : HttpEnv) (call : Call) : Response → Prop
  | token (target : call.req.target = ascii "/api/ws") (method : call.req.method = .get) :
      Answer env call (tokenResponse env call.req (env.mint call.now₁ call.now₂))
  | unknownMethod (method : call.req.method ≠ .get ∧ call.req.method ≠ .head) :
      Answer env call (badRequest env call.req (ascii "Unknown HTTP-method"))
  | illegalTarget (method : call.req.method = .get ∨ call.req.method = .head)
      (target : legalTarget call.req.target = false) :
      Answer env call (badRequest env call.req (ascii "Illegal request-target"))
  | notFound (method : call.req.method = .get ∨ call.req.method = .head)
      (target : legalTarget call.req.target = true)
      (opened : call.files (cStr (filePath env.docRoot call.req.target)) = .error .noSuchFile) :
      Answer env call (notFound env call.req call.req.target)
  | serverError (method : call.req.method = .get ∨ call.req.method = .head)
      (target : legalTarget call.req.target = true) {message : Bytes}
      (opened : call.files (cStr (filePath env.docRoot call.req.target)) =
        .error (.other message)) :
      Answer env call (serverError env call.req message)
  | head (method : call.req.method = .head) (target : legalTarget call.req.target = true)
      {content : Bytes}
      (opened : call.files (cStr (filePath env.docRoot call.req.target)) = .ok content) :
      Answer env call
        (fileResponse env call.req (filePath env.docRoot call.req.target) content.length .empty)
  | get (method : call.req.method = .get) (target : legalTarget call.req.target = true)
      {content : Bytes}
      (opened : call.files (cStr (filePath env.docRoot call.req.target)) = .ok content) :
      Answer env call (fileResponse env call.req (filePath env.docRoot call.req.target)
        content.length (.file content))

/-- Every path of the handler calls `send` once, with the same response whatever `send` is. -/
theorem exists_answer (env : HttpEnv) (call : Call) : ∃ res, Answer env call res ∧
    ∀ {σ : Type} (send : Response → σ → σ) (s : σ), handleRequest env call send s = send res s := by
  by_cases htoken : call.req.target = ascii "/api/ws" ∧ call.req.method = .get
  · exact ⟨_, .token htoken.1 htoken.2, fun send s => by simp only [handleRequest, if_pos htoken]⟩
  by_cases hm : call.req.method ≠ .get ∧ call.req.method ≠ .head
  · exact ⟨_, .unknownMethod hm, fun send s => by
      simp only [handleRequest, if_neg htoken, if_pos hm]⟩
  have hm' : call.req.method = .get ∨ call.req.method = .head := by
    rw [← not_not (a := call.req.method = .get), ← not_not (a := call.req.method = .head)]
    exact not_and_or.mp hm
  cases ht : legalTarget call.req.target with
  | false =>
    exact ⟨_, .illegalTarget hm' ht, fun send s => by
      simp [handleRequest, htoken, hm, ht]⟩
  | true =>
    cases hf : call.files (cStr (filePath env.docRoot call.req.target)) with
    | error ec =>
      cases ec with
      | noSuchFile =>
        exact ⟨_, .notFound hm' ht hf, fun send s => by
          simp [handleRequest, htoken, hm, ht, hf]⟩
      | other message =>
        exact ⟨_, .serverError hm' ht hf, fun send s => by
          simp [handleRequest, htoken, hm, ht, hf]⟩
    | ok content =>
      by_cases hh : call.req.method = .head
      · exact ⟨_, .head hh ht hf, fun send s => by simp [handleRequest, ht, hf, hh]⟩
      · have hg := hm'.resolve_right hh
        have hws : call.req.target ≠ ascii "/api/ws" := fun h => htoken ⟨h, hg⟩
        exact ⟨_, .get hg ht hf, fun send s => by simp [handleRequest, hws, ht, hf, hg]⟩

/-- **The handler sends exactly one response.** -/
theorem handleRequest_eq (env : HttpEnv) (call : Call) (send : Response → σ → σ) (s : σ) :
    handleRequest env call send s = send (call.response env) s := by
  obtain ⟨res, -, h⟩ := exists_answer env call
  rw [h, Call.response, h]

theorem answer_response (env : HttpEnv) (call : Call) : Answer env call (call.response env) := by
  obtain ⟨res, ha, h⟩ := exists_answer env call
  rw [Call.response, h]
  exact ha

/-! ## What every response says about itself -/

theorem Answer.keepAlive (h : Answer env call res) : res.keepAlive = call.req.keepAlive := by
  cases h <;> exact Response.keepAlive_setKeepAlive _ _

theorem Answer.contentLength_isSome (h : Answer env call res) : res.contentLength.isSome := by
  cases h <;> simp [tokenResponse, badRequest, ChatServer.notFound, ChatServer.serverError,
    errorResponse, fileResponse]

/-- The session goes on after a response if and only if the request asked for that. -/
theorem Answer.needEof (h : Answer env call res) : res.needEof = !call.req.keepAlive := by
  unfold Response.needEof
  rw [if_pos h.contentLength_isSome, h.keepAlive]

end ChatServer
