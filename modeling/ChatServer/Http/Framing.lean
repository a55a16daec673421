import ChatServer.Http.Session
import Mathlib.Data.List.Forall2

/-!
# The responses of a connection on the wire

`Response.octets` is what `async_write` puts on the wire: the head, and the octets of the body,
whatever the method of the request was. The wire holds the responses that were completely written:
the connection ends with a write that fails. A client knows the methods of its requests. It takes no
body for the response to a HEAD request, and for any other `Content-Length` octets (`readReply`).

* `readReply_octets`: the client recovers a response, whatever follows it, unless a body comes
  with the answer to a HEAD request.
* `responseFraming`: a client recovers the responses of a connection if and only if every HEAD
  request that was answered names a file that opens. `responseFraming_missing`: it does not
  after a HEAD request of a missing file, whose `404` response has a body.
-/

namespace ChatServer

open Lib

/-! ## What the server writes -/

/-- The reason phrase of a status. -/
def Status.reason : Status → Bytes
  | .ok => ascii "OK"
  | .badRequest => ascii "Bad Request"
  | .unauthorized => ascii "Unauthorized"
  | .notFound => ascii "Not Found"
  | .internalServerError => ascii "Internal Server Error"

/-- The value of a `Connection` field on the wire. -/
def Connection.value : Connection → Bytes
  | .close => ascii "close"
  | .keepAlive => ascii "keep-alive"

namespace Response

/-- The status line. -/
def statusLine (res : Response) : Bytes :=
  ascii "HTTP/" ++ decimal (res.version / 10) ++ ascii "." ++ decimal (res.version % 10) ++
    ascii " " ++ decimal res.status.code ++ ascii " " ++ res.status.reason

/-- The head of a response, with the fields in the order in which they were set. -/
def head (res : Response) : Head where
  start := res.statusLine
  fields :=
    let connection := (res.connection.map fun c => (ascii "Connection", c.value)).toList
    let contentLength :=
      (res.contentLength.map fun n => (ascii "Content-Length", decimal n)).toList
    [(ascii "Server", res.server), (ascii "Content-Type", res.contentType)] ++
      match res.body with
      -- `prepare_payload` is called after `keep_alive`
      | .string _ => connection ++ contentLength
      -- `content_length` is called before `keep_alive`
      | .empty | .file _ => contentLength ++ connection

/-- What `async_write` puts on the wire. -/
def octets (res : Response) : Bytes := res.head.encode ++ res.body.octets

end Response

/-! ## What the client reads -/

/-- What a client recovers of a response. -/
structure Reply where
  head : Head
  body : Bytes
  deriving DecidableEq

/-- The number in the `Content-Length` field. -/
def contentLength (head : Head) : Option Nat :=
  (head.value (iequals (ascii "Content-Length"))).bind parseDecimal

/-- Reads the response to a request with the method `method`. -/
def readReply (method : Verb) (s : Bytes) : Option (Reply × Bytes) :=
  match Head.decode s with
  | none => none
  | some (head, rest) =>
    if !(ascii "HTTP/").isPrefixOf head.start then none
    else if method = .head then some (⟨head, []⟩, rest)
    else
      match contentLength head with
      | none => none
      | some n => if rest.length < n then none else some (⟨head, rest.take n⟩, rest.drop n)

/-- A response as a client should see it. -/
def Response.reply (res : Response) : Reply := ⟨res.head, res.body.octets⟩

/-- The file that the request names opens. -/
def Call.opens (env : HttpEnv) (call : Call) : Bool :=
  legalTarget call.req.target &&
    (call.files (cStr (filePath env.docRoot call.req.target))).toBool

variable {env : HttpEnv} {call : Call} {res : Response}

/-! ## The heads -/

theorem Response.statusLine_prefix (res : Response) :
    (ascii "HTTP/").isPrefixOf res.statusLine = true := by
  rw [List.isPrefixOf_iff_prefix]
  simp only [Response.statusLine, List.append_assoc]
  exact List.prefix_append _ _

theorem Response.cr_statusLine (res : Response) : cr ∉ res.statusLine := by
  have hd (n : Nat) : cr ∉ decimal n := (isValue_decimal n).1
  have hr : cr ∉ res.status.reason := by cases res.status <;> decide
  have : cr ∉ ascii "HTTP/" ∧ cr ∉ ascii "." ∧ cr ∉ ascii " " := by decide
  simp [Response.statusLine, hd, hr, this]

/-- The fields of a head, whatever their order. -/
theorem Response.mem_fields {field : Bytes × Bytes} (hf : field ∈ res.head.fields) :
    field = (ascii "Server", res.server) ∨ field = (ascii "Content-Type", res.contentType) ∨
      (∃ c : Connection, field = (ascii "Connection", c.value)) ∨
      ∃ n, field = (ascii "Content-Length", decimal n) := by
  have ho {α : Type} {o : Option α} {f : α → Bytes × Bytes} (hm : field ∈ (o.map f).toList) :
      ∃ a, field = f a := by
    obtain ⟨a, -, rfl⟩ := Option.map_eq_some_iff.mp (Option.mem_toList.mp hm)
    exact ⟨a, rfl⟩
  rcases List.mem_append.mp hf with hf | hf
  · simp only [List.mem_cons, List.not_mem_nil, or_false] at hf
    rcases hf with rfl | rfl
    · exact .inl rfl
    · exact .inr (.inl rfl)
  · cases hb : res.body <;> rw [hb] at hf <;> rcases List.mem_append.mp hf with hf | hf
    case string.inl | empty.inr | file.inr => exact .inr (.inr (.inl (ho hf)))
    case string.inr | empty.inl | file.inl => exact .inr (.inr (.inr (ho hf)))

/-- A response is well-formed on the wire if its texts are field values. -/
theorem Response.head_wf (hs : IsValue res.server) (hc : IsValue res.contentType) :
    res.head.Wf where
  start_ne := by simp [Response.head, Response.statusLine, ascii]
  start_cr := res.cr_statusLine
  fields := by
    have hn : IsName (ascii "Server") ∧ IsName (ascii "Content-Type") ∧
        IsName (ascii "Connection") ∧ IsName (ascii "Content-Length") := by decide
    have hv (c : Connection) : IsValue c.value := by cases c <;> decide
    intro field hf
    rcases Response.mem_fields hf with rfl | rfl | ⟨c, rfl⟩ | ⟨n, rfl⟩
    · exact ⟨hn.1, hs⟩
    · exact ⟨hn.2.1, hc⟩
    · exact ⟨hn.2.2.1, hv c⟩
    · exact ⟨hn.2.2.2, isValue_decimal n⟩

theorem Response.contentLength_head (res : Response) :
    ChatServer.contentLength res.head = res.contentLength := by
  obtain ⟨status, version, server, contentType, contentLength, connection, body⟩ := res
  have hn : iequals (ascii "Content-Length") (ascii "Server") = false ∧
      iequals (ascii "Content-Length") (ascii "Content-Type") = false ∧
      iequals (ascii "Content-Length") (ascii "Connection") = false ∧
      iequals (ascii "Content-Length") (ascii "Content-Length") = true := by decide
  cases contentLength <;> cases connection <;> cases body <;>
    simp [ChatServer.contentLength, Head.value, Response.head, hn]

/-! ## The responses of the handler -/

theorem isValue_mimeType (path : Bytes) : IsValue (mimeType path) := by
  have hm : ∀ entry ∈ mimeTypes, IsValue (ascii entry.2) := by decide
  simp only [mimeType]
  split
  · rename_i entry he
    exact hm entry (List.mem_of_find?_eq_some he)
  · decide

theorem Answer.head_wf (h : Answer env call res) : res.head.Wf := by
  have hj : IsValue (ascii "application/json") ∧ IsValue (ascii "text/html") := by decide
  apply Response.head_wf
  · cases h <;> simp [tokenResponse, badRequest, ChatServer.notFound, ChatServer.serverError,
      errorResponse, fileResponse, env.beastVersion_value]
  · cases h <;> simp [tokenResponse, badRequest, ChatServer.notFound, ChatServer.serverError,
      errorResponse, fileResponse, isValue_mimeType, hj]

/-- A response to another method than HEAD tells the length of its body. -/
theorem Answer.contentLength (h : Answer env call res) (hm : call.req.method ≠ .head) :
    res.contentLength = some res.body.octets.length := by
  cases h with
  | head method => exact absurd method hm
  | _ => simp [tokenResponse, badRequest, ChatServer.notFound, ChatServer.serverError,
      errorResponse, fileResponse, Body.octets]

/-- A response to a HEAD request has no body if and only if the file opens. -/
theorem Answer.octets_eq_nil (h : Answer env call res) (hm : call.req.method = .head) :
    res.body.octets = [] ↔ call.opens env = true := by
  cases h with
  | token target method | get method => rw [method] at hm; cases hm
  | unknownMethod method => exact absurd hm method.2
  | illegalTarget method target =>
    simp [badRequest, errorResponse, Body.octets, Call.opens, target, ascii]
  | notFound method target opened =>
    simp [ChatServer.notFound, errorResponse, Body.octets, Call.opens, opened, ascii, Except.toBool]
  | serverError method target opened =>
    simp [ChatServer.serverError, errorResponse, Body.octets, Call.opens, opened, ascii,
      Except.toBool]
  | head method target opened =>
    simp [fileResponse, Body.octets, Call.opens, target, opened, Except.toBool]

/-! ## The stream -/

/-- **One response**: the client recovers it, whatever follows it, if no body comes with the answer
to a HEAD request. -/
theorem readReply_octets (h : Answer env call res)
    (hb : call.req.method = .head → res.body.octets = []) (rest : Bytes) :
    readReply call.req.method (res.octets ++ rest) = some (res.reply, rest) := by
  have hd := Head.decode_encode h.head_wf (res.body.octets ++ rest)
  have hs : (ascii "HTTP/").isPrefixOf res.head.start = true := res.statusLine_prefix
  rw [readReply, Response.octets, List.append_assoc, hd]
  simp only [hs, Bool.not_true, Bool.false_eq_true, if_false]
  by_cases hm : call.req.method = .head
  · rw [if_pos hm, Response.reply, hb hm]
    rfl
  · rw [if_neg hm, res.contentLength_head, h.contentLength hm]
    simp [Response.reply]

/-- A client never takes a body for the answer to a HEAD request. -/
theorem readReply_head {s rest : Bytes} {reply : Reply}
    (h : readReply .head s = some (reply, rest)) : reply.body = [] := by
  unfold readReply at h
  split at h
  · cases h
  · split at h
    · cases h
    · cases h; rfl

/-- The requests whose responses were written. -/
def answered (es : List HttpEvent) : List Call :=
  (calls es).take (es.filterMap HttpEvent.written?).length

theorem written_eq {es : List HttpEvent} {h : HttpSession} (hr : (http env).Runs es h) :
    h.written = (answered es).map (Call.response env) := by
  have hi := HttpSession.inv_of_runs hr
  have hp := List.prefix_iff_eq_take.mp hi.stage.written_sent
  rw [hp, hi.sent, ← List.map_take, answered, ← hi.written]

/-- **The framing of a connection.** The client has sent the requests of the run and reads what the
server has written. It recovers the responses, one for each request and in order, if and only if
every HEAD request that was answered names a file that opens. -/
theorem responseFraming {es : List HttpEvent} {h : HttpSession} (hr : (http env).Runs es h) :
    readAll readReply ((calls es).map (·.req.method)) (h.written.flatMap Response.octets) =
        some ((answered es).map fun call => (call.response env).reply) ↔
      ∀ call ∈ answered es, call.req.method = .head → call.opens env = true := by
  have hsplit : (calls es).map (·.req.method) = (answered es).map (·.req.method) ++
      ((calls es).drop (es.filterMap HttpEvent.written?).length).map (·.req.method) := by
    rw [← List.map_append, answered, List.take_append_drop]
  rw [hsplit, written_eq hr, List.flatMap_map]
  constructor
  · intro hread call hc hm
    have hf := readAll_forall₂ (Q := fun method reply => method = .head → reply.body = [])
      (fun method s reply rest h hm => by subst hm; exact readReply_head h) hread
    rw [List.length_map, List.take_left' (by rw [List.length_map])] at hf
    rw [List.forall₂_map_left_iff, List.forall₂_map_right_iff, List.forall₂_same] at hf
    exact ((answer_response env call).octets_eq_nil hm).mp (hf call hc hm)
  · intro ho
    refine readAll_flatMap _ (fun call _ => ?_) fun call hc rest => ?_
    · simp [Response.octets, Head.encode_ne_nil]
    · have ha := answer_response env call
      exact readReply_octets ha (fun hm => (ha.octets_eq_nil hm).mpr (ho call hc hm)) rest

/-- A client asks for the head of a file and then for the file. -/
def served : List HttpEvent :=
  let call (method : Verb) : Call :=
    { Call.plain { method, target := ascii "/a.txt" } with files := fun _ => .ok (ascii "hi") }
  [.read (.ok (call .head)), .write ((call .head).response plainHttp) none,
    .read (.ok (call .get)), .write ((call .get).response plainHttp) none]

theorem responseFraming_served : ∃ h, (http plainHttp).Runs served h ∧
    readAll readReply [.head, .get] (h.written.flatMap Response.octets) =
      some ((answered served).map fun call => (call.response plainHttp).reply) := by
  have hr : (http plainHttp).Runs served _ := rfl
  exact ⟨_, hr, (responseFraming hr).mpr (by decide)⟩

/-- A client asks for the head of a missing file and then for the file. -/
def headMissing : List HttpEvent :=
  let call (method : Verb) : Call := .plain { method, target := ascii "/a" }
  [.read (.ok (call .head)), .write ((call .head).response plainHttp) none,
    .read (.ok (call .get)), .write ((call .get).response plainHttp) none]

/-- The second response is not recovered: the client takes the body of the first one, which it does
not expect, for the next status line. -/
theorem responseFraming_missing : ¬ ∀ (env : HttpEnv) (es : List HttpEvent) (h : HttpSession),
    (http env).Runs es h → (∀ call, .read (.ok call) ∈ es → call.req.upgrade = false) →
      readAll readReply ((calls es).map (·.req.method)) (h.written.flatMap Response.octets) =
        some ((answered es).map fun call => (call.response env).reply) := by
  intro h
  have hr : (http plainHttp).Runs headMissing _ := rfl
  have hread := h plainHttp headMissing _ hr (by simp [headMissing, Call.plain])
  have hnone : readAll readReply [.head, .get]
      ((headMissing.filterMap HttpEvent.written?).flatMap Response.octets) = none := by
    decide +kernel
  cases hnone.symm.trans hread

end ChatServer
