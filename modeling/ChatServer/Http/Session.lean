import ChatServer.Http.Handler
import ChatServer.Session
import ChatServer.Lib.Sys

/-!
# `http_session`

One connection from `http_session::run` on. An event is the completion of a read or of a write,
and its handler runs to its end. A read stores the parsed request in `req_`; its handler closes
the connection, reports an error, moves the socket to a new `websocket_session`, or lets
`handle_request` send a response. The handler of a write reads the next request, unless the
response ends the connection.

Ghost fields: `started` are the requests that `req_` held when a read was started, `moved` the
upgrade requests handed to a `websocket_session` together with the socket, `sent` the responses
that `handle_request` passed to the send lambda, `written` those completely written, and `log` is
what the object printed.

* `HttpSession.Inv`: the invariant. One operation is outstanding until the end, and the ghost
  fields are functions of the events so far.
* `connection`: what holds in every state of a connection.
-/

namespace ChatServer

open Lib

/-- An operation of the socket that has not completed. The handler of a write keeps the response
for `need_eof`. -/
inductive HttpOp where
  | read
  | write (res : Response)
  deriving DecidableEq

/-- An `http_session` object (module doc). -/
structure HttpSession where
  req : Request := {}
  ops : List HttpOp := []
  shutdown : Bool := false
  started : List Request := []
  moved : List Request := []
  sent : List Response := []
  written : List Response := []
  log : List Bytes := []

/-- What can happen: a read gives an error or a request, with what its handler finds, and a write
gives an error or nothing. -/
inductive HttpEvent where
  | read (outcome : Except ErrorCode Call)
  | write (res : Response) (ec : Option ErrorCode)

namespace HttpSession

/-- `http_session::fail`. -/
def fail (h : HttpSession) (ec : ErrorCode) (what : Bytes) : HttpSession :=
  if ec.kind = .operationAborted then h
  else { h with log := h.log ++ [what ++ ascii ": " ++ ec.message] }

/-- `socket_.shutdown(tcp::socket::shutdown_send, ec)`. -/
def shutdownSend (h : HttpSession) : HttpSession := { h with shutdown := true }

/-- `http::async_read(socket_, buffer_, req_, ...)`. -/
def asyncRead (h : HttpSession) : HttpSession :=
  { h with ops := .read :: h.ops, started := h.started ++ [h.req] }

/-- `http::async_write(socket_, *sp, ...)`. -/
def asyncWrite (res : Response) (h : HttpSession) : HttpSession :=
  { h with ops := .write res :: h.ops, sent := h.sent ++ [res] }

/-- `http_session::run`. -/
def run (h : HttpSession) : HttpSession := h.asyncRead

/-- `http_session::on_read`, of a read that stored the request of `call` in `req_` or failed. -/
def onRead (env : HttpEnv) (h : HttpSession) : Except ErrorCode Call → HttpSession
  -- This means they closed the connection
  | .error ⟨.endOfStream, _⟩ => h.shutdownSend
  -- Handle the error, if any
  | .error ec => h.fail ec (ascii "read")
  | .ok call =>
    -- See if it is a WebSocket Upgrade
    if h.req.upgrade then { h with moved := h.moved ++ [h.req] }
    -- Send the response
    else handleRequest env { call with req := h.req } asyncWrite h

/-- `http_session::on_write`. -/
def onWrite (h : HttpSession) (close : Bool) : Option ErrorCode → HttpSession
  | some ec => h.fail ec (ascii "write")
  | none =>
    if close then h.shutdownSend
    -- Clear contents of the request message, and read another request
    else { h with req := {} }.asyncRead

/-- What a read stores in `req_`: nothing if it fails. -/
def store (h : HttpSession) : Except ErrorCode Call → HttpSession
  | .error _ => h
  | .ok call => { h with req := call.req }

/-- The operation `op` has completed. -/
def finish (h : HttpSession) (op : HttpOp) : HttpSession := { h with ops := h.ops.erase op }

/-- Ghost: `res` is completely written if there was no error. -/
def record (h : HttpSession) (res : Response) : Option ErrorCode → HttpSession
  | some _ => h
  | none => { h with written := h.written ++ [res] }

end HttpSession

/-- A connection as an event-driven system. -/
def http (env : HttpEnv) : Sys HttpSession HttpEvent where
  init := HttpSession.run {}
  next h
    | .read outcome =>
      if h.ops.contains .read then some (((h.finish .read).store outcome).onRead env outcome)
      else none
    | .write res ec =>
      if h.ops.contains (.write res) then
        some (((h.finish (.write res)).record res ec).onWrite res.needEof ec)
      else none

/-! ## What the events say -/

/-- The plain request of an event. -/
def HttpEvent.call? : HttpEvent → Option Call
  | .read (.ok call) => if call.req.upgrade then none else some call
  | _ => none

/-- The response of a write that succeeded. -/
def HttpEvent.written? : HttpEvent → Option Response
  | .write res none => some res
  | _ => none

/-- The event is a successful write of a response that leaves the connection open. -/
def HttpEvent.goesOn : HttpEvent → Bool
  | .write res none => !res.needEof
  | _ => false

/-- The plain requests of a run, in the order of the reads. -/
def calls (es : List HttpEvent) : List Call := es.filterMap HttpEvent.call?

namespace HttpSession

/-! ## The phases of a connection -/

/-- What a connection is doing between two handlers. -/
inductive Phase where
  | reading | writing | moved | finished

/-- The session is in a phase: a read is outstanding and no write; a write and no read; nothing,
and the socket was moved to one `websocket_session`; nothing, and the socket was not moved. -/
def In (h : HttpSession) : Phase → Prop
  | .reading => h.ops = [.read] ∧ h.moved = []
  | .writing => (∃ res, h.ops = [.write res]) ∧ h.moved = []
  | .moved => h.ops = [] ∧ ∃ req, h.moved = [req]
  | .finished => h.ops = [] ∧ h.moved = []

variable {env : HttpEnv} {h h' : HttpSession} {es : List HttpEvent} {e : HttpEvent}

theorem In.unique {p q : Phase} (hp : h.In p) (hq : h.In q) : p = q := by
  cases p <;> cases q <;> first | rfl | simp_all [In]

/-- Nothing happens after the end. -/
theorem next_of_ops_nil (ho : h.ops = []) (e : HttpEvent) : (http env).next h e = none := by
  cases e <;> simp [http, ho]

/-! ## What one event does -/

/-- The events of a connection with one operation outstanding, and the state after each. -/
inductive Handled (env : HttpEnv) (h : HttpSession) : HttpEvent → HttpSession → Prop
  | readFailed {ec : ErrorCode} (shutdown : Bool) (log : List Bytes) (ops : h.ops = [.read]) :
      Handled env h (.read (.error ec)) { h with ops := [], shutdown, log }
  | upgraded {call : Call} (ops : h.ops = [.read]) (upgrade : call.req.upgrade = true) :
      Handled env h (.read (.ok call))
        { h with ops := [], req := call.req, moved := h.moved ++ [call.req] }
  | answered {call : Call} (ops : h.ops = [.read]) (upgrade : call.req.upgrade = false) :
      Handled env h (.read (.ok call))
        { h with ops := [.write (call.response env)], req := call.req,
                 sent := h.sent ++ [call.response env] }
  | writeFailed {res : Response} {ec : ErrorCode} (log : List Bytes) (ops : h.ops = [.write res]) :
      Handled env h (.write res (some ec)) { h with ops := [], log }
  | closed {res : Response} (ops : h.ops = [.write res]) (eof : res.needEof = true) :
      Handled env h (.write res none)
        { h with ops := [], shutdown := true, written := h.written ++ [res] }
  | wentOn {res : Response} (ops : h.ops = [.write res]) (eof : res.needEof = false) :
      Handled env h (.write res none)
        { h with ops := [.read], req := {}, started := h.started ++ [{}],
                 written := h.written ++ [res] }

/-- `fail` only prints. -/
theorem fail_eq (h : HttpSession) (ec : ErrorCode) (what : Bytes) :
    h.fail ec what = { h with log := (h.fail ec what).log } := by
  unfold fail
  split <;> rfl

theorem handled_read (ho : h.ops = [.read]) (outcome : Except ErrorCode Call) :
    Handled env h (.read outcome) (((h.finish .read).store outcome).onRead env outcome) := by
  have hf : h.finish .read = { h with ops := [] } := by simp [finish, ho]
  rw [hf]
  cases outcome with
  | error ec =>
    obtain ⟨kind, message⟩ := ec
    cases kind
    case endOfStream => exact .readFailed true h.log ho
    all_goals
      simp only [store, onRead]
      rw [fail_eq]
      exact .readFailed h.shutdown _ ho
  | ok call =>
    cases hu : call.req.upgrade with
    | true => simpa [store, onRead, hu] using Handled.upgraded ho hu
    | false =>
      simp only [store, onRead, hu, Bool.false_eq_true, if_false]
      rw [handleRequest_eq]
      exact .answered ho hu

theorem handled_write {res : Response} (ho : h.ops = [.write res]) (ec : Option ErrorCode) :
    Handled env h (.write res ec)
      (((h.finish (.write res)).record res ec).onWrite res.needEof ec) := by
  have hf : h.finish (.write res) = { h with ops := [] } := by simp [finish, ho]
  rw [hf]
  cases ec with
  | some ec =>
    simp only [record, onWrite]
    rw [fail_eq]
    exact .writeFailed _ ho
  | none =>
    cases he : res.needEof with
    | true => exact .closed ho he
    | false => exact .wentOn ho he

/-! ## The invariant -/

/-- What is outstanding, and what was sent and is not written yet. -/
inductive Stage (h : HttpSession) : Prop
  | reading (ops : h.ops = [.read]) (moved : h.moved = []) (sent : h.sent = h.written)
  | writing {res : Response} (ops : h.ops = [.write res]) (moved : h.moved = [])
      (sent : h.sent = h.written ++ [res])
  | moved {req : Request} (ops : h.ops = []) (moved : h.moved = [req])
      (sent : h.sent = h.written)
  | finished (ops : h.ops = []) (moved : h.moved = []) (sent : h.written <+: h.sent)

/-- The invariant of a connection after the events `es`. -/
structure Inv (env : HttpEnv) (es : List HttpEvent) (h : HttpSession) : Prop where
  stage : Stage h
  sent : h.sent = (calls es).map (Call.response env)
  written : h.written = es.filterMap HttpEvent.written?
  started : h.started = List.replicate (1 + es.countP HttpEvent.goesOn) {}

/-- **One event** of a connection with the invariant. -/
theorem Stage.handled (hs : Stage h) (hn : (http env).next h e = some h') :
    Handled env h e h' := by
  cases e with
  | read outcome =>
    simp only [http, Option.ite_none_right_eq_some, Option.some.injEq, List.contains_iff_mem] at hn
    obtain ⟨hm, rfl⟩ := hn
    cases hs with
    | reading ho => exact handled_read ho outcome
    | writing ho | moved ho | finished ho => simp [ho] at hm
  | write res ec =>
    simp only [http, Option.ite_none_right_eq_some, Option.some.injEq, List.contains_iff_mem] at hn
    obtain ⟨hm, rfl⟩ := hn
    cases hs with
    | writing ho =>
      obtain rfl : res = _ := by simpa [ho] using hm
      exact handled_write ho ec
    | reading ho | moved ho | finished ho => simp [ho] at hm

theorem calls_snoc (es : List HttpEvent) (e : HttpEvent) :
    calls (es ++ [e]) = calls es ++ e.call?.toList := by
  unfold calls
  rw [List.filterMap_append]
  cases hc : e.call? <;> simp [hc]

theorem Inv.nil (env : HttpEnv) : Inv env [] (http env).init where
  stage := .reading rfl rfl rfl
  sent := rfl
  written := rfl
  started := rfl

theorem Stage.of_reading (hs : Stage h) (ho : h.ops = [.read]) :
    h.moved = [] ∧ h.sent = h.written := by
  cases hs with
  | reading _ hm hw => exact ⟨hm, hw⟩
  | writing ho' | moved ho' | finished ho' => simp [ho] at ho'

theorem Stage.of_writing {res : Response} (hs : Stage h) (ho : h.ops = [.write res]) :
    h.moved = [] ∧ h.sent = h.written ++ [res] := by
  cases hs with
  | writing ho' hm hw =>
    obtain rfl : res = _ := by simpa [ho] using ho'
    exact ⟨hm, hw⟩
  | reading ho' | moved ho' | finished ho' => simp [ho] at ho'

theorem Stage.step (hs : Stage h) (hn : Handled env h e h') : Stage h' := by
  cases hn with
  | readFailed _ _ ho =>
    obtain ⟨hm, hw⟩ := hs.of_reading ho
    exact .finished rfl hm (hw ▸ List.prefix_refl _)
  | upgraded ho =>
    obtain ⟨hm, hw⟩ := hs.of_reading ho
    exact .moved rfl (congrArg (· ++ [_]) hm) hw
  | answered ho =>
    obtain ⟨hm, hw⟩ := hs.of_reading ho
    exact .writing rfl hm (congrArg (· ++ [_]) hw)
  | writeFailed _ ho =>
    obtain ⟨hm, hw⟩ := hs.of_writing ho
    exact .finished rfl hm (hw ▸ List.prefix_append _ _)
  | closed ho =>
    obtain ⟨hm, hw⟩ := hs.of_writing ho
    exact .finished rfl hm (hw ▸ List.prefix_refl _)
  | wentOn ho =>
    obtain ⟨hm, hw⟩ := hs.of_writing ho
    exact .reading rfl hm hw

theorem Stage.written_sent (hs : Stage h) : h.written <+: h.sent := by
  cases hs with
  | reading _ _ hw | moved _ _ hw => exact hw ▸ List.prefix_refl _
  | writing _ _ hw => exact hw ▸ List.prefix_append _ _
  | finished _ _ hw => exact hw

/-- **The invariant holds after every run.** -/
theorem inv_of_runs (hr : (http env).Runs es h) : Inv env es h := by
  refine Sys.Runs.induct (P := fun es h => Inv env es h) (Inv.nil env) ?_ hr
  intro es h e h' _ hi hn
  have hh := hi.stage.handled hn
  refine ⟨hi.stage.step hh, ?_, ?_, ?_⟩
  · rw [calls_snoc, List.map_append, ← hi.sent]
    cases hh <;> simp [HttpEvent.call?, *]
  · rw [List.filterMap_append, ← hi.written]
    cases hh <;> simp [HttpEvent.written?]
  · rw [List.countP_append, ← Nat.add_assoc, List.replicate_add, ← hi.started]
    cases hh <;> simp [HttpEvent.goesOn, *]

/-! ## The phases -/

theorem Stage.phase (hs : Stage h) : ∃! phase, h.In phase := by
  suffices hp : ∃ phase, h.In phase by
    obtain ⟨phase, hp⟩ := hp
    exact ⟨phase, hp, fun q hq => hq.unique hp⟩
  cases hs with
  | reading ho hm => exact ⟨.reading, ho, hm⟩
  | writing ho hm => exact ⟨.writing, ⟨_, ho⟩, hm⟩
  | moved ho hm => exact ⟨.moved, ho, _, hm⟩
  | finished ho hm => exact ⟨.finished, ho, hm⟩

/-- **The life cycle of a connection.** After every run the session is in exactly one phase, and
in the last two nothing can happen any more. `handle_request` calls `send` once on every path, so
the responses that were sent are those of the plain requests that were read, in their order.
`req_` was empty whenever a read was started. A write leads to another read if and only if it
succeeded and `need_eof()` was false; no other event does. -/
theorem connection (hr : (http env).Runs es h) :
    (∃! phase, h.In phase) ∧
    (h.In .moved ∨ h.In .finished → ∀ e, (http env).next h e = none) ∧
    (∀ (call : Call) {σ : Type} (send : Response → σ → σ) (s : σ),
      handleRequest env call send s = send (call.response env) s) ∧
    h.sent = (calls es).map (Call.response env) ∧
    (∀ req ∈ h.started, req = {}) ∧
    h.started.length = 1 + es.countP HttpEvent.goesOn ∧
    ∀ res ec h', (http env).next h (.write res ec) = some h' →
      (h'.In .reading ↔ ec = none ∧ res.needEof = false) ∧
      (¬h'.In .reading → h'.In .finished) := by
  have hi := inv_of_runs hr
  refine ⟨hi.stage.phase, ?_, fun call σ send s => handleRequest_eq env call send s, hi.sent,
    fun req hm => ?_, by rw [hi.started, List.length_replicate], fun res ec h' hn => ?_⟩
  · rintro (hp | hp) e
    · exact next_of_ops_nil hp.1 e
    · exact next_of_ops_nil hp.1 e
  · rw [hi.started] at hm
    exact List.eq_of_mem_replicate hm
  · have hh := hi.stage.handled hn
    cases hh with
    | writeFailed _ ho => simp [In, (hi.stage.of_writing ho).1]
    | closed ho he => simp [In, he, (hi.stage.of_writing ho).1]
    | wentOn ho he => simp [In, he, (hi.stage.of_writing ho).1]

end HttpSession

/-- A server without files. -/
def plainHttp : HttpEnv where
  docRoot := ascii "/srv"
  beastVersion := ascii "Boost.Beast/181"
  mint _ _ := ascii "\"a.b.c\""
  beastVersion_value := by decide

/-- A call of a server without files. -/
def Call.plain (req : Request) : Call where
  req := req
  files _ := .error .noSuchFile
  now₁ := 0
  now₂ := 0

/-- A client asks for a missing file and then upgrades. -/
def missing : List HttpEvent :=
  let call := Call.plain { method := .get, target := ascii "/a" }
  [.read (.ok call), .write (call.response plainHttp) none,
    .read (.ok (.plain { method := .get, target := ascii "/", upgrade := true }))]

theorem connection_missing : ∃ h, (http plainHttp).Runs missing h ∧
    (∃! phase, h.In phase) ∧ h.In .moved ∧ h.sent.length = 1 ∧ h.started = [{}, {}] := by
  have hr : (http plainHttp).Runs missing _ := rfl
  exact ⟨_, hr, (HttpSession.connection hr).1, ⟨rfl, _, rfl⟩, rfl, rfl⟩

end ChatServer
