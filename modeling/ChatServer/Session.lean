import ChatServer.Url

/-!
# `websocket_session`

One session object and the member functions that only touch the object: the operations it starts
on its stream, the write queue (`send`, `onWrite`), the error reports (`fail`) and the rejection
of a bad token (`closeWith401`). The functions that reach the registry are in
`ChatServer/Server.lean`.

A session is owned by `std::shared_ptr`s. `useCount` is the count of owners in the control block.
An operation of the stream that has not completed is an `Op` of `ops`; its handler holds one
owner, which `initiate` makes with `sharedFromThis`. Undefined behaviour and the exceptions of
the lifetime protocol are `Fault`s.

Some fields are ghost: the code never reads them. `sent` are the messages passed to `send`,
`started` the frames handed to `async_write`, `written` the messages completely written,
`writeFailed` tells that a write failed, `joined` is the number of broadcasts before the session
was registered, and `log` is what the object printed.
-/

namespace ChatServer

open Lib

/-- The address of a session object. -/
abbrev Ptr := Nat

/-- `nullptr`. -/
def nullptr : Ptr := 0

/-- An error of an asynchronous operation. -/
inductive ErrorKind where
  | operationAborted | closed | endOfStream | other
  deriving DecidableEq

/-- A non-zero `error_code`. -/
structure ErrorCode where
  kind : ErrorKind
  message : Bytes
  deriving DecidableEq

/-- What goes wrong when an object is used after its end, or without an owner. -/
inductive Fault where
  /-- A pointer to an object that does not exist or whose destructor has begun is followed. -/
  | dangling (s : Ptr)
  /-- `shared_from_this` of an object without owners. -/
  | badWeakPtr
  /-- `sessions_` is modified while a range-for iterates over it. -/
  | iteratorInvalidated
  /-- `front` or `erase(begin())` of an empty queue. -/
  | emptyQueue
  deriving DecidableEq

/-- A `std::string const` made by `std::make_shared`. Ghost: the number of the broadcast that made
it, `none` if `shared_state::send` did. -/
structure SharedString where
  str : Bytes
  number : Option Nat
  deriving DecidableEq

/-- A message handed to `async_write`, with the mode of the stream at that moment. -/
structure Frame where
  text : Bool
  payload : SharedString
  deriving DecidableEq

/-- An operation of the stream that has not completed. -/
inductive Op where
  | accept
  | read
  | write (frame : Frame)
  | close
  | write401 (res : Response)
  deriving DecidableEq

/-- The frame that an operation writes. -/
def Op.frame? : Op → Option Frame
  | .write frame => some frame
  | _ => none

/-- `websocket::stream`: the mode of the messages it sends, and the kind of the last message it
received. -/
structure Stream where
  text : Bool := true
  gotText : Bool := true
  deriving DecidableEq

/-- A `websocket_session` object (module doc). -/
structure WebsocketSession where
  buffer : Bytes := []
  ws : Stream := {}
  queue : List SharedString := []
  connectionId : Bytes := []
  useCount : Nat := 0
  destroyed : Bool := false
  ops : List Op := []
  sent : List SharedString := []
  started : List Frame := []
  written : List SharedString := []
  writeFailed : Bool := false
  joined : Option Nat := none
  log : List Bytes := []

namespace WebsocketSession

/-- What `websocket_session::fail` prints. -/
def report (ec : ErrorCode) (what : Bytes) : List Bytes :=
  if ec.kind = .operationAborted ∨ ec.kind = .closed then []
  else [what ++ ascii ": " ++ ec.message]

/-- `websocket_session::fail`. -/
def fail (o : WebsocketSession) (ec : ErrorCode) (what : Bytes) : WebsocketSession :=
  { o with log := o.log ++ report ec what }

/-- `shared_from_this()`: one more owner. -/
def sharedFromThis (o : WebsocketSession) : Except Fault WebsocketSession :=
  if o.useCount = 0 then .error .badWeakPtr else .ok { o with useCount := o.useCount + 1 }

/-- An initiating function of the stream: the handler holds an owner. -/
def initiate (o : WebsocketSession) (op : Op) : Except Fault WebsocketSession := do
  let o ← o.sharedFromThis
  return { o with ops := op :: o.ops }

/-- The operation `op` has completed. Its handler, which still holds its owner, runs next. -/
def finish (o : WebsocketSession) (op : Op) : WebsocketSession := { o with ops := o.ops.erase op }

/-- `ws_.async_write(net::buffer(*queue_.front()), ...)`. -/
def asyncWrite (o : WebsocketSession) : Except Fault WebsocketSession :=
  match o.queue with
  | [] => .error .emptyQueue
  | front :: _ => do
    let frame : Frame := { text := o.ws.text, payload := front }
    let o ← o.initiate (.write frame)
    return { o with started := o.started ++ [frame] }

/-- `websocket_session::send`. -/
def send (o : WebsocketSession) (ss : SharedString) : Except Fault WebsocketSession :=
  -- Always add to queue
  let o := { o with queue := o.queue ++ [ss], sent := o.sent ++ [ss] }
  -- Are we already writing?
  if o.queue.length > 1 then .ok o else o.asyncWrite

/-- `websocket_session::on_write`. -/
def onWrite (o : WebsocketSession) : Option ErrorCode → Except Fault WebsocketSession
  | some ec => .ok { o.fail ec (ascii "write") with writeFailed := true }
  | none =>
    match o.queue with
    | [] => .error .emptyQueue
    | front :: rest =>
      let o := { o with queue := rest, written := o.written ++ [front] }
      if o.queue ≠ [] then o.asyncWrite else .ok o

/-- `websocket_session::on_close`. -/
def onClose (o : WebsocketSession) : Option ErrorCode → WebsocketSession
  | some ec => o.fail ec (ascii "close")
  | none => o

/-- `websocket_session::on_write_401`. The shutdown of the socket starts no operation. -/
def onWrite401 (o : WebsocketSession) : Option ErrorCode → WebsocketSession
  | some ec => o.fail ec (ascii "write")
  | none => o

/-- The response of `close_with_401`. -/
def response401 (req : Request) (errorMessage : Bytes) : Response :=
  { status := .unauthorized, version := req.version, server := ascii "ir-websocket-server",
    contentType := ascii "application/json",
    body := .string (ascii "Unauthorized: " ++ errorMessage) : Response }.preparePayload

/-- `websocket_session::close_with_401`. -/
def closeWith401 (o : WebsocketSession) (req : Request) (errorMessage : Bytes) :
    Except Fault WebsocketSession := do
  let o ← o.initiate .close
  o.initiate (.write401 (response401 req errorMessage))

/-- The outstanding writes of messages. -/
def writes (o : WebsocketSession) : List Frame := o.ops.filterMap Op.frame?

end WebsocketSession

end ChatServer
