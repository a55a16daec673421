import ChatServer.Session
import ChatServer.Lib.Sys
import Mathlib.Data.List.AList

/-!
# The server: `shared_state` and the handlers of the sessions

The state is the registry `sessions_` and the session objects. The server is single-threaded: an
event is the completion of one operation, and its handler runs to its end. A handler follows
pointers with `deref` and `update`, which fault on an object that does not exist or whose
destructor has begun.

`step` is one event: the completed operation leaves the object, its handler runs, and at the end
the handler releases its owner (`release`). The last owner destroys the object: the destructor
calls `disconnect`. Asio never runs a handler inside an initiating function, so nothing else
happens meanwhile.

What the code takes from elsewhere is in `Env`: `verify` is `jwt::decode` and `verify` of a token
at a clock reading (an exception carries its `what()`), and `draw seed i` is the `i`-th value of
`uniform_int_distribution<int>(0, 61)` on `mt19937_64` seeded with `seed`.

Ghost fields: `history` are the broadcasts in the order of the calls, each with the session whose
handler or destructor is on the stack; `views` are the registry and the objects at each moment
that `send` or `broadcast` looked up `sessions_`.
-/

namespace ChatServer

open Lib

/-- What the code takes from elsewhere (module doc). -/
structure Env where
  verify : Bytes → Nat → Except Bytes Unit
  draw : Nat → Nat → Fin 62

/-- `std::unordered_map<std::string, websocket_session *>`. -/
abbrev Registry := AList fun _ : Bytes => Ptr

/-- The registry and the objects at one moment, and the session on the stack. -/
structure View where
  sessions : Registry
  session : Ptr → Option WebsocketSession
  running : Option Ptr

/-- A call of `broadcast`: the session on the stack, and the message. -/
structure Broadcast where
  caller : Option Ptr
  message : Bytes
  deriving DecidableEq

/-- The state of the server (module doc). -/
structure Server where
  sessions : Registry := ∅
  session : Ptr → Option WebsocketSession := fun _ => none
  running : Option Ptr := none
  iterating : Bool := false
  history : List Broadcast := []
  views : List View := []

/-- The characters of a connection id. -/
def charset : Bytes := ascii "0123456789ABCDEFGHIJKLMNOPQRSTUVWXYZabcdefghijklmnopqrstuvwxyz"

/-- `websocket_session::generate_random_string`, at the clock reading `time` in seconds. -/
def generateRandomString (env : Env) (length time : Nat) : Bytes :=
  (List.range length).map fun i => charset.getD (env.draw time i) 0

/-- `"you connected as :" + connection_id`. -/
def greeting (id : Bytes) : Bytes := ascii "you connected as :" ++ id

/-- `"a client disconnected :" + connection_id`. -/
def notice (id : Bytes) : Bytes := ascii "a client disconnected :" ++ id

namespace Server

/-! ## Objects -/

/-- The server with `o` as the session at `s`. -/
def put (w : Server) (s : Ptr) (o : WebsocketSession) : Server :=
  { w with session := Function.update w.session s (some o) }

/-- The session at `s`; a fault if it does not exist or its destructor has begun. -/
def deref (w : Server) (s : Ptr) : Except Fault WebsocketSession :=
  match w.session s with
  | none => .error (.dangling s)
  | some o => if o.destroyed then .error (.dangling s) else .ok o

/-- A member function of the session at `s`. -/
def update (w : Server) (s : Ptr) (f : WebsocketSession → Except Fault WebsocketSession) :
    Except Fault Server := do
  let o ← w.deref s
  let o ← f o
  return w.put s o

/-! ## `shared_state` -/

/-- Ghost: `sessions_` is looked up here. -/
def look (w : Server) : Server :=
  { w with views := w.views ++ [⟨w.sessions, w.session, w.running⟩] }

/-- `shared_state::get`. -/
def get (w : Server) (id : Bytes) : Ptr :=
  match w.sessions.lookup id with
  | some session => session
  | none => nullptr

/-- `shared_state::send`. -/
def send (w : Server) (id message : Bytes) : Except Fault Server :=
  let w := w.look
  let session := w.get id
  if session ≠ nullptr then w.update session (·.send ⟨message, none⟩) else .ok w

/-- The range-for of `shared_state::broadcast`, over the entries that are left. -/
def broadcastLoop (ss : SharedString) : List (Sigma fun _ : Bytes => Ptr) → Server →
    Except Fault Server
  | [], w => .ok w
  | entry :: rest, w => do
    let w := w.look
    let w ← if entry.2 ≠ nullptr then w.update entry.2 (·.send ss) else .ok w
    broadcastLoop ss rest w

/-- `shared_state::broadcast`. -/
def broadcast (w : Server) (message : Bytes) : Except Fault Server := do
  let ss : SharedString := ⟨message, some w.history.length⟩
  let w := { w with history := w.history ++ [⟨w.running, message⟩], iterating := true }
  let w ← broadcastLoop ss w.sessions.entries w
  return { w with iterating := false }

/-- `shared_state::connect`. -/
def connect (w : Server) (id : Bytes) (session : Ptr) : Except Fault Server :=
  if w.iterating then .error .iteratorInvalidated
  else { w with sessions := w.sessions.insert id session }.send id (greeting id)

/-- `shared_state::disconnect`. -/
def disconnect (w : Server) (id : Bytes) : Except Fault Server :=
  if id ≠ [] then
    if w.iterating then .error .iteratorInvalidated
    else { w with sessions := w.sessions.erase id }.broadcast (notice id)
  else .ok w

/-! ## Handlers -/

/-- `websocket_session::on_accept`, at the clock reading `time`. -/
def onAccept (env : Env) (w : Server) (s : Ptr) (time : Nat) :
    Option ErrorCode → Except Fault Server
  | some ec => w.update s fun o => .ok (o.fail ec (ascii "accept"))
  | none => do
    let id := generateRandomString env 16 time
    let joined := w.history.length
    let w ← w.update s fun o => .ok { o with connectionId := id, joined := some joined }
    let w ← w.connect id s
    -- Read a message
    w.update s (·.initiate .read)

/-- `websocket_session::on_read`. -/
def onRead (w : Server) (s : Ptr) : Option ErrorCode → Except Fault Server
  | some ec => w.update s fun o => .ok (o.fail ec (ascii "read"))
  | none => do
    -- Send to all connections
    let o ← w.deref s
    let w ← w.broadcast o.buffer
    -- Clear the buffer
    let w ← w.update s fun o => .ok { o with buffer := [] }
    -- Read another message
    w.update s (·.initiate .read)

/-- `websocket_session::run`, at the clock reading `now`. -/
def run (env : Env) (w : Server) (s : Ptr) (req : Request) (now : Nat) : Except Fault Server :=
  match env.verify (extractToken req.target) now with
  | .ok () => w.update s fun o =>
      { o with log := o.log ++ [ascii "succeed!"] }.initiate .accept
  | .error what => w.update s fun o =>
      { o with log := o.log ++ [ascii "token error :" ++ what] }.closeWith401 req what

/-- The handler releases its owner; the last one destroys the session
(`websocket_session::~websocket_session`). -/
def release (w : Server) (s : Ptr) : Except Fault Server := do
  let o ← w.deref s
  let w := w.put s { o with useCount := o.useCount - 1, destroyed := o.useCount == 1 }
  let w ← if o.useCount == 1 then w.disconnect o.connectionId else .ok w
  return { w with running := none }

/-- The operation `op` of the session at `s` has completed: its handler runs. -/
def complete (w : Server) (s : Ptr) (op : Op) (handler : Server → Except Fault Server) :
    Except Fault Server := do
  let w ← w.update s fun o => .ok (o.finish op)
  let w ← handler { w with running := some s }
  w.release s

/-! ## Events -/

/-- What can happen. `upgrade`: an `http_session` hands its socket and an upgrade request over to
a new session. The others are completions; a read has put `bytes` into the buffer, of a text or a
binary message. -/
inductive Event where
  | upgrade (s : Ptr) (req : Request) (now : Nat)
  | accept (s : Ptr) (ec : Option ErrorCode) (time : Nat)
  | read (s : Ptr) (ec : Option ErrorCode) (text : Bool) (bytes : Bytes)
  | write (s : Ptr) (frame : Frame) (ec : Option ErrorCode)
  | close (s : Ptr) (ec : Option ErrorCode)
  | write401 (s : Ptr) (res : Response) (ec : Option ErrorCode)
  deriving DecidableEq

/-- The session of an event. -/
def Event.session : Event → Ptr
  | .upgrade s _ _ | .accept s _ _ | .read s _ _ _ | .write s _ _ | .close s _
  | .write401 s _ _ => s

/-- The session at `s` has the operation `op` outstanding. -/
def pending (w : Server) (s : Ptr) (op : Op) : Bool :=
  match w.session s with
  | none => false
  | some o => o.ops.contains op

/-- The events that can happen. -/
def enabled (w : Server) : Event → Bool
  | .upgrade s _ _ => s != nullptr && (w.session s).isNone
  | .accept s _ _ => w.pending s .accept
  | .read s _ _ _ => w.pending s .read
  | .write s frame _ => w.pending s (.write frame)
  | .close s _ => w.pending s .close
  | .write401 s res _ => w.pending s (.write401 res)

/-- The handler of an event. -/
def step (env : Env) (w : Server) : Event → Except Fault Server
  | .upgrade s req now => do
    -- std::make_shared<websocket_session>(std::move(socket_), state_)->run(std::move(req_))
    let w := { w.put s { useCount := 1 } with running := some s }
    let w ← w.run env s req now
    w.release s
  | .accept s ec time => w.complete s .accept fun w => w.onAccept env s time ec
  | .read s ec text bytes => w.complete s .read fun w => do
    let w ← w.update s fun o => .ok
      { o with buffer := o.buffer ++ bytes, ws := { o.ws with gotText := text } }
    w.onRead s ec
  | .write s frame ec => w.complete s (.write frame) fun w => w.update s (·.onWrite ec)
  | .close s ec => w.complete s .close fun w => w.update s fun o => .ok (o.onClose ec)
  | .write401 s res ec => w.complete s (.write401 res) fun w =>
      w.update s fun o => .ok (o.onWrite401 ec)

end Server

/-- The server as an event-driven system. -/
def server (env : Env) : Sys Server Server.Event where
  init := {}
  next w e := if w.enabled e then (w.step env e).toOption else none

end ChatServer
