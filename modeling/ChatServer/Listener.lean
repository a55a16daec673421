import ChatServer.Http.Session
import ChatServer.Lib.Pool

/-!
# `listener`

The listener from its constructor on. `run` starts an `async_accept`, whose handler launches an
`http_session` for the new connection and accepts another one. An event is the completion of an
`async_accept`, or an event of a session that was launched.

Ghost fields: `accepted` are the sockets of the connections that were accepted, and `log` is what
the object printed.

* `Listener.Inv`: the invariant, with the events so far.
* `Listener.simulates`: the sessions of a listener are a pool of `http_session`s, so each has a run
  of its own (`Listener.session_runs`).
* `keepsListening`: the listener listens as long as no `async_accept` fails. `Listener.deaf`: after
  that it accepts nothing any more.
-/

namespace ChatServer

open Lib

/-- A connected socket. -/
abbrev Socket := Nat

/-- An `http_session` object, and the socket that was moved into it. -/
structure Launched where
  socket : Option Socket
  session : HttpSession

/-- A `listener` object (module doc). `accepting` is the number of its `async_accept`s that have
not completed, and `socket` the connection that `socket_` holds. -/
structure Listener where
  accepting : Nat := 0
  socket : Option Socket := none
  sessions : List Launched := []
  accepted : List Socket := []
  log : List Bytes := []

/-- What the calls on `acceptor_` in the constructor give. -/
structure Setup where
  openEc : Option ErrorCode
  setOptionEc : Option ErrorCode
  bindEc : Option ErrorCode
  listenEc : Option ErrorCode

/-- What can happen: an `async_accept` gives an error or a connection, or the `i`-th session that
was launched has an event. -/
inductive ListenerEvent where
  | accept (outcome : Except ErrorCode Socket)
  | http (i : Nat) (e : HttpEvent)

namespace Listener

/-- `listener::fail`. -/
def fail (l : Listener) (ec : ErrorCode) (what : Bytes) : Listener :=
  -- Don't report on canceled operations
  if ec.kind = .operationAborted then l
  else { l with log := l.log ++ [what ++ ascii ": " ++ ec.message] }

/-- `listener::listener`. An exception of `set_option` leaves it: this call has no `ec`, and the
check behind it reads the one of `open`. -/
def new (calls : Setup) : Except ErrorCode Listener :=
  let l : Listener := {}
  match calls.openEc with
  | some ec => .ok (l.fail ec (ascii "open"))
  | none =>
    match calls.setOptionEc with
    | some ec => .error ec
    | none =>
      match calls.bindEc with
      | some ec => .ok (l.fail ec (ascii "bind"))
      | none =>
        match calls.listenEc with
        | some ec => .ok (l.fail ec (ascii "listen"))
        | none => .ok l

/-- `acceptor_.async_accept(socket_, ...)`. -/
def asyncAccept (l : Listener) : Listener := { l with accepting := l.accepting + 1 }

/-- `listener::run`. -/
def run (l : Listener) : Listener := l.asyncAccept

/-- `std::make_shared<http_session>(std::move(socket_), state_)->run()`. -/
def launch (l : Listener) : Listener :=
  { l with sessions := l.sessions ++ [⟨l.socket, HttpSession.run {}⟩], socket := none }

/-- `listener::on_accept`. -/
def onAccept (l : Listener) : Option ErrorCode → Listener
  | some ec => l.fail ec (ascii "accept")
  -- Launch a new session for this connection, and accept another one
  | none => l.launch.asyncAccept

/-- An `async_accept` has completed, and `socket_` holds the connection if there was no error. -/
def complete (l : Listener) : Except ErrorCode Socket → Listener
  | .error _ => { l with accepting := l.accepting - 1 }
  | .ok socket =>
    { l with accepting := l.accepting - 1, socket := some socket,
             accepted := l.accepted ++ [socket] }

end Listener

/-- The error of a completion. -/
def errorOf : Except ErrorCode Socket → Option ErrorCode
  | .error ec => some ec
  | .ok _ => none

/-- A listener that was constructed as `l`, after `run`, as an event-driven system. -/
def listener (env : HttpEnv) (l : Listener) : Sys Listener ListenerEvent where
  init := l.run
  next l
    | .accept outcome =>
      if 0 < l.accepting then some ((l.complete outcome).onAccept (errorOf outcome)) else none
    | .http i e => do
      let launched ← l.sessions[i]?
      let session ← (http env).next launched.session e
      return { l with sessions := l.sessions.set i { launched with session } }

/-- One `async_accept` is outstanding, and every socket that was accepted was moved into a session
of its own, on which `run` was called. -/
structure Listening (env : HttpEnv) (l : Listener) : Prop where
  accepting : l.accepting = 1
  handed : l.sessions.map Launched.socket = l.accepted.map some
  ran : ∀ launched ∈ l.sessions, (http env).Reach launched.session

/-! ## What the events say -/

/-- The event is an `async_accept` that failed. -/
def ListenerEvent.failed : ListenerEvent → Bool
  | .accept (.error _) => true
  | _ => false

/-- The socket of an `async_accept` that succeeded. -/
def ListenerEvent.accepted? : ListenerEvent → Option Socket
  | .accept (.ok socket) => some socket
  | _ => none

/-- What the event is for the sessions. -/
def ListenerEvent.pool? : ListenerEvent → Option (PoolEvent HttpEvent)
  | .accept (.ok _) => some .launch
  | .accept (.error _) => none
  | .http i e => some (.step i e)

theorem any_failed_iff {es : List ListenerEvent} :
    es.any ListenerEvent.failed = true ↔ ∃ ec, .accept (.error ec) ∈ es := by
  rw [List.any_eq_true]
  constructor
  · rintro ⟨e, hm, he⟩
    match e with
    | .accept (.error ec) => exact ⟨ec, hm⟩
  · rintro ⟨ec, hm⟩
    exact ⟨_, hm, rfl⟩

namespace Listener

variable {env : HttpEnv} {l₀ l l' : Listener} {es : List ListenerEvent} {e : ListenerEvent}

/-! ## The constructor -/

/-- `fail` only prints. -/
theorem fail_eq (l : Listener) (ec : ErrorCode) (what : Bytes) :
    l.fail ec what = { l with log := (l.fail ec what).log } := by
  unfold fail
  split <;> rfl

/-- A new listener has started nothing. This includes those whose constructor gave up. -/
theorem new_eq {calls : Setup} (h : new calls = .ok l) : l = { log := l.log } := by
  obtain ⟨openEc, setOptionEc, bindEc, listenEc⟩ := calls
  cases openEc <;> cases setOptionEc <;> cases bindEc <;> cases listenEc <;>
    cases h <;> first | rfl | exact fail_eq _ _ _

/-! ## What one event does -/

/-- The events of a listener, and the state after each. -/
inductive Handled (env : HttpEnv) (l : Listener) : ListenerEvent → Listener → Prop
  | launched (socket : Socket) (accepting : 0 < l.accepting) :
      Handled env l (.accept (.ok socket))
        { l with sessions := l.sessions ++ [⟨some socket, HttpSession.run {}⟩], socket := none,
                 accepted := l.accepted ++ [socket] }
  | stopped (ec : ErrorCode) (log : List Bytes) (accepting : 0 < l.accepting) :
      Handled env l (.accept (.error ec)) { l with accepting := l.accepting - 1, log }
  | session {i : Nat} {e : HttpEvent} {launched : Launched} {session : HttpSession}
      (found : l.sessions[i]? = some launched)
      (next : (http env).next launched.session e = some session) :
      Handled env l (.http i e)
        { l with sessions := l.sessions.set i { launched with session } }

theorem handled (hn : (listener env l₀).next l e = some l') : Handled env l e l' := by
  cases e with
  | accept outcome =>
    simp only [listener, Option.ite_none_right_eq_some, Option.some.injEq] at hn
    obtain ⟨hpos, rfl⟩ := hn
    cases outcome with
    | error ec =>
      simp only [complete, errorOf, onAccept]
      rw [fail_eq]
      exact .stopped ec _ hpos
    | ok socket =>
      have hsub : l.accepting - 1 + 1 = l.accepting := Nat.sub_add_cancel hpos
      simp only [complete, errorOf, onAccept, launch, asyncAccept, hsub]
      exact .launched socket hpos
  | http i e =>
    simp only [listener, Option.bind_eq_bind, Option.bind_eq_some_iff, Option.pure_def,
      Option.some.injEq] at hn
    obtain ⟨launched, hf, session, hs, rfl⟩ := hn
    exact .session hf hs

/-! ## The invariant -/

/-- The invariant of a listener after the events `es`. -/
structure Inv (es : List ListenerEvent) (l : Listener) : Prop where
  accepting : l.accepting = if es.any ListenerEvent.failed then 0 else 1
  socket : l.socket = none
  accepted : l.accepted = es.filterMap ListenerEvent.accepted?
  handed : l.sessions.map Launched.socket = l.accepted.map some

theorem Inv.nil {calls : Setup} (h : new calls = .ok l) : Inv [] l.run := by
  rw [new_eq h]
  exact ⟨rfl, rfl, rfl, rfl⟩

/-- Only a listener without a failure so far has something to complete. -/
theorem Inv.none_failed (hi : Inv es l) (hpos : 0 < l.accepting) :
    es.any ListenerEvent.failed = false := by
  rw [hi.accepting] at hpos
  cases hf : es.any ListenerEvent.failed with
  | false => rfl
  | true => simp [hf] at hpos

theorem Inv.step (hi : Inv es l) (hh : Handled env l e l') : Inv (es ++ [e]) l' := by
  cases hh with
  | launched socket hpos =>
    refine ⟨?_, rfl, ?_, ?_⟩
    · simpa [ListenerEvent.failed] using hi.accepting
    · rw [List.filterMap_append, ← hi.accepted]
      rfl
    · simp [hi.handed]
  | stopped ec log hpos =>
    have hone : l.accepting = 1 := by rw [hi.accepting, hi.none_failed hpos]; rfl
    refine ⟨?_, hi.socket, ?_, hi.handed⟩
    · simp [hone, ListenerEvent.failed]
    · rw [List.filterMap_append, ← hi.accepted]
      simp [ListenerEvent.accepted?]
  | session hf =>
    refine ⟨?_, hi.socket, ?_, ?_⟩
    · simpa [ListenerEvent.failed] using hi.accepting
    · rw [List.filterMap_append, ← hi.accepted]
      simp [ListenerEvent.accepted?]
    · rw [← hi.handed]
      exact map_set_of_eq hf rfl

/-- **The invariant holds after every run.** -/
theorem inv_of_runs {calls : Setup} (hl : new calls = .ok l₀) (hr : (listener env l₀).Runs es l) :
    Inv es l :=
  Sys.Runs.induct (P := Inv) (Inv.nil hl) (fun _ _ _ _ _ hi hn => hi.step (handled hn)) hr

/-- **A failed `async_accept` is the last one**: no other can complete after it. -/
theorem deaf {calls : Setup} {ec : ErrorCode} (hl : new calls = .ok l₀)
    (hr : (listener env l₀).Runs es l) (hm : .accept (.error ec) ∈ es)
    (outcome : Except ErrorCode Socket) :
    (listener env l₀).next l (.accept outcome) = none := by
  have hz : l.accepting = 0 := by
    rw [(inv_of_runs hl hr).accepting, if_pos (any_failed_iff.mpr ⟨ec, hm⟩)]
  simp [listener, hz]

/-! ## The sessions -/

/-- The sessions of a listener are a pool of `http_session`s: an accepted connection starts one. -/
theorem simulates {calls : Setup} (hl : new calls = .ok l₀) :
    Sys.Simulates (listener env l₀) (pool (http env)) (fun _ _ _ => True)
      (fun _ e _ => e.pool?.toList) (fun l cs => cs = l.sessions.map Launched.session) where
  init := by rw [new_eq hl]; rfl
  step := by
    rintro l e l' _ - rfl hn -
    refine ⟨_, ?_, rfl⟩
    cases handled hn with
    | launched socket =>
      simp [ListenerEvent.pool?, pool, http]
    | stopped => rfl
    | session hf hs =>
      simp [ListenerEvent.pool?, pool, hf, hs, List.map_set]

/-- **Each session has a run of its own**, which is made of its own events. -/
theorem session_runs {calls : Setup} {i : Nat} {launched : Launched} (hl : new calls = .ok l₀)
    (hr : (listener env l₀).Runs es l) (hf : l.sessions[i]? = some launched) :
    (http env).Runs (ownEvents i (es.filterMap ListenerEvent.pool?)) launched.session := by
  obtain ⟨cs, hp, rfl⟩ := (simulates hl).run hr fun _ _ _ _ _ _ _ => trivial
  rw [Sys.labels_filterMap _ hr] at hp
  exact pool_runs hp (by rw [List.getElem?_map, hf]; rfl)

/-- The listener listens in the states without a failure so far. -/
theorem listening_iff {calls : Setup} (hl : new calls = .ok l₀)
    (hr : (listener env l₀).Runs es l) :
    Listening env l ↔ ∀ ec, .accept (.error ec) ∉ es := by
  have hi := inv_of_runs hl hr
  have hran : ∀ launched ∈ l.sessions, (http env).Reach launched.session := by
    intro launched hm
    obtain ⟨i, hf⟩ := List.getElem?_of_mem hm
    exact (session_runs hl hr hf).reach
  rw [← not_exists, ← any_failed_iff, Bool.not_eq_true]
  constructor
  · intro h
    exact hi.none_failed (h.accepting ▸ Nat.one_pos)
  · intro h
    exact ⟨by rw [hi.accepting, h]; rfl, hi.handed, hran⟩

end Listener

/-- **The listener keeps listening** through a run, whatever its constructor found, if and only if
no `async_accept` of the run fails. -/
theorem keepsListening {env : HttpEnv} {calls : Setup} {l₀ l : Listener}
    {es : List ListenerEvent} (hl : Listener.new calls = .ok l₀)
    (hr : (listener env l₀).Runs es l) :
    (listener env l₀).Along (Listening env) es ↔ ∀ ec, .accept (.error ec) ∉ es := by
  constructor
  · intro h
    exact (Listener.listening_iff hl hr).mp (h.last hr)
  · intro h es₁ hp l₁ hr₁
    exact (Listener.listening_iff hl hr₁).mpr fun ec hm => h ec (hp.subset hm)

/-- A constructor without errors. -/
def Setup.clean : Setup := ⟨none, none, none, none⟩

/-- Two connections, and a request on the second one. -/
def twoClients : List ListenerEvent :=
  [.accept (.ok 7), .accept (.ok 8), .http 1 (.read (.ok (.plain { method := .get })))]

theorem keepsListening_twoClients : (∀ ec, .accept (.error ec) ∉ twoClients) ∧
    (listener plainHttp {}).Along (Listening plainHttp) twoClients := by
  have hno : ∀ ec, .accept (.error ec) ∉ twoClients := by simp [twoClients]
  have hl : Listener.new .clean = .ok {} := rfl
  have hr : (listener plainHttp {}).Runs twoClients _ := rfl
  exact ⟨hno, (keepsListening hl hr).mpr hno⟩

/-- The process runs out of file descriptors for a moment. -/
def emfile : ErrorCode := ⟨.other, ascii "Too many open files"⟩

/-- No connection is accepted after that. -/
theorem keepsListening_emfile : ¬ ∀ (env : HttpEnv) (calls : Setup) (l₀ l : Listener)
    (es : List ListenerEvent), Listener.new calls = .ok l₀ → (listener env l₀).Runs es l →
    (∀ ec, .accept (.error ec) ∈ es → ec.kind ≠ .operationAborted) → Listening env l := by
  intro h
  have hr : (listener plainHttp {}).Runs [.accept (.error emfile)] _ := rfl
  have hkind : ∀ ec, ListenerEvent.accept (.error ec) ∈ [.accept (.error emfile)] →
      ec.kind ≠ .operationAborted := by
    simp [emfile]
  have hl := h plainHttp .clean {} _ _ rfl hr hkind
  exact absurd hl.accepting (by decide)

end ChatServer
