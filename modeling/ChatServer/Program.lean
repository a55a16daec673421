import ChatServer.Listener
import ChatServer.Quiescence
import ChatServer.Lib.Couple

/-!
# The program: the listener, the connections and the chat server

`main` runs the listener with its connections and the WebSocket sessions on one `io_context` and one
thread. They meet in one place: the handler of a read that gave an upgrade request makes a
`websocket_session` of the socket and calls `run` on it, before it returns.

* `upgrades`: which events happen alone and which together. `program`: the whole as one system.
* `Owned`: the invariant. `socketOwnership`: each socket that was accepted has one owner.
* `provenance`: what is broadcast comes from a connection that presented a verified token.
-/

namespace ChatServer

open Lib

/-- The upgrade request that an event reads, and its connection. -/
def ListenerEvent.upgrade? : ListenerEvent → Option (Nat × Request)
  | .http i (.read (.ok call)) => if call.req.upgrade then some (i, call.req) else none
  | _ => none

/-- A read of an upgrade request is `websocket_session::run` on a new session with this request.
Everything else happens alone. -/
def upgrades : Coupling ListenerEvent Server.Event where
  left e := e.upgrade?.isNone
  right d := d.opened?.isNone
  both e d :=
    match e.upgrade?, d with
    | some (_, req), .upgrade _ req' _ => req = req'
    | _, _ => false

/-- The program, from `run` of the listener that was constructed as `l`. -/
def program (henv : HttpEnv) (env : Env) (l : Listener) :
    Sys (Listener × Server) (Joint ListenerEvent Server.Event) :=
  upgrades.sys (listener henv l) (server env)

/-- A connection whose socket was moved to a WebSocket session, with the request and the clock. -/
structure Handover where
  connection : Nat
  session : Ptr
  req : Request
  now : Nat

/-- The handover of an event. -/
def handover? : Joint ListenerEvent Server.Event → Option Handover
  | .both e (.upgrade s req now) => e.upgrade?.map fun u => ⟨u.1, s, req, now⟩
  | _ => none

/-- The handovers of a run. -/
def handovers (xs : List (Joint ListenerEvent Server.Event)) : List Handover :=
  xs.filterMap handover?

/-- The socket that an event accepts. -/
def socket? (x : Joint ListenerEvent Server.Event) : Option Socket :=
  x.left?.bind ListenerEvent.accepted?

namespace Program

variable {henv : HttpEnv} {env : Env} {calls : Setup} {l₀ l l' : Listener} {w w' : Server}
  {st st' : Listener × Server} {xs : List (Joint ListenerEvent Server.Event)}
  {x : Joint ListenerEvent Server.Event}

/-! ## The events -/

theorem upgrade?_eq_some {e : ListenerEvent} {i : Nat} {req : Request}
    (h : e.upgrade? = some (i, req)) :
    ∃ call, e = .http i (.read (.ok call)) ∧ call.req = req ∧ req.upgrade = true := by
  unfold ListenerEvent.upgrade? at h
  split at h
  · split at h
    · cases h
      exact ⟨_, rfl, rfl, ‹_›⟩
    · cases h
  · cases h

/-- An event that touches both is the handover of a connection. -/
theorem both_eq {e : ListenerEvent} {d : Server.Event} (h : upgrades.both e d = true) :
    ∃ i s call now, call.req.upgrade = true ∧ e = .http i (.read (.ok call)) ∧
      d = .upgrade s call.req now ∧ handover? (.both e d) = some ⟨i, s, call.req, now⟩ := by
  cases hu : e.upgrade? with
  | none => simp [upgrades, hu] at h
  | some u =>
    obtain ⟨i, req⟩ := u
    obtain ⟨call, rfl, rfl, hup⟩ := upgrade?_eq_some hu
    cases d with
    | upgrade s req' now =>
      obtain rfl : call.req = req' := by simpa [upgrades, hu] using h
      exact ⟨i, s, call, now, hup, rfl, rfl, by simp [handover?, hu]⟩
    | _ => simp [upgrades, hu] at h

theorem handover?_eq_some {h : Handover} (hx : handover? x = some h) :
    ∃ e, x = .both e (.upgrade h.session h.req h.now) := by
  unfold handover? at hx
  split at hx
  · obtain ⟨u, -, rfl⟩ := Option.map_eq_some_iff.mp hx
    exact ⟨_, rfl⟩
  · cases hx

theorem accepted_sockets (xs : List (Joint ListenerEvent Server.Event)) :
    (xs.filterMap Joint.left?).filterMap ListenerEvent.accepted? = xs.filterMap socket? :=
  List.filterMap_filterMap

/-! ## The parts of a state -/

/-- The listener after a run of the program. -/
theorem listener_inv (hl : Listener.new calls = .ok l₀) (hr : (program henv env l₀).Runs xs st) :
    Listener.Inv (xs.filterMap Joint.left?) st.1 :=
  Listener.inv_of_runs hl (Coupling.runs_left hr)

/-- A connection after a run of the program. -/
theorem stage (hl : Listener.new calls = .ok l₀) (hr : (program henv env l₀).Runs xs st) {i : Nat}
    {launched : Launched} (hf : st.1.sessions[i]? = some launched) :
    HttpSession.Stage launched.session :=
  (HttpSession.inv_of_runs (Listener.session_runs hl (Coupling.runs_left hr) hf)).stage

theorem server_inv (hr : (program henv env l₀).Runs xs st) : st.2.Inv :=
  Server.reach_inv (Coupling.runs_right hr).reach

/-- A session exists after a step if it did before, or if the step opens it. -/
theorem isSome_iff {d : Server.Event} (hw : w.Inv) (hn : (server env).next w d = some w')
    (p : Ptr) : (w'.session p).isSome ↔ (w.session p).isSome ∨ d.opened? = some p := by
  have ht := hw.step_turn hn
  have hledger (w : Server) : (w.ledger p).isSome = (w.session p).isSome := by
    unfold Server.ledger; exact Option.isSome_map
  rw [← hledger w, ← hledger w']
  constructor
  · intro h
    obtain ⟨y, hy⟩ := Option.isSome_iff_exists.mp h
    obtain ⟨-, -, req, now, rfl⟩ | ⟨hx, -⟩ | ⟨x, hg⟩ := ht.before hy
    · exact .inr rfl
    · exact .inl (by rw [hx]; rfl)
    · exact .inl (by rw [hg.was]; rfl)
  · rintro (h | h)
    · exact ht.isSome h
    · cases ht with
      | opened fresh sessions history ledger =>
        cases h
        rw [ledger, Function.update_self]
        rfl
      | joined was sessions history ledger => cases h
      | said was live sessions history ledger => cases h
      | left quiet was live sessions history ledger =>
        cases (Server.opened?_quiet quiet).symm.trans h
      | dropped quiet was sessions history ledger =>
        cases (Server.opened?_quiet quiet).symm.trans h
      | stays quiet sessions history ledger =>
        cases (Server.opened?_quiet quiet).symm.trans h

/-! ## Who owns a socket -/

/-- The invariant: the handovers, the connections that were moved and the sessions that exist are
the same. -/
structure Owned (hs : List Handover) (st : Listener × Server) : Prop where
  connections : (hs.map Handover.connection).Nodup
  sessions : (hs.map Handover.session).Nodup
  moved : ∀ h ∈ hs, ∃ launched, st.1.sessions[h.connection]? = some launched ∧
    launched.session.ops = [] ∧ launched.session.moved = [h.req]
  handed : ∀ i launched, st.1.sessions[i]? = some launched → launched.session.moved ≠ [] →
    ∃ h ∈ hs, h.connection = i
  exist : ∀ s, (st.2.session s).isSome ↔ ∃ h ∈ hs, h.session = s

/-- A moved connection has no event any more. -/
theorem Owned.next_ne {hs : List Handover} (ho : Owned hs st) {h : Handover} (hm : h ∈ hs) {i : Nat}
    {e : HttpEvent} {launched : Launched} {session : HttpSession}
    (hf : st.1.sessions[i]? = some launched)
    (hn : (http henv).next launched.session e = some session) : h.connection ≠ i := by
  rintro rfl
  obtain ⟨launched', hf', hops, -⟩ := ho.moved h hm
  obtain rfl := Option.some.inj (hf.symm.trans hf')
  rw [HttpSession.next_of_ops_nil hops] at hn
  cases hn

/-- An event of the listener and its connections that hands nothing over. -/
theorem Owned.left {hs : List Handover} (ho : Owned hs st) {e : ListenerEvent}
    (hup : e.upgrade? = none) (hn : (listener henv l₀).next st.1 e = some l')
    (hstage : ∀ (i : Nat) (launched : Launched), st.1.sessions[i]? = some launched →
      HttpSession.Stage launched.session) : Owned hs (l', st.2) := by
  refine ⟨ho.connections, ho.sessions, ?_, ?_, ho.exist⟩
  · intro h hm
    obtain ⟨launched, hf, hrest⟩ := ho.moved h hm
    refine ⟨launched, ?_, hrest⟩
    cases Listener.handled hn with
    | launched socket =>
      exact List.getElem?_append_left (List.getElem?_eq_some_iff.mp hf).1 |>.trans hf
    | stopped => exact hf
    | session hf' hs => exact (List.getElem?_set_ne (ho.next_ne hm hf' hs).symm).trans hf
  · intro i launched hf hmoved
    cases Listener.handled hn with
    | launched socket =>
      rcases Nat.lt_or_ge i st.1.sessions.length with hlt | hge
      · exact ho.handed i launched ((List.getElem?_append_left hlt).symm.trans hf) hmoved
      · -- The new connection has not been moved.
        have hnew : launched ∈ [(⟨some socket, HttpSession.run {}⟩ : Launched)] := by
          rw [List.getElem?_append_right hge] at hf
          exact List.mem_of_getElem? hf
        rw [List.mem_singleton.mp hnew] at hmoved
        exact absurd rfl hmoved
    | stopped => exact ho.handed i launched hf hmoved
    | @session j e launched' session hf' hs =>
      by_cases hij : j = i
      · subst hij
        rw [List.getElem?_set_self (List.getElem?_eq_some_iff.mp hf').1] at hf
        cases hf
        refine ho.handed j launched' hf' fun hnil => hmoved ?_
        cases (hstage j launched' hf').handled hs with
        | upgraded hops hreq => simp [ListenerEvent.upgrade?, hreq] at hup
        | readFailed | answered | writeFailed | closed | wentOn => exact hnil
      · rw [List.getElem?_set_ne hij] at hf
        exact ho.handed i launched hf hmoved

/-- An event of the sessions that opens none. -/
theorem Owned.right {hs : List Handover} (ho : Owned hs st) {d : Server.Event} (hw : st.2.Inv)
    (hopen : d.opened? = none) (hn : (server env).next st.2 d = some w') :
    Owned hs (st.1, w') := by
  refine ⟨ho.connections, ho.sessions, ho.moved, ho.handed, fun s => ?_⟩
  rw [isSome_iff hw hn, hopen, ← ho.exist]
  simp

theorem nodup_map_concat {α β : Type} {f : α → β} {l : List α} {a : α} (hl : (l.map f).Nodup)
    (ha : ∀ x ∈ l, f x ≠ f a) : ((l ++ [a]).map f).Nodup := by
  rw [List.map_append, List.nodup_append]
  refine ⟨hl, List.nodup_singleton _, fun b hb c hc => ?_⟩
  obtain ⟨x, hx, rfl⟩ := List.mem_map.mp hb
  rw [List.mem_singleton.mp hc]
  exact ha x hx

/-- A handover. -/
theorem Owned.both {hs : List Handover} (ho : Owned hs st) {i : Nat} {s : Ptr} {call : Call}
    {now : Nat} (hup : call.req.upgrade = true)
    (hnl : (listener henv l₀).next st.1 (.http i (.read (.ok call))) = some l')
    (hnw : (server env).next st.2 (.upgrade s call.req now) = some w')
    (hstage : ∀ (i : Nat) (launched : Launched), st.1.sessions[i]? = some launched →
      HttpSession.Stage launched.session) (hw : st.2.Inv) :
    Owned (hs ++ [⟨i, s, call.req, now⟩]) (l', w') := by
  cases Listener.handled hnl with
  | @session _ _ launched session hf hn =>
    have hs₁ := hstage i launched hf
    have hi : ∀ h ∈ hs, h.connection ≠ i := fun h hm => ho.next_ne hm hf hn
    have hfresh : st.2.session s = none := by
      cases hw.step_turn hnw with
      | opened fresh sessions history ledger => exact fresh
      | left quiet was live sessions history ledger => cases quiet
      | dropped quiet was sessions history ledger => cases quiet
      | stays quiet sessions history ledger => cases quiet
    have hsess : ∀ h ∈ hs, h.session ≠ s := by
      rintro h hm rfl
      have hsome := (ho.exist h.session).mpr ⟨h, hm, rfl⟩
      rw [hfresh] at hsome
      cases hsome
    -- The connection was reading, and has been moved.
    obtain ⟨hops, hmoved⟩ : session.ops = [] ∧ session.moved = [call.req] := by
      cases hs₁.handled hn with
      | upgraded hops => exact ⟨rfl, by simp [(hs₁.of_reading hops).1]⟩
      | answered hops hreq => exact absurd (hup.symm.trans hreq) (by simp)
    have hlt := (List.getElem?_eq_some_iff.mp hf).1
    refine ⟨?_, ?_, fun h hm => ?_, fun j launched' hf' hne => ?_, fun p => ?_⟩
    · exact nodup_map_concat ho.connections hi
    · exact nodup_map_concat ho.sessions hsess
    · rcases List.mem_append.mp hm with hm | hm
      · obtain ⟨launched', hf', hrest⟩ := ho.moved h hm
        exact ⟨launched', (List.getElem?_set_ne (hi h hm).symm).trans hf', hrest⟩
      · rw [List.mem_singleton.mp hm]
        exact ⟨_, List.getElem?_set_self hlt, hops, hmoved⟩
    · by_cases hij : i = j
      · exact ⟨_, List.mem_append_right _ (List.mem_singleton.mpr rfl), hij⟩
      · obtain ⟨h, hm, hc⟩ :=
          ho.handed j launched' ((List.getElem?_set_ne hij).symm.trans hf') hne
        exact ⟨h, List.mem_append_left _ hm, hc⟩
    · rw [isSome_iff hw hnw, ho.exist]
      simp only [Server.Event.opened?, Option.some.injEq, List.mem_append, List.mem_singleton]
      constructor
      · rintro (⟨h, hm, hs⟩ | rfl)
        · exact ⟨h, .inl hm, hs⟩
        · exact ⟨_, .inr rfl, rfl⟩
      · rintro ⟨h, hm | rfl, rfl⟩
        · exact .inl ⟨h, hm, rfl⟩
        · exact .inr rfl

theorem handovers_concat (xs : List (Joint ListenerEvent Server.Event))
    (x : Joint ListenerEvent Server.Event) :
    handovers (xs ++ [x]) = handovers xs ++ (handover? x).toList := by
  unfold handovers
  rw [List.filterMap_append]
  cases hx : handover? x <;> simp [hx]

/-- **The invariant holds after every run.** -/
theorem owned (hl : Listener.new calls = .ok l₀) (hr : (program henv env l₀).Runs xs st) :
    Owned (handovers xs) st := by
  refine Sys.Runs.induct (P := fun xs st => Owned (handovers xs) st) ?_ ?_ hr
  · refine ⟨List.nodup_nil, List.nodup_nil, by simp [handovers], fun i launched hf => ?_, ?_⟩
    · have hnil : ((program henv env l₀).init).1.sessions = [] := by
        show l₀.run.sessions = []
        rw [Listener.new_eq hl]; rfl
      rw [hnil] at hf
      cases hf
    · intro s
      exact ⟨fun h => Bool.noConfusion h, fun ⟨h, hm, _⟩ => nomatch hm⟩
  · rintro xs ⟨l, w⟩ x ⟨l', w'⟩ hr ih hn
    obtain ⟨hx, hleft, hright⟩ := Coupling.next_eq_some.mp hn
    have hstage (i : Nat) (launched : Launched) (hf : l.sessions[i]? = some launched) :
        launched.session.Stage := stage hl hr hf
    rw [handovers_concat]
    cases x with
    | left e =>
      obtain rfl : w = w' := Option.some.inj hright
      rw [show handover? (.left e) = none from rfl, Option.toList_none, List.append_nil]
      exact ih.left (Option.isNone_iff_eq_none.mp hx) hleft hstage
    | right d =>
      obtain rfl : l = l' := Option.some.inj hleft
      rw [show handover? (.right d) = none from rfl, Option.toList_none, List.append_nil]
      exact ih.right (server_inv hr) (Option.isNone_iff_eq_none.mp hx) hright
    | both e d =>
      obtain ⟨i, s, call, now, hup, rfl, rfl, hh⟩ := both_eq hx
      rw [hh]
      exact ih.both hup hleft hright hstage (server_inv hr)

/-! ## Where a broadcast comes from -/

/-- An event of the sessions that opens none happens alone. -/
theorem eq_right (hr : (program henv env l₀).Runs xs st) (hx : x ∈ xs) {d : Server.Event}
    (hd : x.right? = some d) (hopen : d.opened? = none) : x = .right d := by
  have hallow := Coupling.allows_of_runs hr x hx
  cases x with
  | left e => cases hd
  | right d' => cases hd; rfl
  | both e d' =>
    cases hd
    obtain ⟨i, s, call, now, -, -, rfl, -⟩ := both_eq hallow
    cases hopen

/-- An upgrade is the handover of a connection that was accepted before. -/
theorem exists_handover (hl : Listener.new calls = .ok l₀) {xs₁ xs₂ : List _} {s : Ptr}
    {req : Request} {now : Nat} (hr : (program henv env l₀).Runs (xs₁ ++ x :: xs₂) st)
    (hd : x.right? = some (.upgrade s req now)) :
    ∃ i socket, handover? x = some ⟨i, s, req, now⟩ ∧
      (xs₁.filterMap socket?)[i]? = some socket := by
  have hallow := Coupling.allows_of_runs hr x (by simp)
  cases x with
  | left e => cases hd
  | right d => cases hd; cases hallow
  | both e d =>
    cases hd
    obtain ⟨i, _, call, _, -, rfl, hd, hh⟩ := both_eq hallow
    cases hd
    obtain ⟨st₁, ⟨l₂, w₂⟩, hr₁, hn⟩ := Coupling.runs_split hr
    have hleft : (listener henv l₀).next st₁.1 (.http i (.read (.ok call))) = some l₂ :=
      (Coupling.next_eq_some.mp hn).2.1
    have hi := listener_inv hl hr₁
    cases Listener.handled hleft with
    | @session _ _ launched _ hf hs =>
      -- The connection is the one of the socket that was accepted with its number.
      have hsocket : (st₁.1.accepted.map some)[i]? = some launched.socket := by
        rw [← hi.handed, List.getElem?_map, hf]
        rfl
      rw [hi.accepted, accepted_sockets, List.getElem?_map] at hsocket
      obtain ⟨socket, hget, -⟩ := Option.map_eq_some_iff.mp hsocket
      exact ⟨i, socket, hh, hget⟩

/-- Every upgrade in a run is a handover. -/
theorem exists_handover_of_mem (hl : Listener.new calls = .ok l₀)
    (hr : (program henv env l₀).Runs xs st) {s : Ptr} {req : Request} {now : Nat}
    (hm : .upgrade s req now ∈ xs.filterMap Joint.right?) :
    ∃ h ∈ handovers xs, h.session = s ∧ h.req = req ∧ h.now = now := by
  obtain ⟨x, hx, hd⟩ := List.mem_filterMap.mp hm
  obtain ⟨xs₁, xs₂, rfl⟩ := List.append_of_mem hx
  obtain ⟨i, socket, hh, -⟩ := exists_handover hl hr hd
  exact ⟨_, List.mem_filterMap.mpr ⟨x, hx, hh⟩, rfl, rfl, rfl⟩

end Program

open Program in
/-- **Each socket has one owner.** The sockets that were accepted are those that connections were
launched with, in order. The handovers are of different connections, to different sessions. The
connections that are moved are exactly those handed over, each with the request that it was handed
over with, and the sessions that exist are exactly those handed to. Every other connection reads,
writes or has ended. -/
theorem socketOwnership {henv : HttpEnv} {env : Env} {calls : Setup} {l₀ l : Listener} {w : Server}
    {xs : List (Joint ListenerEvent Server.Event)} (hl : Listener.new calls = .ok l₀)
    (hr : (program henv env l₀).Runs xs (l, w)) :
    l.sessions.map Launched.socket = (xs.filterMap socket?).map some ∧
    ((handovers xs).map Handover.connection).Nodup ∧
    ((handovers xs).map Handover.session).Nodup ∧
    (∀ i launched, l.sessions[i]? = some launched →
      (launched.session.In .moved ↔ ∃ h ∈ handovers xs, h.connection = i) ∧
      ∃! phase, launched.session.In phase) ∧
    (∀ h ∈ handovers xs, ∃ launched, l.sessions[h.connection]? = some launched ∧
      launched.session.moved = [h.req]) ∧
    ∀ s, (w.session s).isSome ↔ ∃ h ∈ handovers xs, h.session = s := by
  have ho := owned hl hr
  have hi := listener_inv hl hr
  refine ⟨?_, ho.connections, ho.sessions, fun i launched hf => ⟨⟨?_, ?_⟩, ?_⟩, ?_, ho.exist⟩
  · rw [hi.handed, hi.accepted, accepted_sockets]
  · rintro ⟨-, req, hmoved⟩
    exact ho.handed i launched hf (by simp [hmoved])
  · rintro ⟨h, hm, rfl⟩
    obtain ⟨launched', hf', hops, hmoved⟩ := ho.moved h hm
    obtain rfl := Option.some.inj (hf.symm.trans hf')
    exact ⟨hops, _, hmoved⟩
  · exact (stage hl hr hf).phase
  · intro h hm
    obtain ⟨launched, hf, -, hmoved⟩ := ho.moved h hm
    exact ⟨launched, hf, hmoved⟩

/-- Two connections, of which the second one upgrades and says a word. -/
def upgraded : List (Joint ListenerEvent Server.Event) :=
  let call : Call := .plain { method := .get, target := ascii "/?token=good", upgrade := true }
  [.left (.accept (.ok 7)), .left (.accept (.ok 8)),
    .both (.http 1 (.read (.ok call))) (.upgrade 1 call.req 5), .right (.accept 1 none 6),
    .right (.read 1 none true (ascii "hi"))]

theorem socketOwnership_upgraded : ∃ l w, (program plainHttp gateEnv {}).Runs upgraded (l, w) ∧
    l.sessions.map Launched.socket = [some 7, some 8] ∧
    ∀ s, (w.session s).isSome ↔ ∃ h ∈ handovers upgraded, h.session = s := by
  have hl : Listener.new .clean = .ok {} := rfl
  have hr : (program plainHttp gateEnv {}).Runs upgraded (_, _) := rfl
  obtain ⟨hsockets, -, -, -, -, hexist⟩ := socketOwnership hl hr
  exact ⟨_, _, hr, hsockets, hexist⟩

open Program in
/-- **Who is heard was let in.** Every message of a client is its own greeting or was broadcast. And
each broadcast was made by one step of the run. Before it, in this order: a socket was accepted; its
connection read an upgrade request whose token was verified at that moment, and became a session;
the handshake of this session succeeded. And in this step the session read the message, or it was
destroyed and the message is the notice with its id. -/
theorem provenance {henv : HttpEnv} {env : Env} {calls : Setup} {l₀ l : Listener} {w : Server}
    {xs : List (Joint ListenerEvent Server.Event)} (hl : Listener.new calls = .ok l₀)
    (hr : (program henv env l₀).Runs xs (l, w)) :
    (∀ s o m, w.session s = some o → m ∈ o.written ++ o.queue →
      m = ⟨greeting o.connectionId, none⟩ ∨ ∃ b ∈ w.history, b.message = m.str) ∧
    ∀ b ∈ w.history, ∃ ys d zs st st', xs = ys ++ .right d :: zs ∧
      (program henv env l₀).Runs ys st ∧ (program henv env l₀).next st (.right d) = some st' ∧
      st'.2.history = st.2.history ++ [b] ∧
      ∃ xs₁ x xs₂ time xs₃ h socket,
        ys = xs₁ ++ x :: (xs₂ ++ .right (.accept h.session none time) :: xs₃) ∧
        (xs₁.filterMap socket?)[h.connection]? = some socket ∧ handover? x = some h ∧
        env.verify (extractToken h.req.target) h.now = .ok () ∧
        b.caller = some h.session ∧ d.session = h.session ∧
        ((∃ text, d = .read h.session none text b.message) ∨
          (d.quiet = true ∧ b.message = notice (generateRandomString env 16 time) ∧
            st.2.leaves h.session st'.2 = true)) := by
  have hright : (server env).Runs (xs.filterMap Joint.right?) w := Coupling.runs_right hr
  refine ⟨fun s o m ho hm => Server.greeting_or_broadcast hright ho hm, fun b hb => ?_⟩
  obtain ⟨es₁, d, es₂, w₁, w₂, hes, hr₁, hn, hh⟩ := Server.exists_makes hright hb
  obtain ⟨hcall, y, hy, hj, hcause⟩ :=
    ((Server.reach_inv hr₁.reach).step_turn hn).makes hh
  have hopen : d.opened? = none := by
    rcases hcause with ⟨text, hd⟩ | ⟨hq, -⟩
    · rw [hd]; rfl
    · exact Server.opened?_quiet hq
  obtain ⟨l₁, req, now, l₂, time, l₃, rfl, hv, hid⟩ := Server.exists_letIn hr₁ hy hj
  -- The events of the session, among all of the program.
  obtain ⟨ys, z, zs, rfl, hys, hz, -⟩ := exists_of_filterMap_eq hes
  obtain ⟨xs₁, x, ms, rfl, -, hx, hms⟩ := exists_of_filterMap_eq hys
  obtain ⟨xs₂, a, xs₃, rfl, -, ha, -⟩ := exists_of_filterMap_eq hms
  obtain rfl := eq_right hr (by simp) hz hopen
  obtain rfl := eq_right hr (by simp) ha rfl
  -- The states around the step.
  obtain ⟨st, st', hrys, hnext⟩ := Coupling.runs_split hr
  obtain rfl : w₁ = st.2 := hr₁.unique (hys ▸ Coupling.runs_right hrys)
  obtain rfl : w₂ = st'.2 :=
    Option.some.inj (hn.symm.trans (Coupling.next_eq_some.mp hnext).2.2)
  obtain ⟨i, socket, hover, hsocket⟩ := exists_handover hl hrys hx
  refine ⟨_, d, zs, st, st', rfl, hrys, hnext, hh, xs₁, x, xs₂, time, xs₃, _, socket, rfl,
    hsocket, hover, hv, hcall, rfl, ?_⟩
  rw [← hid]
  exact hcause

/-- The client of `upgraded` is written its greeting and its word, and leaves. -/
def departed : List (Joint ListenerEvent Server.Event) :=
  upgraded ++
    [.right (.write 1 ⟨true, ⟨greeting (generateRandomString gateEnv 16 6), none⟩⟩ none),
      .right (.write 1 ⟨true, ⟨ascii "hi", some 0⟩⟩ none),
      .right (.read 1 (some ⟨.closed, []⟩) true [])]

/-- Behind the notice of this client there is its token, and its destruction. -/
theorem provenance_departed : ∃ l w, (program plainHttp gateEnv {}).Runs departed (l, w) ∧
    w.history = [⟨some 1, ascii "hi"⟩,
      ⟨some 1, notice (generateRandomString gateEnv 16 6)⟩] ∧
    (∀ s o m, w.session s = some o → m ∈ o.written ++ o.queue →
      m = ⟨greeting o.connectionId, none⟩ ∨ ∃ b ∈ w.history, b.message = m.str) ∧
    ∃ ys d zs st st', ∃ h : Handover, departed = ys ++ .right d :: zs ∧
      (program plainHttp gateEnv {}).next st (.right d) = some st' ∧
      st'.2.history =
        st.2.history ++ [⟨some 1, notice (generateRandomString gateEnv 16 6)⟩] ∧
      h ∈ handovers ys ∧ gateEnv.verify (extractToken h.req.target) h.now = .ok () ∧
      h.session = 1 ∧ st.2.leaves 1 st'.2 = true := by
  have hl : Listener.new .clean = .ok {} := rfl
  have hr : (program plainHttp gateEnv {}).Runs departed (_, _) := rfl
  obtain ⟨hsent, hmade⟩ := provenance hl hr
  obtain ⟨ys, d, zs, st, st', hd, -, hn, hh, _, x, _, _, _, h, _, hys, -, hover, hv, hcall, -,
    hcause⟩ := hmade ⟨some 1, notice (generateRandomString gateEnv 16 6)⟩ (by decide)
  have hs : h.session = 1 := (Option.some.inj hcall).symm
  have hmem : h ∈ handovers ys := List.mem_filterMap.mpr ⟨x, by simp [hys], hover⟩
  rw [hs] at hcause
  obtain ⟨text, rfl⟩ | ⟨-, -, hleaves⟩ := hcause
  · -- The message that was read is another one.
    have hright : .read 1 none text (notice (generateRandomString gateEnv 16 6)) ∈
        departed.filterMap Joint.right? :=
      List.mem_filterMap.mpr ⟨_, hd ▸ List.mem_append_right ys List.mem_cons_self, rfl⟩
    cases text <;> exact absurd hright (by decide)
  · exact ⟨_, _, hr, rfl, hsent, ys, d, zs, st, st', h, hd, hn, hh, hmem, hv, hs, hleaves⟩

end ChatServer
