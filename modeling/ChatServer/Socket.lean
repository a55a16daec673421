import ChatServer.Program
import ChatServer.Lifecycle
import ChatServer.Http.Conversation
import ChatServer.Http.Framing

/-!
# The life of a socket

A socket is first a connection of the HTTP server and then, after an upgrade request, the stream of
one WebSocket session.

* `socketLife`: the events of a socket that was handed over, before and after the handover.
* `refusedOnTheWire`: what a client reads whose token is refused.

On the 401 path `close_with_401` also calls `async_close`, on a stream whose handshake never
completed. It is assumed that Beast ends this operation without an octet on the socket: the octets
there are those of the responses.
-/

namespace ChatServer

open Lib

/-- The events of a connection in a run of the program. -/
def connectionEvents (i : Nat) (xs : List (Joint ListenerEvent Server.Event)) : List HttpEvent :=
  ownEvents i ((xs.filterMap Joint.left?).filterMap ListenerEvent.pool?)

/-- The events of a session in a run of the program. -/
def sessionEvents (s : Ptr) (xs : List (Joint ListenerEvent Server.Event)) : List Server.Event :=
  (xs.filterMap Joint.right?).filter fun d => d.session == s

namespace HttpSession

variable {env : HttpEnv} {h : HttpSession} {es : List HttpEvent}

/-- A connection that was moved has had exchanges only, and the upgrade request at the end. -/
theorem exists_upgrade (hr : (http env).Runs es h) (hp : h.In .moved) :
    ∃ es' call, es = es' ++ [.read (.ok call)] ∧ call.req.upgrade = true ∧ h.moved = [call.req] ∧
      h.written = (calls es').map (Call.response env) ∧ Conversation env es' .reading := by
  induction es using List.reverseRecOn with
  | nil =>
    obtain rfl := hr.unique Sys.runs_nil
    cases hp.1
  | append_singleton es e =>
    obtain ⟨h₁, hr₁, hn⟩ := Sys.runs_snoc.mp hr
    have hs := (inv_of_runs hr₁).stage
    cases hs.handled hn with
    | @upgraded call ho hu =>
      obtain ⟨hm, hsent⟩ := hs.of_reading ho
      refine ⟨es, call, rfl, hu, by rw [hm]; rfl, ?_, conversation.mp ⟨h₁, hr₁, ho, hm⟩⟩
      rw [← (inv_of_runs hr₁).sent, hsent]
    | readFailed _ _ ho =>
      obtain ⟨-, req, hmoved⟩ := hp
      cases (hs.of_reading ho).1.symm.trans hmoved
    | writeFailed _ ho | closed ho =>
      obtain ⟨-, req, hmoved⟩ := hp
      cases (hs.of_writing ho).1.symm.trans hmoved
    | answered | wentOn => cases hp.1

end HttpSession

namespace Life

variable {env : Env} {phase : Life} {es : List Server.Event}

theorem opened_of_next {phase' : Life} {d : Server.Event}
    (hn : (life env).next phase d = some phase') :
    phase' ≠ .unborn ∧ (phase = .unborn ↔ d.opened?.isSome) := by
  simp only [life] at hn
  split at hn <;> (try split at hn) <;> cases hn <;> simp [Server.Event.opened?]

/-- Only the first event of a session is an upgrade. -/
theorem eq_cons_upgrade (hr : (life env).Runs es phase) {s : Ptr} {req : Request} {now : Nat}
    (hm : .upgrade s req now ∈ es) : ∃ rest, es = .upgrade s req now :: rest ∧
      ∀ d ∈ rest, d.opened? = none := by
  have hshape : (es = [] ∧ phase = .unborn) ∨ phase ≠ .unborn ∧
      ∃ d rest, es = d :: rest ∧ ∀ d ∈ rest, d.opened? = none := by
    refine Sys.Runs.induct (P := fun es phase => (es = [] ∧ phase = .unborn) ∨ phase ≠ .unborn ∧
      ∃ d rest, es = d :: rest ∧ ∀ d ∈ rest, d.opened? = none) (.inl ⟨rfl, rfl⟩) ?_ hr
    intro es phase d phase' _ ih hn
    obtain ⟨hborn, hopen⟩ := opened_of_next hn
    obtain ⟨rfl, -⟩ | ⟨hne, d₀, rest, rfl, hrest⟩ := ih
    · exact .inr ⟨hborn, d, [], rfl, by simp⟩
    · refine .inr ⟨hborn, d₀, rest ++ [d], rfl, fun d' hd' => ?_⟩
      rcases List.mem_append.mp hd' with hd' | hd'
      · exact hrest d' hd'
      · rw [List.mem_singleton.mp hd']
        exact Option.not_isSome_iff_eq_none.mp fun hs => hne (hopen.mpr hs)
  obtain ⟨rfl, -⟩ | ⟨-, d, rest, rfl, hrest⟩ := hshape
  · cases hm
  · rcases List.mem_cons.mp hm with rfl | hm
    · exact ⟨rest, rfl, hrest⟩
    · cases hrest _ hm

/-- A refused session writes one response at most, and it is the one that is outstanding. -/
theorem eq_of_refused {writing : Option Response} {closing : Bool}
    (hx : (life env).exec (.refused writing closing) es = some phase) {s : Ptr} {res : Response}
    {ec : Option ErrorCode} (hm : .write401 s res ec ∈ es) : writing = some res := by
  induction es generalizing writing closing with
  | nil => cases hm
  | cons d es ih =>
    obtain ⟨phase₁, hn, hx₁⟩ := Sys.exec_cons hx
    have hd : (∃ s' res' ec', d = .write401 s' res' ec' ∧ writing = some res' ∧
        phase₁ = .refused none closing) ∨ ((∃ s' ec', d = .close s' ec') ∧
          phase₁ = .refused writing false) := by
      simp only [life] at hn
      split at hn <;> (try split at hn) <;> cases hn <;> simp_all
    obtain ⟨s', res', ec', rfl, rfl, rfl⟩ | ⟨⟨s', ec', rfl⟩, rfl⟩ := hd
    · rcases List.mem_cons.mp hm with hm | hm
      · cases hm
        rfl
      · cases ih hx₁ hm
    · rcases List.mem_cons.mp hm with hm | hm
      · cases hm
      · exact ih hx₁ hm

end Life

namespace Program

variable {henv : HttpEnv} {env : Env} {calls : Setup} {l₀ : Listener} {st : Listener × Server}
  {xs : List (Joint ListenerEvent Server.Event)}

/-- The handover is the first event of its session. -/
theorem upgrade_mem {h : Handover} (hm : h ∈ handovers xs) :
    .upgrade h.session h.req h.now ∈ sessionEvents h.session xs := by
  obtain ⟨x, hx, hh⟩ := List.mem_filterMap.mp hm
  rw [sessionEvents, List.mem_filter, List.mem_filterMap]
  obtain ⟨e, rfl⟩ := handover?_eq_some hh
  exact ⟨⟨_, hx, rfl⟩, by simp [Server.Event.session]⟩

/-- A connection has a conversation. -/
theorem runs_connection {l : Listener} {w : Server} (hl : Listener.new calls = .ok l₀)
    (hr : (program henv env l₀).Runs xs (l, w)) {i : Nat} {launched : Launched}
    (hf : l.sessions[i]? = some launched) :
    (http henv).Runs (connectionEvents i xs) launched.session :=
  Listener.session_runs hl (Coupling.runs_left hr) hf

end Program

open Program in
/-- **The life of a socket.** Each connection has had a conversation. One that was handed over has
had exchanges and then read the upgrade request of the handover. Its session was opened with this
request, only once and before all its other events, and has had a life of its own from then on. -/
theorem socketLife {henv : HttpEnv} {env : Env} {calls : Setup} {l₀ l : Listener} {w : Server}
    {xs : List (Joint ListenerEvent Server.Event)} (hl : Listener.new calls = .ok l₀)
    (hr : (program henv env l₀).Runs xs (l, w)) :
    (∀ i launched, l.sessions[i]? = some launched → ∃ phase, launched.session.In phase ∧
      Conversation henv (connectionEvents i xs) phase) ∧
    ∀ h ∈ handovers xs,
      (∃ es call, connectionEvents h.connection xs = es ++ [.read (.ok call)] ∧
        call.req = h.req ∧ Conversation henv es .reading) ∧
      ∃ rest phase, sessionEvents h.session xs = .upgrade h.session h.req h.now :: rest ∧
        (∀ d ∈ rest, d.opened? = none) ∧
        (life env).Runs (sessionEvents h.session xs) phase ∧
        phase.Describes (w.session h.session) := by
  refine ⟨fun i launched hf => ?_, fun h hm => ⟨?_, ?_⟩⟩
  · obtain ⟨phase, hp, -⟩ := (stage hl hr hf).phase
    exact ⟨phase, hp, conversation.mp ⟨_, runs_connection hl hr hf, hp⟩⟩
  · obtain ⟨launched, hf, hops, hmoved⟩ := (owned hl hr).moved h hm
    obtain ⟨es, call, hes, -, hcall, -, hconv⟩ :=
      HttpSession.exists_upgrade (runs_connection hl hr hf) ⟨hops, _, hmoved⟩
    refine ⟨es, call, hes, ?_, hconv⟩
    exact (List.cons.inj (hcall.symm.trans hmoved)).1
  · obtain ⟨phase, hrun, hd, -⟩ := lifeCycle (Coupling.runs_right hr) h.session
    obtain ⟨rest, hrest, hopen⟩ := Life.eq_cons_upgrade hrun (upgrade_mem hm)
    exact ⟨rest, phase, hrest, hopen, hrun, hd⟩

theorem socketLife_upgraded : ∃ l w, (program plainHttp gateEnv {}).Runs upgraded (l, w) ∧
    ∀ h ∈ handovers upgraded, ∃ rest phase,
      sessionEvents h.session upgraded = .upgrade h.session h.req h.now :: rest ∧
        (life gateEnv).Runs (sessionEvents h.session upgraded) phase := by
  have hl : Listener.new .clean = .ok {} := rfl
  have hr : (program plainHttp gateEnv {}).Runs upgraded (_, _) := rfl
  refine ⟨_, _, hr, fun h hm => ?_⟩
  obtain ⟨rest, phase, hrest, -, hrun, -⟩ := ((socketLife hl hr).2 h hm).2
  exact ⟨rest, phase, hrest, hrun⟩

/-! ## What a refused client reads -/

open Program in
/-- The only response of a session whose token is refused tells why. -/
theorem eq_response401 {henv : HttpEnv} {env : Env} {l₀ l : Listener} {w : Server}
    {xs : List (Joint ListenerEvent Server.Event)} (hr : (program henv env l₀).Runs xs (l, w))
    {h : Handover} (hm : h ∈ handovers xs) {what : Bytes}
    (hv : env.verify (extractToken h.req.target) h.now = .error what) {res : Response}
    {ec : Option ErrorCode} (hwrite : .write401 h.session res ec ∈ sessionEvents h.session xs) :
    res = WebsocketSession.response401 h.req what := by
  obtain ⟨phase, hrun, -⟩ := lifeCycle (Coupling.runs_right hr) h.session
  change (life env).Runs (sessionEvents h.session xs) phase at hrun
  obtain ⟨rest, hrest, -⟩ := Life.eq_cons_upgrade hrun (upgrade_mem hm)
  rw [hrest] at hrun hwrite
  obtain ⟨phase₁, hn, hx⟩ := Sys.exec_cons hrun
  have hrefused : (life env).next .unborn (.upgrade h.session h.req h.now) =
      some (.refused (some (WebsocketSession.response401 h.req what)) true) := by
    simp [life, hv]
  obtain rfl := Option.some.inj (hn.symm.trans hrefused)
  have hmem := (List.mem_cons.mp hwrite).resolve_left (by simp)
  exact (Option.some.inj (Life.eq_of_refused hx hmem)).symm

/-- A client recovers a response with a body of the length that it tells. -/
theorem readReply_of_wf {res : Response} (hwf : res.head.Wf)
    (hlen : res.contentLength = some res.body.octets.length) {method : Verb} (hm : method ≠ .head)
    (rest : Bytes) : readReply method (res.octets ++ rest) = some (res.reply, rest) := by
  have hd := Head.decode_encode hwf (res.body.octets ++ rest)
  have hs : (ascii "HTTP/").isPrefixOf res.head.start = true := res.statusLine_prefix
  rw [readReply, Response.octets, List.append_assoc, hd]
  simp only [hs, Bool.not_true, Bool.false_eq_true, if_false, if_neg hm, res.contentLength_head,
    hlen]
  simp [Response.reply]

theorem readReply_response401 (req : Request) (what : Bytes) {method : Verb} (hm : method ≠ .head)
    (rest : Bytes) : readReply method ((WebsocketSession.response401 req what).octets ++ rest) =
      some ((WebsocketSession.response401 req what).reply, rest) := by
  have hv : IsValue (ascii "ir-websocket-server") ∧ IsValue (ascii "application/json") := by decide
  exact readReply_of_wf (Response.head_wf hv.1 hv.2) rfl hm rest

theorem calls_of_upgrade {es : List HttpEvent} {call : Call} (hu : call.req.upgrade = true) :
    calls (es ++ [.read (.ok call)]) = calls es := by
  rw [HttpSession.calls_snoc]
  simp [HttpEvent.call?, hu]

open Program in
/-- **What a refused client reads.** A client has sent plain requests and then an upgrade request
whose token is not verified, and the write of the session completes. The client recovers the
response to each request and, last, the 401 response with the error of the verifier, if every HEAD
request among them names a file that opens. The close of the stream writes nothing (module doc). -/
theorem refusedOnTheWire {henv : HttpEnv} {env : Env} {calls₀ : Setup} {l₀ l : Listener}
    {w : Server} {xs : List (Joint ListenerEvent Server.Event)}
    (hl : Listener.new calls₀ = .ok l₀) (hr : (program henv env l₀).Runs xs (l, w))
    {h : Handover} (hm : h ∈ handovers xs) (hmethod : h.req.method ≠ .head) {what : Bytes}
    (hv : env.verify (extractToken h.req.target) h.now = .error what) {res : Response}
    (hwrite : .write401 h.session res none ∈ sessionEvents h.session xs)
    (hhead : ∀ call ∈ calls (connectionEvents h.connection xs), call.req.method = .head →
      call.opens henv = true) :
    ∃ launched, l.sessions[h.connection]? = some launched ∧
      readAll readReply
          ((calls (connectionEvents h.connection xs)).map (·.req.method) ++ [h.req.method])
          (launched.session.written.flatMap Response.octets ++ res.octets) =
        some ((calls (connectionEvents h.connection xs)).map
            (fun call => (call.response henv).reply) ++
          [(WebsocketSession.response401 h.req what).reply]) := by
  obtain ⟨launched, hf, hops, hmoved⟩ := (owned hl hr).moved h hm
  obtain ⟨es, call, hes, hu, -, hwritten, -⟩ :=
    HttpSession.exists_upgrade (runs_connection hl hr hf) ⟨hops, _, hmoved⟩
  obtain rfl := eq_response401 hr hm hv hwrite
  refine ⟨launched, hf, ?_⟩
  rw [hes, calls_of_upgrade hu] at hhead ⊢
  rw [hwritten]
  -- The responses, each with the method of its request.
  let sent : List (Verb × Response) :=
    (calls es).map (fun call => (call.req.method, call.response henv)) ++
      [(h.req.method, WebsocketSession.response401 h.req what)]
  have hround : readAll readReply (sent.map Prod.fst ++ []) (sent.flatMap (·.2.octets)) =
      some (sent.map (·.2.reply)) := by
    refine readAll_flatMap [] (fun p _ => ?_) fun p hp rest => ?_
    · simp [Response.octets, Head.encode_ne_nil]
    · rcases List.mem_append.mp hp with hp | hp
      · obtain ⟨call, hc, rfl⟩ := List.mem_map.mp hp
        have ha := answer_response henv call
        exact readReply_octets ha (fun hm => (ha.octets_eq_nil hm).mpr (hhead call hc hm)) rest
      · rw [List.mem_singleton.mp hp]
        exact readReply_response401 h.req what hmethod rest
  simpa [sent, List.flatMap_map, Function.comp_def] using hround

/-- A client asks for a missing file, and then upgrades with a bad token. -/
def turnedAway : List (Joint ListenerEvent Server.Event) :=
  let call : Call := .plain { method := .get, target := ascii "/a" }
  let upgrade : Call := .plain { method := .get, target := ascii "/?token=x", upgrade := true }
  [.left (.accept (.ok 7)), .left (.http 0 (.read (.ok call))),
    .left (.http 0 (.write (call.response plainHttp) none)),
    .both (.http 0 (.read (.ok upgrade))) (.upgrade 1 upgrade.req 5),
    .right (.write401 1 (WebsocketSession.response401 upgrade.req (ascii "bad")) none)]

theorem refusedOnTheWire_turnedAway : ∃ l w req res,
    (program plainHttp gateEnv {}).Runs turnedAway (l, w) ∧
    ∃ launched, l.sessions[0]? = some launched ∧ ∃ missing,
      readAll readReply [.get, .get]
          (launched.session.written.flatMap Response.octets ++ Response.octets res) =
        some [missing, (WebsocketSession.response401 req (ascii "bad")).reply] := by
  have hl : Listener.new .clean = .ok {} := rfl
  have hr : (program plainHttp gateEnv {}).Runs turnedAway (_, _) := rfl
  have hm : ⟨0, 1, _, 5⟩ ∈ handovers turnedAway := List.mem_singleton_self _
  obtain ⟨launched, hf, hread⟩ :=
    refusedOnTheWire hl hr hm (by decide) rfl (List.mem_cons_of_mem _ (List.mem_singleton_self _))
      (by decide)
  exact ⟨_, _, _, _, hr, launched, hf, _, hread⟩

end ChatServer
