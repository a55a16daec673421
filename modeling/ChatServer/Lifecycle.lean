import ChatServer.Quiescence

/-!
# The life of a session

What can happen to one `websocket_session`, whatever happens to the others. A handshake starts if
the token of its upgrade request is verified, and otherwise the 401 response is written and the
stream is closed. From the end of the handshake on the session reads until a read fails, and writes
until a write fails, in any order.

* `life env`: the phases of a session and the events in each.
* `lifeCycle`: the events of a session in a run of the server are a run of `life`, and no event but
  a write needs more than the phase to allow it.
-/

namespace ChatServer

open Lib

/-- The phases of a session. `refused` has the response whose write is outstanding, and tells
whether the close is. `conversing` tells whether a read is outstanding, and whether no write has
failed. -/
inductive Life where
  | unborn
  | handshaking
  | refused (writing : Option Response) (closing : Bool)
  | conversing (reading writable : Bool)
  deriving DecidableEq

/-- The life of a session, as an event-driven system. -/
def life (env : Env) : Sys Life Server.Event where
  init := .unborn
  next
    | .unborn, .upgrade _ req now =>
      match env.verify (extractToken req.target) now with
      | .ok () => some .handshaking
      | .error what => some (.refused (some (WebsocketSession.response401 req what)) true)
    | .handshaking, .accept _ none _ => some (.conversing true true)
    | .handshaking, .accept _ (some _) _ => some (.refused none false)
    | .refused (some res) closing, .write401 _ res' _ =>
      if res' = res then some (.refused none closing) else none
    | .refused writing true, .close _ _ => some (.refused writing false)
    | .conversing true writable, .read _ none _ _ => some (.conversing true writable)
    | .conversing true writable, .read _ (some _) _ _ => some (.conversing false writable)
    | .conversing reading true, .write _ _ none => some (.conversing reading true)
    | .conversing reading true, .write _ _ (some _) => some (.conversing reading false)
    | _, _ => none

/-- The operations of a refused session. -/
def refusal (writing : Option Response) (closing : Bool) : List Op :=
  (writing.map Op.write401).toList ++ if closing then [.close] else []

/-- The phase describes the session. -/
inductive Life.Describes : Life → Option WebsocketSession → Prop
  | unborn : Describes .unborn none
  | handshaking {o : WebsocketSession} (ops : o.ops = [.accept]) (joined : o.joined = none) :
      Describes .handshaking (some o)
  | refused {o : WebsocketSession} {writing : Option Response} {closing : Bool}
      (ops : o.ops = refusal writing closing) (joined : o.joined = none) :
      Describes (.refused writing closing) (some o)
  | conversing {o : WebsocketSession} {reading writable : Bool} (joined : o.joined ≠ none)
      (read : .read ∈ o.ops ↔ reading = true) (failed : o.writeFailed = !writable) :
      Describes (.conversing reading writable) (some o)

namespace Life

open Server

variable {env : Env} {w : Server} {o : WebsocketSession} {phase : Life} {s p : Ptr}

/-! ## The phase of an outstanding operation -/

theorem mem_refusal {writing : Option Response} {closing : Bool} {op : Op}
    (h : op ∈ refusal writing closing) :
    (∃ res, writing = some res ∧ op = .write401 res) ∨ closing = true ∧ op = .close := by
  cases writing <;> cases closing <;> simp_all [refusal]

theorem Describes.accept (h : Describes phase (some o)) (hok : o.Ok 0) (hm : .accept ∈ o.ops) :
    phase = .handshaking := by
  cases h with
  | handshaking => rfl
  | refused ops => rcases mem_refusal (ops ▸ hm) with ⟨_, -, h⟩ | ⟨-, h⟩ <;> cases h
  | conversing joined => exact absurd (hok.unjoined_of_mem hm (by simp)) joined

theorem Describes.read (h : Describes phase (some o)) (hm : .read ∈ o.ops) :
    ∃ writable, phase = .conversing true writable ∧ o.joined ≠ none ∧
      o.writeFailed = !writable := by
  cases h with
  | handshaking ops => simp [ops] at hm
  | refused ops => rcases mem_refusal (ops ▸ hm) with ⟨_, -, h⟩ | ⟨-, h⟩ <;> cases h
  | conversing joined read failed =>
    obtain rfl := read.mp hm
    exact ⟨_, rfl, joined, failed⟩

theorem Describes.write (h : Describes phase (some o)) (hok : o.Ok 0) {frame : Frame}
    (hm : .write frame ∈ o.ops) : ∃ reading, phase = .conversing reading true ∧ o.joined ≠ none ∧
      (.read ∈ o.ops ↔ reading = true) ∧ o.writeFailed = false := by
  cases h with
  | handshaking ops => simp [ops] at hm
  | refused ops => rcases mem_refusal (ops ▸ hm) with ⟨_, -, h⟩ | ⟨-, h⟩ <;> cases h
  | @conversing _ _ writable joined read failed =>
    have hwf : o.writeFailed = false := by
      rw [← Bool.not_eq_true]
      intro hf
      have hframe := WebsocketSession.mem_writes.mpr hm
      rw [(hok.pump.failed hf).1] at hframe
      cases hframe
    obtain rfl : writable = true := by simpa [hwf] using failed
    exact ⟨_, rfl, joined, read, hwf⟩

theorem Describes.close (h : Describes phase (some o)) (hok : o.Ok 0) (hm : .close ∈ o.ops) :
    ∃ writing, phase = .refused writing true ∧ o.ops = refusal writing true ∧ o.joined = none := by
  cases h with
  | handshaking ops => simp [ops] at hm
  | refused ops joined =>
    rcases mem_refusal (ops ▸ hm) with ⟨_, -, h⟩ | ⟨rfl, -⟩
    · cases h
    · exact ⟨_, rfl, ops, joined⟩
  | conversing joined => exact absurd (hok.unjoined_of_mem hm (by simp)) joined

theorem Describes.write401 (h : Describes phase (some o)) (hok : o.Ok 0) {res : Response}
    (hm : .write401 res ∈ o.ops) : ∃ closing, phase = .refused (some res) closing ∧
      o.ops = refusal (some res) closing ∧ o.joined = none := by
  cases h with
  | handshaking ops => simp [ops] at hm
  | refused ops joined =>
    rcases mem_refusal (ops ▸ hm) with ⟨_, rfl, h⟩ | ⟨-, h⟩
    · cases h
      exact ⟨_, rfl, ops, joined⟩
    · cases h
  | conversing joined => exact absurd (hok.unjoined_of_mem hm (by simp)) joined

/-! ## One event -/

theorem erase_close (writing : Option Response) :
    (refusal writing true).erase .close = refusal writing false := by
  cases writing <;> rfl

theorem erase_write401 (res : Response) (closing : Bool) :
    (refusal (some res) closing).erase (.write401 res) = refusal none closing := by
  simp [refusal]

theorem Describes.upgrade (env : Env) (h : Describes phase none) (s : Ptr) (req : Request)
    (now : Nat) : ∃ phase', (life env).next phase (.upgrade s req now) = some phase' ∧
      Describes phase' (some (WebsocketSession.opened env req now).release) := by
  cases h
  cases hv : env.verify (extractToken req.target) now with
  | ok u =>
    refine ⟨.handshaking, by simp [life, hv], .handshaking ?_ ?_⟩ <;>
      simp [WebsocketSession.opened, WebsocketSession.release, hv]
  | error what =>
    refine ⟨.refused _ true, by simp [life, hv]; rfl, .refused ?_ ?_⟩ <;>
      simp [WebsocketSession.opened, WebsocketSession.release, hv, refusal]

/-- A handler that only touches its object. -/
theorem Describes.quiet (h : Describes phase (some o)) (hok : o.Ok 0) (env : Env) {e : Event}
    {op : Op} (hq : e.quiet = true) (hop : e.op? = some op) (hm : op ∈ o.ops) : ∃ phase',
      (life env).next phase e = some phase' ∧ Describes phase' (some (o.handled e).release) := by
  cases e with
  | upgrade s req now => cases hq
  | accept s ec time =>
    cases hop
    cases ec with
    | none => cases hq
    | some ec =>
      obtain rfl := h.accept hok hm
      obtain ⟨hj, hops, -⟩ := hok.accepting hm
      refine ⟨.refused none false, rfl, .refused ?_ hj⟩
      show o.ops.erase .accept = refusal none false
      rw [hops]
      rfl
  | read s ec text bytes =>
    cases hop
    cases ec with
    | none => cases hq
    | some ec =>
      obtain ⟨writable, rfl, hj, hf⟩ := h.read hm
      refine ⟨.conversing false writable, rfl, .conversing hj ?_ hf⟩
      exact iff_of_false (hok.received hm text bytes).2 Bool.false_ne_true
  | write s frame ec =>
    cases hop
    obtain ⟨reading, rfl, hj, hr, hf⟩ := h.write hok hm
    have hread (f : Frame) : .read ∈ o.ops.erase (.write f) ↔ reading = true :=
      (List.mem_erase_of_ne (by simp)).trans hr
    cases ec with
    | none =>
      have hk := WebsocketSession.handled_kept o (.write s frame none)
      refine ⟨.conversing reading true, by cases reading <;> rfl,
        .conversing (hk.joined ▸ hj) ?_ ?_⟩
      · show .read ∈ (o.handled (.write s frame none)).ops ↔ _
        obtain hops | ⟨f, hops⟩ := WebsocketSession.handled_ops o (e := .write s frame none) rfl rfl
        · rw [hops]
          exact hread frame
        · rw [hops, List.mem_cons]
          simpa using hread frame
      · exact WebsocketSession.pop_writeFailed.trans hf
    | some ec =>
      exact ⟨.conversing reading false, by cases reading <;> rfl,
        .conversing hj (hread frame) rfl⟩
  | close s ec =>
    cases hop
    obtain ⟨writing, rfl, hops, hj⟩ := h.close hok hm
    refine ⟨.refused writing false, by cases writing <;> rfl, .refused ?_ ?_⟩
    · rw [← erase_close, ← hops]
      cases ec <;> rfl
    · cases ec <;> exact hj
  | write401 s res ec =>
    cases hop
    obtain ⟨closing, rfl, hops, hj⟩ := h.write401 hok hm
    refine ⟨.refused none closing, if_pos rfl, .refused ?_ ?_⟩
    · rw [← erase_write401 res, ← hops]
      cases ec <;> rfl
    · cases ec <;> exact hj

/-- The handshake succeeds: the session is greeted and reads. -/
theorem Describes.accepted (h : Describes phase (some o)) (hok : o.Ok 0) (hm : .accept ∈ o.ops)
    (env : Env) (s : Ptr) (time : Nat) (id : Bytes) (joined : Nat) : ∃ phase',
      (life env).next phase (.accept s none time) = some phase' ∧
        Describes phase' (some (o.accepted id joined).release) := by
  obtain rfl := h.accept hok hm
  obtain ⟨-, -, -, -, hq⟩ := hok.accepting hm
  have hf : o.writeFailed = false := by
    rw [← Bool.not_eq_true]
    exact fun hf => (hok.pump.failed hf).2 hq
  refine ⟨.conversing true true, rfl, .conversing ?_ (iff_of_true List.mem_cons_self rfl) ?_⟩
  · show (WebsocketSession.push _ _).joined ≠ none
    simp
  · show (WebsocketSession.push _ _).writeFailed = _
    rw [WebsocketSession.push_writeFailed]
    exact hf

/-- A message is read: the session reads again, whatever the broadcast has queued for it. -/
theorem Describes.received {o' : WebsocketSession} (h : Describes phase (some o))
    (hm : .read ∈ o.ops) (hj' : o'.joined = o.joined) (hf' : o'.writeFailed = o.writeFailed)
    (env : Env) (s : Ptr) (text : Bool) (bytes : Bytes) : ∃ phase',
      (life env).next phase (.read s none text bytes) = some phase' ∧
        Describes phase' (some o'.rearm.release) := by
  obtain ⟨writable, rfl, hj, hf⟩ := h.read hm
  exact ⟨.conversing true writable, rfl,
    .conversing (hj'.trans_ne hj) (iff_of_true List.mem_cons_self rfl) (hf'.trans hf)⟩

/-- An event of the session moves it to the next phase. -/
theorem Describes.own (hw : w.Inv) (env : Env) {e : Event} (he : w.enabled e = true)
    (h : Describes phase (w.session e.session)) : ∃ phase',
      (life env).next phase e = some phase' ∧
        Describes phase' ((w.effect env e).session e.session) := by
  have hquiet {op : Op} (hq : e.quiet = true) (hop : e.op? = some op)
      (heff : w.effect env e = w.settle e.session ((w.object e.session).handled e)) :
      ∃ phase', (life env).next phase e = some phase' ∧
        Describes phase' ((w.effect env e).session e.session) := by
    obtain ⟨o, ho, hm⟩ := exists_of_enabled he hop
    rw [heff, object_eq ho,
      hw.settle_self ho (WebsocketSession.handled_kept o e).connectionId]
    exact Describes.quiet (ho ▸ h) (hw.objects _ o ho) env hq hop hm
  cases e with
  | upgrade s req now =>
    have hs : s ≠ nullptr ∧ w.session s = none := by simpa [enabled] using he
    obtain ⟨phase', hn, hd⟩ := Describes.upgrade env (hs.2 ▸ h) s req now
    exact ⟨phase', hn, (put_self w s _).symm ▸ hd⟩
  | accept s ec time =>
    cases ec with
    | some ec => exact hquiet rfl rfl rfl
    | none =>
      obtain ⟨o, ho, hm⟩ : ∃ o, w.session s = some o ∧ Op.accept ∈ o.ops :=
        exists_of_enabled he rfl
      have hself : (w.effect env (.accept s none time)).session s =
          some ((w.object s).accepted (generateRandomString env 16 time)
            w.history.length).release := put_self w s _
      rw [show (Event.accept s none time).session = s from rfl, hself, object_eq ho]
      exact Describes.accepted (ho ▸ h) (hw.objects _ o ho) hm env s time _ _
  | read s ec text bytes =>
    cases ec with
    | some ec => exact hquiet rfl rfl rfl
    | none =>
      obtain ⟨o, ho, hm⟩ : ∃ o, w.session s = some o ∧ Op.read ∈ o.ops :=
        exists_of_enabled he rfl
      have hobj := (relay_object w s (o.received text bytes) bytes).2
      have hself : (w.effect env (.read s none text bytes)).session s =
          some (((w.enter s ((w.object s).received text bytes)).relay bytes).object
            s).rearm.release := put_self _ s _
      rw [show (Event.read s none text bytes).session = s from rfl, hself, object_eq ho, hobj]
      refine Describes.received (ho ▸ h) hm ?_ ?_ env s text bytes
      · split
        · exact WebsocketSession.push_joined _
        · rfl
      · split
        · exact WebsocketSession.push_writeFailed _
        · rfl
  | write s frame ec => exact hquiet rfl rfl rfl
  | close s ec => exact hquiet rfl rfl rfl
  | write401 s res ec => exact hquiet rfl rfl rfl

/-- The events of other sessions do not move it. -/
theorem Describes.other (hw : w.Inv) (env : Env) {e : Event} (he : w.enabled e = true)
    (hp : p ≠ e.session) (h : Describes phase (w.session p)) :
    Describes phase ((w.effect env e).session p) := by
  obtain hsame | ⟨ss, hm, hpush⟩ := hw.effect_ne env he hp
  · rw [hsame]
    exact h
  · rw [hpush]
    obtain ⟨id, hl⟩ := mem_members.mp hm
    obtain ⟨o, ho, -⟩ := hw.entries id p hl
    change w.session p = some o at ho
    have hj := hw.registered p o hm ho
    rw [ho] at h ⊢
    cases h with
    | handshaking _ joined | refused _ joined => exact absurd joined hj
    | conversing joined read failed =>
      refine .conversing (by simpa using hj) ?_ (by simpa using failed)
      rw [← read]
      refine ⟨WebsocketSession.read_mem_push, fun hr => ?_⟩
      obtain hops | ⟨f, hops⟩ := WebsocketSession.push_ops o ss
      · rw [hops]
        exact hr
      · rw [hops]
        exact List.mem_cons_of_mem _ hr

/-- **The server refines the life of each session**: the events of the others are stutters. -/
theorem simulates (env : Env) (p : Ptr) : Sys.Simulates (server env) (life env)
    (fun _ _ _ => True) (Sys.keep fun e => e.session == p)
    (fun w phase => Describes phase (w.session p)) where
  init := .unborn
  step := by
    rintro w e w' phase hr h hn -
    have hw := reach_inv hr
    obtain ⟨he, views, rfl⟩ := next_cases hw hn
    by_cases hp : e.session = p
    · subst hp
      obtain ⟨phase', hnext, hd⟩ := h.own hw env he
      exact ⟨phase', by simpa [Sys.keep] using hnext, hd⟩
    · exact ⟨phase, by simp [Sys.keep, hp], h.other hw env he (Ne.symm hp)⟩

/-- The events that the phase allows can happen, if a write is of the outstanding frame. -/
theorem Describes.enabled (h : Describes phase (w.session p)) {e : Event} (hp : e.session = p)
    (hnull : p ≠ nullptr) (hwrite : ∀ s frame ec, e ≠ .write s frame ec)
    (hn : ((life env).next phase e).isSome) : w.enabled e = true := by
  subst hp
  generalize hs : w.session e.session = x at h
  cases h with
  | unborn =>
    cases e with
    | upgrade s req now => simpa [Server.enabled] using ⟨hnull, hs⟩
    | _ => simp [life] at hn
  | handshaking ops =>
    cases e with
    | accept s ec time => exact enabled_of_mem hs (by rw [ops]; exact List.mem_cons_self) rfl
    | _ => simp [life] at hn
  | @refused o writing closing ops =>
    cases e with
    | write401 s res ec =>
      obtain ⟨rfl⟩ : writing = some res := by
        cases writing <;> cases closing <;> simp [life] at hn <;> simp [hn]
      exact enabled_of_mem hs (by rw [ops]; exact List.mem_cons_self) rfl
    | close s ec =>
      obtain rfl : closing = true := by
        cases writing <;> cases closing <;> simp [life] at hn <;> rfl
      exact enabled_of_mem hs (by simp [ops, refusal]) rfl
    | _ => cases writing <;> cases closing <;> simp [life] at hn
  | @conversing o reading writable joined read =>
    cases e with
    | read s ec text bytes =>
      obtain rfl : reading = true := by
        cases reading <;> cases writable <;> simp [life] at hn <;> rfl
      exact enabled_of_mem hs (read.mpr rfl) rfl
    | write s frame ec => exact absurd rfl (hwrite s frame ec)
    | _ => cases reading <;> cases writable <;> simp [life] at hn

end Life

/-- **The life of a session.** In a run of the server the events of a session are a run of `life`,
to a phase that describes the session. It is destroyed exactly when nothing is outstanding any more.
And what the phase allows, other than a write, can happen. -/
theorem lifeCycle {env : Env} {es : List Server.Event} {w : Server} (hr : (server env).Runs es w)
    (p : Ptr) : ∃ phase, (life env).Runs (es.filter fun e => e.session == p) phase ∧
      phase.Describes (w.session p) ∧
      (∀ o, w.session p = some o → (o.destroyed = true ↔ o.ops = [])) ∧
      ∀ e : Server.Event, e.session = p → p ≠ nullptr → (∀ s frame ec, e ≠ .write s frame ec) →
        (w.enabled e = true ↔ ((life env).next phase e).isSome) := by
  obtain ⟨phase, hrun, hd⟩ := (Life.simulates env p).run hr fun _ _ _ _ _ _ _ => trivial
  rw [Sys.labels_keep _ hr] at hrun
  have hw := Server.reach_inv hr.reach
  refine ⟨phase, hrun, hd, fun o ho => hw.destroyed_iff ho, fun e hp hnull hwrite => ⟨?_, ?_⟩⟩
  · intro he
    subst hp
    obtain ⟨phase', hn, -⟩ := hd.own hw env he
    rw [hn]
    rfl
  · exact hd.enabled hp hnull hwrite

/-- The close of the refused client has completed, and its response is still being written. -/
theorem lifeCycle_twoTokens : ∃ w phase, (server gateEnv).Runs twoTokens w ∧
    (life gateEnv).Runs (twoTokens.filter fun e => e.session == 1) phase ∧
      phase.Describes (w.session 1) ∧ ∃ res, phase = .refused (some res) false := by
  have hr : (server gateEnv).Runs twoTokens _ := rfl
  obtain ⟨phase, hrun, hd, -⟩ := lifeCycle hr 1
  have hphase : (life gateEnv).Runs (twoTokens.filter fun e => e.session == 1)
      (.refused (some _) false) := rfl
  exact ⟨_, phase, hr, hrun, hd, _, hrun.unique hphase⟩

end ChatServer
