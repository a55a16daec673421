import ChatServer.Refinement
import ChatServer.Lib.Board

/-!
# The server when ids collide

Two handshakes in one second give two sessions one id. `connect` then overwrites the first one's
entry, and the destructor of either erases the entry of the other. Whatever ids the sessions have,
and whatever fails, the server is a room with one line for each id: the registry is the lines.

* `asBoard`: the server as such a room. `boardStep`: each step is one of the room, with the same
  `roomEvents` as in the room of distinct ids.
* `serverRefinesBoard`: every run of the server is one of the room with lines.
* `registryHolder`: who is in the registry, in terms of who joined and left.
-/

namespace ChatServer

open Lib

/-- The session as a visitor, if it has joined. -/
def Entry.visitor? (x : Entry) : Option (Visitor Bytes Bytes) :=
  if x.joined.isSome then some ⟨x.connectionId, x.sent.map (·.str), !x.destroyed⟩ else none

namespace Server

variable {env : Env} {w w' : Server} {s p : Ptr} {e : Event}

/-- The room of the server, with lines. -/
abbrev chatBoard : Sys (Board Ptr Bytes Bytes) (RoomEvent Ptr Bytes Bytes) := board greeting notice

/-- The registry, and the sessions that have joined. -/
def asBoard (w : Server) : Board Ptr Bytes Bytes :=
  ⟨fun id => w.sessions.lookup id, fun p => (w.ledger p).bind (·.visitor?)⟩

theorem visitor?_joined {x : Entry} (h : x.joined ≠ none) :
    x.visitor? = some ⟨x.connectionId, x.sent.map (·.str), !x.destroyed⟩ :=
  if_pos (Option.isSome_iff_ne_none.mpr h)

theorem asBoard_visitor {x : Entry} (hx : w.ledger p = some x) (hj : x.joined ≠ none) :
    w.asBoard.visitor p = some ⟨x.connectionId, x.sent.map (·.str), !x.destroyed⟩ := by
  show (w.ledger p).bind _ = _
  rw [hx, Option.bind_some, visitor?_joined hj]

theorem visitor?_post (x : Entry) (ss : SharedString) :
    (x.post ss).visitor? = x.visitor?.map (·.receive ss.str) := by
  unfold Entry.visitor?
  rw [post_joined]
  split
  · simp [Visitor.receive]
  · rfl

theorem visitor?_name {x : Entry} {v : Visitor Bytes Bytes} (h : x.visitor? = some v) :
    v.name = x.connectionId := by
  unfold Entry.visitor? at h
  split at h
  · cases h; rfl
  · cases h

/-- A broadcast is an announcement: the sessions in the registry have the lines of their ids. -/
theorem asBoard_posted (hw : w'.Inv) {ss : SharedString} {f : Ptr → Option Entry}
    (hl : w'.ledger = posted ss w'.members f) : w'.asBoard =
      Board.announce ⟨fun id => w'.sessions.lookup id, fun p => (f p).bind (·.visitor?)⟩
        ss.str := by
  have hline {p : Ptr} {x : Entry} {v : Visitor Bytes Bytes} (hx : f p = some x)
      (hv : x.visitor? = some v) : w'.sessions.lookup v.name = some p ↔ p ∈ w'.members := by
    refine ⟨fun h => mem_members.mpr ⟨_, h⟩, fun h => ?_⟩
    obtain ⟨id, hid⟩ := mem_members.mp h
    obtain ⟨y, hy, -, -, rfl⟩ := hw.lookup_ledger hid
    rw [hl] at hy
    obtain ⟨x', hx', rfl⟩ := posted_some hy
    obtain rfl := Option.some.inj (hx.symm.trans hx')
    rw [if_pos h] at hid
    rw [visitor?_name hv]
    exact hid
  show Board.mk _ _ = Board.mk _ _
  congr 1
  funext p
  rw [hl]
  show (posted _ _ f p).bind _ = ((f p).bind _).map _
  unfold posted
  cases hx : f p with
  | none => split <;> rfl
  | some x =>
    cases hv : x.visitor? with
    | none =>
      by_cases hp : p ∈ w'.members
      · rw [if_pos hp]
        simp [visitor?_post, hv]
      · rw [if_neg hp]
        simp [hv]
    | some v =>
      by_cases hp : p ∈ w'.members
      · rw [if_pos hp]
        simp [visitor?_post, hv, (hline hx hv).mpr hp]
      · rw [if_neg hp]
        simp [hv, mt (hline hx hv).mp hp]

/-- A step that only changes the entry of one session. -/
theorem asBoard_update {x : Entry} (hl : w'.ledger = Function.update w.ledger s (some x)) :
    w'.asBoard.visitor = Function.update w.asBoard.visitor s x.visitor? := by
  funext p
  show (w'.ledger p).bind _ = _
  rw [hl]
  by_cases hp : p = s
  · subst hp
    rw [Function.update_self, Function.update_self]
    rfl
  · rw [Function.update_of_ne hp, Function.update_of_ne hp]
    rfl

/-- A step that is none of the room. -/
theorem asBoard_same {x : Entry} (sessions : w'.sessions = w.sessions)
    (hl : w'.ledger = Function.update w.ledger s (some x))
    (hx : x.visitor? = w.asBoard.visitor s) : w'.asBoard = w.asBoard := by
  have hv := asBoard_update hl
  rw [hx, Function.update_eq_self] at hv
  have hlines : w'.asBoard.line = w.asBoard.line := by
    show (fun id => w'.sessions.lookup id) = _
    rw [sessions]
    rfl
  exact congrArg₂ Board.mk hlines hv

/-- **A step is simulated by the room with lines.** -/
theorem Turn.boardStep (ht : Turn env w e w') (hw : w'.Inv) :
    chatBoard.exec w.asBoard (roomEvents env w e w') = some w'.asBoard := by
  have hvisitor {s : Ptr} {x : Entry} (was : w.ledger s = some x) :
      w.asBoard.visitor s = x.visitor? := by
    show (w.ledger s).bind _ = _
    rw [was]
    rfl
  cases ht with
  | @opened s req now _ fresh sessions history ledger =>
    have hev : roomEvents env w (.upgrade s req now) w' = [] := by
      simp [roomEvents, leaves, fresh, Event.session]
    have habs : w.asBoard.visitor s = none := by
      show (w.ledger s).bind _ = _
      unfold Server.ledger
      rw [fresh]
      rfl
    rw [hev, Sys.exec_nil, asBoard_same sessions ledger habs.symm]
  | @joined s time _ was sessions history ledger =>
    have habs : w.asBoard.visitor s = none := hvisitor was
    refine (Sys.exec_singleton _ _).trans ((Board.next_join habs _).trans ?_)
    have hlines : w'.asBoard.line =
        Function.update w.asBoard.line (generateRandomString env 16 time) (some s) := by
      funext id
      show w'.sessions.lookup id = _
      rw [sessions]
      by_cases hid : id = generateRandomString env 16 time
      · subst hid
        rw [AList.lookup_insert, Function.update_self]
      · rw [AList.lookup_insert_ne hid, Function.update_of_ne hid]
        rfl
    exact congrArg some (congrArg₂ Board.mk hlines (asBoard_update ledger)).symm
  | @said s text bytes _ x was live sessions history ledger =>
    have hv := (hvisitor was).trans (visitor?_joined live.1)
    refine (Sys.exec_singleton _ _).trans ((Board.next_say hv (by simp [live.2]) _).trans ?_)
    rw [asBoard_posted hw ledger, sessions]
    rfl
  | @left _ _ x quiet was live sessions history ledger =>
    have hv := (hvisitor was).trans (visitor?_joined live.1)
    have hev : roomEvents env w e w' = [.leave e.session] := by
      rw [roomEvents_quiet quiet, if_pos (leaves_of_destroyed was live ledger)]
    rw [hev]
    refine (Sys.exec_singleton _ _).trans ((Board.next_leave hv (by simp [live.2])).trans ?_)
    rw [asBoard_posted hw ledger]
    refine congrArg some (congrArg (Board.announce · _) (congrArg₂ Board.mk ?_ ?_))
    · funext id
      rw [sessions]
      by_cases hid : id = x.connectionId
      · subst hid
        rw [AList.lookup_erase, Function.update_self]
      · rw [AList.lookup_erase_ne hid, Function.update_of_ne hid]
        rfl
    · funext p
      by_cases hp : p = e.session
      · subst hp
        rw [Function.update_self, Function.update_self, Option.bind_some]
        exact (visitor?_joined (x := { x with destroyed := true }) live.1).symm
      · rw [Function.update_of_ne hp, Function.update_of_ne hp]
        rfl
  | dropped quiet was sessions history ledger =>
    have hev : roomEvents env w e w' = [] := by
      rw [roomEvents_quiet quiet, leaves_eq, was, ledger, Function.update_self]
      rfl
    rw [hev, Sys.exec_nil, asBoard_same sessions ledger (hvisitor was).symm]
  | stays quiet sessions history ledger =>
    have hev : roomEvents env w e w' = [] := by
      rw [roomEvents_quiet quiet, leaves_eq, ledger]
      cases w.ledger e.session <;> simp
    rw [hev, Sys.exec_nil]
    unfold asBoard
    rw [sessions, ledger]

/-- The server is simulated by the room with lines. -/
theorem simulatesBoard (env : Env) : Sys.Simulates (server env) chatBoard (fun _ _ _ => True)
    (roomEvents env) (fun w b => w.asBoard = b) where
  init := rfl
  step := by
    rintro w e w' b hr rfl hn -
    have hw := reach_inv hr
    exact ⟨_, (hw.step_turn hn).boardStep (inv_step hw hn), rfl⟩

end Server

open Server in
/-- **The server refines the room with lines.** In every run, whatever ids the sessions have and
whatever fails, the steps of the server, each seen as its `roomEvents`, are a run of this room. The
registry is the lines. The visitors are the sessions whose handshake has succeeded, with what they
have written and queued, and the present ones those that are not destroyed. -/
theorem serverRefinesBoard {env : Env} {es : List Server.Event} {w : Server}
    (hr : (server env).Runs es w) :
    ∃ b, chatBoard.Runs ((server env).labels (roomEvents env) (server env).init es) b ∧
      (∀ id, b.line id = w.sessions.lookup id) ∧
      (∀ s o, w.session s = some o → o.joined ≠ none → b.visitor s =
        some ⟨o.connectionId, (o.written ++ o.queue).map (·.str), !o.destroyed⟩) ∧
      ∀ s, (b.visitor s).isSome ↔ ∃ o, w.session s = some o ∧ o.joined ≠ none := by
  have hw := reach_inv hr.reach
  obtain ⟨b, hroom, rfl⟩ := (simulatesBoard env).run hr fun _ _ _ _ _ _ _ => trivial
  have hvisitor : ∀ s o, w.session s = some o → o.joined ≠ none → w.asBoard.visitor s =
      some ⟨o.connectionId, (o.written ++ o.queue).map (·.str), !o.destroyed⟩ := by
    intro s o ho hj
    rw [← (hw.objects s o ho).pump.sent]
    exact asBoard_visitor (ledger_eq ho) hj
  refine ⟨w.asBoard, hroom, fun _ => rfl, hvisitor, fun s => ⟨fun h => ?_, ?_⟩⟩
  · obtain ⟨v, hv⟩ := Option.isSome_iff_exists.mp h
    obtain ⟨x, hx, hxv⟩ := Option.bind_eq_some_iff.mp hv
    obtain ⟨o, ho, rfl⟩ := ledger_some hx
    refine ⟨o, ho, fun hj => ?_⟩
    have hnone : o.entry.visitor? = none := if_neg (by simp [WebsocketSession.entry, hj])
    rw [hnone] at hxv
    cases hxv
  · rintro ⟨o, ho, hj⟩
    rw [hvisitor s o ho hj]
    rfl

open Server in
/-- Both sessions of `collision` are present, and the line of their id is the second one's. -/
theorem serverRefinesBoard_collision : ∃ w b, (server plainEnv).Runs collision w ∧
    chatBoard.Runs ((server plainEnv).labels (roomEvents plainEnv) {} collision) b ∧
    ∀ id, b.line id = w.sessions.lookup id := by
  have hr : (server plainEnv).Runs collision _ := rfl
  obtain ⟨b, hroom, hline, -⟩ := serverRefinesBoard hr
  exact ⟨_, b, hr, hroom, hline⟩

open Server in
/-- **Who is in the registry.** The registry has a session under an id exactly if this session was
the last to join with the id, and neither it nor any that had joined with the id before has left
since. -/
theorem registryHolder {env : Env} {es : List Server.Event} {w : Server}
    (hr : (server env).Runs es w) (id : Bytes) (s : Ptr) :
    w.sessions.lookup id = some s ↔
      Board.LastJoin ((server env).labels (roomEvents env) (server env).init es) id s := by
  obtain ⟨b, hroom, rfl⟩ := (simulatesBoard env).run hr fun _ _ _ _ _ _ _ => trivial
  exact Board.line_iff hroom

open Server in
theorem registryHolder_collision : Board.LastJoin
    ((server plainEnv).labels (roomEvents plainEnv) {} collision)
    (generateRandomString plainEnv 16 0) 2 := by
  have hr : (server plainEnv).Runs collision _ := rfl
  exact (registryHolder hr _ 2).mp (by decide)

end ChatServer
