import ChatServer.Complete
import ChatServer.Lib.Room

/-!
# The server is a chat room

The clients of the room are the sessions, their names the connection ids. A member's outbox is
what the session has written and what it has queued. While no two accepted sessions have one id,
the members of the room are the sessions in the registry, and the server is simulated by the room.

* `roomEvents`: what a step is in the room. `Sim`: the simulation relation.
* `serverRefinesRoom`: every run of the server is one of the room.
-/

namespace ChatServer

open Lib

/-- The session as a member of the room. -/
def Entry.member? (x : Entry) : Option (Member Bytes Bytes) :=
  if x.joined.isSome && !x.destroyed then some ⟨x.connectionId, x.sent.map (·.str)⟩ else none

namespace Server

variable {env : Env} {w w' : Server} {s p : Ptr} {e : Event}

/-- The room of the server. -/
abbrev chatRoom : Sys (Room Ptr Bytes Bytes) (RoomEvent Ptr Bytes Bytes) := room greeting notice

/-- The session at `s` had been accepted, and the step has destroyed it. -/
def leaves (w : Server) (s : Ptr) (w' : Server) : Bool :=
  match w.session s, w'.session s with
  | some o, some o' => o.joined.isSome && !o.destroyed && o'.destroyed
  | _, _ => false

/-- A step of the server in the room: a successful `on_accept` joins, a successful `on_read` says
the bytes of the message, the destruction of an accepted session leaves. -/
def roomEvents (env : Env) (w : Server) (e : Event) (w' : Server) :
    List (RoomEvent Ptr Bytes Bytes) :=
  match e with
  | .accept s none time => [.join s (generateRandomString env 16 time)]
  | .read s none _ bytes => [.say s bytes]
  | e => if w.leaves e.session w' then [.leave e.session] else []

/-- The accepted sessions as a room. -/
def asRoom (w : Server) : Room Ptr Bytes Bytes := fun p => (w.ledger p).bind (·.member?)

theorem leaves_eq (w : Server) (s : Ptr) (w' : Server) : w.leaves s w' =
    match w.ledger s, w'.ledger s with
    | some x, some y => x.joined.isSome && !x.destroyed && y.destroyed
    | _, _ => false := by
  unfold leaves ledger
  cases w.session s <;> cases w'.session s <;> rfl

/-- Who was accepted and live leaves in the step that destroys it. -/
theorem leaves_of_destroyed {x : Entry} {ss : SharedString} {l : List Ptr}
    (was : w.ledger s = some x) (live : x.joined ≠ none ∧ x.destroyed = false)
    (ledger : w'.ledger =
      posted ss l (Function.update w.ledger s (some { x with destroyed := true }))) :
    w.leaves s w' = true := by
  obtain ⟨y, hy, hd⟩ : ∃ y, w'.ledger s = some y ∧ y.destroyed = true := by
    rw [ledger]
    unfold posted
    rw [Function.update_self]
    split <;> exact ⟨_, rfl, rfl⟩
  rw [leaves_eq, was, hy]
  simp [live.2, hd, Option.isSome_iff_ne_none.mpr live.1]

theorem roomEvents_quiet (hq : e.quiet = true) : roomEvents env w e w' =
    if w.leaves e.session w' then [.leave e.session] else [] := by
  unfold roomEvents
  cases e with
  | upgrade s req now => rfl
  | accept s ec time => cases ec <;> [cases hq; rfl]
  | read s ec text bytes => cases ec <;> [cases hq; rfl]
  | write s frame ec => rfl
  | close s ec => rfl
  | write401 s res ec => rfl

/-! ## Each step is one of the room -/

theorem Live.member {x : Entry} (h : w.Live s x) :
    w.asRoom s = some ⟨x.connectionId, x.sent.map (·.str)⟩ := by
  unfold asRoom Entry.member?
  rw [h.entry]
  simp [h.alive, Option.isSome_iff_ne_none.mpr h.joined]

theorem live_of_asRoom {m : Member Bytes Bytes} (h : w.asRoom s = some m) : ∃ x, w.Live s x := by
  obtain ⟨x, hx, hm⟩ := Option.bind_eq_some_iff.mp h
  unfold Entry.member? at hm
  split at hm
  · rename_i hc
    simp only [Bool.and_eq_true, Option.isSome_iff_ne_none, Bool.not_eq_true'] at hc
    exact ⟨x, hx, hc.1, hc.2⟩
  · cases hm

theorem member?_post (x : Entry) (ss : SharedString) :
    (x.post ss).member? = x.member?.map (·.receive ss.str) := by
  unfold Entry.member?
  rw [post_joined, post_destroyed]
  split
  · simp [Member.receive]
  · rfl

/-- A broadcast to a complete registry is an announcement to the room. -/
theorem asRoom_posted {ss : SharedString} {f : Ptr → Option Entry} (h : w.Complete)
    (hl : w.ledger = posted ss w.members f) :
    w.asRoom = Room.announce (fun p => (f p).bind (·.member?)) ss.str := by
  rw [complete_iff] at h
  funext p
  unfold Room.announce
  by_cases hp : p ∈ w.members
  · unfold asRoom
    rw [hl, posted, if_pos hp]
    cases hf : f p with
    | none => simp [hf]
    | some x => simpa [hf] using member?_post x ss
  · have hroom : w.asRoom p = (f p).bind (·.member?) := by
      unfold asRoom
      rw [hl, posted, if_neg hp]
    have hnone : w.asRoom p = none := by
      cases hm : w.asRoom p with
      | none => rfl
      | some m =>
        obtain ⟨x, hx⟩ := live_of_asRoom hm
        exact absurd (mem_members.mpr ⟨_, h p x hx⟩) hp
    show w.asRoom p = ((f p).bind (·.member?)).map _
    rw [← hroom, hnone]
    rfl

/-- **A step is simulated by the room.** -/
theorem Complete.roomStep (h : w.Complete) (ht : Turn env w e w') (hf : FreshId env w e w') :
    chatRoom.exec w.asRoom (roomEvents env w e w') = some w'.asRoom := by
  have hc := h.step ht hf
  cases ht with
  | @opened s req now _ fresh sessions history ledger =>
    have hev : roomEvents env w (.upgrade s req now) w' = [] := by
      simp [roomEvents, leaves, fresh, Event.session]
    rw [hev, Sys.exec_nil]
    congr 1
    funext p
    unfold asRoom
    rw [ledger]
    by_cases hp : p = s
    · subst hp
      simp [Server.ledger, fresh, Entry.member?]
    · rw [Function.update_of_ne hp]
  | @joined s time _ was sessions history ledger =>
    have habs : w.asRoom s = none := by
      unfold asRoom; rw [was]; rfl
    refine (Sys.exec_singleton _ _).trans ((Room.next_join habs _).trans ?_)
    congr 1
    funext p
    by_cases hp : p = s
    · subst hp
      unfold asRoom
      rw [ledger, Function.update_self, Function.update_self]
      rfl
    · rw [Function.update_of_ne hp]
      unfold asRoom
      rw [ledger, Function.update_of_ne hp]
  | said was live sessions history ledger =>
    have hm := Live.member ⟨was, live.1, live.2⟩
    refine (Sys.exec_singleton _ _).trans ((Room.next_say hm _).trans ?_)
    rw [asRoom_posted hc ledger]
    rfl
  | @left _ _ x quiet was live sessions history ledger =>
    have hm := Live.member ⟨was, live.1, live.2⟩
    have hev : roomEvents env w e w' = [.leave e.session] := by
      rw [roomEvents_quiet quiet, if_pos (leaves_of_destroyed was live ledger)]
    rw [hev]
    refine (Sys.exec_singleton _ _).trans ((Room.next_leave hm).trans ?_)
    rw [asRoom_posted hc ledger]
    congr 2
    funext p
    unfold Room.remove
    by_cases hp : p = e.session
    · subst hp
      simp [Entry.member?]
    · rw [Function.update_of_ne hp, Function.update_of_ne hp]
      rfl
  | dropped quiet was sessions history ledger =>
    have hev : roomEvents env w e w' = [] := by
      rw [roomEvents_quiet quiet, leaves_eq, was, ledger, Function.update_self]
      rfl
    rw [hev, Sys.exec_nil]
    congr 1
    funext p
    unfold asRoom
    rw [ledger]
    by_cases hp : p = e.session
    · subst hp
      rw [was, Function.update_self]
      rfl
    · rw [Function.update_of_ne hp]
  | stays quiet sessions history ledger =>
    have hev : roomEvents env w e w' = [] := by
      rw [roomEvents_quiet quiet, leaves_eq, ledger]
      cases w.ledger e.session <;> simp
    rw [hev, Sys.exec_nil]
    unfold asRoom
    rw [ledger]

/-- The server is simulated by the room while each handshake draws a fresh id. -/
theorem simulates (env : Env) : Sys.Simulates (server env) chatRoom (FreshId env) (roomEvents env)
    (fun w r => w.Complete ∧ w.asRoom = r) where
  init := ⟨Complete.nil, rfl⟩
  step := by
    rintro w e w' r hr ⟨hc, rfl⟩ hn hf
    have ht := (reach_inv hr).step_turn hn
    exact ⟨_, hc.roomStep ht hf, hc.step ht hf, rfl⟩

end Server

open Server in
/-- **The server refines the chat room.** On a run along which no two accepted sessions have one
id, the steps of the server, each seen as its `roomEvents`, are a run of the room. The members are
the sessions in the registry, and a member's outbox is what its session has written and what it
has queued. Whoever waits for a message has an empty buffer. -/
theorem serverRefinesRoom {env : Env} {es : List Server.Event} {w : Server}
    (hr : (server env).Runs es w) (hd : (server env).Along Distinct es) :
    ∃ r, chatRoom.Runs ((server env).labels (roomEvents env) (server env).init es) r ∧
      (∀ s, (∃ id, w.sessions.lookup id = some s) ↔ (r s).isSome) ∧
      (∀ id s o, w.sessions.lookup id = some s → w.session s = some o →
        r s = some ⟨id, (o.written ++ o.queue).map (·.str)⟩) ∧
      ∀ s o, w.session s = some o → .read ∈ o.ops → o.buffer = [] := by
  have hw := reach_inv hr.reach
  obtain ⟨r, hroom, hc, rfl⟩ := (simulates env).run hr (meets_fresh hd)
  have hmember : ∀ id s o, w.sessions.lookup id = some s → w.session s = some o →
      w.asRoom s = some ⟨id, (o.written ++ o.queue).map (·.str)⟩ := by
    intro id s o hl ho
    obtain ⟨x, hx, hj, ha, hid⟩ := hw.lookup_ledger hl
    have he : o.entry = x := Option.some.inj ((ledger_eq ho).symm.trans hx)
    rw [← (hw.objects s o ho).pump.sent, ← hid, Live.member ⟨hx, hj, ha⟩, ← he]
    rfl
  refine ⟨w.asRoom, hroom, fun s => ⟨?_, fun h => ?_⟩, hmember,
    fun s o ho hm => ((hw.objects s o ho).reading hm).1⟩
  · rintro ⟨id, hl⟩
    obtain ⟨x, hx, hj, ha, -⟩ := hw.lookup_ledger hl
    rw [Live.member ⟨hx, hj, ha⟩]
    rfl
  · obtain ⟨m, hm⟩ := Option.isSome_iff_exists.mp h
    obtain ⟨x, hx⟩ := live_of_asRoom hm
    exact ⟨x.connectionId, complete_iff.mp hc s x hx⟩

open Server

/-- Two clients join in two seconds, and the first says a word. -/
def hello : List Server.Event :=
  [.upgrade 1 {} 1, .accept 1 none 1, .upgrade 2 {} 2, .accept 2 none 2,
    .read 1 none true (ascii "hi")]

theorem hello_fresh : (server secondsEnv).Meets (FreshId secondsEnv) hello := by
  intro es e hp w w' hr hn
  rintro s time rfl p o ho
  -- The events before one of the two handshakes.
  obtain ⟨rfl, rfl, rfl⟩ | ⟨rfl, rfl, rfl⟩ : (es = [.upgrade 1 {} 1] ∧ s = 1 ∧ time = 1) ∨
      (es = [.upgrade 1 {} 1, .accept 1 none 1, .upgrade 2 {} 2] ∧ s = 2 ∧ time = 2) := by
    rcases es with _ | ⟨a, _ | ⟨b, _ | ⟨c, _ | ⟨d, _ | ⟨f, es⟩⟩⟩⟩⟩ <;>
      simp_all [hello, List.cons_prefix_cons]
  · obtain ⟨req, now, hm⟩ := upgrade_mem hr ho.live.entry
    obtain ⟨rfl, -⟩ : p = 1 ∧ _ := by simpa using hm
    obtain rfl := hr.unique rfl
    cases ho.session
    exact absurd rfl ho.joined
  · obtain ⟨req, now, hm⟩ := upgrade_mem hr ho.live.entry
    obtain ⟨rfl, -⟩ | ⟨rfl, -⟩ : (p = 1 ∧ _) ∨ (p = 2 ∧ _) := by simpa using hm
    · obtain rfl := hr.unique rfl
      cases ho.session
      decide
    · obtain rfl := hr.unique rfl
      cases ho.session
      exact absurd rfl ho.joined

theorem serverRefinesRoom_hello : ∃ w r, (server secondsEnv).Runs hello w ∧
    chatRoom.Runs ((server secondsEnv).labels (roomEvents secondsEnv) {} hello) r ∧
    ∀ id s o, w.sessions.lookup id = some s → w.session s = some o →
      r s = some ⟨id, (o.written ++ o.queue).map (·.str)⟩ := by
  have hr : (server secondsEnv).Runs hello _ := rfl
  obtain ⟨r, hroom, -, hout, -⟩ := serverRefinesRoom hr
    ((along_complete hello_fresh).mono fun _ h => h.distinct)
  exact ⟨_, r, hr, hroom, hout⟩

end ChatServer
