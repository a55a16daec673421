import ChatServer.Pump
import ChatServer.Server

/-!
# One session object between two handlers

* `opened`, `accepted`, `received`, `rearm`, `handled`, `release`: what the handlers do to the
  object they belong to, in closed form.
* `WebsocketSession.Ok k`: the invariant of one object of which `k` owners are not handlers of
  outstanding operations: 1 while its handler runs, else 0. There is one lemma for each of the
  closed forms.
-/

namespace ChatServer

open Lib

/-! ## What `send` changes -/

namespace WebsocketSession

variable {o : WebsocketSession}

@[simp] theorem push_connectionId (ss : SharedString) :
    (o.push ss).connectionId = o.connectionId := by
  unfold push startWrite; split <;> (try split) <;> rfl

@[simp] theorem push_destroyed (ss : SharedString) : (o.push ss).destroyed = o.destroyed := by
  unfold push startWrite; split <;> (try split) <;> rfl

@[simp] theorem push_joined (ss : SharedString) : (o.push ss).joined = o.joined := by
  unfold push startWrite; split <;> (try split) <;> rfl

@[simp] theorem push_buffer (ss : SharedString) : (o.push ss).buffer = o.buffer := by
  unfold push startWrite; split <;> (try split) <;> rfl

@[simp] theorem push_ws (ss : SharedString) : (o.push ss).ws = o.ws := by
  unfold push startWrite; split <;> (try split) <;> rfl

theorem startWrite_buffer (o : WebsocketSession) : o.startWrite.buffer = o.buffer := by
  obtain ⟨_, _, _, h⟩ := startWrite_eq o; rw [h]

theorem startWrite_ws (o : WebsocketSession) : o.startWrite.ws = o.ws := by
  obtain ⟨_, _, _, h⟩ := startWrite_eq o; rw [h]

/-- The operations after `startWrite`: maybe a write more. -/
theorem startWrite_ops (o : WebsocketSession) :
    o.startWrite.ops = o.ops ∨ ∃ frame, o.startWrite.ops = .write frame :: o.ops := by
  unfold startWrite
  split
  · exact .inl rfl
  · exact .inr ⟨_, rfl⟩

theorem push_ops (o : WebsocketSession) (ss : SharedString) :
    (o.push ss).ops = o.ops ∨ ∃ frame, (o.push ss).ops = .write frame :: o.ops := by
  unfold push
  split
  · exact startWrite_ops { o with queue := [ss], sent := o.sent ++ [ss] }
  · exact .inl rfl

theorem pop_ops (o : WebsocketSession) :
    o.pop.ops = o.ops ∨ ∃ frame, o.pop.ops = .write frame :: o.ops :=
  startWrite_ops _

theorem le_push_useCount (ss : SharedString) : o.useCount ≤ (o.push ss).useCount := by
  have h := push_useCount (o := o) ss
  rcases push_ops o ss with he | ⟨f, he⟩ <;> rw [he] at h <;> simp at h <;> omega

theorem push_ops_ne_nil (ss : SharedString) (h : o.ops ≠ []) : (o.push ss).ops ≠ [] := by
  rcases push_ops o ss with he | ⟨f, he⟩ <;> rw [he]
  · exact h
  · simp

end WebsocketSession

/-! ## What the handlers do -/

namespace Server

/-- The operation whose completion an event is. -/
def Event.op? : Event → Option Op
  | .upgrade _ _ _ => none
  | .accept _ _ _ => some .accept
  | .read _ _ _ _ => some .read
  | .write _ frame _ => some (.write frame)
  | .close _ _ => some .close
  | .write401 _ res _ => some (.write401 res)

/-- The handler of the event only touches its object. -/
def Event.quiet : Event → Bool
  | .upgrade _ _ _ | .accept _ none _ | .read _ none _ _ => false
  | _ => true

end Server

namespace WebsocketSession

/-- The object after the handler released its owner. -/
def release (o : WebsocketSession) : WebsocketSession :=
  { o with useCount := o.useCount - 1, destroyed := o.useCount == 1 }

/-- The object after `run`, whose caller still owns it. -/
def opened (env : Env) (req : Request) (now : Nat) : WebsocketSession :=
  match env.verify (extractToken req.target) now with
  | .ok () => { ops := [.accept], useCount := 2, log := [ascii "succeed!"] }
  | .error what =>
    { ops := [.write401 (response401 req what), .close], useCount := 3,
      log := [ascii "token error :" ++ what] }

/-- The object after `on_accept` succeeded: it has the id `id`, and the greeting. -/
def accepted (o : WebsocketSession) (id : Bytes) (joined : Nat) : WebsocketSession :=
  (({ o.finish .accept with connectionId := id, joined := some joined } :
    WebsocketSession).push ⟨greeting id, none⟩).start .read

/-- The object after a read has completed, before its handler runs. -/
def received (o : WebsocketSession) (text : Bool) (bytes : Bytes) : WebsocketSession :=
  { o.finish .read with buffer := o.buffer ++ bytes, ws := { o.ws with gotText := text } }

/-- The object after the end of `on_read`: the next read is outstanding. -/
def rearm (o : WebsocketSession) : WebsocketSession := { o with buffer := [] }.start .read

/-- The object after the handler of a quiet event. -/
def handled (o : WebsocketSession) : Server.Event → WebsocketSession
  | .upgrade _ _ _ => o
  | .accept _ none _ => o
  | .accept _ (some ec) _ => (o.finish .accept).fail ec (ascii "accept")
  | .read _ none _ _ => o
  | .read _ (some ec) text bytes => (o.received text bytes).fail ec (ascii "read")
  | .write _ frame none => (o.finish (.write frame)).pop
  | .write _ frame (some ec) =>
    { (o.finish (.write frame)).fail ec (ascii "write") with writeFailed := true }
  | .close _ ec => (o.finish .close).onClose ec
  | .write401 _ res ec => (o.finish (.write401 res)).onWrite401 ec

variable {o : WebsocketSession}

/-- What `handled` leaves as it is. -/
structure Kept (o o' : WebsocketSession) : Prop where
  connectionId : o'.connectionId = o.connectionId
  joined : o'.joined = o.joined
  destroyed : o'.destroyed = o.destroyed
  sent : o'.sent = o.sent
  useCount : o.useCount ≤ o'.useCount

theorem startWrite_kept (o : WebsocketSession) : o.Kept o.startWrite := by
  have hu := startWrite_useCount (o := o)
  have hle : o.useCount ≤ o.startWrite.useCount := by
    rcases startWrite_ops o with he | ⟨f, he⟩ <;> rw [he] at hu <;> simp at hu <;> omega
  obtain ⟨_, _, _, he⟩ := startWrite_eq o
  exact ⟨by rw [he], by rw [he], by rw [he], by rw [he], hle⟩

theorem handled_kept (o : WebsocketSession) (e : Server.Event) : o.Kept (o.handled e) := by
  have hk : o.Kept o := ⟨rfl, rfl, rfl, rfl, Nat.le_refl _⟩
  cases e with
  | upgrade s req now => exact hk
  | accept s ec time => cases ec <;> exact ⟨rfl, rfl, rfl, rfl, Nat.le_refl _⟩
  | read s ec text bytes => cases ec <;> exact ⟨rfl, rfl, rfl, rfl, Nat.le_refl _⟩
  | write s frame ec =>
    cases ec with
    | some ec => exact ⟨rfl, rfl, rfl, rfl, Nat.le_refl _⟩
    | none =>
      have h := startWrite_kept { o.finish (.write frame) with
        queue := (o.finish (.write frame)).queue.tail
        written := (o.finish (.write frame)).written ++ (o.finish (.write frame)).queue.take 1 }
      exact ⟨h.connectionId, h.joined, h.destroyed, h.sent, h.useCount⟩
  | close s ec => cases ec <;> exact ⟨rfl, rfl, rfl, rfl, Nat.le_refl _⟩
  | write401 s res ec => cases ec <;> exact ⟨rfl, rfl, rfl, rfl, Nat.le_refl _⟩

/-- The operations after a quiet handler: maybe a write more. -/
theorem handled_ops (o : WebsocketSession) {e : Server.Event} {op : Op} (hq : e.quiet = true)
    (hop : e.op? = some op) : (o.handled e).ops = o.ops.erase op ∨
      ∃ frame, (o.handled e).ops = .write frame :: o.ops.erase op := by
  cases e with
  | upgrade s req now => cases hq
  | accept s ec time => cases ec <;> cases hq; cases hop; exact .inl rfl
  | read s ec text bytes => cases ec <;> cases hq; cases hop; exact .inl rfl
  | write s frame ec =>
    cases hop
    cases ec with
    | none => exact pop_ops _
    | some ec => exact .inl rfl
  | close s ec => cases hop; cases ec <;> exact .inl rfl
  | write401 s res ec => cases hop; cases ec <;> exact .inl rfl

end WebsocketSession

/-! ## The invariant -/

namespace WebsocketSession

/-- The invariant of an object (module doc). -/
structure Ok (k : Nat) (o : WebsocketSession) : Prop where
  counted : o.useCount = o.ops.length + k
  alive : o.destroyed = false ↔ 0 < o.useCount
  pump : o.PumpInv
  /-- Before the session is registered: its handshake, or the rejection of its token. -/
  unjoined : o.joined = none → o.connectionId = [] ∧ o.sent = [] ∧ o.buffer = [] ∧
    (o.ops = [] ∨ o.ops = [.accept] ∨ ∀ op ∈ o.ops, op = .close ∨ ∃ res, op = .write401 res)
  /-- From then on it reads and writes messages. -/
  joined : o.joined ≠ none → o.connectionId ≠ [] ∧ ∀ op ∈ o.ops, op = .read ∨ ∃ f, op = .write f
  reading : .read ∈ o.ops → o.buffer = [] ∧ o.ops.count .read = 1
  text : o.ws.text = true ∧ ∀ frame ∈ o.started, frame.text = true

variable {o : WebsocketSession} {k : Nat}

/-- The writes left when another operation than a write completes. -/
theorem writes_finish_of_ne {op : Op} (h : op.frame? = none) : (o.finish op).writes = o.writes := by
  show (o.ops.erase op).filterMap Op.frame? = o.ops.filterMap Op.frame?
  induction o.ops with
  | nil => rfl
  | cons a ops ih =>
    by_cases ha : a = op
    · subst ha; rw [List.erase_cons_head, List.filterMap_cons_none h]
    · rw [List.erase_cons_tail (by simpa using ha), List.filterMap_cons, List.filterMap_cons, ih]

/-- A new frame has the mode of the stream. -/
theorem startWrite_text {frame : Frame} (h : frame ∈ o.startWrite.started) :
    frame ∈ o.started ∨ frame.text = o.ws.text := by
  unfold startWrite at h
  split at h
  · exact .inl h
  · rcases List.mem_append.mp h with h | h
    · exact .inl h
    · rw [List.mem_singleton.mp h]; exact .inr rfl

theorem push_text {ss : SharedString} {frame : Frame} (h : frame ∈ (o.push ss).started) :
    frame ∈ o.started ∨ frame.text = o.ws.text := by
  unfold push at h
  split at h
  · exact startWrite_text (o := { o with queue := [ss], sent := o.sent ++ [ss] }) h
  · exact .inl h

/-- A session that is registered takes a message. -/
theorem Ok.push (h : o.Ok k) (hj : o.joined ≠ none) (hc : 0 < o.useCount) (ss : SharedString) :
    (o.push ss).Ok k := by
  have hu := push_useCount (o := o) ss
  have hle := le_push_useCount (o := o) ss
  obtain ⟨hid, hops⟩ := h.joined hj
  refine ⟨by have := h.counted; omega, ?_, h.pump.push ss, ?_, ?_, ?_, ?_⟩
  · rw [push_destroyed]
    exact iff_of_true (h.alive.mpr hc) (by omega)
  · intro hj'
    rw [push_joined] at hj'
    exact absurd hj' hj
  · intro _
    rw [push_connectionId]
    refine ⟨hid, fun op hop => ?_⟩
    rcases push_ops o ss with he | ⟨f, he⟩ <;> rw [he] at hop
    · exact hops op hop
    · rcases List.mem_cons.mp hop with rfl | hop
      · exact .inr ⟨f, rfl⟩
      · exact hops op hop
  · intro hr
    rw [push_buffer]
    rcases push_ops o ss with he | ⟨f, he⟩ <;> rw [he] at hr ⊢
    · exact h.reading hr
    · obtain ⟨hb, hcount⟩ := h.reading (by simpa using hr)
      exact ⟨hb, by rw [List.count_cons_of_ne (by simp), hcount]⟩
  · rw [push_ws]
    refine ⟨h.text.1, fun frame hf => ?_⟩
    rcases push_text hf with hf | hf
    · exact h.text.2 frame hf
    · rw [hf, h.text.1]

/-- An operation has completed, and its handler left the identity and the messages of the object
as they are. -/
theorem Ok.finish {o' : WebsocketSession} {op : Op} (h : o.Ok 0) (hm : op ∈ o.ops)
    (hops : o'.ops = o.ops.erase op) (hu : o'.useCount = o.useCount)
    (hd : o'.destroyed = o.destroyed) (hp : o'.PumpInv) (hid : o'.connectionId = o.connectionId)
    (hj : o'.joined = o.joined) (hs : o'.sent = o.sent) (hb : op = .read ∨ o'.buffer = o.buffer)
    (ht : o'.ws.text = o.ws.text) (hst : o'.started = o.started) : o'.Ok 1 := by
  have hlen := List.length_erase_add_one hm
  have hsub : ∀ op' ∈ o'.ops, op' ∈ o.ops := fun op' h' => List.mem_of_mem_erase (hops ▸ h')
  refine ⟨?_, ?_, hp, fun hj' => ?_, fun hj' => ?_, fun hr => ?_, ?_⟩
  · rw [hu, hops, h.counted]; omega
  · rw [hd, hu]; exact h.alive
  · obtain ⟨hid', hs', hb', hops'⟩ := h.unjoined (hj ▸ hj')
    have hne : op ≠ .read := by
      rintro rfl
      rcases hops' with he | he | he
      · rw [he] at hm; cases hm
      · rw [he] at hm; simp at hm
      · rcases he _ hm with he | ⟨_, he⟩ <;> cases he
    refine ⟨hid.trans hid', hs.trans hs', (hb.resolve_left hne).trans hb', ?_⟩
    rcases hops' with he | he | he
    · rw [he] at hm; cases hm
    · rw [he] at hm hops
      rw [List.mem_singleton.mp hm] at hops
      exact .inl hops
    · exact .inr (.inr fun op' h' => he op' (hsub op' h'))
  · obtain ⟨hid', hops'⟩ := h.joined (hj ▸ hj')
    exact ⟨hid ▸ hid', fun op' h' => hops' op' (hsub op' h')⟩
  · obtain ⟨hb', hcount⟩ := h.reading (hsub _ hr)
    have hne : op ≠ .read := by
      rintro rfl
      rw [hops] at hr
      have h0 := List.count_erase_self (a := Op.read) (l := o.ops)
      rw [hcount] at h0
      exact absurd (List.count_pos_iff.mpr hr) (by omega)
    refine ⟨(hb.resolve_left hne).trans hb', ?_⟩
    rw [hops, List.count_erase_of_ne (Ne.symm hne), hcount]
  · rw [ht, hst]; exact h.text

/-- The handler of an operation releases its owner. -/
theorem Ok.release (h : o.Ok 1) : o.release.Ok 0 := by
  have hc := h.counted
  refine ⟨?_, ?_, h.pump.congr rfl rfl rfl rfl rfl rfl, h.unjoined, h.joined, h.reading, h.text⟩
  · show o.useCount - 1 = o.ops.length + 0
    omega
  · show (o.useCount == 1) = false ↔ 0 < o.useCount - 1
    rw [beq_eq_false_iff_ne]
    omega

/-- A handler that has not completed owns its session. -/
theorem Ok.alive_of_mem (h : o.Ok 0) {op : Op} (hm : op ∈ o.ops) :
    o.destroyed = false ∧ 0 < o.useCount := by
  have hl := List.length_pos_of_mem hm
  have hu : 0 < o.useCount := by have := h.counted; omega
  exact ⟨h.alive.mpr hu, hu⟩

/-- Messages are read and written only after the session was registered. -/
theorem Ok.joined_of_mem (h : o.Ok k) {op : Op} (hm : op ∈ o.ops)
    (hop : op = .read ∨ ∃ f, op = .write f) : o.joined ≠ none := by
  intro hj
  obtain ⟨-, -, -, he | he | he⟩ := h.unjoined hj
  · rw [he] at hm; cases hm
  · rw [he, List.mem_singleton] at hm
    subst hm
    rcases hop with hop | ⟨_, hop⟩ <;> cases hop
  · rcases he op hm with rfl | ⟨_, rfl⟩ <;> rcases hop with hop | ⟨_, hop⟩ <;> cases hop

/-- The other operations belong to the time before. -/
theorem Ok.unjoined_of_mem (h : o.Ok k) {op : Op} (hm : op ∈ o.ops)
    (hop : ¬(op = .read ∨ ∃ f, op = .write f)) : o.joined = none := by
  by_contra hj
  exact hop ((h.joined hj).2 op hm)

/-- While the handshake is outstanding, nothing else is. -/
theorem Ok.accepting (h : o.Ok 0) (hm : .accept ∈ o.ops) :
    o.joined = none ∧ o.ops = [.accept] ∧ o.useCount = 1 ∧ o.sent = [] ∧ o.queue = [] := by
  have hj := h.unjoined_of_mem hm (by simp)
  obtain ⟨-, hs, -, hops⟩ := h.unjoined hj
  have he : o.ops = [.accept] := by
    rcases hops with he | he | he
    · rw [he] at hm; cases hm
    · exact he
    · rcases he _ hm with he | ⟨_, he⟩ <;> cases he
  have hq : o.written = [] ∧ o.queue = [] := by
    rw [← List.append_eq_nil_iff, ← h.pump.sent, hs]
  refine ⟨hj, he, ?_, hs, hq.2⟩
  rw [h.counted, he]; rfl

theorem Ok.opened (env : Env) (req : Request) (now : Nat) : (opened env req now).release.Ok 0 := by
  apply Ok.release
  unfold WebsocketSession.opened
  have hp (o : WebsocketSession) (hw : o.writes = []) (h : o.queue = [] ∧ o.sent = [] ∧
      o.started = [] ∧ o.written = [] ∧ o.writeFailed = false) : o.PumpInv := by
    obtain ⟨hq, hs, hst, hwr, hf⟩ := h
    exact ⟨by rw [hs, hwr, hq]; rfl, by rw [hst, hwr, hq]; rfl, fun _ => by rw [hw, hq]; rfl,
      fun hf' => by rw [hf] at hf'; cases hf'⟩
  cases env.verify (extractToken req.target) now with
  | ok _ =>
    refine ⟨rfl, by simp, hp _ rfl ⟨rfl, rfl, rfl, rfl, rfl⟩, fun _ => ?_, fun hj => absurd rfl hj,
      by simp, rfl, by simp⟩
    exact ⟨rfl, rfl, rfl, .inr (.inl rfl)⟩
  | error what =>
    refine ⟨rfl, by simp, hp _ rfl ⟨rfl, rfl, rfl, rfl, rfl⟩, fun _ => ?_, fun hj => absurd rfl hj,
      by simp, rfl, by simp⟩
    exact ⟨rfl, rfl, rfl, .inr (.inr (by simp))⟩

/-- The first or the next read of a session that is registered. -/
theorem Ok.startRead (h : o.Ok 1) (hb : o.buffer = []) (hr : .read ∉ o.ops)
    (hj : o.joined ≠ none) : (o.start .read).release.Ok 0 := by
  obtain ⟨hid, hops⟩ := h.joined hj
  have hc := h.counted
  refine ⟨?_, ?_, h.pump.congr rfl rfl rfl rfl rfl rfl, fun hj' => absurd hj' hj,
    fun _ => ⟨hid, ?_⟩, fun _ => ⟨hb, ?_⟩, h.text⟩
  · show o.useCount + 1 - 1 = o.ops.length + 1 + 0
    omega
  · show (o.useCount + 1 == 1) = false ↔ 0 < o.useCount + 1 - 1
    rw [beq_eq_false_iff_ne]
    omega
  · intro op hop
    rcases List.mem_cons.mp hop with rfl | hop
    · exact .inl rfl
    · exact hops op hop
  · show (Op.read :: o.ops).count .read = 1
    rw [List.count_cons_self, List.count_eq_zero_of_not_mem hr]

/-- The end of `on_read`. -/
theorem Ok.rearm (h : o.Ok 1) (hr : .read ∉ o.ops) (hj : o.joined ≠ none) :
    o.rearm.release.Ok 0 := by
  have h' : Ok 1 { o with buffer := [] } :=
    ⟨h.counted, h.alive, h.pump.congr rfl rfl rfl rfl rfl rfl, fun hj' => absurd hj' hj, h.joined,
      fun hr' => absurd hr' hr, h.text⟩
  exact h'.startRead rfl hr hj

/-- The beginning of the handler of a read. -/
theorem Ok.received (h : o.Ok 0) (hm : .read ∈ o.ops) (text : Bool) (bytes : Bytes) :
    (o.received text bytes).Ok 1 ∧ .read ∉ (o.received text bytes).ops := by
  refine ⟨h.finish hm rfl rfl rfl ?_ rfl rfl rfl (.inl rfl) rfl rfl, fun hr => ?_⟩
  · exact h.pump.congr rfl rfl rfl rfl rfl (writes_finish_of_ne rfl)
  · have hc : (o.ops.erase .read).count .read = 0 := by
      rw [List.count_erase_self, (h.reading hm).2]
    exact List.count_eq_zero.mp hc hr

theorem read_mem_push {ss : SharedString} (h : .read ∈ (o.push ss).ops) : .read ∈ o.ops := by
  rcases push_ops o ss with he | ⟨f, he⟩ <;> rw [he] at h
  · exact h
  · simpa using h

/-- The handshake has succeeded: the greeting's write and the first read are outstanding. -/
theorem Ok.accepted (h : o.Ok 0) (hm : .accept ∈ o.ops) {id : Bytes} (hid : id ≠ []) (n : Nat) :
    (o.accepted id n).release.Ok 0 := by
  obtain ⟨hj, he, hu, -, -⟩ := h.accepting hm
  obtain ⟨-, -, hb, -⟩ := h.unjoined hj
  have hops : (o.finish .accept).ops = [] := by
    show o.ops.erase .accept = []
    rw [he]; rfl
  let o₁ : WebsocketSession := { o.finish .accept with connectionId := id, joined := some n }
  have h₁ : o₁.Ok 1 := by
    refine ⟨?_, h.alive, ?_, fun hj' => absurd hj' (by simp [o₁]), fun _ => ⟨hid, ?_⟩, ?_, h.text⟩
    · show o.useCount = (o.finish .accept).ops.length + 1
      rw [hops, hu]; rfl
    · exact h.pump.congr rfl rfl rfl rfl rfl (writes_finish_of_ne rfl)
    · show ∀ op ∈ (o.finish .accept).ops, _
      rw [hops]; simp
    · show _ ∈ (o.finish .accept).ops → _
      rw [hops]; simp
  have hu₁ : 0 < o₁.useCount := by
    show 0 < o.useCount
    omega
  refine (h₁.push (by simp [o₁]) hu₁ ⟨greeting id, none⟩).startRead ?_ ?_ (by simp [o₁])
  · rw [push_buffer]; exact hb
  · intro hr
    have hr' : .read ∈ (o.finish .accept).ops := read_mem_push (o := o₁) hr
    rw [hops] at hr'
    cases hr'

theorem Ok.accepted_kept (h : o.Ok 0) (hm : .accept ∈ o.ops) (id : Bytes) (n : Nat) :
    (o.accepted id n).destroyed = false ∧ (o.accepted id n).useCount ≠ 1 := by
  obtain ⟨hd, hu⟩ := h.alive_of_mem hm
  let o₁ : WebsocketSession := { o.finish .accept with connectionId := id, joined := some n }
  have hu₁ : 0 < (o₁.push ⟨greeting id, none⟩).useCount :=
    Nat.lt_of_lt_of_le hu (le_push_useCount (o := o₁) _)
  exact ⟨(push_destroyed _).trans hd, Nat.ne_of_gt (Nat.succ_lt_succ hu₁)⟩

/-- A write has succeeded: the next one, if any, is outstanding. -/
theorem Ok.pop (h : o.Ok 0) {frame : Frame} (hm : .write frame ∈ o.ops) :
    (o.finish (.write frame)).pop.Ok 1 := by
  let x : WebsocketSession := o.finish (.write frame)
  let y : WebsocketSession := { x with
    queue := x.queue.tail, written := x.written ++ x.queue.take 1 }
  have hj : o.joined ≠ none := h.joined_of_mem hm (.inr ⟨frame, rfl⟩)
  obtain ⟨hid, hops⟩ := h.joined hj
  obtain ⟨hd, hu⟩ := h.alive_of_mem hm
  have hk : y.Kept y.startWrite := startWrite_kept y
  have hsub : ∀ op ∈ y.startWrite.ops, op ∈ o.ops ∨ ∃ f, op = .write f := by
    intro op hop
    rcases startWrite_ops y with he | ⟨f, he⟩ <;> rw [he] at hop
    · exact .inl (List.mem_of_mem_erase hop)
    · rcases List.mem_cons.mp hop with rfl | hop
      · exact .inr ⟨f, rfl⟩
      · exact .inl (List.mem_of_mem_erase hop)
  show y.startWrite.Ok 1
  refine ⟨?_, ?_, h.pump.pop (mem_writes.mpr hm), fun hj' => ?_, fun _ => ⟨?_, fun op hop => ?_⟩,
    fun hr => ?_, ?_, fun f hf => ?_⟩
  · have hcount : y.startWrite.useCount + (o.ops.erase (.write frame)).length =
        o.useCount + y.startWrite.ops.length := startWrite_useCount
    have hlen : (o.ops.erase (.write frame)).length + 1 = o.ops.length :=
      List.length_erase_add_one hm
    have hc := h.counted
    omega
  · exact iff_of_true (hk.destroyed.trans hd) (Nat.lt_of_lt_of_le hu hk.useCount)
  · exact absurd (hk.joined.symm.trans hj') hj
  · rw [hk.connectionId]; exact hid
  · rcases hsub op hop with hop | hop
    · exact hops op hop
    · exact .inr hop
  · obtain ⟨hb, hc⟩ := h.reading ((hsub _ hr).resolve_right (by simp))
    refine ⟨(startWrite_buffer y).trans hb, ?_⟩
    have hx : y.ops.count .read = 1 := by
      show (o.ops.erase (.write frame)).count .read = 1
      rw [List.count_erase_of_ne (by simp), hc]
    rcases startWrite_ops y with he | ⟨f, he⟩ <;> rw [he]
    · exact hx
    · rw [List.count_cons_of_ne (by simp), hx]
  · rw [startWrite_ws]; exact h.text.1
  · rcases startWrite_text hf with hf | hf
    · exact h.text.2 f hf
    · rw [hf]; exact h.text.1

/-- The handler of a quiet event. -/
theorem Ok.handled (h : o.Ok 0) {e : Server.Event} {op : Op} (hop : e.op? = some op)
    (hm : op ∈ o.ops) (he : e.quiet = true) : (o.handled e).Ok 1 := by
  have hk := handled_kept o e
  have hcongr (hf : op.frame? = none) : (o.finish op).PumpInv :=
    h.pump.congr rfl rfl rfl rfl rfl (writes_finish_of_ne hf)
  cases e with
  | upgrade s req now => cases hop
  | accept s ec time =>
    cases hop
    cases ec with
    | none => cases he
    | some ec =>
      exact h.finish hm rfl rfl rfl ((hcongr rfl).congr rfl rfl rfl rfl rfl rfl) rfl rfl rfl
        (.inr rfl) rfl rfl
  | read s ec text bytes =>
    cases hop
    cases ec with
    | none => cases he
    | some ec =>
      exact h.finish hm rfl rfl rfl ((hcongr rfl).congr rfl rfl rfl rfl rfl rfl) rfl rfl rfl
        (.inl rfl) rfl rfl
  | write s frame ec =>
    cases hop
    have hw := mem_writes.mpr hm
    cases ec with
    | none => exact h.pop hm
    | some ec =>
      exact h.finish hm rfl rfl rfl (h.pump.fail hw ec _) rfl rfl rfl (.inr rfl) rfl rfl
  | close s ec =>
    cases hop
    cases ec <;> exact h.finish hm rfl rfl rfl ((hcongr rfl).congr rfl rfl rfl rfl rfl rfl) rfl rfl
      rfl (.inr rfl) rfl rfl
  | write401 s res ec =>
    cases hop
    cases ec <;> exact h.finish hm rfl rfl rfl ((hcongr rfl).congr rfl rfl rfl rfl rfl rfl) rfl rfl
      rfl (.inr rfl) rfl rfl

end WebsocketSession

end ChatServer
