import ChatServer.Session
import ChatServer.Lib.Sys

/-!
# The write pump of a session

`send` puts a message at the end of `queue_` and starts a write if none is outstanding; `on_write`
removes the message that was written and starts the next write. The message being written stays
at the front of the queue until its write succeeds, so the queue tells whether a write is
outstanding.

* `start`, `push`, `pop`: what `initiate`, `send` and a successful `on_write` do to an object that
  has an owner (`initiate_eq`, `send_eq`, `onWrite_none`).
* `PumpInv`: the invariant. What was sent is what was written and what is queued; the queue's
  front is the one outstanding write, unless a write failed; after a failure there is none.
* `pump o₀`: the object under any interleaving of calls of `send` and completions of its writes.
  `writePump` states the four properties of every run.
-/

namespace ChatServer

open Lib

namespace WebsocketSession

/-! ## The functions on an object that has an owner -/

/-- The object with the operation `op` outstanding and its owner. -/
def start (o : WebsocketSession) (op : Op) : WebsocketSession :=
  { o with useCount := o.useCount + 1, ops := op :: o.ops }

/-- The object after `asyncWrite`, if the queue has a front. -/
def startWrite (o : WebsocketSession) : WebsocketSession :=
  match o.queue with
  | [] => o
  | front :: _ =>
    let frame : Frame := { text := o.ws.text, payload := front }
    { o.start (.write frame) with started := o.started ++ [frame] }

/-- The object after `send`. -/
def push (o : WebsocketSession) (ss : SharedString) : WebsocketSession :=
  if o.queue = [] then startWrite { o with queue := [ss], sent := o.sent ++ [ss] }
  else { o with queue := o.queue ++ [ss], sent := o.sent ++ [ss] }

/-- The object after a successful `onWrite`. -/
def pop (o : WebsocketSession) : WebsocketSession :=
  startWrite { o with queue := o.queue.tail, written := o.written ++ o.queue.take 1 }

variable {o : WebsocketSession}

theorem initiate_eq (h : 0 < o.useCount) (op : Op) : o.initiate op = .ok (o.start op) := by
  unfold initiate sharedFromThis
  rw [if_neg (Nat.ne_of_gt h)]
  rfl

theorem asyncWrite_eq (h : 0 < o.useCount) (hq : o.queue ≠ []) :
    o.asyncWrite = .ok o.startWrite := by
  unfold asyncWrite startWrite
  cases hc : o.queue with
  | nil => exact absurd hc hq
  | cons front rest => simp only [initiate_eq h]; rfl

theorem send_eq (h : 0 < o.useCount) (ss : SharedString) : o.send ss = .ok (o.push ss) := by
  unfold send push
  by_cases hq : o.queue = []
  · simp only [hq, List.nil_append, List.length_singleton, gt_iff_lt, Nat.lt_irrefl, ↓reduceIte]
    exact asyncWrite_eq h (by simp)
  · have hl : 0 < o.queue.length := List.length_pos_of_ne_nil hq
    simp only [hq, List.length_append, List.length_singleton, gt_iff_lt, ↓reduceIte,
      show 1 < o.queue.length + 1 by omega]

theorem onWrite_none (h : 0 < o.useCount) (hq : o.queue ≠ []) : o.onWrite none = .ok o.pop := by
  unfold onWrite pop
  cases hc : o.queue with
  | nil => exact absurd hc hq
  | cons front rest =>
    simp only [List.tail_cons, List.take_succ_cons, List.take_zero]
    by_cases hr : rest = []
    · simp [hr, startWrite]
    · simp only [hr, ne_eq, not_false_eq_true, ↓reduceIte]
      exact asyncWrite_eq h hr

/-! ## What they change -/

/-- `startWrite` touches the owners, the operations and the ghost record of the writes. -/
theorem startWrite_eq (o : WebsocketSession) : ∃ n ops started,
    o.startWrite = { o with useCount := n, ops, started } := by
  unfold startWrite
  split
  · exact ⟨_, _, _, rfl⟩
  · exact ⟨_, _, _, rfl⟩

@[simp] theorem startWrite_queue : o.startWrite.queue = o.queue := by
  obtain ⟨_, _, _, h⟩ := startWrite_eq o; rw [h]

@[simp] theorem startWrite_sent : o.startWrite.sent = o.sent := by
  obtain ⟨_, _, _, h⟩ := startWrite_eq o; rw [h]

@[simp] theorem startWrite_written : o.startWrite.written = o.written := by
  obtain ⟨_, _, _, h⟩ := startWrite_eq o; rw [h]

@[simp] theorem startWrite_writeFailed : o.startWrite.writeFailed = o.writeFailed := by
  obtain ⟨_, _, _, h⟩ := startWrite_eq o; rw [h]

theorem startWrite_started :
    o.startWrite.started.map (·.payload) = o.started.map (·.payload) ++ o.queue.take 1 := by
  unfold startWrite
  cases o.queue <;> simp

theorem writes_start_write (frame : Frame) :
    (o.start (.write frame)).writes = frame :: o.writes := rfl

theorem startWrite_writes :
    o.startWrite.writes.map (·.payload) = o.queue.take 1 ++ o.writes.map (·.payload) := by
  unfold startWrite
  cases hq : o.queue with
  | nil => rfl
  | cons front rest =>
    show ((o.start (.write _)).writes).map (·.payload) = _
    rw [writes_start_write]; rfl

theorem startWrite_useCount :
    o.startWrite.useCount + o.ops.length = o.useCount + o.startWrite.ops.length := by
  unfold startWrite
  cases o.queue with
  | nil => rfl
  | cons front rest => simp only [start, List.length_cons]; omega

@[simp] theorem push_queue (ss : SharedString) : (o.push ss).queue = o.queue ++ [ss] := by
  unfold push; split
  · rename_i h; simp [h]
  · rfl

@[simp] theorem push_sent (ss : SharedString) : (o.push ss).sent = o.sent ++ [ss] := by
  unfold push; split <;> simp

@[simp] theorem push_written (ss : SharedString) : (o.push ss).written = o.written := by
  unfold push; split <;> simp

@[simp] theorem push_writeFailed (ss : SharedString) :
    (o.push ss).writeFailed = o.writeFailed := by
  unfold push; split <;> simp

theorem push_useCount (ss : SharedString) :
    (o.push ss).useCount + o.ops.length = o.useCount + (o.push ss).ops.length := by
  unfold push; split
  · exact startWrite_useCount (o := { o with queue := [ss], sent := o.sent ++ [ss] })
  · rfl

@[simp] theorem pop_queue : o.pop.queue = o.queue.tail := by unfold pop; simp

@[simp] theorem pop_sent : o.pop.sent = o.sent := by unfold pop; simp

@[simp] theorem pop_written : o.pop.written = o.written ++ o.queue.take 1 := by unfold pop; simp

@[simp] theorem pop_writeFailed : o.pop.writeFailed = o.writeFailed := by unfold pop; simp

/-- The writes left when the operation of one of them completes. -/
theorem writes_finish (o : WebsocketSession) (frame : Frame) :
    (o.finish (.write frame)).writes = o.writes.erase frame := by
  show (o.ops.erase (.write frame)).filterMap Op.frame? = (o.ops.filterMap Op.frame?).erase frame
  have he (f : Frame) (l : List Op) :
      (Op.write f :: l).filterMap Op.frame? = f :: l.filterMap Op.frame? :=
    List.filterMap_cons_some rfl
  induction o.ops with
  | nil => rfl
  | cons op ops ih =>
    by_cases h : op = .write frame
    · subst h; rw [List.erase_cons_head, he, List.erase_cons_head]
    · rw [List.erase_cons_tail (by simpa using h)]
      cases op with
      | write f =>
        have hf : f ≠ frame := fun e => h (by rw [e])
        rw [he, he, List.erase_cons_tail (by simpa using hf), ih]
      | _ => exact ih

theorem mem_writes {frame : Frame} : frame ∈ o.writes ↔ Op.write frame ∈ o.ops := by
  unfold writes
  rw [List.mem_filterMap]
  constructor
  · rintro ⟨op, hop, h⟩
    cases op <;> cases h
    exact hop
  · exact fun h => ⟨_, h, rfl⟩

/-! ## The invariant -/

/-- The invariant of the write pump (module doc). -/
structure PumpInv (o : WebsocketSession) : Prop where
  sent : o.sent = o.written ++ o.queue
  started : o.started.map (·.payload) = o.written ++ o.queue.take 1
  writing : o.writeFailed = false → o.writes.map (·.payload) = o.queue.take 1
  failed : o.writeFailed = true → o.writes = [] ∧ o.queue ≠ []

/-- The invariant reads only the write side of the object. -/
theorem PumpInv.congr {o' : WebsocketSession} (h : o.PumpInv) (hq : o'.queue = o.queue)
    (hs : o'.sent = o.sent) (hst : o'.started = o.started) (hw : o'.written = o.written)
    (hf : o'.writeFailed = o.writeFailed) (hops : o'.writes = o.writes) : o'.PumpInv :=
  ⟨by rw [hs, hw, hq]; exact h.sent, by rw [hst, hw, hq]; exact h.started,
    by rw [hf, hops, hq]; exact h.writing, by rw [hf, hops, hq]; exact h.failed⟩

/-- An outstanding write is of the queue's front, and it is the only one. -/
theorem PumpInv.front {frame : Frame} (h : o.PumpInv) (hm : frame ∈ o.writes) :
    o.writeFailed = false ∧ o.writes = [frame] ∧ ∃ rest, o.queue = frame.payload :: rest := by
  cases hf : o.writeFailed with
  | true => rw [(h.failed hf).1] at hm; cases hm
  | false =>
    have hw := h.writing hf
    cases hq : o.queue with
    | nil => rw [hq] at hw; simp only [List.take_nil, List.map_eq_nil_iff] at hw; simp [hw] at hm
    | cons front rest =>
      rw [hq] at hw
      obtain ⟨f, hf'⟩ := List.length_eq_one_iff.mp (by simpa using congrArg List.length hw)
      rw [hf'] at hm hw
      obtain rfl := List.mem_singleton.mp hm
      simp only [List.map_cons, List.map_nil, List.take_succ_cons, List.take_zero,
        List.cons.injEq, and_true] at hw
      exact ⟨rfl, hf', rest, by rw [hw]⟩

/-- At most one write is outstanding. -/
theorem PumpInv.writes_length (h : o.PumpInv) : o.writes.length ≤ 1 := by
  cases hw : o.writes with
  | nil => simp
  | cons f fs => rw [← hw, (h.front (by rw [hw]; exact List.mem_cons_self)).2.1]; simp

theorem PumpInv.push (h : o.PumpInv) (ss : SharedString) : (o.push ss).PumpInv := by
  by_cases hq : o.queue = []
  · -- The queue was empty: no write was outstanding, and the new message's write starts.
    have hf : o.writeFailed = false := by
      cases hf : o.writeFailed with
      | false => rfl
      | true => exact absurd hq (h.failed hf).2
    have hw : o.writes = [] := by have := h.writing hf; rw [hq] at this; simpa using this
    have he : o.push ss = startWrite { o with queue := [ss], sent := o.sent ++ [ss] } := by
      unfold WebsocketSession.push; rw [if_pos hq]
    rw [he]
    refine ⟨?_, ?_, fun _ => ?_, fun hf' => ?_⟩
    · simp [h.sent, hq]
    · rw [startWrite_started]; simp [h.started, hq]
    · rw [startWrite_writes]
      show [ss] ++ o.writes.map (·.payload) = _
      rw [hw]; simp
    · simp only [startWrite_writeFailed] at hf'; rw [hf] at hf'; cases hf'
  · have ht : (o.queue ++ [ss]).take 1 = o.queue.take 1 :=
      List.take_append_of_le_length (List.length_pos_of_ne_nil hq)
    have he : o.push ss = { o with queue := o.queue ++ [ss], sent := o.sent ++ [ss] } := by
      unfold WebsocketSession.push; rw [if_neg hq]
    rw [he]
    refine ⟨?_, ?_, fun hf => ?_, fun hf => ⟨(h.failed hf).1, by simp⟩⟩
    · simp [h.sent]
    · show o.started.map _ = o.written ++ (o.queue ++ [ss]).take 1
      rw [ht, h.started]
    · show o.writes.map _ = (o.queue ++ [ss]).take 1
      rw [ht, h.writing hf]

/-- A write has succeeded: its operation is gone, and `onWrite` pops the queue. -/
theorem PumpInv.pop {frame : Frame} (h : o.PumpInv) (hm : frame ∈ o.writes) :
    (o.finish (.write frame)).pop.PumpInv := by
  obtain ⟨hf, hw, rest, hq⟩ := h.front hm
  have hn : (o.finish (.write frame)).writes = [] := by rw [writes_finish, hw]; simp
  have hq' : (o.finish (.write frame)).queue = frame.payload :: rest := hq
  refine ⟨?_, ?_, fun _ => ?_, fun hf' => ?_⟩
  · rw [pop_sent, pop_written, pop_queue, hq']
    show o.sent = o.written ++ _ ++ _
    rw [h.sent, hq]; simp
  · unfold WebsocketSession.pop
    rw [startWrite_started]
    show o.started.map _ ++ (o.queue.tail).take 1 = _
    rw [h.started]
    simp only [startWrite_written, startWrite_queue, hq', hq]
    rfl
  · unfold WebsocketSession.pop
    rw [startWrite_writes]
    show o.queue.tail.take 1 ++ (o.finish (.write frame)).writes.map (·.payload) = _
    rw [hn, List.map_nil, List.append_nil, startWrite_queue]
    rfl
  · rw [pop_writeFailed] at hf'
    exact absurd (hf.symm.trans hf') (by decide)

/-- A write has failed: its operation is gone, and the queue stays as it is. -/
theorem PumpInv.fail {frame : Frame} (h : o.PumpInv) (hm : frame ∈ o.writes) (ec : ErrorCode)
    (what : Bytes) :
    ({ (o.finish (.write frame)).fail ec what with writeFailed := true } :
      WebsocketSession).PumpInv := by
  obtain ⟨-, hw, rest, hq⟩ := h.front hm
  refine ⟨h.sent, h.started, fun hf => Bool.noConfusion hf, fun _ => ⟨?_, ?_⟩⟩
  · show (o.finish (.write frame)).writes = []
    rw [writes_finish, hw]; simp
  · show o.queue ≠ []
    simp [hq]

end WebsocketSession

/-! ## Every interleaving of calls and completions -/

/-- What happens to the write side of a session: a call of `send`, or the completion of one of its
writes. -/
inductive PumpEvent where
  | send (ss : SharedString)
  | written (frame : Frame) (ec : Option ErrorCode)
  deriving DecidableEq

namespace PumpEvent

/-- The message passed to `send`. -/
def message? : PumpEvent → Option SharedString
  | send ss => some ss
  | written _ _ => none

/-- The payload of a write that succeeded. -/
def completed? : PumpEvent → Option SharedString
  | written frame none => some frame.payload
  | _ => none

/-- A write failed. -/
def failed : PumpEvent → Bool
  | written _ (some _) => true
  | _ => false

end PumpEvent

open WebsocketSession

/-- The session `o₀` under calls of `send` and completions of its writes. The caller of `send`
owns the session; the handler of a write owns it until it has run. -/
def pump (o₀ : WebsocketSession) : Sys WebsocketSession PumpEvent where
  init := o₀
  next o
    | .send ss => (o.send ss).toOption
    | .written frame ec =>
      if o.ops.contains (.write frame) then
        match (o.finish (.write frame)).onWrite ec with
        | .ok o => some { o with useCount := o.useCount - 1 }
        | .error _ => none
      else none

/-- A session that nothing was sent to yet, with an owner besides the handlers of its writes. -/
structure Idle (o : WebsocketSession) : Prop where
  queue : o.queue = []
  sent : o.sent = []
  started : o.started = []
  written : o.written = []
  writeFailed : o.writeFailed = false
  writes : o.writes = []
  owned : 0 < o.useCount

namespace Pump

variable {o₀ o o' : WebsocketSession} {es : List PumpEvent}

/-- The invariant of a run of the pump: the object's own, an owner besides the handlers of the
writes, and what the events so far have to do with the queue. -/
structure Inv (es : List PumpEvent) (o : WebsocketSession) : Prop where
  object : o.PumpInv
  owned : o.writes.length < o.useCount
  sent : o.sent = es.filterMap PumpEvent.message?
  written : o.written = es.filterMap PumpEvent.completed?
  failed : o.writeFailed = es.any PumpEvent.failed

theorem Idle.inv (h : Idle o₀) : Inv [] o₀ where
  object := ⟨by rw [h.sent, h.written, h.queue]; rfl,
    by rw [h.started, h.written, h.queue]; rfl, fun _ => by rw [h.writes, h.queue]; rfl,
    fun hf => by rw [h.writeFailed] at hf; cases hf⟩
  owned := by rw [h.writes]; exact h.owned
  sent := h.sent
  written := h.written
  failed := h.writeFailed

/-- What `startWrite` adds to the writes, it adds to the owners. -/
theorem startWrite_owned (h : o.writes.length < o.useCount) :
    o.startWrite.writes.length < o.startWrite.useCount := by
  unfold startWrite
  split
  · exact h
  · exact Nat.succ_lt_succ h

theorem push_owned (h : o.writes.length < o.useCount) (ss : SharedString) :
    (o.push ss).writes.length < (o.push ss).useCount := by
  unfold push
  split
  · exact startWrite_owned h
  · exact h

/-- **A call of `send`** on an owned object succeeds. -/
theorem next_send (h : 0 < o.useCount) (ss : SharedString) :
    (pump o₀).next o (.send ss) = some (o.push ss) := by
  show (o.send ss).toOption = _
  rw [send_eq h]; rfl

/-- The object after the handler of `frame`, which releases its owner. -/
def completed (o : WebsocketSession) (frame : Frame) : Option ErrorCode → WebsocketSession
  | none =>
    { (o.finish (.write frame)).pop with
      useCount := (o.finish (.write frame)).pop.useCount - 1 }
  | some ec =>
    { (o.finish (.write frame)).fail ec (ascii "write") with
      writeFailed := true, useCount := o.useCount - 1 }

/-- **A completion** runs the handler of an outstanding write. -/
theorem next_written (h : Inv es o) {frame : Frame} {ec : Option ErrorCode}
    (hn : (pump o₀).next o (.written frame ec) = some o') :
    frame ∈ o.writes ∧ o' = completed o frame ec := by
  simp only [pump] at hn
  split at hn
  · rename_i hc
    have hm : frame ∈ o.writes := mem_writes.mpr (by simpa using hc)
    refine ⟨hm, ?_⟩
    cases ec with
    | none =>
      obtain ⟨-, -, rest, hq⟩ := h.object.front hm
      have hq' : (o.finish (.write frame)).queue ≠ [] := by
        show o.queue ≠ []
        simp [hq]
      rw [onWrite_none (o := o.finish _) (Nat.lt_of_le_of_lt (Nat.zero_le _) h.owned) hq'] at hn
      exact (Option.some.inj hn).symm
    | some ec => exact (Option.some.inj hn).symm
  · cases hn

/-- Every step of the pump keeps its invariant. -/
theorem Inv.step (h : Inv es o) (e : PumpEvent) (hn : (pump o₀).next o e = some o') :
    Inv (es ++ [e]) o' := by
  have hpos : 0 < o.useCount := Nat.lt_of_le_of_lt (Nat.zero_le _) h.owned
  cases e with
  | send ss =>
    rw [next_send hpos] at hn
    obtain rfl := Option.some.inj hn
    exact ⟨h.object.push ss, push_owned h.owned ss,
      by rw [push_sent, h.sent]; simp [PumpEvent.message?],
      by rw [push_written, h.written]; simp [PumpEvent.completed?],
      by rw [push_writeFailed, h.failed]; simp [PumpEvent.failed]⟩
  | written frame ec =>
    obtain ⟨hm, rfl⟩ := next_written h hn
    obtain ⟨hf, hw, rest, hq⟩ := h.object.front hm
    have hfin : (o.finish (.write frame)).writes = [] := by rw [writes_finish, hw]; simp
    have hown := h.owned
    rw [hw, List.length_singleton] at hown
    cases ec with
    | none =>
      refine ⟨(h.object.pop hm).congr rfl rfl rfl rfl rfl rfl, ?_, ?_, ?_, ?_⟩
      · -- The handler's owner is released; the next write has its own.
        have hlt : (o.finish (.write frame)).pop.writes.length <
            (o.finish (.write frame)).pop.useCount - 1 := by
          unfold pop startWrite
          show _ < _
          split
          · show (o.finish (.write frame)).writes.length < o.useCount - 1
            rw [hfin, List.length_nil]; omega
          · show (o.finish (.write frame)).writes.length + 1 < o.useCount + 1 - 1
            rw [hfin, List.length_nil]; omega
        exact hlt
      · show (o.finish (.write frame)).pop.sent = _
        rw [pop_sent]
        show o.sent = _
        rw [h.sent]; simp [PumpEvent.message?]
      · show (o.finish (.write frame)).pop.written = _
        rw [pop_written]
        show o.written ++ o.queue.take 1 = _
        rw [h.written, hq]; simp [PumpEvent.completed?]
      · show (o.finish (.write frame)).pop.writeFailed = _
        rw [pop_writeFailed]
        show o.writeFailed = _
        rw [h.failed]; simp [PumpEvent.failed]
    | some ec =>
      refine ⟨(h.object.fail hm ec _).congr rfl rfl rfl rfl rfl rfl, ?_, ?_, ?_, ?_⟩
      · show (o.finish (.write frame)).writes.length < o.useCount - 1
        rw [hfin, List.length_nil]; omega
      · show o.sent = _
        rw [h.sent]; simp [PumpEvent.message?]
      · show o.written = _
        rw [h.written]; simp [PumpEvent.completed?]
      · simp [completed, PumpEvent.failed]

theorem inv_of_runs (h₀ : Idle o₀) (hr : (pump o₀).Runs es o) : Inv es o :=
  Sys.Runs.induct (P := Inv) (Idle.inv h₀) (fun _ _ e _ _ h hn => h.step e hn) hr

/-- Once a write has failed, a step starts no write and only adds to the queue. -/
theorem step_after_failure (h : Inv es o) (hf : o.writeFailed = true) {e : PumpEvent}
    (hn : (pump o₀).next o e = some o') :
    o'.started = o.started ∧ o'.queue = o.queue ++ [e].filterMap PumpEvent.message? := by
  obtain ⟨hw, hq⟩ := h.object.failed hf
  cases e with
  | send ss =>
    rw [next_send (Nat.lt_of_le_of_lt (Nat.zero_le _) h.owned)] at hn
    obtain rfl := Option.some.inj hn
    refine ⟨?_, by rw [push_queue]; rfl⟩
    unfold push
    rw [if_neg hq]
  | written frame ec =>
    obtain ⟨hm, -⟩ := next_written h hn
    rw [hw] at hm; cases hm

/-- The same for all that follows the failure. -/
theorem run_after_failure (h₀ : Idle o₀) {es₁ es₂ : List PumpEvent} {o₁ : WebsocketSession}
    (hr₁ : (pump o₀).Runs es₁ o₁) (hf : o₁.writeFailed = true)
    (hr : (pump o₀).Runs (es₁ ++ es₂) o) :
    o.started = o₁.started ∧ o.queue = o₁.queue ++ es₂.filterMap PumpEvent.message? := by
  induction es₂ using List.reverseRecOn generalizing o with
  | nil =>
    rw [List.append_nil] at hr
    obtain rfl := hr.unique hr₁
    simp
  | append_singleton es₂ e ih =>
    rw [← List.append_assoc] at hr
    obtain ⟨o₂, hr₂, hn⟩ := Sys.runs_snoc.mp hr
    obtain ⟨hs, hq⟩ := ih hr₂
    have hi := inv_of_runs h₀ hr₂
    have hf₂ : o₂.writeFailed = true := by
      rw [hi.failed, List.any_append, ← (inv_of_runs h₀ hr₁).failed, hf]; rfl
    obtain ⟨hs', hq'⟩ := step_after_failure hi hf₂ hn
    exact ⟨hs'.trans hs, by rw [hq', hq, List.filterMap_append, List.append_assoc]⟩

/-- Neither a call of `send` nor the completion of an outstanding write faults. -/
theorem next_isSome (h : Inv es o) (e : PumpEvent)
    (he : ∀ frame ec, e = .written frame ec → frame ∈ o.writes) :
    ((pump o₀).next o e).isSome := by
  have hpos : 0 < o.useCount := Nat.lt_of_le_of_lt (Nat.zero_le _) h.owned
  cases e with
  | send ss => rw [next_send hpos]; rfl
  | written frame ec =>
    have hm := he frame ec rfl
    obtain ⟨-, -, rest, hq⟩ := h.object.front hm
    have hc : o.ops.contains (.write frame) = true := by simpa using mem_writes.mp hm
    simp only [pump, hc, ↓reduceIte]
    cases ec with
    | some ec => rfl
    | none =>
      have hq' : (o.finish (.write frame)).queue ≠ [] := by
        show o.queue ≠ []
        simp [hq]
      rw [onWrite_none (o := o.finish _) hpos hq']; rfl

end Pump

/-- **The write pump.** After any calls of `send` and completions of writes, on an object that
nothing was sent to before: at most one write is outstanding; while no write has failed one is,
exactly if the queue is not empty, and it writes the queue's front; what was handed to
`async_write` is a prefix of what was sent, and what was completely written and what is queued
make up what was sent; after a failure no write starts and the queue only grows. No call and no
completion faults. -/
theorem writePump {o₀ o : WebsocketSession} {es : List PumpEvent} (h₀ : Idle o₀)
    (hr : (pump o₀).Runs es o) :
    o.writes.length ≤ 1 ∧
    (es.any PumpEvent.failed = false → (o.writes ≠ [] ↔ o.queue ≠ []) ∧
      ∀ frame ∈ o.writes, o.queue.head? = some frame.payload) ∧
    o.started.map (·.payload) <+: es.filterMap PumpEvent.message? ∧
    es.filterMap PumpEvent.completed? ++ o.queue = es.filterMap PumpEvent.message? ∧
    (∀ es₁ es₂ o₁, es = es₁ ++ es₂ → (pump o₀).Runs es₁ o₁ → es₁.any PumpEvent.failed = true →
      o.started = o₁.started ∧ o.queue = o₁.queue ++ es₂.filterMap PumpEvent.message?) ∧
    ∀ e, (∀ frame ec, e = .written frame ec → frame ∈ o.writes) →
      ((pump o₀).next o e).isSome := by
  have h := Pump.inv_of_runs h₀ hr
  refine ⟨h.object.writes_length, fun hf => ⟨?_, fun frame hm => ?_⟩, ?_, ?_, ?_, ?_⟩
  · have hw := h.object.writing (h.failed.trans hf)
    have hnil : o.writes = [] ↔ o.writes.map (·.payload) = [] := List.map_eq_nil_iff.symm
    refine not_congr (hnil.trans ?_)
    rw [hw]
    cases o.queue <;> simp
  · obtain ⟨-, -, rest, hq⟩ := h.object.front hm
    rw [hq]; rfl
  · rw [h.object.started, ← h.sent, h.object.sent]
    exact List.prefix_append_right_inj _ |>.mpr (List.take_prefix _ _)
  · rw [← h.written, ← h.sent, h.object.sent]
  · rintro es₁ es₂ o₁ rfl hr₁ hf
    exact Pump.run_after_failure h₀ hr₁ ((Pump.inv_of_runs h₀ hr₁).failed.trans hf) hr
  · exact fun e he => Pump.next_isSome h e he

/-- Two messages are sent, and the write of the first fails. -/
theorem writePump_failure :
    let m : SharedString := ⟨ascii "a", none⟩
    let n : SharedString := ⟨ascii "b", some 0⟩
    let es : List PumpEvent := [.send m, .send n, .written ⟨true, m⟩ (some ⟨.other, []⟩)]
    ∃ o, (pump { useCount := 1 }).Runs es o ∧ o.writes.length ≤ 1 ∧ o.queue = [m, n] := by
  intro m n es
  have h₀ : Idle { useCount := 1 } := ⟨rfl, rfl, rfl, rfl, rfl, rfl, by decide⟩
  have hr : (pump { useCount := 1 }).Runs es _ := rfl
  have h := writePump h₀ hr
  exact ⟨_, hr, h.1, h.2.2.2.1⟩

end ChatServer
