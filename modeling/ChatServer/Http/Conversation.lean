import ChatServer.Http.Session
import ChatServer.Lib.Potential

/-!
# What can happen on a connection

The events of a connection form a conversation: any number of plain requests that ask to keep the
connection, each with the response that was completely written before the next read, and then an
end. The end is the read that is outstanding, a failed read, an upgrade, a request whose response is
being written, a response that could not be written, or the response to a request that does not keep
the connection.

* `Conversation env es phase`: the events `es` are a conversation, which leaves the connection in
  `phase`.
* `conversation`: the runs of a connection are the conversations.
-/

namespace ChatServer

open Lib HttpSession

/-- The conversations, with the phase after each (module doc). -/
inductive Conversation (env : HttpEnv) : List HttpEvent → Phase → Prop
  | waiting : Conversation env [] .reading
  | readFailed (ec : ErrorCode) : Conversation env [.read (.error ec)] .finished
  | upgraded {call : Call} (upgrade : call.req.upgrade = true) :
      Conversation env [.read (.ok call)] .moved
  | answering {call : Call} (plain : call.req.upgrade = false) :
      Conversation env [.read (.ok call)] .writing
  | writeFailed {call : Call} (plain : call.req.upgrade = false) (ec : ErrorCode) :
      Conversation env [.read (.ok call), .write (call.response env) (some ec)] .finished
  | last {call : Call} (plain : call.req.upgrade = false) (close : call.req.keepAlive = false) :
      Conversation env [.read (.ok call), .write (call.response env) none] .finished
  | exchange {call : Call} (plain : call.req.upgrade = false) (keep : call.req.keepAlive = true)
      {es : List HttpEvent} {phase : Phase} (rest : Conversation env es phase) :
      Conversation env (.read (.ok call) :: .write (call.response env) none :: es) phase

namespace HttpSession

variable {env : HttpEnv} {h h' : HttpSession} {e : HttpEvent} {es : List HttpEvent} {phase : Phase}

/-- The connection writes `res`. -/
def Writing (h : HttpSession) (res : Response) : Prop := h.ops = [.write res] ∧ h.moved = []

theorem needEof_response (env : HttpEnv) (call : Call) :
    (call.response env).needEof = !call.req.keepAlive :=
  (answer_response env call).needEof

/-! ## One event -/

/-- What happens while a read is outstanding. -/
theorem next_reading (hp : h.In .reading) (hn : (http env).next h e = some h') :
    (∃ ec, e = .read (.error ec) ∧ h'.In .finished) ∨
    (∃ call, e = .read (.ok call) ∧ call.req.upgrade = true ∧ h'.In .moved) ∨
    ∃ call, e = .read (.ok call) ∧ call.req.upgrade = false ∧ h'.Writing (call.response env) := by
  obtain ⟨ho, hm⟩ := hp
  have hh : Handled env h e h' := by
    cases e with
    | read outcome =>
      obtain rfl := Option.some.inj ((if_pos (by simp [ho])).symm.trans hn)
      exact handled_read ho outcome
    | write res ec => simp [http, ho] at hn
  cases hh with
  | readFailed => exact .inl ⟨_, rfl, rfl, hm⟩
  | upgraded _ hu => exact .inr (.inl ⟨_, rfl, hu, rfl, _, by rw [hm]; rfl⟩)
  | answered _ hu => exact .inr (.inr ⟨_, rfl, hu, rfl, hm⟩)
  | writeFailed _ ho' | closed ho' | wentOn ho' => simp [ho] at ho'

/-- A read can complete in any way. -/
theorem exists_read (env : HttpEnv) (hp : h.In .reading) (outcome : Except ErrorCode Call) :
    ∃ h', (http env).next h (.read outcome) = some h' ∧ Handled env h (.read outcome) h' :=
  ⟨_, if_pos (by simp [hp.1]), handled_read hp.1 outcome⟩

/-- What happens while a response is written. -/
theorem next_writing {res : Response} (hp : h.Writing res) (hn : (http env).next h e = some h') :
    (∃ ec, e = .write res (some ec) ∧ h'.In .finished) ∨
    (e = .write res none ∧ res.needEof = true ∧ h'.In .finished) ∨
    (e = .write res none ∧ res.needEof = false ∧ h'.In .reading) := by
  obtain ⟨ho, hm⟩ := hp
  have hh : Handled env h e h' := by
    cases e with
    | read outcome => simp [http, ho] at hn
    | write res' ec =>
      obtain ⟨hmem, hn⟩ := Option.ite_none_right_eq_some.mp hn
      obtain rfl : res' = res := by simpa [ho] using hmem
      obtain rfl := Option.some.inj hn
      exact handled_write ho ec
  cases hh with
  | writeFailed _ ho' =>
    obtain rfl : res = _ := by simpa [ho] using ho'
    exact .inl ⟨_, rfl, rfl, hm⟩
  | closed ho' he =>
    obtain rfl : res = _ := by simpa [ho] using ho'
    exact .inr (.inl ⟨rfl, he, rfl, hm⟩)
  | wentOn ho' he =>
    obtain rfl : res = _ := by simpa [ho] using ho'
    exact .inr (.inr ⟨rfl, he, rfl, hm⟩)
  | readFailed _ _ ho' | upgraded ho' | answered ho' => simp [ho] at ho'

/-- A write can complete in any way. -/
theorem exists_write (env : HttpEnv) {res : Response} (hp : h.Writing res) (ec : Option ErrorCode) :
    ∃ h', (http env).next h (.write res ec) = some h' ∧ Handled env h (.write res ec) h' :=
  ⟨_, if_pos (by simp [hp.1]), handled_write hp.1 ec⟩

/-! ## Whole runs -/

theorem exec_ended (ho : h.ops = []) (hx : (http env).exec h es = some h') : es = [] ∧ h' = h := by
  cases es with
  | nil => exact ⟨rfl, (Option.some.inj hx).symm⟩
  | cons e es =>
    obtain ⟨h₁, hn, -⟩ := Sys.exec_cons hx
    rw [next_of_ops_nil ho] at hn
    cases hn

/-- The runs from a state in which a read is outstanding. -/
theorem conversation_of_exec (hp : h.In .reading) (hx : (http env).exec h es = some h')
    (hq : h'.In phase) : Conversation env es phase := by
  induction hlen : es.length using Nat.strongRecOn generalizing h es with
  | ind n ih =>
    cases es with
    | nil =>
      obtain rfl := Option.some.inj hx
      obtain rfl := hp.unique hq
      exact .waiting
    | cons e es =>
      obtain ⟨h₁, hn₁, hx₁⟩ := Sys.exec_cons hx
      obtain ⟨ec, rfl, he⟩ | ⟨call, rfl, hu, he⟩ | ⟨call, rfl, hu, hw⟩ := next_reading hp hn₁
      · obtain ⟨rfl, rfl⟩ := exec_ended he.1 hx₁
        obtain rfl := he.unique hq
        exact .readFailed ec
      · obtain ⟨rfl, rfl⟩ := exec_ended he.1 hx₁
        obtain rfl := he.unique hq
        exact .upgraded hu
      · -- A response is being written.
        have hkeep := needEof_response env call
        cases es with
        | nil =>
          obtain rfl := Option.some.inj hx₁
          obtain rfl := In.unique (p := .writing) ⟨⟨_, hw.1⟩, hw.2⟩ hq
          exact .answering hu
        | cons e es =>
          obtain ⟨h₂, hn₂, hx₂⟩ := Sys.exec_cons hx₁
          obtain ⟨ec, rfl, he⟩ | ⟨rfl, heof, he⟩ | ⟨rfl, heof, hr⟩ := next_writing hw hn₂
          · obtain ⟨rfl, rfl⟩ := exec_ended he.1 hx₂
            obtain rfl := he.unique hq
            exact .writeFailed hu ec
          · obtain ⟨rfl, rfl⟩ := exec_ended he.1 hx₂
            obtain rfl := he.unique hq
            exact .last hu (by simpa [heof] using hkeep)
          · refine .exchange hu (by simpa [heof] using hkeep) (ih es.length ?_ hr hx₂ rfl)
            rw [← hlen]
            exact Nat.lt_succ_of_lt (Nat.lt_succ_self _)

/-- A plain request is answered. -/
theorem exists_answering (hp : h.In .reading) {call : Call} (hu : call.req.upgrade = false) :
    ∃ h', (http env).next h (.read (.ok call)) = some h' ∧ h'.Writing (call.response env) := by
  obtain ⟨h₁, hn, hh⟩ := exists_read env hp (.ok call)
  cases hh with
  | upgraded _ hu' => cases hu.symm.trans hu'
  | answered => exact ⟨_, hn, rfl, hp.2⟩

/-- Each conversation can happen. -/
theorem exec_of_conversation (hc : Conversation env es phase) (hp : h.In .reading) :
    ∃ h', (http env).exec h es = some h' ∧ h'.In phase := by
  induction hc generalizing h with
  | waiting => exact ⟨h, rfl, hp⟩
  | readFailed ec =>
    obtain ⟨h₁, hn, hh⟩ := exists_read env hp (.error ec)
    cases hh with
    | readFailed => exact ⟨_, (Sys.exec_singleton _ _).trans hn, rfl, hp.2⟩
  | @upgraded call hu =>
    obtain ⟨h₁, hn, hh⟩ := exists_read env hp (.ok call)
    cases hh with
    | upgraded => exact ⟨_, (Sys.exec_singleton _ _).trans hn, rfl, _, by rw [hp.2]; rfl⟩
    | answered _ hu' => cases hu.symm.trans hu'
  | answering hu =>
    obtain ⟨h₁, hn, hw⟩ := exists_answering hp hu
    exact ⟨_, (Sys.exec_singleton _ _).trans hn, ⟨_, hw.1⟩, hw.2⟩
  | writeFailed hu ec =>
    obtain ⟨h₁, hn, hw⟩ := exists_answering hp hu
    obtain ⟨h₂, hn', hh⟩ := exists_write env hw (some ec)
    cases hh with
    | writeFailed =>
      exact ⟨_, Sys.exec_cons_of_next hn ((Sys.exec_singleton _ _).trans hn'), rfl, hw.2⟩
  | @last call hu hclose =>
    obtain ⟨h₁, hn, hw⟩ := exists_answering hp hu
    obtain ⟨h₂, hn', hh⟩ := exists_write env hw none
    cases hh with
    | closed =>
      exact ⟨_, Sys.exec_cons_of_next hn ((Sys.exec_singleton _ _).trans hn'), rfl, hw.2⟩
    | wentOn _ heof => simp [needEof_response, hclose] at heof
  | @exchange call hu hkeep es phase _ ih =>
    obtain ⟨h₁, hn, hw⟩ := exists_answering hp hu
    obtain ⟨h₂, hn', hh⟩ := exists_write env hw none
    cases hh with
    | closed _ heof => simp [needEof_response, hkeep] at heof
    | wentOn =>
      obtain ⟨h', hx, hq⟩ := ih (h := { h₁ with
        ops := [.read], req := {}, started := h₁.started ++ [{}],
        written := h₁.written ++ [call.response env] }) ⟨rfl, hw.2⟩
      exact ⟨h', Sys.exec_cons_of_next hn (Sys.exec_cons_of_next hn' hx), hq⟩

end HttpSession

/-- **The runs of a connection are the conversations.** -/
theorem conversation {env : HttpEnv} {es : List HttpEvent} {phase : Phase} :
    (∃ h, (http env).Runs es h ∧ h.In phase) ↔ Conversation env es phase := by
  have hp : (http env).init.In .reading := ⟨rfl, rfl⟩
  constructor
  · rintro ⟨h, hr, hq⟩
    exact conversation_of_exec hp hr hq
  · exact fun hc => exec_of_conversation hc hp

end ChatServer
