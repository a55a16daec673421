import ChatServer.Lib.Sys
import Mathlib.Logic.Function.Basic

/-!
# An abstract chat room

A room is a partial function from clients to members; a member has a name and an outbox, the
messages addressed to it so far. Who joins is welcomed, what anyone says is for every member, the
speaker included, and who leaves is announced to those who stay. Everything here is over arbitrary
clients, names and messages.

* `room welcome farewell`: the room as an event-driven system.
* `Room.next_join`, `next_say`, `next_leave`: its steps.
-/

namespace Lib

/-- A member of a room. -/
structure Member (ι β : Type) where
  name : ι
  outbox : List β
  deriving DecidableEq

/-- The members of a room. -/
abbrev Room (μ ι β : Type) := μ → Option (Member ι β)

/-- What can happen in a room. -/
inductive RoomEvent (μ ι β : Type) where
  | join (s : μ) (name : ι)
  | say (s : μ) (message : β)
  | leave (s : μ)
  deriving DecidableEq

/-- One message more for a member. -/
def Member.receive {ι β : Type} (m : Member ι β) (message : β) : Member ι β :=
  { m with outbox := m.outbox ++ [message] }

namespace Room

variable {μ ι β : Type} [DecidableEq μ]

/-- A message for every member. -/
def announce (r : Room μ ι β) (message : β) : Room μ ι β := fun p => (r p).map (·.receive message)

/-- The room without `s`. -/
def remove (r : Room μ ι β) (s : μ) : Room μ ι β := Function.update r s none

end Room

open Room in
/-- A room as an event-driven system (module doc). -/
def room {μ ι β : Type} [DecidableEq μ] (welcome farewell : ι → β) :
    Sys (Room μ ι β) (RoomEvent μ ι β) where
  init _ := none
  next r
    | .join s name =>
      match r s with
      | none => some (Function.update r s (some ⟨name, [welcome name]⟩))
      | some _ => none
    | .say s message =>
      match r s with
      | none => none
      | some _ => some (r.announce message)
    | .leave s =>
      match r s with
      | none => none
      | some m => some ((r.remove s).announce (farewell m.name))

namespace Room

variable {μ ι β : Type} [DecidableEq μ] {welcome farewell : ι → β} {r r' : Room μ ι β} {p s : μ}

theorem next_join (h : r s = none) (name : ι) : (room welcome farewell).next r (.join s name) =
    some (Function.update r s (some ⟨name, [welcome name]⟩)) := by
  simp only [room, h]

theorem next_say {m : Member ι β} (h : r s = some m) (message : β) :
    (room welcome farewell).next r (.say s message) = some (r.announce message) := by
  simp only [room, h]

theorem next_leave {m : Member ι β} (h : r s = some m) :
    (room welcome farewell).next r (.leave s) =
      some ((r.remove s).announce (farewell m.name)) := by
  simp only [room, h]

end Room

end Lib
