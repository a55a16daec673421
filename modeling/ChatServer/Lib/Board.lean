import ChatServer.Lib.Room

/-!
# A chat room with one line for each name

A room that reaches its visitors by name, and where nobody checks that a name is free. A name has
one line. Who joins under a name takes its line over, and who leaves cuts the line of his name,
whoever has it by then. A message goes to the visitors who have the line of their name. Everything
here is over arbitrary clients, names and messages.

* `board welcome farewell`: such a room as an event-driven system, with the events of a room.
* `Board.LastJoin`: who joined last under a name, in a list of events.
* `Board.next_join`, `next_say`, `next_leave`: the steps. `Board.step`: each is one of them.
* `Board.line_iff`: who has a line after a run.
-/

namespace Lib

/-- A client who has joined. -/
structure Visitor (ι β : Type) where
  name : ι
  outbox : List β
  present : Bool
  deriving DecidableEq

/-- The lines, and everyone who has joined so far. -/
structure Board (μ ι β : Type) where
  line : ι → Option μ
  visitor : μ → Option (Visitor ι β)

/-- One message more for a visitor. -/
def Visitor.receive {ι β : Type} (v : Visitor ι β) (message : β) : Visitor ι β :=
  { v with outbox := v.outbox ++ [message] }

namespace Board

/-! ## The last who joined -/

section LastJoin

variable {μ ι β : Type} {p s : μ} {name : ι} {e : RoomEvent μ ι β} {es : List (RoomEvent μ ι β)}

/-- `s` is the last who joined under the name, and nobody who had joined under it has left since. -/
def LastJoin (es : List (RoomEvent μ ι β)) (name : ι) (s : μ) : Prop :=
  ∃ es₁ es₂, es = es₁ ++ .join s name :: es₂ ∧ (∀ p, .join p name ∉ es₂) ∧
    ∀ p, .join p name ∈ es₁ ++ [.join s name] → .leave p ∉ es₂

/-- One event more: it is the join, or it is neither another one nor the end of one before. -/
theorem lastJoin_snoc : LastJoin (es ++ [e]) name s ↔ e = .join s name ∨
    LastJoin es name s ∧ (∀ p, e ≠ .join p name) ∧ ∀ p, .join p name ∈ es → e ≠ .leave p := by
  constructor
  · rintro ⟨es₁, es₂, he, hjoin, hleave⟩
    rcases List.eq_nil_or_concat es₂ with rfl | ⟨es₂, e', rfl⟩
    · obtain ⟨-, hlast⟩ := List.append_inj' he rfl
      exact .inl (List.singleton_inj.mp hlast)
    · rw [List.concat_eq_append, ← List.cons_append, ← List.append_assoc] at he
      obtain ⟨rfl, hlast⟩ := List.append_inj' he rfl
      obtain rfl := List.singleton_inj.mp hlast
      simp only [List.concat_eq_append, List.mem_append, List.mem_singleton, not_or]
        at hjoin hleave
      refine .inr ⟨⟨es₁, es₂, rfl, fun p => (hjoin p).1, fun p hp => ?_⟩,
        fun p => Ne.symm (hjoin p).2, fun p hp => Ne.symm (?_ : _ ≠ e)⟩
      · exact (hleave p (by simpa using hp)).1
      · -- Nobody joined under the name after `s`.
        rw [List.append_cons, List.mem_append] at hp
        rcases hp with hp | hp
        · exact (hleave p (by simpa using hp)).2
        · exact absurd hp (hjoin p).1
  · rintro (rfl | ⟨⟨es₁, es₂, rfl, hjoin, hleave⟩, hj, hl⟩)
    · exact ⟨es, [], rfl, by simp, by simp⟩
    · refine ⟨es₁, es₂ ++ [e], by simp, fun p hm => ?_, fun p hp hm => ?_⟩
      · rcases List.mem_append.mp hm with hm | hm
        · exact hjoin p hm
        · exact hj p (List.mem_singleton.mp hm).symm
      · rcases List.mem_append.mp hm with hm | hm
        · exact hleave p hp hm
        · refine hl p ?_ (List.mem_singleton.mp hm).symm
          rw [List.append_cons]
          exact List.mem_append_left _ hp

end LastJoin

/-! ## The room -/

variable {μ ι β : Type} [DecidableEq μ]

/-- A message for everyone who has the line of his name. -/
def announce (b : Board μ ι β) (message : β) : Board μ ι β :=
  { b with visitor := fun p =>
      (b.visitor p).map fun v => if b.line v.name = some p then v.receive message else v }

theorem announce_name (b : Board μ ι β) (message : β) (p : μ) :
    ((b.announce message).visitor p).map Visitor.name = (b.visitor p).map Visitor.name := by
  show ((b.visitor p).map _).map _ = _
  rw [Option.map_map]
  congr 1
  funext v
  show (ite _ _ _ : Visitor ι β).name = _
  split <;> rfl

variable [DecidableEq ι]

/-- `s` has joined under the name. -/
def enter (b : Board μ ι β) (s : μ) (name : ι) (message : β) : Board μ ι β :=
  ⟨Function.update b.line name (some s),
    Function.update b.visitor s (some ⟨name, [message], true⟩)⟩

/-- The visitor `v` at `s` has left. -/
def remove (b : Board μ ι β) (s : μ) (v : Visitor ι β) : Board μ ι β :=
  ⟨Function.update b.line v.name none,
    Function.update b.visitor s (some { v with present := false })⟩

end Board

open Board in
/-- The room as an event-driven system (module doc). -/
def board {μ ι β : Type} [DecidableEq μ] [DecidableEq ι] (welcome farewell : ι → β) :
    Sys (Board μ ι β) (RoomEvent μ ι β) where
  init := ⟨fun _ => none, fun _ => none⟩
  next b
    | .join s name =>
      match b.visitor s with
      | none => some (b.enter s name (welcome name))
      | some _ => none
    | .say s message =>
      match b.visitor s with
      | some v => if v.present then some (b.announce message) else none
      | none => none
    | .leave s =>
      match b.visitor s with
      | some v => if v.present then some ((b.remove s v).announce (farewell v.name)) else none
      | none => none

namespace Board

variable {μ ι β : Type} [DecidableEq μ] [DecidableEq ι] {welcome farewell : ι → β}
  {b b' : Board μ ι β} {p s : μ} {name : ι} {v : Visitor ι β} {e : RoomEvent μ ι β}
  {es : List (RoomEvent μ ι β)}

/-! ## Steps -/

theorem next_join (h : b.visitor s = none) (name : ι) :
    (board welcome farewell).next b (.join s name) = some (b.enter s name (welcome name)) := by
  simp only [board, h]

theorem next_say (h : b.visitor s = some v) (hv : v.present = true) (message : β) :
    (board welcome farewell).next b (.say s message) = some (b.announce message) := by
  simp only [board, h, if_pos hv]

theorem next_leave (h : b.visitor s = some v) (hv : v.present = true) :
    (board welcome farewell).next b (.leave s) =
      some ((b.remove s v).announce (farewell v.name)) := by
  simp only [board, h, if_pos hv]

/-- What an event does to the lines and the names. -/
inductive Step (b : Board μ ι β) : RoomEvent μ ι β → Board μ ι β → Prop
  | joined {s : μ} {name : ι} {b' : Board μ ι β} (fresh : b.visitor s = none)
      (line : b'.line = Function.update b.line name (some s))
      (names : ∀ p, (b'.visitor p).map Visitor.name =
        if p = s then some name else (b.visitor p).map Visitor.name) : Step b (.join s name) b'
  | said {s : μ} {message : β} {b' : Board μ ι β} (line : b'.line = b.line)
      (names : ∀ p, (b'.visitor p).map Visitor.name = (b.visitor p).map Visitor.name) :
      Step b (.say s message) b'
  | left {s : μ} {v : Visitor ι β} {b' : Board μ ι β} (was : b.visitor s = some v)
      (line : b'.line = Function.update b.line v.name none)
      (names : ∀ p, (b'.visitor p).map Visitor.name = (b.visitor p).map Visitor.name) :
      Step b (.leave s) b'

theorem step (hn : (board welcome farewell).next b e = some b') : b.Step e b' := by
  cases e with
  | join s name =>
    cases hv : b.visitor s with
    | none =>
      rw [next_join hv] at hn
      cases hn
      refine .joined hv rfl fun p => ?_
      show (Function.update b.visitor s _ p).map _ = _
      by_cases hp : p = s
      · subst hp
        rw [Function.update_self, if_pos rfl]
        rfl
      · rw [Function.update_of_ne hp, if_neg hp]
    | some v => simp [board, hv] at hn
  | say s message =>
    cases hv : b.visitor s with
    | none => simp [board, hv] at hn
    | some v =>
      cases hp : v.present with
      | false => simp [board, hv, hp] at hn
      | true =>
        rw [next_say hv hp] at hn
        cases hn
        exact .said rfl (announce_name b message)
  | leave s =>
    cases hv : b.visitor s with
    | none => simp [board, hv] at hn
    | some v =>
      cases hp : v.present with
      | false => simp [board, hv, hp] at hn
      | true =>
        rw [next_leave hv hp] at hn
        cases hn
        refine .left hv rfl fun q => (announce_name ..).trans ?_
        show (Function.update b.visitor s _ q).map _ = _
        by_cases hq : q = s
        · subst hq
          rw [Function.update_self, hv]
          rfl
        · rw [Function.update_of_ne hq]

/-! ## Runs -/

/-- **Who has joined, and under which name.** -/
theorem name_iff (hr : (board welcome farewell).Runs es b) :
    (b.visitor p).map Visitor.name = some name ↔ .join p name ∈ es := by
  refine Sys.Runs.induct (P := fun es b => ∀ p name,
    (b.visitor p).map Visitor.name = some name ↔ .join p name ∈ es) ?_ ?_ hr p name
  · intro p name
    constructor <;> intro h <;> cases h
  · intro es b e b' hr ih hn p name
    rw [List.mem_append, List.mem_singleton, ← ih]
    cases step hn with
    | @joined s n _ fresh line names =>
      rw [names]
      by_cases hp : p = s
      · subst hp
        simp [fresh, eq_comm]
      · simp [hp]
    | said line names => simp [names]
    | left was line names => simp [names]

/-- **Who has a line.** -/
theorem line_iff (hr : (board welcome farewell).Runs es b) :
    b.line name = some s ↔ LastJoin es name s := by
  refine Sys.Runs.induct (P := fun es b => ∀ s, b.line name = some s ↔ LastJoin es name s)
    ?_ ?_ hr s
  · intro s
    constructor
    · intro h
      cases h
    · rintro ⟨es₁, es₂, h, -⟩
      cases es₁ <;> cases h
  · intro es b e b' hr ih hn s
    rw [lastJoin_snoc, ← ih]
    cases step hn with
    | @joined t n _ fresh line names =>
      rw [line]
      by_cases hname : name = n
      · subst hname
        rw [Function.update_self]
        simp
      · rw [Function.update_of_ne hname]
        simp [Ne.symm hname]
    | said line names => simp [line]
    | @left t v _ was line names =>
      rw [line]
      by_cases hname : name = v.name
      · -- Whoever leaves with the name has joined under it.
        subst hname
        have hm : .join t v.name ∈ es := (name_iff hr).mp (by rw [was]; rfl)
        rw [Function.update_self]
        simpa using fun _ => hm
      · have hm (p : μ) (hp : .join p name ∈ es) : t ≠ p := by
          rintro rfl
          have hv := (name_iff hr).mpr hp
          rw [was] at hv
          exact hname (Option.some.inj hv).symm
        rw [Function.update_of_ne hname]
        simpa using fun _ => hm

end Board

end Lib
