import ChatServer.Lib.Sys

/-!
# Two systems that share events

Two parts of a program on one thread, each an event-driven system. Some of their events happen to
one of them alone; others are one event of each, where the handler of the first calls into the
second and returns.

* `Coupling`: which events happen alone, and which pairs of them happen together. `Coupling.sys`:
  the two as one system.
* `runs_left`, `runs_right`: a run of both is a run of each of them, made of its own events.
* `exists_of_filterMap_eq`: where an event of one of them stands on the run.
-/

namespace Lib

variable {σ ε τ δ : Type}

/-- An event of the first system alone, of the second alone, or of both at once. -/
inductive Joint (ε δ : Type) where
  | left (e : ε)
  | right (d : δ)
  | both (e : ε) (d : δ)

/-- What an event is for the first system. -/
def Joint.left? : Joint ε δ → Option ε
  | .left e => some e
  | .right _ => none
  | .both e _ => some e

/-- What an event is for the second system. -/
def Joint.right? : Joint ε δ → Option δ
  | .left _ => none
  | .right d => some d
  | .both _ d => some d

/-- Which events happen alone, and which together. -/
structure Coupling (ε δ : Type) where
  left : ε → Bool
  right : δ → Bool
  both : ε → δ → Bool

namespace Coupling

/-- The event happens as the coupling says. -/
def allows (K : Coupling ε δ) : Joint ε δ → Bool
  | .left e => K.left e
  | .right d => K.right d
  | .both e d => K.both e d

/-- An event that may not touch a system. -/
def step (S : Sys σ ε) (s : σ) : Option ε → Option σ
  | none => some s
  | some e => S.next s e

/-- The two systems as one. -/
def sys (K : Coupling ε δ) (S : Sys σ ε) (T : Sys τ δ) : Sys (σ × τ) (Joint ε δ) where
  init := (S.init, T.init)
  next st x :=
    if K.allows x then do
      let s ← step S st.1 x.left?
      let t ← step T st.2 x.right?
      return (s, t)
    else none

variable {K : Coupling ε δ} {S : Sys σ ε} {T : Sys τ δ} {st st' : σ × τ} {x : Joint ε δ}
  {xs : List (Joint ε δ)}

/-- **A step of both** is a step of each of them, as far as the event is one of theirs. -/
theorem next_eq_some : (K.sys S T).next st x = some st' ↔
    K.allows x = true ∧ step S st.1 x.left? = some st'.1 ∧ step T st.2 x.right? = some st'.2 := by
  simp only [sys, Option.ite_none_right_eq_some, Option.bind_eq_bind, Option.bind_eq_some_iff,
    Option.pure_def, Option.some.injEq]
  constructor
  · rintro ⟨hx, s, hs, t, ht, rfl⟩
    exact ⟨hx, hs, ht⟩
  · rintro ⟨hx, hs, ht⟩
    exact ⟨hx, st'.1, hs, st'.2, ht, rfl⟩

theorem exec_step {s s' : σ} {e : Option ε} (h : step S s e = some s') :
    S.exec s e.toList = some s' := by
  cases e with
  | none => exact h
  | some e => exact (Sys.exec_singleton s e).trans h

/-- **A run of both is one of the first.** -/
theorem runs_left (hr : (K.sys S T).Runs xs st) : S.Runs (xs.filterMap Joint.left?) st.1 := by
  have hsim : Sys.Simulates (K.sys S T) S (fun _ _ _ => True) (fun _ x _ => x.left?.toList)
      (fun st s => s = st.1) := by
    refine ⟨rfl, ?_⟩
    rintro st x st' s - rfl hn -
    exact ⟨st'.1, exec_step (next_eq_some.mp hn).2.1, rfl⟩
  obtain ⟨s, hs, rfl⟩ := hsim.run hr fun _ _ _ _ _ _ _ => trivial
  rwa [Sys.labels_filterMap _ hr] at hs

/-- **A run of both is one of the second.** -/
theorem runs_right (hr : (K.sys S T).Runs xs st) : T.Runs (xs.filterMap Joint.right?) st.2 := by
  have hsim : Sys.Simulates (K.sys S T) T (fun _ _ _ => True) (fun _ x _ => x.right?.toList)
      (fun st t => t = st.2) := by
    refine ⟨rfl, ?_⟩
    rintro st x st' t - rfl hn -
    exact ⟨st'.2, exec_step (next_eq_some.mp hn).2.2, rfl⟩
  obtain ⟨t, ht, rfl⟩ := hsim.run hr fun _ _ _ _ _ _ _ => trivial
  rwa [Sys.labels_filterMap _ hr] at ht

/-- Every event of a run happens as the coupling says. -/
theorem allows_of_runs (hr : (K.sys S T).Runs xs st) : ∀ x ∈ xs, K.allows x = true := by
  refine Sys.Runs.induct (P := fun xs _ => ∀ x ∈ xs, K.allows x = true) (by simp) ?_ hr
  intro xs st x st' _ ih hn y hy
  rcases List.mem_append.mp hy with hy | hy
  · exact ih y hy
  · rw [List.mem_singleton.mp hy]
    exact (next_eq_some.mp hn).1

/-- The state in which an event of a run happens. -/
theorem runs_split {ys zs : List (Joint ε δ)} (hr : (K.sys S T).Runs (ys ++ x :: zs) st) :
    ∃ st₁ st₂, (K.sys S T).Runs ys st₁ ∧ (K.sys S T).next st₁ x = some st₂ := by
  obtain ⟨st₁, hr₁, hex⟩ := Sys.runs_append.mp hr
  rw [← List.singleton_append, Sys.exec_append, Option.bind_eq_some_iff] at hex
  obtain ⟨st₂, hn, -⟩ := hex
  exact ⟨st₁, st₂, hr₁, (Sys.exec_singleton st₁ x).symm.trans hn⟩

end Coupling

/-- An element of the image of a list, and what is around it. -/
theorem exists_of_filterMap_eq {α β : Type} {f : α → Option β} {l : List α} {l₁ l₂ : List β} {b : β}
    (h : l.filterMap f = l₁ ++ b :: l₂) :
    ∃ m₁ a m₂, l = m₁ ++ a :: m₂ ∧ m₁.filterMap f = l₁ ∧ f a = some b ∧ m₂.filterMap f = l₂ := by
  obtain ⟨m, m', rfl, hm, hm'⟩ := List.filterMap_eq_append_iff.mp h
  obtain ⟨m₀, a, m₂, rfl, hnone, ha, hm₂⟩ := List.filterMap_eq_cons_iff.mp hm'
  refine ⟨m ++ m₀, a, m₂, by simp, ?_, ha, hm₂⟩
  rw [List.filterMap_append, hm, List.filterMap_eq_nil_iff.mpr hnone, List.append_nil]

end Lib
