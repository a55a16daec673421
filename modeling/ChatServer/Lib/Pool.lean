import ChatServer.Lib.Sys

/-!
# Pools: a growing number of instances of one system

A component that launches others is a list of states, one for each instance of a system `S`. An
event starts a new instance or belongs to one of them.

* `pool S`: the instances as one system.
* `pool_runs`: whatever the interleaving, each instance has had a run of its own, which is made of
  its own events.
-/

namespace Lib

variable {σ ε : Type}

/-- A new instance starts, or the `i`-th one takes a step. -/
inductive PoolEvent (ε : Type) where
  | launch
  | step (i : Nat) (e : ε)

/-- The event of the `i`-th instance. -/
def PoolEvent.ofInstance (i : Nat) : PoolEvent ε → Option ε
  | .launch => none
  | .step j e => if j = i then some e else none

/-- The events of the `i`-th instance, in order. -/
def ownEvents (i : Nat) (es : List (PoolEvent ε)) : List ε := es.filterMap (PoolEvent.ofInstance i)

/-- The instances of `S`, as one system. -/
def pool (S : Sys σ ε) : Sys (List σ) (PoolEvent ε) where
  init := []
  next cs
    | .launch => some (cs ++ [S.init])
    | .step i e => do
      let c ← cs[i]?
      let c ← S.next c e
      return cs.set i c

/-- An entry that changes without its image under `f`. -/
theorem map_set_of_eq {α β : Type} {f : α → β} {l : List α} {i : Nat} {a b : α}
    (ha : l[i]? = some a) (h : f b = f a) : (l.set i b).map f = l.map f := by
  have hb : (l.map f)[i]? = some (f b) := by rw [List.getElem?_map, ha, h]; rfl
  obtain ⟨hlt, hget⟩ := List.getElem?_eq_some_iff.mp hb
  rw [List.map_set, ← hget, List.set_getElem_self]

variable {S : Sys σ ε} {cs cs' : List σ} {i : Nat}

@[simp] theorem ownEvents_launch (i : Nat) (es : List (PoolEvent ε)) :
    ownEvents i (es ++ [.launch]) = ownEvents i es := by
  simp [ownEvents, PoolEvent.ofInstance]

@[simp] theorem ownEvents_self (i : Nat) (es : List (PoolEvent ε)) (e : ε) :
    ownEvents i (es ++ [.step i e]) = ownEvents i es ++ [e] := by
  simp [ownEvents, PoolEvent.ofInstance]

theorem ownEvents_ne {j : Nat} (h : j ≠ i) (es : List (PoolEvent ε)) (e : ε) :
    ownEvents i (es ++ [.step j e]) = ownEvents i es := by
  simp [ownEvents, PoolEvent.ofInstance, h]

theorem pool_step {e : ε} (h : (pool S).next cs (.step i e) = some cs') :
    ∃ c c', cs[i]? = some c ∧ S.next c e = some c' ∧ cs' = cs.set i c' := by
  simp only [pool, Option.bind_eq_bind, Option.bind_eq_some_iff, Option.pure_def,
    Option.some.injEq] at h
  obtain ⟨c, hc, c', hn, rfl⟩ := h
  exact ⟨c, c', hc, hn, rfl⟩

/-- What the events `es` say about the `i`-th instance: its run, or that it has had none. -/
def Own (S : Sys σ ε) (es : List ε) : Option σ → Prop
  | some c => S.Runs es c
  | none => es = []

/-- **Each instance has had a run of its own.** -/
theorem pool_own {es : List (PoolEvent ε)} (hr : (pool S).Runs es cs) (i : Nat) :
    Own S (ownEvents i es) cs[i]? := by
  have hnil : ∀ i, Own S (ownEvents i []) (pool S).init[i]? := fun _ => rfl
  refine Sys.Runs.induct (P := fun es cs => ∀ i, Own S (ownEvents i es) cs[i]?) hnil ?_ hr i
  intro es cs e cs' _ ih hn j
  cases e with
  | launch =>
    obtain rfl : cs ++ [S.init] = cs' := Option.some.inj hn
    rw [ownEvents_launch]
    have hj := ih j
    rcases Nat.lt_trichotomy j cs.length with hlt | heq | hgt
    · rwa [List.getElem?_append_left hlt]
    · -- The new instance: no event was its own so far.
      rw [heq, List.getElem?_eq_none (Nat.le_refl _)] at hj
      rw [heq, List.getElem?_concat_length, show ownEvents cs.length es = [] from hj]
      exact Sys.runs_nil
    · rw [List.getElem?_eq_none (by omega)] at hj
      rw [List.getElem?_eq_none (by simp; omega)]
      exact hj
  | step i e =>
    obtain ⟨c, c', hc, hs, rfl⟩ := pool_step hn
    by_cases hij : i = j
    · subst hij
      have hi := ih i
      rw [hc] at hi
      have hlt : i < cs.length := (List.getElem?_eq_some_iff.mp hc).1
      rw [ownEvents_self, List.getElem?_set_self hlt]
      exact hi.snoc hs
    · rw [ownEvents_ne hij, List.getElem?_set_ne hij]
      exact ih j

theorem pool_runs {es : List (PoolEvent ε)} {c : σ} (hr : (pool S).Runs es cs)
    (hc : cs[i]? = some c) : S.Runs (ownEvents i es) c := by
  have ho := pool_own hr i
  rwa [hc] at ho

end Lib
