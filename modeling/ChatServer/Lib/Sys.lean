import Mathlib.Data.List.Basic
import Mathlib.Data.List.Induction

/-!
# Event-driven systems, their runs and simulations

A program on one thread that reacts to events is a state and a partial step function: `next s e`
is the state after the handler of `e`, `none` if `e` cannot happen in `s`. A run is a list of
events. Everything here is over an arbitrary system.

* `Sys.Runs es s`: the run `es` from the initial state reaches `s`; `Sys.Reach s`: some run does.
* `Runs.induct`: what holds initially and is kept by each step, with the events so far in sight,
  holds after every run. `Inductive.reach` is the case of a property of the state alone.
* `Sys.Along P es`: every state on the run `es` has `P`; `Sys.Meets C es`: every step of the run
  is in `C`.
* `Simulates`: a forward simulation; each step of the first system is matched by a run of the
  second, whose events are the labels of the step. `Simulates.run` lifts it to whole runs. A
  step with no label stutters, so the same rule erases steps of a run.
-/

namespace Lib

/-- An event-driven system: its initial state, and the step of each event that can happen. -/
structure Sys (σ ε : Type) where
  init : σ
  next : σ → ε → Option σ

namespace Sys

variable {σ ε τ δ : Type} (S : Sys σ ε) (T : Sys τ δ)

/-- The state after the events `es`, from `s`. -/
def exec (s : σ) (es : List ε) : Option σ := es.foldlM S.next s

/-- The run `es` from the initial state reaches `s`. -/
def Runs (es : List ε) (s : σ) : Prop := S.exec S.init es = some s

/-- Some run reaches `s`. -/
def Reach (s : σ) : Prop := ∃ es, S.Runs es s

/-- A property that holds initially and that every step keeps. -/
def Inductive (I : σ → Prop) : Prop := I S.init ∧ ∀ s e s', I s → S.next s e = some s' → I s'

/-- Every state on the run `es`, the first and the last included, has `P`. -/
def Along (P : σ → Prop) (es : List ε) : Prop := ∀ es₁, es₁ <+: es → ∀ s, S.Runs es₁ s → P s

/-- Every step of the run `es` is in `C`. -/
def Meets (C : σ → ε → σ → Prop) (es : List ε) : Prop :=
  ∀ es₁ e, es₁ ++ [e] <+: es → ∀ s s', S.Runs es₁ s → S.next s e = some s' → C s e s'

/-- The labels of the steps of the run `es` from `s`, in order. -/
def labels (lab : σ → ε → σ → List δ) (s : σ) : List ε → List δ
  | [] => []
  | e :: es =>
    match S.next s e with
    | none => []
    | some s' => lab s e s' ++ labels lab s' es

variable {S T}

/-! ## Runs -/

@[simp] theorem exec_nil (s : σ) : S.exec s [] = some s := rfl

theorem exec_append (s : σ) (es es' : List ε) :
    S.exec s (es ++ es') = (S.exec s es).bind fun s' => S.exec s' es' := by
  unfold exec; rw [List.foldlM_append]; rfl

@[simp] theorem exec_singleton (s : σ) (e : ε) : S.exec s [e] = S.next s e := by
  unfold exec; simp

theorem runs_nil : S.Runs [] S.init := rfl

theorem runs_append {es es' : List ε} {s : σ} :
    S.Runs (es ++ es') s ↔ ∃ s', S.Runs es s' ∧ S.exec s' es' = some s := by
  unfold Runs; rw [exec_append, Option.bind_eq_some_iff]

/-- A run and one more step. -/
theorem runs_snoc {es : List ε} {e : ε} {s : σ} :
    S.Runs (es ++ [e]) s ↔ ∃ s', S.Runs es s' ∧ S.next s' e = some s := by
  rw [runs_append]; simp

theorem Runs.snoc {es : List ε} {e : ε} {s s' : σ} (h : S.Runs es s) (hn : S.next s e = some s') :
    S.Runs (es ++ [e]) s' := runs_snoc.mpr ⟨s, h, hn⟩

theorem Runs.reach {es : List ε} {s : σ} (h : S.Runs es s) : S.Reach s := ⟨es, h⟩

theorem Runs.unique {es : List ε} {s s' : σ} (h : S.Runs es s) (h' : S.Runs es s') : s = s' :=
  Option.some.inj (h.symm.trans h')

/-- **Induction over runs**, with the events so far. -/
theorem Runs.induct {P : List ε → σ → Prop} (nil : P [] S.init)
    (snoc : ∀ es s e s', S.Runs es s → P es s → S.next s e = some s' → P (es ++ [e]) s')
    {es : List ε} {s : σ} (h : S.Runs es s) : P es s := by
  induction es using List.reverseRecOn generalizing s with
  | nil => cases Runs.unique runs_nil h; exact nil
  | append_singleton es e ih =>
    obtain ⟨s', hs, hn⟩ := runs_snoc.mp h
    exact snoc es s' e s hs (ih hs) hn

/-- An inductive property holds of every reachable state. -/
theorem Inductive.reach {I : σ → Prop} (h : S.Inductive I) {s : σ} (hs : S.Reach s) : I s :=
  hs.elim fun _ hr => Runs.induct (P := fun _ s => I s) h.1 (fun _ _ _ _ _ => h.2 _ _ _) hr

/-! ## Properties of every state and of every step of a run -/

theorem Along.last {P : σ → Prop} {es : List ε} {s : σ} (h : S.Along P es) (hr : S.Runs es s) :
    P s := h es (List.prefix_refl es) s hr

theorem Along.mono {P Q : σ → Prop} {es : List ε} (h : S.Along P es) (hPQ : ∀ s, P s → Q s) :
    S.Along Q es := fun es₁ hp s hr => hPQ s (h es₁ hp s hr)

theorem Meets.init {C : σ → ε → σ → Prop} {es es' : List ε} (h : S.Meets C (es ++ es')) :
    S.Meets C es := fun es₁ e hp => h es₁ e (hp.trans (List.prefix_append _ _))

theorem Meets.last {C : σ → ε → σ → Prop} {es : List ε} {e : ε} {s s' : σ}
    (h : S.Meets C (es ++ [e])) (hr : S.Runs es s) (hn : S.next s e = some s') : C s e s' :=
  h es e (List.prefix_refl _) s s' hr hn

/-- **Induction over runs whose steps are in `C`.** -/
theorem Runs.induct_meets {C : σ → ε → σ → Prop} {P : List ε → σ → Prop} (nil : P [] S.init)
    (snoc : ∀ es s e s', S.Runs es s → P es s → S.next s e = some s' → C s e s' →
      P (es ++ [e]) s')
    {es : List ε} {s : σ} (h : S.Runs es s) (hC : S.Meets C es) : P es s := by
  refine Runs.induct (P := fun es s => S.Meets C es → P es s) (fun _ => nil) ?_ h hC
  intro es s e s' hr ih hn hC
  exact snoc es s e s' hr (ih hC.init) hn (hC.last hr hn)

/-- What holds initially and is kept by every step in `C` holds along a run in `C`. -/
theorem Along.of_meets {C : σ → ε → σ → Prop} {P : σ → Prop} (nil : P S.init)
    (step : ∀ s e s', S.Reach s → P s → S.next s e = some s' → C s e s' → P s')
    {es : List ε} (hC : S.Meets C es) : S.Along P es := by
  intro es₁ hp s hr
  refine Runs.induct_meets (C := C) (P := fun _ s => P s) nil ?_ hr
    fun es₂ e hp₂ => hC es₂ e (hp₂.trans hp)
  exact fun es s e s' hr hP hn hc => step s e s' hr.reach hP hn hc

/-! ## Forward simulations -/

theorem labels_append (lab : σ → ε → σ → List δ) {s s' : σ} {es es' : List ε}
    (h : S.exec s es = some s') :
    S.labels lab s (es ++ es') = S.labels lab s es ++ S.labels lab s' es' := by
  induction es generalizing s with
  | nil => cases h; rfl
  | cons e es ih =>
    simp only [exec, List.foldlM_cons, Option.bind_eq_bind, Option.bind_eq_some_iff] at h
    obtain ⟨s₁, hn, h⟩ := h
    simp only [List.cons_append, labels, hn, ih h, List.append_assoc]

theorem labels_snoc (lab : σ → ε → σ → List δ) {s s' s'' : σ} {es : List ε} {e : ε}
    (h : S.exec s es = some s') (hn : S.next s' e = some s'') :
    S.labels lab s (es ++ [e]) = S.labels lab s es ++ lab s' e s'' := by
  rw [labels_append lab h]; simp [labels, hn]

variable (S T) in
/-- `R` is a forward simulation of the steps of `S` in `C` by `T`: it relates the initial states,
and the labels of a step lead `T` from any related state to one related to the step's result. -/
structure Simulates (C : σ → ε → σ → Prop) (lab : σ → ε → σ → List δ) (R : σ → τ → Prop) :
    Prop where
  init : R S.init T.init
  step : ∀ s e s' t, S.Reach s → R s t → S.next s e = some s' → C s e s' →
    ∃ t', T.exec t (lab s e s') = some t' ∧ R s' t'

/-- **A simulation of the steps is one of the runs.** -/
theorem Simulates.run {C : σ → ε → σ → Prop} {lab : σ → ε → σ → List δ} {R : σ → τ → Prop}
    (h : Simulates S T C lab R) {es : List ε} {s : σ} (hr : S.Runs es s) (hC : S.Meets C es) :
    ∃ t, T.Runs (S.labels lab S.init es) t ∧ R s t := by
  refine Runs.induct_meets (C := C)
    (P := fun es s => ∃ t, T.Runs (S.labels lab S.init es) t ∧ R s t)
    ⟨T.init, runs_nil, h.init⟩ ?_ hr hC
  rintro es s e s' hr ⟨t, ht, hR⟩ hn hc
  obtain ⟨t', ht', hR'⟩ := h.step s e s' t hr.reach hR hn hc
  exact ⟨t', by rw [labels_snoc lab hr hn]; exact runs_append.mpr ⟨t, ht, ht'⟩, hR'⟩

/-- Labels that the events alone decide. -/
theorem labels_filterMap (f : ε → Option δ) {s s' : σ} {es : List ε} (h : S.exec s es = some s') :
    S.labels (fun _ e _ => (f e).toList) s es = es.filterMap f := by
  induction es generalizing s with
  | nil => rfl
  | cons e es ih =>
    simp only [exec, List.foldlM_cons, Option.bind_eq_bind, Option.bind_eq_some_iff] at h
    obtain ⟨s₁, hn, h⟩ := h
    simp only [labels, hn, ih h, List.filterMap_cons]
    cases f e <;> rfl

/-- The labels that keep the events with `p` and drop the others. -/
def keep (p : ε → Bool) (_ : σ) (e : ε) (_ : σ) : List ε := if p e then [e] else []

theorem labels_keep (p : ε → Bool) {s s' : σ} {es : List ε} (h : S.exec s es = some s') :
    S.labels (keep p) s es = es.filter p := by
  have hk : keep p = fun (_ : σ) e (_ : σ) => (Option.guard p e).toList := by
    funext _ e _
    unfold keep Option.guard
    split <;> rfl
  rw [hk, labels_filterMap _ h, List.filterMap_eq_filter]

end Sys

end Lib
