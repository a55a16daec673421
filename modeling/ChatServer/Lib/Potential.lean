import ChatServer.Lib.Sys
import Mathlib.Algebra.BigOperators.Group.List.Basic
import Mathlib.Algebra.GroupWithZero.Nat

/-!
# Runs that a potential bounds

A potential of a system is a number that an event may raise by what it pays for and that every
event spends one of. So a run is no longer than what its events have paid, and a system whose
events pay nothing comes to rest.

* `exec_induct`: what each step keeps holds at the end of a run from any state.
* `Sys.Potential C I μ pay`: the potential `μ` of the states with `I`, for the events in `C`.
  `Potential.exec`: the bound on a run.
* `Sys.Rest C s`: no event in `C` can happen in `s`. `Potential.exists_rest`: some run comes there.
-/

namespace Lib.Sys

variable {σ ε : Type} {S : Sys σ ε} {C : ε → Prop} {I : σ → Prop} {s s' : σ} {es : List ε}

theorem exec_cons {e : ε} (h : S.exec s (e :: es) = some s') :
    ∃ s₁, S.next s e = some s₁ ∧ S.exec s₁ es = some s' := by
  simpa [exec, Option.bind_eq_some_iff] using h

theorem exec_cons_of_next {e : ε} {s₁ : σ} (hn : S.next s e = some s₁)
    (h : S.exec s₁ es = some s') : S.exec s (e :: es) = some s' := by
  simpa [exec, Option.bind_eq_some_iff] using ⟨s₁, hn, h⟩

/-- **Induction over runs from any state**, of events in `C`. -/
theorem exec_induct (step : ∀ s e s', I s → C e → S.next s e = some s' → I s') (hs : I s)
    (hC : ∀ e ∈ es, C e) (h : S.exec s es = some s') : I s' := by
  induction es generalizing s with
  | nil => cases h; exact hs
  | cons e es ih =>
    obtain ⟨s₁, hn, h⟩ := exec_cons h
    rw [List.forall_mem_cons] at hC
    exact ih (step s e s₁ hs hC.1 hn) hC.2 h

variable (S) in
/-- Every event in `C` keeps `I`, and spends one of the potential and of what it pays. -/
structure Potential (C : ε → Prop) (I : σ → Prop) (μ : σ → Nat) (pay : ε → Nat) : Prop where
  keeps : ∀ s e s', I s → C e → S.next s e = some s' → I s'
  spends : ∀ s e s', I s → C e → S.next s e = some s' → μ s' + 1 ≤ μ s + pay e

variable {μ : σ → Nat} {pay : ε → Nat}

theorem Potential.mono {D : ε → Prop} (hp : S.Potential C I μ pay) (h : ∀ e, D e → C e) :
    S.Potential D I μ pay :=
  ⟨fun s e s' hs hD hn => hp.keeps s e s' hs (h e hD) hn,
    fun s e s' hs hD hn => hp.spends s e s' hs (h e hD) hn⟩

/-- **A run is no longer than what it was paid for.** -/
theorem Potential.exec (hp : S.Potential C I μ pay) (hs : I s) (hC : ∀ e ∈ es, C e)
    (h : S.exec s es = some s') : es.length + μ s' ≤ μ s + (es.map pay).sum := by
  induction es generalizing s with
  | nil => cases h; simp
  | cons e es ih =>
    obtain ⟨s₁, hn, h⟩ := exec_cons h
    rw [List.forall_mem_cons] at hC
    have hstep := hp.spends s e s₁ hs hC.1 hn
    have hrest := ih (hp.keeps s e s₁ hs hC.1 hn) hC.2 h
    simp only [List.length_cons, List.map_cons, List.sum_cons]
    omega

variable (S) in
/-- No event in `C` can happen. -/
def Rest (C : ε → Prop) (s : σ) : Prop := ∀ e, C e → S.next s e = none

/-- **Events that pay nothing come to rest**, whichever of them happens next. -/
theorem Potential.exists_rest (hp : S.Potential C I μ pay) (hfree : ∀ e, C e → pay e = 0)
    (hs : I s) : ∃ es s', (∀ e ∈ es, C e) ∧ S.exec s es = some s' ∧ S.Rest C s' := by
  induction hμ : μ s using Nat.strongRecOn generalizing s with
  | ind n ih =>
    by_cases hr : S.Rest C s
    · exact ⟨[], s, by simp, rfl, hr⟩
    · obtain ⟨e, hne⟩ := not_forall.mp hr
      obtain ⟨hCe, hne⟩ := Classical.not_imp.mp hne
      obtain ⟨s₁, hn⟩ := Option.ne_none_iff_exists'.mp hne
      have hlt := hp.spends s e s₁ hs hCe hn
      rw [hfree e hCe] at hlt
      obtain ⟨es, s', hC, hex, hrest⟩ := ih (μ s₁) (by omega) (hp.keeps s e s₁ hs hCe hn) rfl
      exact ⟨e :: es, s', List.forall_mem_cons.mpr ⟨hCe, hC⟩, exec_cons_of_next hn hex, hrest⟩

end Lib.Sys
