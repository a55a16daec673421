/-!
# Loops

`loop again body` is `while (again(s)) s = body(s)`, where the body may throw. It is given a number
of turns: the result is `none` if the loop is not over by then.

* `loop_spec`: an invariant, and a measure that each turn makes smaller, show that the loop ends in
  time, with the invariant and without an exception.
-/

namespace Lib

variable {σ ε : Type}

/-- At most `fuel` turns of the loop, from `s` (module doc). -/
def loop (again : σ → Bool) (body : σ → Except ε σ) : Nat → σ → Option (Except ε σ)
  | 0, s => if again s then none else some (.ok s)
  | fuel + 1, s =>
    if again s then
      match body s with
      | .error e => some (.error e)
      | .ok s' => loop again body fuel s'
    else some (.ok s)

variable {again : σ → Bool} {body : σ → Except ε σ}

theorem loop_of_not_again {s : σ} (h : again s = false) (fuel : Nat) :
    loop again body fuel s = some (.ok s) := by
  cases fuel <;> simp [loop, h]

/-- **Total correctness**: from one turn to the loop. -/
theorem loop_spec (inv : σ → Prop) (m : σ → Nat)
    (turn : ∀ s, inv s → again s = true → ∃ s', body s = .ok s' ∧ inv s' ∧ m s' < m s)
    {fuel : Nat} {s : σ} (hs : inv s) (hm : m s ≤ fuel) :
    ∃ s', loop again body fuel s = some (.ok s') ∧ inv s' ∧ again s' = false := by
  induction fuel generalizing s with
  | zero =>
    cases ha : again s with
    | false => exact ⟨s, loop_of_not_again ha 0, hs, ha⟩
    | true =>
      -- A turn would have to make the measure smaller than zero.
      obtain ⟨_, -, -, hlt⟩ := turn s hs ha
      omega
  | succ fuel ih =>
    cases ha : again s with
    | false => exact ⟨s, loop_of_not_again ha _, hs, ha⟩
    | true =>
      obtain ⟨s', hb, hs', hlt⟩ := turn s hs ha
      obtain ⟨r, hr, hinv, hend⟩ := ih hs' (by omega)
      exact ⟨r, by simp only [loop, ha, hb, if_true]; exact hr, hinv, hend⟩

end Lib
