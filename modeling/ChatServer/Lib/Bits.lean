import Mathlib.Algebra.Group.Nat.Defs
import Mathlib.Data.List.Basic

/-!
# Numbers as strings of bits

A code that packs numbers of one width into numbers of another leaves the string of their bits as
it is. `bits w n` are the lowest `w` bits of `n`, the highest first.

* `bits_append`: the bits of a number that is made of two. `bits_inj`, `exists_bits`: as many
  numbers as strings of bits.
* `flatMap_append_inj`: a string of words of one length, and less than a word behind it, can be
  read back. `exists_flatMap`: a string that can be cut into words.
-/

namespace Lib

/-- The lowest `w` bits of `n`, the highest first. -/
def bits : Nat → Nat → List Bool
  | 0, _ => []
  | w + 1, n => n.testBit w :: bits w n

@[simp] theorem length_bits (w n : Nat) : (bits w n).length = w := by
  induction w with
  | zero => rfl
  | succ w ih => simp [bits, ih]

theorem bits_congr {w m n : Nat} (h : ∀ i < w, m.testBit i = n.testBit i) :
    bits w m = bits w n := by
  induction w with
  | zero => rfl
  | succ w ih =>
    rw [bits, bits, h w (Nat.lt_succ_self w), ih fun i hi => h i (Nat.lt_succ_of_lt hi)]

/-- The bits of a number that is made of two. -/
theorem bits_append {m k x y : Nat} (hy : y < 2 ^ k) :
    bits (m + k) (x * 2 ^ k + y) = bits m x ++ bits k y := by
  have hbit (i : Nat) : (x * 2 ^ k + y).testBit i =
      if i < k then y.testBit i else x.testBit (i - k) := by
    rw [Nat.mul_comm]
    exact Nat.testBit_two_pow_mul_add x hy i
  induction m with
  | zero =>
    rw [Nat.zero_add]
    exact bits_congr fun i hi => by rw [hbit, if_pos hi]
  | succ m ih =>
    rw [Nat.succ_add, bits, bits, ih, hbit, if_neg (by omega), Nat.add_sub_cancel]
    rfl

/-- The bits of a number are those of its quotient and its remainder. -/
theorem bits_div_mod (m k n : Nat) : bits (m + k) n = bits m (n / 2 ^ k) ++ bits k (n % 2 ^ k) := by
  rw [← bits_append (Nat.mod_lt n (Nat.two_pow_pos k)), Nat.mul_comm, Nat.div_add_mod]

/-- The bits above the lowest `w` do not matter. -/
theorem bits_mod (w n : Nat) : bits w (n % 2 ^ w) = bits w n := by
  refine bits_congr fun i hi => ?_
  rw [Nat.testBit_mod_two_pow, decide_eq_true hi, Bool.true_and]

theorem testBit_of_bits {w m n : Nat} (h : bits w m = bits w n) :
    ∀ i < w, m.testBit i = n.testBit i := by
  induction w with
  | zero => exact fun i hi => absurd hi (Nat.not_lt_zero i)
  | succ w ih =>
    obtain ⟨htop, hrest⟩ := List.cons.inj h
    intro i hi
    rcases Nat.lt_succ_iff_lt_or_eq.mp hi with hi | rfl
    · exact ih hrest i hi
    · exact htop

/-- A number is determined by its bits. -/
theorem bits_inj {w m n : Nat} (hm : m < 2 ^ w) (hn : n < 2 ^ w) (h : bits w m = bits w n) :
    m = n := by
  apply Nat.eq_of_testBit_eq
  intro i
  by_cases hi : i < w
  · exact testBit_of_bits h i hi
  · have hle : 2 ^ w ≤ 2 ^ i := Nat.pow_le_pow_right (by decide) (Nat.le_of_not_lt hi)
    rw [Nat.testBit_lt_two_pow (Nat.lt_of_lt_of_le hm hle),
      Nat.testBit_lt_two_pow (Nat.lt_of_lt_of_le hn hle)]

/-- Every string of `w` bits is that of a number. -/
theorem exists_bits {w : Nat} {bs : List Bool} (h : bs.length = w) :
    ∃ n, n < 2 ^ w ∧ bits w n = bs := by
  induction bs generalizing w with
  | nil => subst h; exact ⟨0, by decide, rfl⟩
  | cons b bs ih =>
    subst h
    obtain ⟨n, hn, hbs⟩ := ih rfl
    rw [List.length_cons, Nat.add_comm]
    have hb : b.toNat < 2 ^ 1 := b.toNat_lt
    refine ⟨b.toNat * 2 ^ bs.length + n, ?_, ?_⟩
    · rw [Nat.pow_add]
      calc b.toNat * 2 ^ bs.length + n
        _ < b.toNat * 2 ^ bs.length + 2 ^ bs.length := Nat.add_lt_add_left hn _
        _ = (b.toNat + 1) * 2 ^ bs.length := (Nat.succ_mul _ _).symm
        _ ≤ 2 ^ 1 * 2 ^ bs.length := Nat.mul_le_mul_right _ hb
    · rw [bits_append hn, hbs]
      cases b <;> rfl

/-- Words of one length, and less than a word behind them, can be read back. -/
theorem flatMap_append_inj {α β : Type} {f : α → List β} {w : Nat} (hf : ∀ a, (f a).length = w)
    {l l' : List α} {r r' : List β} (hinj : ∀ a ∈ l, ∀ b ∈ l', f a = f b → a = b)
    (hr : r.length < w) (hr' : r'.length < w) (h : l.flatMap f ++ r = l'.flatMap f ++ r') :
    l = l' ∧ r = r' := by
  induction l generalizing l' with
  | nil =>
    cases l' with
    | nil => exact ⟨rfl, by simpa using h⟩
    | cons b l' =>
      have hlen := congrArg List.length h
      simp only [List.flatMap_nil, List.flatMap_cons, List.nil_append, List.length_append,
        hf] at hlen
      omega
  | cons a l ih =>
    cases l' with
    | nil =>
      have hlen := congrArg List.length h
      simp only [List.flatMap_nil, List.flatMap_cons, List.nil_append, List.length_append,
        hf] at hlen
      omega
    | cons b l' =>
      simp only [List.flatMap_cons, List.append_assoc] at h
      obtain ⟨hab, htail⟩ := List.append_inj h (by rw [hf, hf])
      obtain rfl := hinj a List.mem_cons_self b List.mem_cons_self hab
      obtain ⟨rfl, rfl⟩ := ih
        (fun c hc d hd => hinj c (List.mem_cons_of_mem _ hc) d (List.mem_cons_of_mem _ hd)) htail
      exact ⟨rfl, rfl⟩

/-- A string whose length is a multiple of the length of a word can be cut into words. -/
theorem exists_flatMap {α β : Type} {f : α → List β} {w : Nat} {A : α → Prop}
    (hsurj : ∀ word : List β, word.length = w → ∃ a, A a ∧ f a = word) {s : List β} {k : Nat}
    (h : s.length = k * w) : ∃ l : List α, (∀ a ∈ l, A a) ∧ l.flatMap f = s := by
  induction k generalizing s with
  | zero =>
    obtain rfl : s = [] := List.length_eq_zero_iff.mp (h.trans (Nat.zero_mul w))
    exact ⟨[], by simp, rfl⟩
  | succ k ih =>
    rw [Nat.succ_mul] at h
    obtain ⟨a, ha, hword⟩ := hsurj (s.take w) (by rw [List.length_take]; omega)
    obtain ⟨l, hl, hs⟩ := ih (s := s.drop w) (by rw [List.length_drop]; omega)
    refine ⟨a :: l, List.forall_mem_cons.mpr ⟨ha, hl⟩, ?_⟩
    rw [List.flatMap_cons, hword, hs, List.take_append_drop]

end Lib
