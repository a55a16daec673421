import Mathlib.Data.List.Basic
import Mathlib.Data.List.Infix

/-!
# Byte strings

A `std::string` or a string view is a list of bytes. `ascii` gives the bytes of a string literal
of the source. `find` is the search of `std::string::find`.

`ValidUtf8` is well-formedness of a text message: the bytes are the encoding of some characters.
-/

namespace Lib

/-- A string of bytes. -/
abbrev Bytes := List UInt8

/-- The bytes of an ASCII string literal. -/
def ascii (s : String) : Bytes := s.toList.map fun c => c.toNat.toUInt8

/-- The byte of an ASCII character literal. -/
def chr (c : Char) : UInt8 := c.toNat.toUInt8

/-- The first position at which `pat` stands in the string, `none` for `npos`. -/
def find (pat : Bytes) : Bytes → Option Nat
  | [] => if pat = [] then some 0 else none
  | c :: s => if pat.isPrefixOf (c :: s) then some 0 else (find pat s).map (· + 1)

/-! ## The first occurrence -/

theorem find_append_of_isPrefixOf {pat s : Bytes} (h : pat.isPrefixOf s = true) :
    find pat s = some 0 := by
  cases s with
  | nil =>
    have : pat = [] := List.prefix_nil.mp (List.isPrefixOf_iff_prefix.mp h)
    simp [find, this]
  | cons c s => simp [find, h]

/-- A pattern whose first byte is not in `p` is first found after `p`. -/
theorem find_skip {c : UInt8} {pat p s : Bytes} (hp : c ∉ p) :
    find (c :: pat) (p ++ s) = (find (c :: pat) s).map (· + p.length) := by
  induction p with
  | nil => simp
  | cons d p ih =>
    simp only [List.mem_cons, not_or] at hp
    obtain ⟨hd, hp⟩ := hp
    rw [List.cons_append, find]
    have hne : (c :: pat).isPrefixOf (d :: (p ++ s)) = false := by
      simp [List.isPrefixOf, hd]
    rw [hne, ih hp]
    simp only [Bool.false_eq_true, ↓reduceIte, Option.map_map, List.length_cons]
    rfl

/-- A marker whose first byte is not in `p` is found right after `p`. -/
theorem find_marker {c : UInt8} {pat p s : Bytes} (hp : c ∉ p) :
    find (c :: pat) (p ++ (c :: pat ++ s)) = some p.length := by
  rw [find_skip hp, find_append_of_isPrefixOf]
  · simp only [Option.map_some, Nat.zero_add]
  · exact List.isPrefixOf_iff_prefix.mpr (List.prefix_append _ _)

theorem find_eq_none_of_notMem {c : UInt8} {pat s : Bytes} (h : c ∉ s) :
    find (c :: pat) s = none := by
  have hs : find (c :: pat) (s ++ []) = _ := find_skip h
  rw [List.append_nil] at hs
  simp [hs, find]

/-- Two strings are the same up to the first `c` and behind it. -/
theorem append_cons_inj {c : UInt8} {x y s t : Bytes} (hx : c ∉ x) (hy : c ∉ y)
    (h : x ++ c :: s = y ++ c :: t) : x = y ∧ s = t := by
  induction x generalizing y with
  | nil =>
    cases y with
    | nil => exact ⟨rfl, (List.cons.inj h).2⟩
    | cons d y => exact absurd (List.cons.inj h).1 fun hd => hy (hd ▸ List.mem_cons_self)
  | cons d x ih =>
    cases y with
    | nil => exact absurd (List.cons.inj h).1 fun hd => hx (hd ▸ List.mem_cons_self)
    | cons e y =>
      obtain ⟨rfl, htail⟩ := List.cons.inj h
      obtain ⟨rfl, rfl⟩ := ih (fun hm => hx (List.mem_cons_of_mem _ hm))
        (fun hm => hy (List.mem_cons_of_mem _ hm)) htail
      exact ⟨rfl, rfl⟩

/-- Nothing is found exactly if the pattern does not stand in the string. -/
theorem find_eq_none_iff {pat s : Bytes} : find pat s = none ↔ ¬ pat <:+: s := by
  induction s with
  | nil => simp [find]
  | cons c s ih =>
    rw [find, List.infix_cons_iff, ← List.isPrefixOf_iff_prefix]
    by_cases h : pat.isPrefixOf (c :: s) = true
    · simp [h]
    · simp [h, ih]

/-- What is found is the first occurrence. -/
theorem find_eq_some_iff {pat s : Bytes} {n : Nat} :
    find pat s = some n ↔ pat <+: s.drop n ∧ ∀ k < n, ¬ pat <+: s.drop k := by
  induction s generalizing n with
  | nil =>
    rw [find, List.drop_nil, List.prefix_nil]
    by_cases hp : pat = []
    · rw [if_pos hp]
      constructor
      · intro hn
        cases hn
        exact ⟨hp, fun k hk => absurd hk (Nat.not_lt_zero k)⟩
      · rintro ⟨-, hfirst⟩
        cases n with
        | zero => rfl
        | succ n => exact absurd (hp ▸ List.nil_prefix) (hfirst 0 (Nat.succ_pos n))
    · rw [if_neg hp]
      constructor
      · intro hn
        cases hn
      · exact fun h => absurd h.1 hp
  | cons c s ih =>
    rw [find]
    by_cases h : pat.isPrefixOf (c :: s) = true
    · have hp := List.isPrefixOf_iff_prefix.mp h
      rw [if_pos h]
      constructor
      · intro hn
        cases hn
        exact ⟨hp, fun k hk => absurd hk (Nat.not_lt_zero k)⟩
      · rintro ⟨-, hfirst⟩
        cases n with
        | zero => rfl
        | succ n => exact absurd hp (hfirst 0 (Nat.succ_pos n))
    · have hp : ¬ pat <+: c :: s := mt List.isPrefixOf_iff_prefix.mpr h
      rw [if_neg h, Option.map_eq_some_iff]
      constructor
      · rintro ⟨n, hn, rfl⟩
        obtain ⟨hpre, hfirst⟩ := ih.mp hn
        refine ⟨hpre, fun k hk => ?_⟩
        cases k with
        | zero => exact hp
        | succ k => exact hfirst k (Nat.lt_of_succ_lt_succ hk)
      · rintro ⟨hpre, hfirst⟩
        cases n with
        | zero => exact absurd hpre hp
        | succ n =>
          exact ⟨n, ih.mpr ⟨hpre, fun k hk => hfirst (k + 1) (Nat.succ_lt_succ hk)⟩, rfl⟩

/-! ## UTF-8 -/

/-- The bytes are the UTF-8 encoding of some characters. -/
def ValidUtf8 (b : Bytes) : Prop := ∃ cs : List Char, cs.flatMap String.utf8EncodeChar = b

theorem validUtf8_nil : ValidUtf8 [] := ⟨[], rfl⟩

theorem ValidUtf8.append {a b : Bytes} (ha : ValidUtf8 a) (hb : ValidUtf8 b) :
    ValidUtf8 (a ++ b) := by
  obtain ⟨cs, rfl⟩ := ha
  obtain ⟨ds, rfl⟩ := hb
  exact ⟨cs ++ ds, List.flatMap_append⟩

/-- Seven-bit bytes are valid text. -/
theorem validUtf8_of_ascii {b : Bytes} (h : ∀ c ∈ b, c < 128) : ValidUtf8 b := by
  induction b with
  | nil => exact validUtf8_nil
  | cons c b ih =>
    have hc : c.toNat < 128 := h c List.mem_cons_self
    have hv : c.toNat.isValidChar := .inl (by omega)
    refine ValidUtf8.append (a := [c]) ⟨[Char.ofNat c.toNat], ?_⟩
      (ih fun d hd => h d (List.mem_cons_of_mem _ hd))
    have hn : (Char.ofNat c.toNat).val.toNat = c.toNat := by
      rw [Char.ofNat, dif_pos hv]; rfl
    rw [List.flatMap_singleton, String.utf8EncodeChar]
    simp only [hn, show c.toNat ≤ 0x7f by omega, ↓reduceIte, UInt8.ofNat_toNat]

/-- No text starts with a byte from `0xF8` on. -/
theorem not_validUtf8_cons {c : UInt8} {b : Bytes} (h : 0xF8 ≤ c) : ¬ ValidUtf8 (c :: b) := by
  have hc : 0xF8 ≤ c.toNat := h
  rintro ⟨cs, hcs⟩
  cases cs with
  | nil => cases hcs
  | cons d cs =>
    -- The first byte of each of the four encodings of a character is below `0xF8`.
    rw [List.flatMap_cons, String.utf8EncodeChar] at hcs
    split at hcs
    · have := congrArg UInt8.toNat (List.cons.inj hcs).1
      simp only [UInt8.toNat_ofNat'] at this
      omega
    split at hcs
    · have := congrArg UInt8.toNat (List.cons.inj hcs).1
      simp only [UInt8.toNat_ofNat'] at this
      omega
    split at hcs
    · have := congrArg UInt8.toNat (List.cons.inj hcs).1
      simp only [UInt8.toNat_ofNat'] at this
      omega
    · have := congrArg UInt8.toNat (List.cons.inj hcs).1
      simp only [UInt8.toNat_ofNat'] at this
      omega

end Lib
