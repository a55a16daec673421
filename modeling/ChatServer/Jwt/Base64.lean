import ChatServer.Lib.Bytes
import ChatServer.Lib.Except
import Mathlib.Algebra.Group.Nat.Defs
import Mathlib.Data.List.GetD

/-!
# `jwt::base`: base64 with an alphabet and a fill

`encode` writes three octets as four symbols of six bits; what is left at the end is padded with
fills. `decode` counts the fills at the end and reads the symbols before them. A token carries the
text without fills, so `trim` cuts it at the first fill and `pad` adds fills up to a multiple of
four. The numbers of the source are `uint32_t`s below `2^24`, so they do not wrap.

* `Alphabet`: 64 different symbols, and a fill that starts with none of them.
* `decode_encode`: `decode (pad (trim (encode bin)))` is `bin`.
-/

namespace ChatServer.Jwt

open Lib

/-- The symbols and the fill of a base64 alphabet. -/
structure Alphabet where
  data : List UInt8
  fill : Bytes
  length_data : data.length = 64
  nodup_data : data.Nodup
  fill_head : ∃ c rest, fill = c :: rest ∧ c ∉ data

/-- `alphabet::base64url`. -/
def base64url : Alphabet where
  data := ascii "ABCDEFGHIJKLMNOPQRSTUVWXYZabcdefghijklmnopqrstuvwxyz0123456789-_"
  fill := ascii "%3d"
  length_data := by decide
  nodup_data := by decide +kernel
  fill_head := ⟨chr '%', ascii "3d", by decide⟩

namespace Alphabet

variable (T : Alphabet)

/-- `alphabet[i]`. -/
def symbol (i : Nat) : UInt8 := T.data.getD i 0

/-- `alphabet::index`. -/
def index (symbol : UInt8) : Except Bytes Nat :=
  if symbol ∈ T.data then .ok (T.data.idxOf symbol)
  else .error (ascii "Invalid input: not within alphabet")

/-- The six bits of `triple` from bit `6 * i` on. -/
def sextet (triple i : Nat) : Nat := (triple >>> (i * 6)) &&& 0x3F

/-- The eight bits of `triple` from bit `8 * i` on. -/
def octet (triple i : Nat) : UInt8 := ((triple >>> (i * 8)) &&& 0xFF).toUInt8

/-- The number that three octets make. -/
def triple (a b c : UInt8) : Nat := (a.toNat <<< 0x10) + (b.toNat <<< 0x08) + c.toNat

/-- The first `n` symbols of a triple. -/
def symbols (n t : Nat) : Bytes := (List.range n).map fun i => T.symbol (sextet t (3 - i))

/-- `details::encode`. -/
def encode : Bytes → Bytes
  | a :: b :: c :: bin => T.symbols 4 (triple a b c) ++ encode bin
  | [a, b] => T.symbols 3 (triple a b 0) ++ T.fill
  | [a] => T.symbols 2 (triple a 0 0) ++ T.fill ++ T.fill
  | [] => []

/-- `details::padding`. -/
structure Padding where
  count : Nat := 0
  length : Nat := 0
  deriving DecidableEq

/-- `details::count_padding`. -/
def countPadding (base : Bytes) : Padding :=
  if T.fill.isSuffixOf base then
    let padding := countPadding (base.take (base.length - T.fill.length))
    { count := 1 + padding.count, length := T.fill.length + padding.length }
  else {}
termination_by base.length
decreasing_by
  have hs := (List.isSuffixOf_iff_suffix.mp ‹_›).length_le
  have hp : 0 < T.fill.length := by
    obtain ⟨c, rest, hf, -⟩ := T.fill_head
    simp [hf]
  rw [List.length_take]
  omega

/-- The loop of `details::decode`: the octets of the groups of four symbols, and what is left. -/
def decodeGroups : Bytes → Except Bytes (Bytes × Bytes)
  | a :: b :: c :: d :: base => do
    let sextet_a ← T.index a
    let sextet_b ← T.index b
    let sextet_c ← T.index c
    let sextet_d ← T.index d
    let t := (sextet_a <<< 18) + (sextet_b <<< 12) + (sextet_c <<< 6) + sextet_d
    let (res, rest) ← decodeGroups base
    return (octet t 2 :: octet t 1 :: octet t 0 :: res, rest)
  | rest => .ok ([], rest)

/-- The end of `details::decode`: the octets of the symbols before `count` fills. -/
def decodeRest : Nat → Bytes → Except Bytes Bytes
  | 1, [a, b, c] => do
    let t := ((← T.index a) <<< 18) + ((← T.index b) <<< 12)
    let t := t ||| ((← T.index c) <<< 6)
    return [octet t 2, octet t 1]
  | 2, [a, b] => do
    let t := ((← T.index a) <<< 18) + ((← T.index b) <<< 12)
    return [octet t 2]
  | _, _ => return []

/-- `details::decode`. -/
def decode (base : Bytes) : Except Bytes Bytes :=
  let padding := T.countPadding base
  if padding.count > 2 then .error (ascii "Invalid input: too much fill")
  else
    let size := base.length - padding.length
    if (size + padding.count) % 4 ≠ 0 then .error (ascii "Invalid input: incorrect total size")
    else do
      let (res, rest) ← T.decodeGroups (base.take size)
      let last ← T.decodeRest padding.count rest
      return res ++ last

/-- `details::pad`. -/
def pad (base : Bytes) : Bytes :=
  match base.length % 4 with
  | 1 => base ++ (T.fill ++ T.fill ++ T.fill)
  | 2 => base ++ (T.fill ++ T.fill)
  | 3 => base ++ T.fill
  | _ => base

/-- `details::trim`. -/
def trim (base : Bytes) : Bytes :=
  match find T.fill base with
  | some pos => base.take pos
  | none => base

variable {T}

/-! ## Symbols and triples -/

theorem symbol_mem {i : Nat} (h : i < 64) : T.symbol i ∈ T.data := by
  have hi : i < T.data.length := by rw [T.length_data]; exact h
  rw [symbol, List.getD_eq_getElem _ _ hi]
  exact List.getElem_mem hi

theorem index_symbol {i : Nat} (h : i < 64) : T.index (T.symbol i) = .ok i := by
  have hi : i < T.data.length := by rw [T.length_data]; exact h
  rw [index, if_pos (symbol_mem h), symbol, List.getD_eq_getElem _ _ hi,
    T.nodup_data.idxOf_getElem i hi]

theorem sextet_eq (t i : Nat) : sextet t i = t / 2 ^ (i * 6) % 64 := by
  rw [sextet, Nat.shiftRight_eq_div_pow]
  exact Nat.and_two_pow_sub_one_eq_mod _ 6

theorem sextet_lt (t i : Nat) : sextet t i < 64 := by
  rw [sextet_eq]
  exact Nat.mod_lt _ (by decide)

theorem triple_eq (a b c : UInt8) : triple a b c = a.toNat * 65536 + b.toNat * 256 + c.toNat := by
  rw [triple, Nat.shiftLeft_eq, Nat.shiftLeft_eq]

/-- Four sextets make the triple they are of. -/
theorem join_sextets (a b c : UInt8) :
    (sextet (triple a b c) 3 <<< 18) + (sextet (triple a b c) 2 <<< 12) +
      (sextet (triple a b c) 1 <<< 6) + sextet (triple a b c) 0 = triple a b c := by
  have ha := a.toNat_lt
  have hb := b.toNat_lt
  have hc := c.toNat_lt
  simp only [sextet_eq, Nat.shiftLeft_eq, triple_eq]
  omega

/-- The last sextet of a triple without a third octet is zero. -/
theorem join_three (a b : UInt8) :
    ((sextet (triple a b 0) 3 <<< 18) + (sextet (triple a b 0) 2 <<< 12)) |||
      (sextet (triple a b 0) 1 <<< 6) = triple a b 0 := by
  have hj := join_sextets a b 0
  have h₀ : sextet (triple a b 0) 0 = 0 := by
    simp only [sextet_eq, triple_eq, UInt8.toNat_zero]
    omega
  have h₁ := sextet_lt (triple a b 0) 1
  rw [h₀, Nat.add_zero] at hj
  generalize sextet (triple a b 0) 3 = x at *
  generalize sextet (triple a b 0) 2 = y at *
  generalize sextet (triple a b 0) 1 = z at *
  have hx : (x <<< 18) + (y <<< 12) = 2 ^ 12 * (x * 64 + y) := by
    simp only [Nat.shiftLeft_eq]
    omega
  have hz : z <<< 6 < 2 ^ 12 := by
    rw [Nat.shiftLeft_eq]
    omega
  rw [← hj, hx, Nat.two_pow_add_eq_or_of_lt hz]

/-- The last two sextets of a triple of one octet are zero. -/
theorem join_two (a : UInt8) :
    (sextet (triple a 0 0) 3 <<< 18) + (sextet (triple a 0 0) 2 <<< 12) = triple a 0 0 := by
  have ha := a.toNat_lt
  simp only [sextet_eq, Nat.shiftLeft_eq, triple_eq, UInt8.toNat_zero]
  omega

theorem octet_eq (t i : Nat) : octet t i = (t / 2 ^ (i * 8) % 256).toUInt8 := by
  rw [octet, Nat.shiftRight_eq_div_pow]
  exact congrArg _ (Nat.and_two_pow_sub_one_eq_mod _ 8)

/-- The octets of a triple are those it was made of. -/
theorem octet_triple (a b c : UInt8) :
    octet (triple a b c) 2 = a ∧ octet (triple a b c) 1 = b ∧ octet (triple a b c) 0 = c := by
  have ha := a.toNat_lt
  have hb := b.toNat_lt
  have hc := c.toNat_lt
  have hself (n : Nat) (x : UInt8) (h : n = x.toNat) : n.toUInt8 = x := by
    rw [h]
    exact UInt8.ofNat_toNat
  simp only [octet_eq, triple_eq]
  refine ⟨hself _ a ?_, hself _ b ?_, hself _ c ?_⟩ <;> omega

/-! ## The text without fills -/

variable (T)

/-- The symbols of `encode`. -/
def chars : Bytes → Bytes
  | a :: b :: c :: bin => T.symbols 4 (triple a b c) ++ chars bin
  | [a, b] => T.symbols 3 (triple a b 0)
  | [a] => T.symbols 2 (triple a 0 0)
  | [] => []

/-- The number of fills of `encode`. -/
def fills : Bytes → Nat
  | _ :: _ :: _ :: bin => fills bin
  | [_, _] => 1
  | [_] => 2
  | [] => 0

/-- So many fills. -/
def filling (n : Nat) : Bytes := (List.replicate n T.fill).flatten

variable {T}

theorem encode_eq (bin : Bytes) : T.encode bin = T.chars bin ++ T.filling (fills bin) := by
  fun_induction T.encode bin with
  | case1 a b c bin ih => rw [ih, chars, fills, List.append_assoc]
  | case2 a b => simp [chars, fills, filling]
  | case3 a => simp [chars, fills, filling]
  | case4 => rfl

theorem length_chars (bin : Bytes) :
    fills bin ≤ 2 ∧ ((T.chars bin).length + fills bin) % 4 = 0 := by
  fun_induction T.chars bin with
  | case1 a b c bin ih => simp [symbols, fills]; omega
  | case2 a b => simp [symbols, fills]
  | case3 a => simp [symbols, fills]
  | case4 => decide

theorem mem_symbols {n t : Nat} {c : UInt8} (h : c ∈ T.symbols n t) : c ∈ T.data := by
  obtain ⟨i, -, rfl⟩ := List.mem_map.mp h
  exact symbol_mem (sextet_lt _ _)

theorem mem_chars {bin : Bytes} {c : UInt8} (h : c ∈ T.chars bin) : c ∈ T.data := by
  fun_induction T.chars bin with
  | case1 a b d bin ih => exact (List.mem_append.mp h).elim mem_symbols ih
  | case2 a b => exact mem_symbols h
  | case3 a => exact mem_symbols h
  | case4 => cases h

/-! ## Fills -/

/-- The fills start after the symbols. -/
theorem trim_encode (bin : Bytes) : T.trim (T.encode bin) = T.chars bin := by
  obtain ⟨c, rest, hf, hc⟩ := T.fill_head
  have hn : c ∉ T.chars bin := fun h => hc (mem_chars h)
  rw [trim, encode_eq]
  cases fills bin with
  | zero => simp [filling, hf, find_eq_none_of_notMem hn]
  | succ n =>
    have hfill : T.filling (n + 1) = c :: rest ++ T.filling n := by
      simp [filling, List.replicate_succ, hf]
    rw [hf, hfill, find_marker hn]
    simp

theorem pad_chars (bin : Bytes) : T.pad (T.chars bin) = T.chars bin ++ T.filling (fills bin) := by
  obtain ⟨h₁, h₂⟩ := length_chars (T := T) bin
  rw [pad]
  obtain h | h | h : fills bin = 0 ∨ fills bin = 1 ∨ fills bin = 2 := by omega
  · rw [show (T.chars bin).length % 4 = 0 by omega, h]
    simp [filling]
  · rw [show (T.chars bin).length % 4 = 3 by omega, h]
    simp [filling]
  · rw [show (T.chars bin).length % 4 = 2 by omega, h]
    simp [filling]

theorem countPadding_filling {s : Bytes} (hs : ∀ c ∈ s, c ∈ T.data) (n : Nat) :
    T.countPadding (s ++ T.filling n) = ⟨n, (T.filling n).length⟩ := by
  obtain ⟨c, rest, hf, hc⟩ := T.fill_head
  induction n with
  | zero =>
    have hne : T.fill.isSuffixOf s = false := by
      rw [Bool.eq_false_iff, Ne, List.isSuffixOf_iff_suffix]
      exact fun h => hc (hs c (h.subset (by simp [hf])))
    rw [countPadding]
    simp [filling, hne]
  | succ n ih =>
    have hfill : T.filling (n + 1) = T.filling n ++ T.fill := by
      simp [filling, List.replicate_succ']
    have hsuf : T.fill.isSuffixOf (s ++ T.filling (n + 1)) = true := by
      rw [List.isSuffixOf_iff_suffix, hfill, ← List.append_assoc]
      exact List.suffix_append _ _
    have htake : (s ++ T.filling (n + 1)).take ((s ++ T.filling (n + 1)).length - T.fill.length) =
        s ++ T.filling n := by
      rw [hfill, ← List.append_assoc, List.length_append, Nat.add_sub_cancel, List.take_left]
    rw [countPadding, if_pos hsuf, htake, ih, hfill]
    simp [Nat.add_comm]

/-! ## The round trip -/

theorem symbols_four (t : Nat) : T.symbols 4 t =
    [T.symbol (sextet t 3), T.symbol (sextet t 2), T.symbol (sextet t 1),
      T.symbol (sextet t 0)] := rfl

/-- The loop and the end of `decode` give what `encode` wrote. -/
theorem decode_chars (bin : Bytes) : ∃ res rest last,
    T.decodeGroups (T.chars bin) = .ok (res, rest) ∧ T.decodeRest (fills bin) rest = .ok last ∧
      res ++ last = bin := by
  have hi (t i : Nat) : T.index (T.symbol (sextet t i)) = .ok (sextet t i) :=
    index_symbol (sextet_lt t i)
  fun_induction T.chars bin with
  | case1 a b c bin ih =>
    obtain ⟨res, rest, last, hg, hr, hb⟩ := ih
    obtain ⟨h₂, h₁, h₀⟩ := octet_triple a b c
    refine ⟨a :: b :: c :: res, rest, last, ?_, hr, by rw [← hb]; rfl⟩
    rw [symbols_four]
    simp only [List.cons_append, List.nil_append, decodeGroups, hi, hg, ok_bind, join_sextets,
      h₂, h₁, h₀]
    rfl
  | case2 a b =>
    obtain ⟨h₂, h₁, -⟩ := octet_triple a b 0
    refine ⟨[], _, [a, b], rfl, ?_, rfl⟩
    show T.decodeRest 1 [T.symbol (sextet _ 3), T.symbol (sextet _ 2), T.symbol (sextet _ 1)] = _
    simp only [decodeRest, hi, ok_bind, join_three, h₂, h₁]
    rfl
  | case3 a =>
    obtain ⟨h₂, -, -⟩ := octet_triple a 0 0
    refine ⟨[], _, [a], rfl, ?_, rfl⟩
    show T.decodeRest 2 [T.symbol (sextet _ 3), T.symbol (sextet _ 2)] = _
    simp only [decodeRest, hi, ok_bind, join_two, h₂]
    rfl
  | case4 => exact ⟨[], [], [], rfl, rfl, rfl⟩

/-- **The round trip of a part of a token.** -/
theorem decode_encode (bin : Bytes) : T.decode (T.pad (T.trim (T.encode bin))) = .ok bin := by
  obtain ⟨h₁, h₂⟩ := length_chars (T := T) bin
  obtain ⟨res, rest, last, hg, hr, hb⟩ := decode_chars (T := T) bin
  rw [trim_encode, pad_chars, decode, countPadding_filling fun c hc => mem_chars hc]
  simp only [List.length_append, Nat.add_sub_cancel, List.take_left]
  rw [if_neg (by omega), if_neg (by omega), hg, ok_bind, hr, ok_bind, hb]
  rfl

end Alphabet

end ChatServer.Jwt
