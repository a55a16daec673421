import ChatServer.Url

/-!
# Percent-encodings

An encoding is a list of pieces, each with the bytes it is written as (`Piece.text`) and the one
byte that it stands for (`Piece.byte`). A byte may be written in several ways; a bare `%` is one of
them where two hex digits do not follow.

* `urlDecode_encoded`: decoding an encoding gives the bytes it stands for.
* `exists_encoding`: every string is an encoding.
* `length_encoded`: how much longer an encoding is than what it stands for.
-/

namespace ChatServer

open Lib

/-! ## Hex digits -/

instance (d : Nat) (c : UInt8) : Decidable (HexDigit d c) :=
  inferInstanceAs (Decidable (c = (ascii "0123456789ABCDEF").getD d 0 ∨
    c = (ascii "0123456789abcdef").getD d 0))

/-- The byte is a hex digit, in either case. -/
def IsHex (c : UInt8) : Prop := ∃ d, d < 16 ∧ HexDigit d c

instance (c : UInt8) : Decidable (IsHex c) :=
  inferInstanceAs (Decidable (∃ d, d < 16 ∧ HexDigit d c))

/-- What holds of the bytes one by one holds of all. -/
theorem forall_byte {P : UInt8 → Prop} (h : ∀ n < 256, P n.toUInt8) (c : UInt8) : P c := by
  have hc := h c.toNat c.toNat_lt
  rwa [Nat.toUInt8_eq, UInt8.ofNat_toNat] at hc

theorem isxdigit_promote (c : UInt8) : isxdigit (promote c) = decide (IsHex c) :=
  forall_byte (P := fun c => isxdigit (promote c) = decide (IsHex c)) (by decide +kernel) c

theorem isxdigit_promote_iff {c : UInt8} : isxdigit (promote c) = true ↔ IsHex c := by
  rw [isxdigit_promote, decide_eq_true_iff]

/-- The digits of a byte and the byte of two digits. -/
theorem hexByte_value {c h l : UInt8} (hh : HexDigit (c.toNat / 16) h)
    (hl : HexDigit (c.toNat % 16) l) : hexByte h l = c := by
  have hc := c.toNat_lt
  rw [hexByte, (hh.value (by omega)).2, (hl.value (by omega)).2, Nat.div_add_mod, Nat.toUInt8_eq,
    UInt8.ofNat_toNat]

theorem hexDigit_hexByte {h l : UInt8} (hh : IsHex h) (hl : IsHex l) :
    HexDigit ((hexByte h l).toNat / 16) h ∧ HexDigit ((hexByte h l).toNat % 16) l := by
  obtain ⟨d, hd, hh⟩ := hh
  obtain ⟨d', hd', hl⟩ := hl
  have hv : (hexByte h l).toNat = 16 * d + d' := by
    rw [hexByte, (hh.value hd).2, (hl.value hd').2, Nat.toUInt8_eq, UInt8.toNat_ofNat']
    omega
  rw [hv, show (16 * d + d') / 16 = d by omega, show (16 * d + d') % 16 = d' by omega]
  exact ⟨hh, hl⟩

/-! ## Pieces -/

/-- One byte of an encoding: itself, `+` for a space, `%` and two hex digits, or a bare `%`. -/
inductive Piece where
  | literal (c : UInt8)
  | plus
  | escape (c h l : UInt8)
  | percent
  deriving DecidableEq

/-- How a piece is written. -/
def Piece.text : Piece → Bytes
  | .literal c => [c]
  | .plus => [chr '+']
  | .escape _ h l => [chr '%', h, l]
  | .percent => [chr '%']

/-- What a piece stands for. -/
def Piece.byte : Piece → UInt8
  | .literal c => c
  | .plus => chr ' '
  | .escape c _ _ => c
  | .percent => chr '%'

/-- The piece is an escape. -/
def Piece.isEscape : Piece → Bool
  | .escape _ _ _ => true
  | _ => false

/-- The piece may be written so, in front of `following`. -/
def Piece.Ok (following : Bytes) : Piece → Prop
  | .literal c => c ≠ chr '%' ∧ c ≠ chr '+'
  | .plus => True
  | .escape c h l => HexDigit (c.toNat / 16) h ∧ HexDigit (c.toNat % 16) l
  | .percent => ∀ h l rest, following = h :: l :: rest → ¬(IsHex h ∧ IsHex l)

/-- The bytes that are written. -/
def encoded (ps : List Piece) : Bytes := ps.flatMap Piece.text

/-- The bytes that are meant. -/
def decoded (ps : List Piece) : Bytes := ps.map Piece.byte

/-- The pieces are an encoding: each may be written so in front of the others. -/
inductive Encoding : List Piece → Prop
  | nil : Encoding []
  | cons {p : Piece} {ps : List Piece} (ok : p.Ok (encoded ps)) (rest : Encoding ps) :
      Encoding (p :: ps)

variable {p : Piece} {ps : List Piece}

@[simp] theorem encoded_cons (p : Piece) (ps : List Piece) :
    encoded (p :: ps) = p.text ++ encoded ps := rfl

@[simp] theorem decoded_cons (p : Piece) (ps : List Piece) :
    decoded (p :: ps) = p.byte :: decoded ps := rfl

/-- The digits of an escape. -/
theorem isHex_escape {c h l : UInt8} {s : Bytes} (hp : (Piece.escape c h l).Ok s) :
    IsHex h ∧ IsHex l :=
  ⟨⟨_, Nat.div_lt_of_lt_mul c.toNat_lt, hp.1⟩, ⟨_, Nat.mod_lt _ (by decide), hp.2⟩⟩

/-! ## Decoding -/

/-- A byte that does not start an escape. -/
theorem urlDecode_of_not_escape {c : UInt8} {s : Bytes}
    (h : c = chr '%' → ∀ x y rest, s = x :: y :: rest → ¬(IsHex x ∧ IsHex y)) :
    urlDecode (c :: s) = unescaped c :: urlDecode s := by
  match s with
  | [] | [_] => rfl
  | x :: y :: s =>
    have hn : ¬(c = chr '%' ∧ isxdigit (promote x) ∧ isxdigit (promote y)) := fun hx =>
      h hx.1 x y s rfl ⟨isxdigit_promote_iff.mp hx.2.1, isxdigit_promote_iff.mp hx.2.2⟩
    rw [urlDecode, if_neg hn]

/-- One piece is decoded, whatever follows. -/
theorem urlDecode_piece {s : Bytes} (h : p.Ok s) :
    urlDecode (p.text ++ s) = p.byte :: urlDecode s := by
  cases p with
  | literal c =>
    rw [Piece.text, List.singleton_append, urlDecode_cons h.1, unescaped, if_neg h.2]
    rfl
  | plus =>
    rw [Piece.text, List.singleton_append, urlDecode_cons (by decide)]
    rfl
  | escape c x y =>
    obtain ⟨hx, hy⟩ := isHex_escape h
    rw [Piece.text, List.cons_append, List.cons_append, List.cons_append, List.nil_append,
      urlDecode, if_pos ⟨rfl, isxdigit_promote_iff.mpr hx, isxdigit_promote_iff.mpr hy⟩,
      hexByte_value h.1 h.2]
    rfl
  | percent =>
    rw [Piece.text, List.singleton_append, urlDecode_of_not_escape fun _ => h]
    rfl

/-- **Decoding undoes every encoding.** -/
theorem urlDecode_encoded (h : Encoding ps) : urlDecode (encoded ps) = decoded ps := by
  induction h with
  | nil => rfl
  | cons ok _ ih => rw [encoded_cons, urlDecode_piece ok, ih, decoded_cons]

/-- A byte that does not start an escape is a piece. -/
theorem exists_piece {c : UInt8} {s : Bytes}
    (h : c = chr '%' → ∀ x y rest, s = x :: y :: rest → ¬(IsHex x ∧ IsHex y)) :
    ∃ p : Piece, p.Ok s ∧ p.text = [c] := by
  by_cases hpct : c = chr '%'
  · exact ⟨.percent, h hpct, by rw [hpct]; rfl⟩
  by_cases hplus : c = chr '+'
  · exact ⟨.plus, trivial, by rw [hplus]; rfl⟩
  · exact ⟨.literal c, ⟨hpct, hplus⟩, rfl⟩

/-- **Every string is an encoding.** -/
theorem exists_encoding (s : Bytes) : ∃ ps, Encoding ps ∧ encoded ps = s := by
  fun_induction urlDecode s with
  | case1 c h l rest hc ih =>
    obtain ⟨ps, hps, rfl⟩ := ih
    obtain ⟨rfl, hh, hl⟩ := hc
    have hd := hexDigit_hexByte (isxdigit_promote_iff.mp hh) (isxdigit_promote_iff.mp hl)
    exact ⟨.escape (hexByte h l) h l :: ps, .cons hd hps, rfl⟩
  | case2 c h l rest hc ih =>
    obtain ⟨ps, hps, hs⟩ := ih
    obtain ⟨p, hp, ht⟩ : ∃ p : Piece, p.Ok (h :: l :: rest) ∧ p.text = [c] := by
      refine exists_piece fun hpct x y s he hxy => hc ⟨hpct, ?_⟩
      cases he
      exact ⟨isxdigit_promote_iff.mpr hxy.1, isxdigit_promote_iff.mpr hxy.2⟩
    exact ⟨p :: ps, .cons (hs ▸ hp) hps, by rw [encoded_cons, ht, hs, List.singleton_append]⟩
  | case3 c rest hshort ih =>
    obtain ⟨ps, hps, hs⟩ := ih
    obtain ⟨p, hp, ht⟩ : ∃ p : Piece, p.Ok rest ∧ p.text = [c] :=
      exists_piece fun _ x y s he _ => hshort x y s he
    exact ⟨p :: ps, .cons (hs ▸ hp) hps, by rw [encoded_cons, ht, hs, List.singleton_append]⟩
  | case4 => exact ⟨[], .nil, rfl⟩

/-- No escape goes on beyond a byte that is not a hex digit. -/
theorem urlDecode_append {c : UInt8} (hc : ¬IsHex c) (s t : Bytes) :
    urlDecode (s ++ c :: t) = urlDecode s ++ urlDecode (c :: t) := by
  fun_induction urlDecode s with
  | case1 d h l rest hd ih =>
    rw [List.cons_append, List.cons_append, List.cons_append, urlDecode, if_pos hd, ih]
    rfl
  | case2 d h l rest hd ih =>
    rw [List.cons_append, List.cons_append, List.cons_append, urlDecode, if_neg hd]
    exact congrArg (unescaped d :: ·) ih
  | case3 d rest hshort ih =>
    rw [List.cons_append, urlDecode_of_not_escape, ih]
    · rfl
    · -- The rest is shorter than two digits, so one of them would be `c`.
      intro _ x y s he hxy
      rcases rest with _ | ⟨_, _ | _⟩
      · cases he
        exact hc hxy.1
      · cases he
        exact hc hxy.2
      · exact hshort _ _ _ rfl
  | case4 => rfl

/-- An escape is three bytes for one. -/
theorem length_encoded (ps : List Piece) :
    (encoded ps).length = (decoded ps).length + 2 * ps.countP Piece.isEscape := by
  induction ps with
  | nil => rfl
  | cons p ps ih =>
    rw [encoded_cons, decoded_cons, List.length_append, List.length_cons, List.countP_cons, ih]
    cases p <;> simp [Piece.text, Piece.isEscape] <;> omega

end ChatServer
