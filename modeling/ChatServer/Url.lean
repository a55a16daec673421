import ChatServer.Http.Message

/-!
# The token of an upgrade target

`websocket_session::run` finds `?token=` in the target of the upgrade request, takes what
follows, and decodes it with `url_decode`.

`urlDecode` follows the loop of the source from the current byte on: the pattern of three bytes is
its test `i + 2 < input.size()`, and the recursive calls are its steps of three and of one.
`char` is signed on the platform, so `std::isxdigit` gets the byte as a signed number; it is
false for the negative ones.
-/

namespace ChatServer

open Lib

/-- The `int` that a `char` promotes to. -/
def promote (c : UInt8) : Int := c.toInt8.toInt

/-- `std::isxdigit`. -/
def isxdigit (c : Int) : Bool :=
  (48 ≤ c && c ≤ 57) || (65 ≤ c && c ≤ 70) || (97 ≤ c && c ≤ 102)

/-- The value of a hex digit. -/
def hexVal (c : UInt8) : Nat :=
  if c ≤ 57 then c.toNat - 48 else if c ≤ 70 then c.toNat - 55 else c.toNat - 87

/-- `static_cast<char>(std::stoi(s, 0, 16))` of the two hex digits `h` and `l`. -/
def hexByte (h l : UInt8) : UInt8 := (16 * hexVal h + hexVal l).toUInt8

/-- A byte outside an escape: `+` is a space. -/
def unescaped (c : UInt8) : UInt8 := if c = chr '+' then chr ' ' else c

/-- `websocket_session::url_decode`. -/
def urlDecode : Bytes → Bytes
  | c :: h :: l :: rest =>
    if c = chr '%' ∧ isxdigit (promote h) ∧ isxdigit (promote l) then
      hexByte h l :: urlDecode rest
    else unescaped c :: urlDecode (h :: l :: rest)
  | c :: rest => unescaped c :: urlDecode rest
  | [] => []

/-- The token that `websocket_session::run` takes from the target. -/
def extractToken (target : Bytes) : Bytes :=
  match find (ascii "?token=") target with
  | some pos => urlDecode (target.drop (pos + 7))
  | none => []

example : extractToken (ascii "/ws?token=a%2Eb+c") = ascii "a.b c" := by decide

/-- The marker is found after a path without a question mark, and all that follows is decoded. -/
theorem extractToken_append {path : Bytes} (hp : chr '?' ∉ path) (e : Bytes) :
    extractToken (path ++ ascii "?token=" ++ e) = urlDecode e := by
  have hm : ascii "?token=" = chr '?' :: ascii "token=" := by decide
  unfold extractToken
  rw [List.append_assoc, hm, find_marker hp]
  have hl : path.length + 7 = (path ++ (chr '?' :: ascii "token=")).length := by
    rw [List.length_append]; rfl
  simp only [hl, ← List.append_assoc, List.drop_left]

/-! ## Percent-encodings -/

/-- The byte is the hex digit of `d`, in either case. -/
def HexDigit (d : Nat) (c : UInt8) : Prop :=
  c = (ascii "0123456789ABCDEF").getD d 0 ∨ c = (ascii "0123456789abcdef").getD d 0

/-- The bytes `e` stand for `t`, each of them literally or as `%XX`. -/
inductive PercentEncoded : Bytes → Bytes → Prop
  | nil : PercentEncoded [] []
  | literal (c : UInt8) {t e : Bytes} (h : PercentEncoded t e) : PercentEncoded (c :: t) (c :: e)
  | escape (c : UInt8) {h l : UInt8} {t e : Bytes} (hh : HexDigit (c.toNat / 16) h)
      (hl : HexDigit (c.toNat % 16) l) (he : PercentEncoded t e) :
      PercentEncoded (c :: t) (chr '%' :: h :: l :: e)

/-- Bytes that are all literal. -/
theorem PercentEncoded.refl : ∀ t : Bytes, PercentEncoded t t
  | [] => .nil
  | c :: t => .literal c (.refl t)

theorem urlDecode_cons {c : UInt8} (hc : c ≠ chr '%') (s : Bytes) :
    urlDecode (c :: s) = unescaped c :: urlDecode s := by
  match s with
  | [] | [_] => rfl
  | h :: l :: s => rw [urlDecode, if_neg fun hx => hc hx.1]

theorem HexDigit.value {d : Nat} {c : UInt8} (hd : d < 16) (h : HexDigit d c) :
    isxdigit (promote c) = true ∧ hexVal c = d := by
  have hall : ∀ d < 16, ∀ digits ∈ [ascii "0123456789ABCDEF", ascii "0123456789abcdef"],
      isxdigit (promote (digits.getD d 0)) = true ∧ hexVal (digits.getD d 0) = d := by decide
  rcases h with rfl | rfl
  · exact hall d hd _ (by simp)
  · exact hall d hd _ (by simp)

/-- **Decoding a percent-encoding**, of bytes that mean themselves outside an escape. -/
theorem urlDecode_percentEncoded {t e : Bytes} (h : PercentEncoded t e) (hpct : chr '%' ∉ t)
    (hplus : chr '+' ∉ t) : urlDecode e = t := by
  induction h with
  | nil => rfl
  | literal c _ ih =>
    simp only [List.mem_cons, not_or] at hpct hplus
    rw [urlDecode_cons (Ne.symm hpct.1), ih hpct.2 hplus.2, unescaped, if_neg (Ne.symm hplus.1)]
  | escape c hh hl _ ih =>
    simp only [List.mem_cons, not_or] at hpct hplus
    have hc := c.toNat_lt
    obtain ⟨hxh, hvh⟩ := hh.value (by omega)
    obtain ⟨hxl, hvl⟩ := hl.value (by omega)
    rw [urlDecode, if_pos ⟨rfl, hxh, hxl⟩, ih hpct.2 hplus.2, hexByte, hvh, hvl, Nat.div_add_mod]
    congr 1
    exact UInt8.ofNat_toNat

end ChatServer
