import ChatServer.UrlEncoding
import ChatServer.Lib.Except
import ChatServer.Lib.Loop

/-!
# The loop of `url_decode`

`urlDecode` in `ChatServer/Url.lean` is what the loop computes; here is the loop itself, with its
index and with everything it asks of the string and of the standard library, in the order of the
calls. `&&` stops at the first test that fails.

`std::isxdigit` is defined for `0..255` and for `EOF`. Outside of that the behaviour is undefined;
the model goes on as with a byte that is not a digit.

* `body_piece`: a turn reads one piece of an encoding, with the operations `Piece.ops`.
* `exists_decodeLoop`: the loop computes `urlDecode`, piece by piece.
* `urlDecode_inverts`: it undoes every percent-encoding, and every string is one.
* `urlDecode_safe`: its operations are all defined if and only if the input is tame.
  `urlDecode_unsafe`: an input that is not.
-/

namespace ChatServer

open Lib

/-! ## The standard library -/

/-- The exceptions of `std::string::substr` and `std::stoi`. -/
inductive StdError where
  | invalidArgument | outOfRange
  deriving DecidableEq

/-- `s.substr(pos, count)`. -/
def substr (s : Bytes) (pos count : Nat) : Except StdError Bytes :=
  if s.length < pos then .error .outOfRange else .ok ((s.drop pos).take count)

/-- `std::isspace`. -/
def isspace (c : UInt8) : Bool := c == 32 || (9 ≤ c && c ≤ 13)

/-- The sign in front of a number: it is negative, and what follows. -/
def takeSign : Bytes → Bool × Bytes
  | [] => (false, [])
  | c :: s => if c = chr '-' then (true, s) else if c = chr '+' then (false, s) else (false, c :: s)

/-- What follows `0x`, if that is in front of a digit. -/
def skip0x : Bytes → Bytes
  | z :: x :: d :: s =>
    if z = chr '0' ∧ (x = chr 'x' ∨ x = chr 'X') ∧ isxdigit (promote d) then d :: s
    else z :: x :: d :: s
  | s => s

/-- `std::stoi(s, 0, 16)`, where an `int` has 32 bits. -/
def stoi16 (s : Bytes) : Except StdError Int :=
  let (negative, s) := takeSign (s.dropWhile isspace)
  let digits := (skip0x s).takeWhile fun c => isxdigit (promote c)
  if digits = [] then .error .invalidArgument
  else
    let magnitude : Int := digits.foldl (fun n c => 16 * n + hexVal c) 0
    let n := if negative then -magnitude else magnitude
    if -2147483648 ≤ n ∧ n ≤ 2147483647 then .ok n else .error .outOfRange

/-- `static_cast<char>`. -/
def toChar (n : Int) : UInt8 := (n % 256).toNat.toUInt8

/-! ## The loop -/

/-- What the loop asks of the string and of the library. -/
inductive UrlOp where
  | index (i : Nat)
  | isxdigit (c : Int)
  | substr (pos count : Nat)
  | stoi (s : Bytes)
  deriving DecidableEq

/-- The state of the loop. Ghost: `ops` are its operations so far. -/
structure UrlDecoder where
  i : Nat := 0
  result : Bytes := []
  ops : List UrlOp := []
  deriving DecidableEq

namespace UrlDecoder

variable (input : Bytes)

/-- Ghost: the operation is done. -/
def log (d : UrlDecoder) (op : UrlOp) : UrlDecoder := { d with ops := d.ops ++ [op] }

/-- `input[k]`. -/
def index (d : UrlDecoder) (k : Nat) : UInt8 × UrlDecoder := (input.getD k 0, d.log (.index k))

/-- `std::isxdigit(input[k])`. -/
def indexIsxdigit (d : UrlDecoder) (k : Nat) : Bool × UrlDecoder :=
  let (c, d) := d.index input k
  (ChatServer.isxdigit (promote c), d.log (.isxdigit (promote c)))

/-- The first condition of the loop. -/
def isEscape (d : UrlDecoder) : Bool × UrlDecoder :=
  let (c, d) := d.index input d.i
  if c ≠ chr '%' then (false, d)
  else if ¬d.i + 2 < input.length then (false, d)
  else
    let (h, d) := d.indexIsxdigit input (d.i + 1)
    if !h then (false, d) else d.indexIsxdigit input (d.i + 2)

/-- The body of the loop, with its `++i`. -/
def body (d : UrlDecoder) : Except StdError UrlDecoder :=
  let (escape, d) := d.isEscape input
  if escape then do
    let s ← ChatServer.substr input (d.i + 1) 2
    let d := d.log (.substr (d.i + 1) 2)
    let n ← stoi16 s
    let d := d.log (.stoi s)
    return { d with result := d.result ++ [toChar n], i := d.i + 2 + 1 }
  else
    let (c, d) := d.index input d.i
    if c = chr '+' then .ok { d with result := d.result ++ [chr ' '], i := d.i + 1 }
    else
      let (c, d) := d.index input d.i
      .ok { d with result := d.result ++ [c], i := d.i + 1 }

end UrlDecoder

/-- The loop of `websocket_session::url_decode`. A turn makes `i` larger, so `input.size()` turns
are enough. -/
def decodeLoop (input : Bytes) : Option (Except StdError UrlDecoder) :=
  loop (fun d : UrlDecoder => decide (d.i < input.length)) (UrlDecoder.body input) input.length {}

/-! ## One turn -/

/-- The operations of the turn for a piece at `i`, in front of `following`. -/
def Piece.ops (i : Nat) (following : Bytes) : Piece → List UrlOp
  | .literal _ => [.index i, .index i, .index i]
  | .plus => [.index i, .index i]
  | .escape _ h l => [.index i, .index (i + 1), .isxdigit (promote h), .index (i + 2),
      .isxdigit (promote l), .substr (i + 1) 2, .stoi [h, l]]
  | .percent =>
    match following with
    | h :: l :: _ =>
      [.index i, .index (i + 1), .isxdigit (promote h)] ++
        (if IsHex h then [.index (i + 2), .isxdigit (promote l)] else []) ++
        [.index i, .index i]
    | _ => [.index i, .index i, .index i]

theorem isHex_facts {c : UInt8} (h : IsHex c) :
    isspace c = false ∧ c ≠ chr '-' ∧ c ≠ chr '+' ∧ hexVal c < 16 := by
  have hall : ∀ c, IsHex c → isspace c = false ∧ c ≠ chr '-' ∧ c ≠ chr '+' ∧ hexVal c < 16 :=
    forall_byte (by decide +kernel)
  exact hall c h

theorem stoi16_digits {h l : UInt8} (hh : IsHex h) (hl : IsHex l) :
    stoi16 [h, l] = .ok (16 * hexVal h + hexVal l) := by
  obtain ⟨hspace, hminus, hplus, hlt⟩ := isHex_facts hh
  have hlt' := (isHex_facts hl).2.2.2
  have hsign : takeSign ([h, l].dropWhile isspace) = (false, [h, l]) := by
    rw [List.dropWhile_cons_of_neg (by simp [hspace]), takeSign, if_neg hminus, if_neg hplus]
  have hdigits : [h, l].takeWhile (fun c => isxdigit (promote c)) = [h, l] := by
    simp [isxdigit_promote_iff.mpr hh, isxdigit_promote_iff.mpr hl]
  simp only [stoi16, hsign, skip0x, hdigits, List.foldl_cons, List.foldl_nil, reduceCtorEq,
    if_false, Bool.false_eq_true]
  rw [if_pos (by omega), Int.mul_zero, Int.zero_add]

theorem toChar_digits (h l : UInt8) : toChar (16 * hexVal h + hexVal l) = hexByte h l := by
  have hn : (16 * (hexVal h : Int) + hexVal l) % 256 =
      ((16 * hexVal h + hexVal l) % 256 : Nat) := by omega
  rw [toChar, hn, Int.toNat_natCast, hexByte, Nat.toUInt8_eq, Nat.toUInt8_eq]
  apply UInt8.toNat.inj
  rw [UInt8.toNat_ofNat', UInt8.toNat_ofNat', Nat.mod_mod]

variable {input : Bytes} {d : UrlDecoder} {p : Piece} {s : Bytes}

theorem getD_of_drop {i : Nat} (h : input.drop i = s) (k : Nat) :
    input.getD (i + k) 0 = s.getD k 0 := by
  subst h
  rw [List.getD_eq_getElem?_getD, List.getD_eq_getElem?_getD, List.getElem?_drop]

theorem length_of_drop {i : Nat} {c : UInt8} (h : input.drop i = c :: s) :
    input.length = i + (s.length + 1) := by
  have hl := congrArg List.length h
  rw [List.length_drop, List.length_cons] at hl
  omega

theorem isEscape_of_ne {c : UInt8} (hd : input.drop d.i = c :: s) (hc : c ≠ chr '%') :
    d.isEscape input = (false, d.log (.index d.i)) := by
  have h0 : input.getD d.i 0 = c := getD_of_drop hd 0
  simp only [UrlDecoder.isEscape, UrlDecoder.index, h0, ne_eq, hc, not_false_eq_true, if_true]

theorem isEscape_percent (hd : input.drop d.i = chr '%' :: s) :
    d.isEscape input = match s with
      | h :: l :: _ =>
        (decide (IsHex h ∧ IsHex l), { d with ops := d.ops ++
          [.index d.i, .index (d.i + 1), .isxdigit (promote h)] ++
          (if IsHex h then [.index (d.i + 2), .isxdigit (promote l)] else []) })
      | _ => (false, d.log (.index d.i)) := by
  have h0 : input.getD d.i 0 = chr '%' := getD_of_drop hd 0
  have hlen := length_of_drop hd
  match s with
  | [] | [_] =>
    have hshort : ¬d.i + 2 < input.length := by simp at hlen; omega
    simp only [UrlDecoder.isEscape, UrlDecoder.index, UrlDecoder.log, h0, hshort, ne_eq,
      not_true_eq_false, if_false, not_false_eq_true, if_true]
  | h :: l :: s =>
    have h1 : input.getD (d.i + 1) 0 = h := getD_of_drop hd 1
    have h2 : input.getD (d.i + 2) 0 = l := getD_of_drop hd 2
    have hlong : d.i + 2 < input.length := by simp at hlen; omega
    simp only [UrlDecoder.isEscape, UrlDecoder.index, UrlDecoder.indexIsxdigit, UrlDecoder.log, h0,
      h1, h2, hlong, isxdigit_promote]
    by_cases hh : IsHex h <;> simp [hh]

/-- A turn that is not for an escape. -/
theorem body_of_not_escape {c : UInt8} (hd : input.drop d.i = c :: s) {ops : List UrlOp}
    (he : d.isEscape input = (false, { d with ops })) : d.body input = .ok
      { i := d.i + 1, result := d.result ++ [unescaped c],
        ops := ops ++ if c = chr '+' then [.index d.i] else [.index d.i, .index d.i] } := by
  have h0 : input.getD d.i 0 = c := getD_of_drop hd 0
  simp only [UrlDecoder.body, he, UrlDecoder.index, UrlDecoder.log, h0, Bool.false_eq_true,
    if_false]
  by_cases hc : c = chr '+' <;> simp [hc, unescaped]

/-- The characters after `%`. -/
theorem substr_of_drop {i : Nat} {c h l : UInt8} (hd : input.drop i = c :: h :: l :: s) :
    substr input (i + 1) 2 = .ok [h, l] := by
  have hlen := length_of_drop hd
  have htail : input.drop (i + 1) = h :: l :: s := by
    rw [← List.drop_drop, hd, List.drop_one, List.tail_cons]
  rw [substr, if_neg (by omega), htail, List.take_succ_cons, List.take_succ_cons, List.take_zero]

theorem body_piece (hd : input.drop d.i = p.text ++ s) (hp : p.Ok s) :
    d.body input = .ok
      { i := d.i + p.text.length, result := d.result ++ [p.byte],
        ops := d.ops ++ p.ops d.i s } := by
  cases p with
  | literal c =>
    have hc : d.isEscape input = _ := isEscape_of_ne hd hp.1
    rw [body_of_not_escape hd hc, if_neg hp.2, unescaped, if_neg hp.2]
    simp [Piece.text, Piece.byte, Piece.ops]
  | plus =>
    have hc : d.isEscape input = _ := isEscape_of_ne hd (by decide)
    rw [body_of_not_escape hd hc, if_pos rfl, unescaped, if_pos rfl]
    simp [Piece.text, Piece.byte, Piece.ops]
  | percent =>
    have hne : chr '%' ≠ chr '+' := by decide
    rcases s with _ | ⟨h, _ | ⟨l, s⟩⟩
    iterate 2
      · have he : d.isEscape input = _ := isEscape_percent hd
        rw [body_of_not_escape hd he, if_neg hne, unescaped, if_neg hne]
        simp [Piece.text, Piece.byte, Piece.ops]
    · have hno : decide (IsHex h ∧ IsHex l) = false := decide_eq_false (hp h l s rfl)
      have he : d.isEscape input = (decide (IsHex h ∧ IsHex l), _) := isEscape_percent hd
      rw [hno] at he
      simp only [body_of_not_escape hd he, if_neg hne, unescaped]
      simp [Piece.text, Piece.byte, Piece.ops]
  | escape c h l =>
    obtain ⟨hh, hl⟩ := isHex_escape hp
    have he : d.isEscape input = _ := isEscape_percent (s := h :: l :: s) hd
    simp only [hh, hl, and_self, decide_true, if_true] at he
    simp only [UrlDecoder.body, he, if_true, substr_of_drop hd, ok_bind, stoi16_digits hh hl,
      toChar_digits, hexByte_value hp.1 hp.2, UrlDecoder.log]
    simp [Piece.text, Piece.byte, Piece.ops]
    rfl

/-! ## The whole loop -/

/-- The operations of the turns for the pieces, from the index `i` on. -/
def pieceOps : Nat → List Piece → List UrlOp
  | _, [] => []
  | i, p :: ps => p.ops i (encoded ps) ++ pieceOps (i + p.text.length) ps

/-- The invariant of the loop: the rest of the input is an encoding, and what it stands for and what
its turns will do is all that is missing. -/
structure UrlDecoder.Inv (ps : List Piece) (d : UrlDecoder) : Prop where
  rest : ∃ rest, Encoding rest ∧ (encoded ps).drop d.i = encoded rest ∧
    d.result ++ decoded rest = decoded ps ∧ d.ops ++ pieceOps d.i rest = pieceOps 0 ps
  le : d.i ≤ (encoded ps).length

theorem length_text_pos (p : Piece) : 0 < p.text.length := by
  cases p <;> simp [Piece.text]

theorem UrlDecoder.Inv.turn {ps : List Piece} (hi : d.Inv ps) (hlt : d.i < (encoded ps).length) :
    ∃ d', d.body (encoded ps) = .ok d' ∧ d'.Inv ps ∧ d.i < d'.i := by
  obtain ⟨⟨rest, henc, hrest, hresult, hops⟩, -⟩ := hi
  cases henc with
  | nil =>
    have hnil : (encoded ps).length ≤ d.i := List.drop_eq_nil_iff.mp hrest
    omega
  | @cons p rest hp henc =>
    have hpos := length_text_pos p
    have hlen := congrArg List.length hrest
    rw [List.length_drop, encoded_cons, List.length_append] at hlen
    refine ⟨_, body_piece hrest hp, ⟨⟨rest, henc, ?_, ?_, ?_⟩, ?_⟩, ?_⟩
    · rw [← List.drop_drop, hrest, encoded_cons, List.drop_left]
    · rw [← hresult, List.append_assoc]
      rfl
    · rw [← hops, List.append_assoc]
      rfl
    · show d.i + p.text.length ≤ _
      omega
    · show d.i < d.i + p.text.length
      omega

/-- **The loop reads an encoding piece by piece.** -/
theorem decodeLoop_encoded {ps : List Piece} (h : Encoding ps) : decodeLoop (encoded ps) =
    some (.ok
      { i := (encoded ps).length, result := decoded ps, ops := pieceOps 0 ps }) := by
  have hinit : ({} : UrlDecoder).Inv ps := ⟨⟨ps, h, rfl, rfl, rfl⟩, Nat.zero_le _⟩
  obtain ⟨d, hd, ⟨⟨rest, henc, hrest, hresult, hops⟩, hle⟩, hend⟩ := loop_spec (UrlDecoder.Inv ps)
    (fun d => (encoded ps).length - d.i) (fun d hi ha => by
      obtain ⟨d', hb, hi', hlt⟩ := hi.turn (of_decide_eq_true ha)
      exact ⟨d', hb, hi', by have := hi'.le; omega⟩) hinit (Nat.sub_le _ 0)
  have hi : d.i = (encoded ps).length := by
    have := of_decide_eq_false hend
    omega
  -- The loop is over when nothing is left.
  cases henc with
  | nil =>
    obtain ⟨i, result, ops⟩ := d
    rw [decodeLoop, hd]
    simp only [decoded, List.map_nil, pieceOps, List.append_nil] at hi hresult hops
    rw [hi, hresult, hops, decoded]
  | @cons p rest _ _ =>
    rw [hi, List.drop_length, encoded_cons] at hrest
    have hnil := congrArg List.length hrest
    have hpos := length_text_pos p
    rw [List.length_nil, List.length_append] at hnil
    omega

/-! ## What the loop asks for -/

/-- `EOF`. -/
def eof : Int := -1

/-- The arguments for which `std::isxdigit` is defined. -/
def InDomain (c : Int) : Prop := (0 ≤ c ∧ c ≤ 255) ∨ c = eof

/-- The operation is defined and throws nothing. -/
def UrlOp.Safe (input : Bytes) : UrlOp → Prop
  | .index i => i < input.length
  | .isxdigit c => InDomain c
  | .substr pos count => pos + count ≤ input.length
  | .stoi s => (∃ h l, s = [h, l] ∧ IsHex h ∧ IsHex l) ∧ ∃ n, stoi16 s = .ok n ∧ 0 ≤ n ∧ n ≤ 255

/-- The operation is a call of `std::stoi`. -/
def UrlOp.isStoi : UrlOp → Bool
  | .stoi _ => true
  | _ => false

/-- The escapes that the loop has read. -/
def UrlDecoder.escapes (d : UrlDecoder) : Nat := d.ops.countP UrlOp.isStoi

theorem inDomain_promote (c : UInt8) : InDomain (promote c) ↔ c < 0x80 ∨ c = 0xFF := by
  have hall : ∀ c : UInt8, ((0 ≤ promote c ∧ promote c ≤ 255) ∨ promote c = -1) ↔
      c < 0x80 ∨ c = 0xFF := forall_byte (by decide +kernel)
  exact hall c

theorem countP_pieceOps (i : Nat) (ps : List Piece) :
    (pieceOps i ps).countP UrlOp.isStoi = ps.countP Piece.isEscape := by
  induction ps generalizing i with
  | nil => rfl
  | cons p ps ih =>
    rw [pieceOps, List.countP_append, List.countP_cons, ih, Nat.add_comm]
    congr 1
    cases p with
    | percent =>
      simp only [Piece.ops]
      split
      · split <;> simp [UrlOp.isStoi, Piece.isEscape]
      · simp [UrlOp.isStoi, Piece.isEscape]
    | literal c | plus | escape c h l => simp [Piece.ops, UrlOp.isStoi, Piece.isEscape]

/-- Of a turn's operations, only a call of `std::isxdigit` may be out of bounds. -/
theorem safe_of_mem_ops {i : Nat} {op : UrlOp} (hp : p.Ok s)
    (hlen : i + (p.text ++ s).length ≤ input.length) (hop : op ∈ p.ops i s) :
    op.Safe input ∨ ∃ c, op = .isxdigit c := by
  rw [List.length_append] at hlen
  cases p with
  | literal c | plus =>
    simp only [Piece.text, List.length_singleton] at hlen
    have hi : (UrlOp.index i).Safe input := by show i < _; omega
    simp only [Piece.ops, List.mem_cons, List.not_mem_nil, or_false, or_self] at hop
    exact .inl (hop ▸ hi)
  | escape c h l =>
    simp only [Piece.text, List.length_cons, List.length_nil] at hlen
    obtain ⟨hh, hl⟩ := isHex_escape hp
    have hv := (isHex_facts hh).2.2.2
    have hv' := (isHex_facts hl).2.2.2
    simp only [Piece.ops, List.mem_cons, List.not_mem_nil, or_false] at hop
    rcases hop with rfl | rfl | rfl | rfl | rfl | rfl | rfl
    · exact .inl (by show i < _; omega)
    · exact .inl (by show i + 1 < _; omega)
    · exact .inr ⟨_, rfl⟩
    · exact .inl (by show i + 2 < _; omega)
    · exact .inr ⟨_, rfl⟩
    · exact .inl (by show i + 1 + 2 ≤ _; omega)
    · exact .inl ⟨⟨h, l, rfl, hh, hl⟩, _, stoi16_digits hh hl, by omega, by omega⟩
  | percent =>
    simp only [Piece.text, List.length_singleton] at hlen
    have hi : (UrlOp.index i).Safe input := by show i < _; omega
    rcases s with _ | ⟨h, _ | ⟨l, s⟩⟩
    iterate 2
      · simp only [Piece.ops, List.mem_cons, List.not_mem_nil, or_false, or_self] at hop
        exact .inl (hop ▸ hi)
    · simp only [List.length_cons] at hlen
      have hi₁ : (UrlOp.index (i + 1)).Safe input := by show i + 1 < _; omega
      have hi₂ : (UrlOp.index (i + 2)).Safe input := by show i + 2 < _; omega
      by_cases hh : IsHex h
      all_goals
        simp only [Piece.ops, hh, if_true, if_false, List.mem_append, List.mem_cons,
          List.not_mem_nil, or_false, or_self] at hop
        grind

/-- The calls of `std::isxdigit` for a piece. -/
theorem isxdigit_mem_ops {i : Nat} {c : Int} : .isxdigit c ∈ p.ops i s ↔
    match p with
    | .escape _ h l => c = promote h ∨ c = promote l
    | .percent => ∃ h l rest, s = h :: l :: rest ∧ (c = promote h ∨ IsHex h ∧ c = promote l)
    | _ => False := by
  cases p with
  | literal c | plus => simp [Piece.ops]
  | escape c h l => simp [Piece.ops]
  | percent =>
    match s with
    | [] | [_] => simp [Piece.ops]
    | h :: l :: s =>
      by_cases hh : IsHex h <;> simp [Piece.ops, hh]

theorem safe_of_mem_pieceOps {ps : List Piece} (h : Encoding ps) {i : Nat} {op : UrlOp}
    (hlen : i + (encoded ps).length ≤ input.length) (hop : op ∈ pieceOps i ps) :
    op.Safe input ∨ ∃ c, op = .isxdigit c := by
  induction h generalizing i with
  | nil => cases hop
  | cons ok _ ih =>
    rw [encoded_cons] at hlen
    rcases List.mem_append.mp hop with hop | hop
    · exact safe_of_mem_ops ok hlen hop
    · exact ih (by rw [List.length_append] at hlen; omega) hop

/-- No `%` that two bytes follow has a byte behind it, or behind it and a hex digit, for which
`std::isxdigit` is undefined. -/
def Tame (input : Bytes) : Prop :=
  ∀ h l, [chr '%', h, l] <:+: input → (h < 0x80 ∨ h = 0xFF) ∧ (IsHex h → l < 0x80 ∨ l = 0xFF)

theorem tame_cons_of_ne {c : UInt8} (hc : c ≠ chr '%') : Tame (c :: s) ↔ Tame s := by
  unfold Tame
  simp only [List.infix_cons_iff, List.cons_prefix_cons, Ne.symm hc, false_and, false_or]

theorem tame_percent : Tame (chr '%' :: s) ↔
    (∀ h l rest, s = h :: l :: rest → (h < 0x80 ∨ h = 0xFF) ∧ (IsHex h → l < 0x80 ∨ l = 0xFF)) ∧
      Tame s := by
  unfold Tame
  simp only [List.infix_cons_iff, List.cons_prefix_cons, true_and]
  constructor
  · intro hs
    exact ⟨fun h l rest he => hs h l (.inl ⟨rest, he.symm⟩), fun h l hi => hs h l (.inr hi)⟩
  · rintro ⟨hp, hs⟩ h l (⟨rest, he⟩ | hi)
    · exact hp h l rest he.symm
    · exact hs h l hi

theorem IsHex.lt {c : UInt8} (h : IsHex c) : c < 0x80 := by
  have hall : ∀ c, IsHex c → c < 0x80 := forall_byte (by decide +kernel)
  exact hall c h

/-- The calls of `std::isxdigit` for one piece are defined if what is behind a bare `%` is tame. -/
theorem tame_piece (hp : p.Ok s) (i : Nat) :
    Tame (p.text ++ s) ↔ (∀ c, .isxdigit c ∈ p.ops i s → InDomain c) ∧ Tame s := by
  cases p with
  | literal c =>
    rw [Piece.text, List.singleton_append, tame_cons_of_ne hp.1]
    simp [Piece.ops]
  | plus =>
    rw [Piece.text, List.singleton_append, tame_cons_of_ne (by decide)]
    simp [Piece.ops]
  | escape c h l =>
    obtain ⟨hh, hl⟩ := isHex_escape hp
    have hne {c : UInt8} (hc : IsHex c) : c ≠ chr '%' := by
      rintro rfl
      exact absurd hc (by decide)
    rw [Piece.text, List.cons_append, tame_percent]
    simp only [List.cons_append, List.nil_append, tame_cons_of_ne (hne hh),
      tame_cons_of_ne (hne hl)]
    apply and_congr_left
    intro _
    constructor
    · intro _ c hc
      rcases isxdigit_mem_ops.mp hc with rfl | rfl
      · exact (inDomain_promote h).mpr (.inl hh.lt)
      · exact (inDomain_promote l).mpr (.inl hl.lt)
    · intro _ h' l' rest he
      cases he
      exact ⟨.inl hh.lt, fun _ => .inl hl.lt⟩
  | percent =>
    rw [Piece.text, List.singleton_append, tame_percent]
    apply and_congr_left
    intro _
    constructor
    · intro hs c hc
      obtain ⟨h, l, rest, he, rfl | ⟨hh, rfl⟩⟩ := isxdigit_mem_ops.mp hc
      · exact (inDomain_promote h).mpr (hs h l rest he).1
      · exact (inDomain_promote l).mpr ((hs h l rest he).2 hh)
    · intro hd h l rest he
      have hmem {c : Int} (hc : c = promote h ∨ IsHex h ∧ c = promote l) : InDomain c :=
        hd c (isxdigit_mem_ops.mpr ⟨h, l, rest, he, hc⟩)
      exact ⟨(inDomain_promote h).mp (hmem (.inl rfl)),
        fun hh => (inDomain_promote l).mp (hmem (.inr ⟨hh, rfl⟩))⟩

theorem tame_encoded {ps : List Piece} (h : Encoding ps) (i : Nat) :
    Tame (encoded ps) ↔ ∀ c, .isxdigit c ∈ pieceOps i ps → InDomain c := by
  induction h generalizing i with
  | nil => simp [Tame, encoded, pieceOps]
  | @cons p ps ok _ ih =>
    rw [encoded_cons, tame_piece ok i, ih (i + p.text.length)]
    simp only [pieceOps, List.mem_append, or_imp, forall_and]

/-! ## Main results -/

/-- The loop computes `urlDecode`, on every string and without an exception. -/
theorem exists_decodeLoop (input : Bytes) : ∃ ps, Encoding ps ∧ encoded ps = input ∧
    decoded ps = urlDecode input ∧ decodeLoop input = some (.ok
      { i := input.length, result := urlDecode input, ops := pieceOps 0 ps }) := by
  obtain ⟨ps, hps, rfl⟩ := exists_encoding input
  have hd := urlDecode_encoded hps
  exact ⟨ps, hps, rfl, hd.symm, by rw [decodeLoop_encoded hps, hd]⟩

/-- **`url_decode` inverts every percent-encoding.** Conversely every string is an encoding of what
`url_decode` makes of it. The loop reads it piece by piece: it stops at its end, no escape goes
beyond that, and each escape, a call of `std::stoi`, makes the result shorter by two. -/
theorem urlDecode_inverts :
    (∀ ps, Encoding ps → urlDecode (encoded ps) = decoded ps) ∧
    ∀ input, ∃ ps d, Encoding ps ∧ encoded ps = input ∧ decoded ps = urlDecode input ∧
      decodeLoop input = some (.ok d) ∧ d.result = urlDecode input ∧ d.i = input.length ∧
      d.ops = pieceOps 0 ps ∧ d.escapes = ps.countP Piece.isEscape ∧
      (∀ pos count, .substr pos count ∈ d.ops → pos + count ≤ input.length) ∧
      (urlDecode input).length + 2 * d.escapes = input.length := by
  refine ⟨fun ps hps => urlDecode_encoded hps, fun input => ?_⟩
  obtain ⟨ps, hps, rfl, hd, hloop⟩ := exists_decodeLoop input
  have hk := countP_pieceOps 0 ps
  refine ⟨ps, _, hps, rfl, hd, hloop, rfl, rfl, rfl, hk, fun pos count hm => ?_, ?_⟩
  · rcases safe_of_mem_pieceOps hps (Nat.zero_add _).le hm with hs | ⟨c, hc⟩
    · exact hs
    · cases hc
  · rw [UrlDecoder.escapes, hk, length_encoded, hd]

/-- **When `url_decode` is safe.** The loop ends in time and without an exception, and all its
operations are safe, if and only if the input is tame: the others are always safe, but bytes from
`0x80` to `0xFE` are no arguments for `std::isxdigit` where `char` is signed. -/
theorem urlDecode_safe (input : Bytes) :
    (∃ d, decodeLoop input = some (.ok d) ∧ ∀ op ∈ d.ops, op.Safe input) ↔
      ∀ h l, [chr '%', h, l] <:+: input →
        (h < 0x80 ∨ h = 0xFF) ∧ (IsHex h → l < 0x80 ∨ l = 0xFF) := by
  obtain ⟨ps, hps, rfl, -, hloop⟩ := exists_decodeLoop input
  refine Iff.trans ?_ (tame_encoded hps 0).symm
  constructor
  · rintro ⟨d, hd, hsafe⟩ c hc
    rw [hloop] at hd
    cases hd
    exact hsafe _ hc
  · intro hc
    refine ⟨_, hloop, fun op hop => ?_⟩
    rcases safe_of_mem_pieceOps hps (Nat.zero_add _).le hop with hs | ⟨c, rfl⟩
    · exact hs
    · exact hc c hop

/-- The target `/ws?token=%` with the bytes `0x80` and `A` behind it. -/
theorem urlDecode_unsafe : ¬ ∀ input, ∃ d, decodeLoop input = some (.ok d) ∧
    ∀ op ∈ d.ops, op.Safe input := by
  intro h
  obtain ⟨d, hd, hsafe⟩ := h [chr '%', 0x80, chr 'A']
  have hloop : decodeLoop [chr '%', 0x80, chr 'A'] = some (.ok
      { i := 3, result := [chr '%', 0x80, chr 'A'],
        ops := [.index 0, .index 1, .isxdigit (-128), .index 0, .index 0, .index 1, .index 1,
          .index 1, .index 2, .index 2, .index 2] }) := by
    rfl
  rw [hloop] at hd
  cases hd
  have hdom : InDomain (-128) := hsafe (.isxdigit (-128)) (by simp)
  rcases hdom with ⟨hpos, -⟩ | heof
  · omega
  · exact absurd heof (by decide)

end ChatServer
