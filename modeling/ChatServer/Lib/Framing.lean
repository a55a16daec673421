import ChatServer.Lib.Bytes

/-!
# Message heads and streams of messages

The head of a message is a start line and fields, each on a line of its own, and an empty line
ends it. `Head.encode` and `Head.decode` are its two directions, `decimal` and `parseDecimal`
those of a number in a field.

`readAll` reads messages from a stream until it is empty. What a message looks like may depend on
something the reader knows beforehand, its kind.

* `Head.decode_encode`: the round trip of a well-formed head, whatever follows it.
* `readAll_flatMap`: a reader that recovers each message whatever follows it recovers the stream.
* `readAll_forall₂`: every message that a stream gave is one the reader gives for its kind.
-/

namespace Lib

/-! ## Numbers -/

/-- A number in decimal digits. -/
def decimal (n : Nat) : Bytes := ascii n.repr

/-- The number that decimal digits stand for. -/
def parseDecimal (s : Bytes) : Option Nat :=
  let digits := s.map fun c => Char.ofNat c.toNat
  if s ≠ [] ∧ digits.all Char.isDigit then some (Nat.ofDigitChars 10 digits 0) else none

theorem decimal_eq (n : Nat) : decimal n = (Nat.toDigits 10 n).map fun c => c.toNat.toUInt8 := by
  rw [decimal, ascii, Nat.toList_repr]

/-- The byte of a digit. -/
theorem toNat_digit {c : Char} (h : c.isDigit = true) :
    48 ≤ c.toNat ∧ c.toNat ≤ 57 ∧ c.toNat.toUInt8.toNat = c.toNat := by
  simp only [Char.isDigit, Bool.and_eq_true, decide_eq_true_eq] at h
  obtain ⟨h₁, h₂⟩ : 48 ≤ c.toNat ∧ c.toNat ≤ 57 := h
  refine ⟨h₁, h₂, ?_⟩
  rw [Nat.toUInt8_eq, UInt8.toNat_ofNat']
  omega

theorem isDigit_toDigits {n : Nat} {c : Char} (h : c ∈ Nat.toDigits 10 n) : c.isDigit = true :=
  Nat.isDigit_of_mem_toDigits (by decide) (by decide) h

theorem mem_decimal {n : Nat} {c : UInt8} (h : c ∈ decimal n) : 48 ≤ c ∧ c ≤ 57 := by
  rw [decimal_eq] at h
  obtain ⟨d, hd, rfl⟩ := List.mem_map.mp h
  obtain ⟨h₁, h₂, hb⟩ := toNat_digit (isDigit_toDigits hd)
  rw [UInt8.le_iff_toNat_le, UInt8.le_iff_toNat_le, hb]
  exact ⟨h₁, h₂⟩

@[simp] theorem parseDecimal_decimal (n : Nat) : parseDecimal (decimal n) = some n := by
  have hd : (decimal n).map (fun c => Char.ofNat c.toNat) = Nat.toDigits 10 n := by
    rw [decimal_eq, List.map_map]
    refine (List.map_congr_left fun c hc => ?_).trans (List.map_id _)
    rw [Function.comp_apply, (toNat_digit (isDigit_toDigits hc)).2.2, Char.ofNat_toNat, id]
  have hne : decimal n ≠ [] := by
    rw [decimal_eq, Ne, List.map_eq_nil_iff]
    exact Nat.toDigits_ne_nil
  unfold parseDecimal
  simp only [hd]
  rw [if_pos ⟨hne, List.all_eq_true.mpr fun c => isDigit_toDigits⟩, Nat.ofDigitChars_ten_toDigits]

/-! ## Lines -/

/-- A carriage return. -/
def cr : UInt8 := 13

/-- A line feed. -/
def lf : UInt8 := 10

/-- The lines, each ended by CRLF, and an empty line. -/
def encodeLines : List Bytes → Bytes
  | [] => [cr, lf]
  | line :: lines => line ++ cr :: lf :: encodeLines lines

/-- A byte before the lines that were read after it. -/
def pushByte (c : UInt8) : List Bytes × Bytes → List Bytes × Bytes
  | ([], rest) => ([[c]], rest)
  | (line :: lines, rest) => ((c :: line) :: lines, rest)

/-- Reads the rest of a line and the lines after it up to an empty one. `fresh` tells that the
line has no byte so far. -/
def scanLines (fresh : Bool) : Bytes → Option (List Bytes × Bytes)
  | [] | [_] => none
  | c :: d :: s =>
    if c = cr ∧ d = lf then
      if fresh then some ([], s) else (scanLines true s).map fun p => ([] :: p.1, p.2)
    else (scanLines false (d :: s)).map (pushByte c)

/-- Reads lines up to an empty one. -/
def decodeLines (s : Bytes) : Option (List Bytes × Bytes) := scanLines true s

theorem scanLines_cons {fresh : Bool} {c : UInt8} {s : Bytes} (hc : c ≠ cr) (hs : s ≠ []) :
    scanLines fresh (c :: s) = (scanLines false s).map (pushByte c) := by
  cases s with
  | nil => exact absurd rfl hs
  | cons d s => rw [scanLines, if_neg fun h => hc h.1]

/-- The rest of a line and its end. -/
theorem scanLines_line {line : Bytes} (h : cr ∉ line) (s : Bytes) :
    scanLines false (line ++ cr :: lf :: s) =
      (scanLines true s).map fun p => (line :: p.1, p.2) := by
  induction line with
  | nil => simp [scanLines]
  | cons c line ih =>
    obtain ⟨hc, h⟩ := not_or.mp (mt List.mem_cons.mpr h)
    rw [List.cons_append, scanLines_cons (Ne.symm hc) (by simp), ih h, Option.map_map]
    rfl

/-- **The round trip of lines** that are not empty. -/
theorem decodeLines_encodeLines {lines : List Bytes} (h : ∀ line ∈ lines, line ≠ [] ∧ cr ∉ line)
    (rest : Bytes) : decodeLines (encodeLines lines ++ rest) = some (lines, rest) := by
  induction lines with
  | nil => simp [decodeLines, encodeLines, scanLines]
  | cons line lines ih =>
    obtain ⟨⟨hne, hcr⟩, hl⟩ := List.forall_mem_cons.mp h
    replace ih := ih hl
    obtain ⟨c, line, rfl⟩ := List.exists_cons_of_ne_nil hne
    obtain ⟨hc, hcr⟩ := not_or.mp (mt List.mem_cons.mpr hcr)
    rw [encodeLines, List.append_assoc, List.cons_append, decodeLines,
      scanLines_cons (Ne.symm hc) (by simp), List.cons_append, List.cons_append,
      scanLines_line hcr, ← decodeLines, ih]
    rfl

/-! ## Heads -/

/-- A blank. -/
def isBlank (c : UInt8) : Bool := c == 32 || c == 9

/-- A field value without the blanks around it. -/
def trim (s : Bytes) : Bytes := ((s.dropWhile isBlank).reverse.dropWhile isBlank).reverse

/-- A field name. -/
def IsName (s : Bytes) : Prop := chr ':' ∉ s ∧ cr ∉ s

/-- A field value. -/
def IsValue (s : Bytes) : Prop := cr ∉ s ∧ trim s = s

instance : DecidablePred IsName := fun _ => inferInstanceAs (Decidable (_ ∧ _))

instance : DecidablePred IsValue := fun _ => inferInstanceAs (Decidable (_ ∧ _))

/-- A field of a head: its name and its value. -/
abbrev Field := Bytes × Bytes

/-- The line of a field. -/
def encodeField (field : Field) : Bytes := field.1 ++ chr ':' :: chr ' ' :: field.2

/-- The field of a line. -/
def decodeField (line : Bytes) : Option Field :=
  (find [chr ':'] line).map fun pos => (line.take pos, trim (line.drop (pos + 1)))

theorem trim_blank {c : UInt8} (h : isBlank c = true) (s : Bytes) : trim (c :: s) = trim s := by
  unfold trim
  rw [List.dropWhile_cons_of_pos h]

theorem dropWhile_isBlank {s : Bytes} (h : ∀ c ∈ s, isBlank c = false) :
    s.dropWhile isBlank = s := by
  cases s with
  | nil => rfl
  | cons c s => exact List.dropWhile_cons_of_neg (by simp [h c])

/-- A text without blanks and line ends is a field value. -/
theorem isValue_of_forall {s : Bytes} (h : ∀ c ∈ s, isBlank c = false ∧ c ≠ cr) : IsValue s := by
  refine ⟨fun hm => (h cr hm).2 rfl, ?_⟩
  rw [trim, dropWhile_isBlank fun c hc => (h c hc).1,
    dropWhile_isBlank fun c hc => (h c (List.mem_reverse.mp hc)).1, List.reverse_reverse]

theorem isValue_decimal (n : Nat) : IsValue (decimal n) :=
  isValue_of_forall fun c hc => by
    obtain ⟨h, -⟩ := mem_decimal hc
    constructor <;> grind [isBlank, cr]

theorem decodeField_encodeField {field : Field} (hn : IsName field.1) (hv : IsValue field.2) :
    decodeField (encodeField field) = some field := by
  have hf : find [chr ':'] (encodeField field) = some field.1.length :=
    find_marker hn.1
  have hd : (encodeField field).drop (field.1.length + 1) = chr ' ' :: field.2 := by
    simp [encodeField]
  have ht : (encodeField field).take field.1.length = field.1 := by simp [encodeField]
  rw [decodeField, hf, Option.map_some, hd, ht, trim_blank rfl, hv.2]

/-- The head of a message. -/
structure Head where
  start : Bytes
  fields : List Field
  deriving DecidableEq

namespace Head

/-- A head that its lines tell. -/
structure Wf (head : Head) : Prop where
  start_ne : head.start ≠ []
  start_cr : cr ∉ head.start
  fields : ∀ field ∈ head.fields, IsName field.1 ∧ IsValue field.2

/-- The bytes of a head. -/
def encode (head : Head) : Bytes := encodeLines (head.start :: head.fields.map encodeField)

/-- The head at the front, and what follows it. -/
def decode (s : Bytes) : Option (Head × Bytes) :=
  match decodeLines s with
  | some (start :: lines, rest) =>
    (lines.mapM decodeField).map fun fields => (⟨start, fields⟩, rest)
  | _ => none

/-- The value of the first field whose name passes the test. -/
def value (isName : Bytes → Bool) (head : Head) : Option Bytes :=
  (head.fields.find? fun field => isName field.1).map Prod.snd

variable {head : Head}

theorem encode_ne_nil (head : Head) : head.encode ≠ [] := by
  simp [encode, encodeLines]

theorem Wf.decodeFields (h : head.Wf) :
    (head.fields.map encodeField).mapM decodeField = some head.fields := by
  obtain ⟨start, fields⟩ := head
  have hf := h.fields
  clear h
  induction fields with
  | nil => rfl
  | cons field fields ih =>
    obtain ⟨⟨hn, hv⟩, hf⟩ := List.forall_mem_cons.mp hf
    simp [decodeField_encodeField hn hv, ih hf]

/-- **The round trip of a head**, whatever follows it. -/
theorem decode_encode (h : head.Wf) (rest : Bytes) :
    decode (head.encode ++ rest) = some (head, rest) := by
  have hl : ∀ line ∈ head.start :: head.fields.map encodeField, line ≠ [] ∧ cr ∉ line := by
    refine List.forall_mem_cons.mpr ⟨⟨h.start_ne, h.start_cr⟩, fun line hm => ?_⟩
    obtain ⟨field, hf, rfl⟩ := List.mem_map.mp hm
    obtain ⟨hn, hv⟩ := h.fields field hf
    have : cr ≠ chr ':' ∧ cr ≠ chr ' ' := by decide
    simp [encodeField, hn.2, hv.1, this]
  rw [decode, encode, decodeLines_encodeLines hl]
  simp only [h.decodeFields, Option.map_some]

end Head

/-! ## Streams of messages -/

section Stream

variable {κ μ ξ : Type}

/-- The messages of a stream, of the kinds `kinds` in turn, read up to its end. -/
def readAll (read : κ → Bytes → Option (μ × Bytes)) : List κ → Bytes → Option (List μ)
  | _, [] => some []
  | [], _ :: _ => none
  | kind :: kinds, c :: s =>
    (read kind (c :: s)).bind fun p => (readAll read kinds p.2).map (p.1 :: ·)

variable {read : κ → Bytes → Option (μ × Bytes)}

/-- **The round trip of a stream.** -/
theorem readAll_flatMap {kind : ξ → κ} {enc : ξ → Bytes} {dec : ξ → μ} {xs : List ξ}
    (kinds : List κ) (hne : ∀ x ∈ xs, enc x ≠ [])
    (hrt : ∀ x ∈ xs, ∀ rest, read (kind x) (enc x ++ rest) = some (dec x, rest)) :
    readAll read (xs.map kind ++ kinds) (xs.flatMap enc) = some (xs.map dec) := by
  induction xs with
  | nil => cases kinds <;> rfl
  | cons x xs ih =>
    obtain ⟨hx, hne⟩ := List.forall_mem_cons.mp hne
    obtain ⟨hr, hrt⟩ := List.forall_mem_cons.mp hrt
    obtain ⟨c, s, hs⟩ := List.exists_cons_of_ne_nil hx
    have hr := hr (xs.flatMap enc)
    rw [hs, List.cons_append] at hr
    rw [List.map_cons, List.flatMap_cons, hs, List.cons_append, List.cons_append, readAll, hr,
      Option.bind_some, ih hne hrt]
    rfl

/-- What the reader gives for each kind, a stream gives for each kind in turn. -/
theorem readAll_forall₂ {Q : κ → μ → Prop} (hQ : ∀ kind s m rest,
      read kind s = some (m, rest) → Q kind m) {kinds : List κ} {s : Bytes} {ms : List μ}
    (h : readAll read kinds s = some ms) : List.Forall₂ Q (kinds.take ms.length) ms := by
  induction kinds generalizing s ms with
  | nil =>
    cases s with
    | nil => cases h; exact .nil
    | cons c s => cases h
  | cons kind kinds ih =>
    cases s with
    | nil => cases h; exact .nil
    | cons c s =>
      simp only [readAll, Option.bind_eq_some_iff, Option.map_eq_some_iff] at h
      obtain ⟨⟨m, rest⟩, hr, ms, hms, rfl⟩ := h
      exact .cons (hQ _ _ _ _ hr) (ih hms)

end Stream

end Lib
