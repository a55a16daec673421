import ChatServer.Jwt.Token
import ChatServer.Lib.Bits
import Mathlib.Data.List.Nodup

/-!
# The texts that `base::decode` reads

A symbol carries six bits and an octet has eight. `decode` reads every text of symbols of the
alphabet whose bits are those of the octets and fewer than six more, whatever these are, and the
fills behind it have to be as many as the missing symbols. `base::pad` adds the fills: it goes by
the length of the text, so a text that already has its fills is read only if it has two of them.

* `decode_iff`: the texts of `decode`. `decodePart_iff`: those of the decoder of a token.
* `exists_texts`: how many texts some octets have.
-/

namespace ChatServer.Jwt

open Lib

/-- The bits of octets. -/
def octets (bin : Bytes) : List Bool := bin.flatMap fun c => bits 8 c.toNat

theorem octets_cons (c : UInt8) (bin : Bytes) : octets (c :: bin) = bits 8 c.toNat ++ octets bin :=
  rfl

theorem octets_append (bin bin' : Bytes) : octets (bin ++ bin') = octets bin ++ octets bin' :=
  List.flatMap_append

theorem length_octets (bin : Bytes) : (octets bin).length = bin.length * 8 := by
  simp [octets, List.length_flatMap]

/-- Octets and less than an octet behind them can be read back from their bits. -/
theorem octets_append_inj {bin bin' : Bytes} {r r' : List Bool} (hr : r.length < 8)
    (hr' : r'.length < 8) (h : octets bin ++ r = octets bin' ++ r') : bin = bin' ∧ r = r' := by
  have hinj (a b : UInt8) (hab : bits 8 a.toNat = bits 8 b.toNat) : a = b :=
    UInt8.toNat_inj.mp (bits_inj a.toNat_lt b.toNat_lt hab)
  have hlen (c : UInt8) : (bits 8 c.toNat).length = 8 := length_bits 8 _
  exact flatMap_append_inj hlen (fun a _ b _ => hinj a b) hr hr' h

namespace Alphabet

/-- The three octets of a triple. -/
theorem octets_octet (t : Nat) : octets [octet t 2, octet t 1, octet t 0] = bits 24 t := by
  have ho (i : Nat) : (octet t i).toNat = t / 2 ^ (i * 8) % 2 ^ 8 := by
    rw [octet_eq]
    exact Nat.mod_eq_of_lt (Nat.mod_lt _ (by decide))
  have h₂ : t / 2 ^ (2 * 8) = t / 2 ^ 8 / 2 ^ 8 := by rw [Nat.div_div_eq_div_mul, ← Nat.pow_add]
  rw [bits_div_mod 16 8 t, bits_div_mod 8 8 (t / 2 ^ 8), octets_cons, octets_cons, octets_cons, ho,
    ho, ho, h₂, bits_mod, Nat.zero_mul, Nat.pow_zero, Nat.div_one, Nat.one_mul]
  simp [octets]

/-- The four sextets of a triple. -/
theorem bits_join {a b c d : Nat} (hb : b < 64) (hc : c < 64) (hd : d < 64) :
    bits 24 ((a <<< 18) + (b <<< 12) + (c <<< 6) + d) =
      bits 6 a ++ bits 6 b ++ bits 6 c ++ bits 6 d := by
  have hjoin : (a <<< 18) + (b <<< 12) + (c <<< 6) + d =
      ((a * 2 ^ 6 + b) * 2 ^ 6 + c) * 2 ^ 6 + d := by
    simp only [Nat.shiftLeft_eq]
    omega
  calc bits 24 ((a <<< 18) + (b <<< 12) + (c <<< 6) + d)
    _ = bits (18 + 6) (((a * 2 ^ 6 + b) * 2 ^ 6 + c) * 2 ^ 6 + d) := by rw [hjoin]
    _ = bits (12 + 6) ((a * 2 ^ 6 + b) * 2 ^ 6 + c) ++ bits 6 d := bits_append hd
    _ = bits (6 + 6) (a * 2 ^ 6 + b) ++ bits 6 c ++ bits 6 d := by rw [bits_append hc]
    _ = bits 6 a ++ bits 6 b ++ bits 6 c ++ bits 6 d := by rw [bits_append hb]

variable (T : Alphabet)

/-- The bits that symbols carry. -/
def sextets (t : Bytes) : List Bool := t.flatMap fun c => bits 6 (T.data.idxOf c)

variable {T}

theorem sextets_cons (c : UInt8) (t : Bytes) :
    T.sextets (c :: t) = bits 6 (T.data.idxOf c) ++ T.sextets t := rfl

theorem length_sextets (t : Bytes) : (T.sextets t).length = t.length * 6 := by
  simp [sextets, List.length_flatMap]

theorem idxOf_lt {c : UInt8} (h : c ∈ T.data) : T.data.idxOf c < 64 :=
  T.length_data ▸ List.idxOf_lt_length_of_mem h

theorem index_eq_ok {c : UInt8} {i : Nat} :
    T.index c = .ok i ↔ c ∈ T.data ∧ T.data.idxOf c = i := by
  unfold index
  split <;> simp [*]

/-- A text of symbols is determined by its bits. -/
theorem sextets_inj {t t' : Bytes} (ht : ∀ c ∈ t, c ∈ T.data) (ht' : ∀ c ∈ t', c ∈ T.data)
    (h : T.sextets t = T.sextets t') : t = t' := by
  have hlen (c : UInt8) : (bits 6 (T.data.idxOf c)).length = 6 := length_bits 6 _
  have hnil : ([] : List Bool).length < 6 := by decide
  refine (flatMap_append_inj hlen (fun a ha b hb hab => ?_) hnil hnil ?_).1
  · exact (List.idxOf_inj (ht a ha)).mp (bits_inj (idxOf_lt (ht a ha)) (idxOf_lt (ht' b hb)) hab)
  · rw [List.append_nil, List.append_nil]
    exact h

/-- Every string of sixes of bits is that of a text of symbols. -/
theorem exists_sextets {s : List Bool} {k : Nat} (h : s.length = k * 6) :
    ∃ t : Bytes, (∀ c ∈ t, c ∈ T.data) ∧ T.sextets t = s := by
  refine exists_flatMap (A := (· ∈ T.data)) (fun word hword => ?_) h
  obtain ⟨n, hn, hbits⟩ := exists_bits hword
  have hlt : n < T.data.length := by rw [T.length_data]; exact hn
  exact ⟨T.data[n], List.getElem_mem hlt, by rw [T.nodup_data.idxOf_getElem n hlt]; exact hbits⟩

/-! ## Groups and the symbols behind them -/

theorem index_of_mem {c : UInt8} (h : c ∈ T.data) : T.index c = .ok (T.data.idxOf c) :=
  index_eq_ok.mpr ⟨h, rfl⟩

theorem length_lt_of_no_group {u : Bytes}
    (h : ∀ a b c d u', u = a :: b :: c :: d :: u' → False) : u.length < 4 := by
  rcases u with _ | ⟨a, _ | ⟨b, _ | ⟨c, _ | ⟨d, u⟩⟩⟩⟩
  case cons.cons.cons.cons => exact (h a b c d u rfl).elim
  all_goals simp

/-- What the loop of `decode` reads: groups of symbols of the alphabet. -/
theorem decodeGroups_data {u : Bytes} (hu : ∀ c ∈ u, c ∈ T.data) : ∃ res rest,
    T.decodeGroups u = .ok (res, rest) ∧ (∀ c ∈ rest, c ∈ T.data) ∧
      rest.length = u.length % 4 ∧ T.sextets u = octets res ++ T.sextets rest := by
  fun_induction T.decodeGroups u with
  | case1 a b c d u ih =>
    simp only [List.forall_mem_cons] at hu
    obtain ⟨ha, hb, hc, hd, hu⟩ := hu
    obtain ⟨res, rest, hdec, hrest, hlen, hbits⟩ := ih hu
    have hgroup := bits_join (a := T.data.idxOf a) (idxOf_lt hb) (idxOf_lt hc) (idxOf_lt hd)
    rw [← octets_octet] at hgroup
    generalize ht : (T.data.idxOf a <<< 18) + (T.data.idxOf b <<< 12) + (T.data.idxOf c <<< 6) +
      T.data.idxOf d = t at hgroup
    refine ⟨[octet t 2, octet t 1, octet t 0] ++ res, rest, ?_, hrest, ?_, ?_⟩
    · rw [index_of_mem ha, index_of_mem hb, index_of_mem hc, index_of_mem hd, hdec, ← ht]
      rfl
    · simp only [List.length_cons]
      omega
    · rw [octets_append, hgroup]
      simp only [sextets_cons, hbits, List.append_assoc]
  | case2 u hne =>
    exact ⟨[], u, rfl, hu, (Nat.mod_eq_of_lt (length_lt_of_no_group hne)).symm, rfl⟩

/-- The third sextet is below the others. -/
theorem shift_or {a b c : Nat} (hc : c < 64) :
    ((a <<< 18) + (b <<< 12)) ||| (c <<< 6) = (a <<< 18) + (b <<< 12) + (c <<< 6) := by
  have hab : (a <<< 18) + (b <<< 12) = 2 ^ 12 * (a * 64 + b) := by
    simp only [Nat.shiftLeft_eq]
    omega
  have hlt : c <<< 6 < 2 ^ 12 := by
    rw [Nat.shiftLeft_eq]
    omega
  rw [hab, Nat.two_pow_add_eq_or_of_lt hlt]

/-- What the end of `decode` reads: as many symbols as are missing fills of a group. -/
theorem decodeRest_data {n : Nat} {rest : Bytes} (hrest : ∀ c ∈ rest, c ∈ T.data) (hn : n ≤ 2)
    (hlen : (rest.length + n) % 4 = 0) (hlt : rest.length < 4) : ∃ last r,
      T.decodeRest n rest = .ok last ∧ T.sextets rest = octets last ++ r ∧ r.length = 2 * n := by
  obtain rfl | rfl | rfl : n = 0 ∨ n = 1 ∨ n = 2 := by omega
  · obtain rfl : rest = [] := List.length_eq_zero_iff.mp (by omega)
    exact ⟨[], [], rfl, rfl, rfl⟩
  · obtain ⟨a, b, c, rfl⟩ := List.length_eq_three.mp (by omega : rest.length = 3)
    simp only [List.forall_mem_cons] at hrest
    obtain ⟨ha, hb, hc, -⟩ := hrest
    -- The bits of the group with a zero for the missing symbol.
    have hgroup := bits_join (a := T.data.idxOf a) (idxOf_lt hb) (idxOf_lt hc) (d := 0) (by decide)
    rw [← octets_octet, Nat.add_zero] at hgroup
    generalize ht : (T.data.idxOf a <<< 18) + (T.data.idxOf b <<< 12) + (T.data.idxOf c <<< 6) = t
      at hgroup
    refine ⟨[octet t 2, octet t 1], (bits 8 (octet t 0).toNat).take 2, ?_, ?_, rfl⟩
    · rw [← ht, ← shift_or (idxOf_lt hc)]
      rw [decodeRest, index_of_mem ha, index_of_mem hb, index_of_mem hc]
      rfl
    · have hsplit : (octets [octet t 2, octet t 1] ++ (bits 8 (octet t 0).toNat).take 2) ++
          (bits 8 (octet t 0).toNat).drop 2 = T.sextets [a, b, c] ++ bits 6 0 := by
        rw [List.append_assoc, List.take_append_drop]
        simpa [octets, sextets] using hgroup
      exact (List.append_inj_left hsplit (by simp [length_octets, length_sextets])).symm
  · obtain ⟨a, b, rfl⟩ := List.length_eq_two.mp (by omega : rest.length = 2)
    simp only [List.forall_mem_cons] at hrest
    obtain ⟨ha, hb, -⟩ := hrest
    have hgroup := bits_join (a := T.data.idxOf a) (idxOf_lt hb) (c := 0) (d := 0) (by decide)
      (by decide)
    rw [← octets_octet, Nat.add_zero, Nat.zero_shiftLeft, Nat.add_zero] at hgroup
    generalize ht : (T.data.idxOf a <<< 18) + (T.data.idxOf b <<< 12) = t at hgroup
    refine ⟨[octet t 2], (bits 8 (octet t 1).toNat).take 4, ?_, ?_, rfl⟩
    · rw [← ht, decodeRest, index_of_mem ha, index_of_mem hb]
      rfl
    · have hsplit : (octets [octet t 2] ++ (bits 8 (octet t 1).toNat).take 4) ++
          ((bits 8 (octet t 1).toNat).drop 4 ++ octets [octet t 0]) =
          T.sextets [a, b] ++ (bits 6 0 ++ bits 6 0) := by
        rw [List.append_assoc, ← List.append_assoc (List.take 4 _), List.take_append_drop]
        simpa [octets, sextets] using hgroup
      exact (List.append_inj_left hsplit (by simp [length_octets, length_sextets])).symm

/-- The loop stops at a symbol outside the alphabet. -/
theorem decodeGroups_mem {u : Bytes} {res rest : Bytes} (h : T.decodeGroups u = .ok (res, rest)) :
    rest.length < 4 ∧ rest.length % 4 = u.length % 4 ∧ ∀ c ∈ u, c ∈ T.data ∨ c ∈ rest := by
  fun_induction T.decodeGroups u generalizing res rest with
  | case1 a b c d u ih =>
    simp only [bind_eq_ok, index_eq_ok] at h
    obtain ⟨_, ⟨ha, -⟩, _, ⟨hb, -⟩, _, ⟨hc, -⟩, _, ⟨hd, -⟩, ⟨res', rest'⟩, hdec, hret⟩ := h
    obtain ⟨-, rfl⟩ := Prod.mk.inj (Except.ok.inj hret)
    obtain ⟨hlt, hlen, hmem⟩ := ih hdec
    refine ⟨hlt, by simp only [List.length_cons]; omega, ?_⟩
    simp only [List.forall_mem_cons]
    exact ⟨.inl ha, .inl hb, .inl hc, .inl hd, hmem⟩
  | case2 u hne =>
    obtain ⟨-, rfl⟩ := Prod.mk.inj (Except.ok.inj h)
    exact ⟨length_lt_of_no_group hne, rfl, fun c hc => .inr hc⟩

theorem decodeRest_mem {n : Nat} {rest last : Bytes} (hn : n ≤ 2)
    (hlen : (rest.length + n) % 4 = 0) (hlt : rest.length < 4)
    (h : T.decodeRest n rest = .ok last) : ∀ c ∈ rest, c ∈ T.data := by
  obtain rfl | rfl | rfl : n = 0 ∨ n = 1 ∨ n = 2 := by omega
  · obtain rfl : rest = [] := List.length_eq_zero_iff.mp (by omega)
    simp
  · obtain ⟨a, b, c, rfl⟩ := List.length_eq_three.mp (by omega : rest.length = 3)
    simp only [decodeRest, bind_eq_ok, index_eq_ok] at h
    obtain ⟨_, ⟨ha, -⟩, _, ⟨hb, -⟩, _, ⟨hc, -⟩, -⟩ := h
    simp only [List.forall_mem_cons]
    exact ⟨ha, hb, hc, by simp⟩
  · obtain ⟨a, b, rfl⟩ := List.length_eq_two.mp (by omega : rest.length = 2)
    simp only [decodeRest, bind_eq_ok, index_eq_ok] at h
    obtain ⟨_, ⟨ha, -⟩, _, ⟨hb, -⟩, -⟩ := h
    simp only [List.forall_mem_cons]
    exact ⟨ha, hb, by simp⟩

/-! ## The fills -/

theorem filling_add (m n : Nat) : T.filling (m + n) = T.filling m ++ T.filling n := by
  rw [filling, List.replicate_add, List.flatten_append]
  rfl

theorem filling_succ (n : Nat) : T.filling (1 + n) = T.filling n ++ T.fill := by
  rw [Nat.add_comm, filling_add]
  simp [filling]

theorem length_filling (n : Nat) : (T.filling n).length = n * T.fill.length := by
  simp [filling]

/-- The fills that `count_padding` counts are at the end of the text. -/
theorem exists_filling (u : Bytes) : ∃ t, u = t ++ T.filling (T.countPadding u).count ∧
    (T.countPadding u).length = (T.filling (T.countPadding u).count).length := by
  fun_induction T.countPadding u with
  | case1 u hsuf padding ih =>
    obtain ⟨t, hu, hlen⟩ := ih
    obtain ⟨v, rfl⟩ := List.isSuffixOf_iff_suffix.mp hsuf
    have htake : (v ++ T.fill).take ((v ++ T.fill).length - T.fill.length) = v := by
      rw [List.length_append, Nat.add_sub_cancel, List.take_left]
    replace hu : v = t ++ T.filling padding.count := htake.symm.trans hu
    replace hlen : padding.length = (T.filling padding.count).length := hlen
    refine ⟨t, ?_, ?_⟩
    · rw [filling_succ, ← List.append_assoc, ← hu]
    · rw [filling_succ, List.length_append, ← hlen]
      exact Nat.add_comm _ _
  | case2 u hsuf => exact ⟨u, by simp [filling], by simp [filling]⟩

/-- **The texts of `decode`**: symbols whose bits are those of the octets and fewer than six more,
and a fill for every two of them. -/
theorem decode_iff {u bin : Bytes} : T.decode u = .ok bin ↔
    ∃ t n r, u = t ++ T.filling n ∧ n ≤ 2 ∧ (∀ c ∈ t, c ∈ T.data) ∧
      T.sextets t = octets bin ++ r ∧ r.length = 2 * n := by
  constructor
  · intro h
    obtain ⟨t, hu, hlen⟩ := exists_filling (T := T) u
    rw [decode] at h
    generalize T.countPadding u = padding at h hu hlen
    obtain ⟨n, length⟩ := padding
    simp only at h hu hlen
    subst hu hlen
    simp only [List.length_append, Nat.add_sub_cancel, List.take_left] at h
    split at h
    · cases h
    split at h
    · cases h
    simp only [bind_eq_ok] at h
    obtain ⟨⟨res, rest⟩, hdec, last, hlast, hret⟩ := h
    obtain ⟨hlt, hmod, hmem⟩ := decodeGroups_mem hdec
    have hrest := decodeRest_mem (by omega) (by omega) hlt hlast
    have ht (c : UInt8) (hc : c ∈ t) : c ∈ T.data := (hmem c hc).elim id (hrest c)
    -- What the two parts read is what their texts carry.
    obtain ⟨res', rest', hdec', -, -, hbits⟩ := decodeGroups_data ht
    obtain ⟨rfl, rfl⟩ := Prod.mk.inj (Except.ok.inj (hdec.symm.trans hdec'))
    obtain ⟨last', r, hlast', hbits', hr⟩ := decodeRest_data (n := n) hrest (by omega) (by omega)
      hlt
    obtain rfl := Except.ok.inj (hlast.symm.trans hlast')
    obtain rfl := Except.ok.inj hret
    exact ⟨t, n, r, rfl, by omega, ht, by rw [hbits, hbits', octets_append, List.append_assoc], hr⟩
  · rintro ⟨t, n, r, rfl, hn, ht, hbits, hr⟩
    have hsize : (t.length + n) % 4 = 0 := by
      have := congrArg List.length hbits
      rw [length_sextets, List.length_append, length_octets, hr] at this
      omega
    obtain ⟨res, rest, hdec, hrest, hlen, hsext⟩ := decodeGroups_data ht
    obtain ⟨last, r', hlast, hsext', hr'⟩ := decodeRest_data (n := n) hrest hn (by omega)
      (by omega)
    have hbin : bin = res ++ last ∧ r = r' := by
      refine octets_append_inj (by omega) (by omega) ?_
      rw [← hbits, hsext, hsext', octets_append, List.append_assoc]
    rw [decode, countPadding_filling ht]
    simp only [List.length_append, Nat.add_sub_cancel, List.take_left]
    rw [if_neg (by omega), if_neg (by omega), hdec, ok_bind, hlast, ok_bind, hbin.1]
    rfl

/-- `pad` adds fills up to a multiple of four of the length. -/
theorem pad_eq (s : Bytes) : ∃ k, k < 4 ∧ (s.length + k) % 4 = 0 ∧ T.pad s = s ++ T.filling k := by
  have hlt := Nat.mod_lt s.length (by decide : 0 < 4)
  unfold pad
  obtain h | h | h | h : s.length % 4 = 0 ∨ s.length % 4 = 1 ∨ s.length % 4 = 2 ∨
    s.length % 4 = 3 := by omega
  · exact ⟨0, by decide, by omega, by simp [h, filling]⟩
  · exact ⟨3, by decide, by omega, by simp [h, filling, List.replicate_succ]⟩
  · exact ⟨2, by decide, by omega, by simp [h, filling, List.replicate_succ]⟩
  · exact ⟨1, by decide, by omega, by simp [h, filling]⟩

/-- Symbols of the alphabet do not end in a fill. -/
theorem fill_notMem_data {t s : Bytes} {k : Nat} (ht : ∀ c ∈ t, c ∈ T.data)
    (h : s ++ T.filling k = t) : k = 0 := by
  obtain ⟨c, rest, hf, hc⟩ := T.fill_head
  cases k with
  | zero => rfl
  | succ k =>
    have hm : c ∈ t := by
      rw [← h]
      exact List.mem_append_right s (by simp [filling, List.replicate_succ, hf])
    exact absurd (ht c hm) hc

end Alphabet

/-- **The parts of a token**: symbols whose bits are those of the octets and fewer than six more.
Two fills may follow them if they are the missing ones; a single one is not read. -/
theorem decodePart_iff {s bin : Bytes} : decodePart s = .ok bin ↔
    ∃ t r, (s = t ∨ r.length = 4 ∧ s = t ++ base64url.filling 2) ∧ (∀ c ∈ t, c ∈ base64url.data) ∧
      base64url.sextets t = octets bin ++ r ∧ r.length < 6 := by
  have hfill (n : Nat) : (base64url.filling n).length = n * 3 := Alphabet.length_filling n
  obtain ⟨k, hk, hlen, hpad⟩ := Alphabet.pad_eq (T := base64url) s
  have hcarry {t : Bytes} {r : List Bool} (h : base64url.sextets t = octets bin ++ r) :
      t.length * 6 = bin.length * 8 + r.length := by
    have := congrArg List.length h
    rwa [Alphabet.length_sextets, List.length_append, length_octets] at this
  rw [decodePart, Alphabet.decode_iff, hpad]
  constructor
  · rintro ⟨t, n, r, hs, hn, ht, hbits, hr⟩
    have hc := hcarry hbits
    refine ⟨t, r, ?_, ht, hbits, by omega⟩
    rcases Nat.le_total k n with hkn | hnk
    · obtain ⟨m, rfl⟩ := Nat.exists_eq_add_of_le' hkn
      rw [Alphabet.filling_add, ← List.append_assoc] at hs
      obtain rfl := List.append_cancel_right hs
      rw [List.length_append, hfill] at hlen
      obtain rfl | rfl : m = 0 ∨ m = 2 := by omega
      · exact .inl (List.append_nil t)
      · exact .inr ⟨by omega, rfl⟩
    · obtain ⟨m, rfl⟩ := Nat.exists_eq_add_of_le' hnk
      rw [Alphabet.filling_add, ← List.append_assoc] at hs
      obtain rfl := Alphabet.fill_notMem_data ht (List.append_cancel_right hs)
      exact .inl ((List.append_nil s).symm.trans (List.append_cancel_right hs))
  · rintro ⟨t, r, hs, ht, hbits, hr⟩
    have hc := hcarry hbits
    rcases hs with rfl | ⟨hr, rfl⟩
    · exact ⟨s, k, r, rfl, by omega, ht, hbits, by omega⟩
    · rw [List.length_append, hfill] at hlen
      obtain rfl : k = 0 := by omega
      exact ⟨t, 2, r, List.append_nil _, by omega, ht, hbits, by omega⟩

/-! ## How many texts -/

/-- The bits that the last symbol has more than the octets. -/
def spare (bin : Bytes) : Nat := bin.length * 4 % 6

/-- Fewer than six bits behind the octets are as many as the last symbol has more. -/
theorem length_spare {t bin : Bytes} {r : List Bool} (h : base64url.sextets t = octets bin ++ r)
    (hr : r.length < 6) : r.length = spare bin := by
  have := congrArg List.length h
  rw [Alphabet.length_sextets, List.length_append, length_octets] at this
  rw [spare]
  omega

/-- **The texts of some octets**: one for each string of spare bits, and if there are four of these
each text once more with two fills. -/
theorem exists_texts (bin : Bytes) : ∃ texts : List Bytes, texts.Nodup ∧
    texts.length = 2 ^ spare bin ∧ ∀ s, decodePart s = .ok bin ↔
      s ∈ texts ∨ spare bin = 4 ∧ ∃ t ∈ texts, s = t ++ base64url.filling 2 := by
  have hlt : spare bin < 6 := Nat.mod_lt _ (by decide)
  have hlen (n : Nat) : (octets bin ++ bits (spare bin) n).length =
      ((bin.length * 8 + spare bin) / 6) * 6 := by
    rw [List.length_append, length_octets, length_bits, spare]
    omega
  choose text hdata hbits using fun n => Alphabet.exists_sextets (T := base64url) (hlen n)
  refine ⟨(List.range (2 ^ spare bin)).map text, ?_, by simp, fun s => ?_⟩
  · refine List.Nodup.map_on (fun m hm n hn h => ?_) List.nodup_range
    have hmn : octets bin ++ bits (spare bin) m = octets bin ++ bits (spare bin) n := by
      rw [← hbits, ← hbits, h]
    exact bits_inj (List.mem_range.mp hm) (List.mem_range.mp hn) (List.append_cancel_left hmn)
  · simp only [List.mem_map, List.mem_range, decodePart_iff]
    constructor
    · rintro ⟨t, r, hs, ht, hr, hr6⟩
      have hspare := length_spare hr hr6
      obtain ⟨n, hn, rfl⟩ := exists_bits hspare
      obtain rfl := Alphabet.sextets_inj (hdata n) ht ((hbits n).trans hr.symm)
      rcases hs with rfl | ⟨hfour, rfl⟩
      · exact .inl ⟨n, hn, rfl⟩
      · exact .inr ⟨hspare ▸ hfour, _, ⟨n, hn, rfl⟩, rfl⟩
    · have hr (n : Nat) : (bits (spare bin) n).length < 6 := by rw [length_bits]; exact hlt
      rintro (⟨n, -, rfl⟩ | ⟨hfour, _, ⟨n, -, rfl⟩, rfl⟩)
      · exact ⟨text n, _, .inl rfl, hdata n, hbits n, hr n⟩
      · exact ⟨text n, _, .inr ⟨by rw [length_bits, hfour], rfl⟩, hdata n, hbits n, hr n⟩

end ChatServer.Jwt
