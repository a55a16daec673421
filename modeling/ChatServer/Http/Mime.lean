import ChatServer.Http.Handler
import Mathlib.Data.List.Forall2

/-!
# MIME types

`mime_type` cuts the extension at the last dot of the whole path, not of its last segment. A name
without a dot below a directory with one gets an extension with a slash in it, and no entry of the
table has one, so the result is that of the name alone.

* `mimeType_name`: the type depends on what follows a slash; `mimeType_case`: the case of its
  letters does not matter.
* `mimeType_filePath`: the document root has no part in the type of a file.
-/

namespace ChatServer

open Lib

/-! ## The last position of a byte -/

theorem rfind_eq_none_iff {c : UInt8} {s : Bytes} : rfind c s = none ↔ c ∉ s := by
  induction s with
  | nil => simp [rfind]
  | cons d s ih =>
    rw [rfind, List.mem_cons, not_or]
    cases hs : rfind c s with
    | none => simp [ih.mp hs, eq_comm]
    | some pos =>
      have hm : c ∈ s := by
        by_contra hm
        rw [ih.mpr hm] at hs
        cases hs
      simp [hm]

theorem exists_rfind {c : UInt8} {s : Bytes} (h : c ∈ s) : ∃ pos, rfind c s = some pos :=
  Option.ne_none_iff_exists'.mp fun hn => rfind_eq_none_iff.mp hn h

/-- A byte that stands in the second of two strings has its last position there. -/
theorem rfind_append {c : UInt8} {q : Bytes} (h : c ∈ q) (p : Bytes) :
    rfind c (p ++ q) = (rfind c q).map (p.length + ·) := by
  obtain ⟨pos, hpos⟩ := exists_rfind h
  induction p with
  | nil => simp
  | cons d p ih =>
    rw [List.cons_append, rfind, ih, hpos]
    simp only [Option.map_some, List.length_cons]
    congr 1
    omega

/-- A byte that does not stand in the second string has its last position in the first. -/
theorem rfind_append_of_notMem {c : UInt8} {q : Bytes} (h : c ∉ q) (p : Bytes) :
    rfind c (p ++ q) = rfind c p := by
  induction p with
  | nil => exact rfind_eq_none_iff.mpr h
  | cons d p ih => rw [List.cons_append, rfind, rfind, ih]

theorem rfind_le {c : UInt8} {s : Bytes} {pos : Nat} (h : rfind c s = some pos) :
    pos < s.length := by
  induction s generalizing pos with
  | nil => cases h
  | cons d s ih =>
    rw [rfind] at h
    cases hs : rfind c s with
    | some pos' =>
      rw [hs] at h
      cases h
      exact Nat.succ_lt_succ (ih hs)
    | none =>
      rw [hs] at h
      simp only at h
      split at h
      · cases h
        exact Nat.succ_pos _
      · cases h

/-- A map that keeps the byte apart from the others keeps its positions. -/
theorem rfind_map {c : UInt8} {f : UInt8 → UInt8} (hf : ∀ d, f d = c ↔ d = c) (s : Bytes) :
    rfind c (s.map f) = rfind c s := by
  induction s with
  | nil => rfl
  | cons d s ih => simp only [List.map_cons, rfind, ih, hf]

/-! ## The extension -/

theorem extension_append {f : Bytes} (h : chr '.' ∈ f) (d : Bytes) :
    extension (d ++ f) = extension f := by
  obtain ⟨pos, hpos⟩ := exists_rfind h
  simp only [extension, rfind_append h, hpos, Option.map_some]
  rw [List.drop_append, List.drop_eq_nil_of_le (Nat.le_add_right ..), List.nil_append,
    Nat.add_sub_cancel_left]

/-- The extension of a name without a dot, if it has one at all, starts in a directory. -/
theorem extension_append_slash {f : Bytes} (h : chr '.' ∉ f) (d : Bytes) :
    extension (d ++ chr '/' :: f) = [] ∨ chr '/' ∈ extension (d ++ chr '/' :: f) := by
  have hf : chr '.' ∉ chr '/' :: f := by
    rintro (_ | ⟨_, hm⟩)
    exact h hm
  unfold extension
  rw [rfind_append_of_notMem hf]
  cases hp : rfind (chr '.') d with
  | none => exact .inl rfl
  | some pos =>
    refine .inr ?_
    simp only
    rw [List.drop_append_of_le_length (rfind_le hp).le]
    simp

/-! ## Letters -/

theorem toNat_add_32 {c : UInt8} (h : c ≤ chr 'Z') : (c + 32).toNat = c.toNat + 32 := by
  have hc : c.toNat ≤ 90 := h
  rw [UInt8.toNat_add]
  exact Nat.mod_eq_of_lt (by change c.toNat + 32 < 256; omega)

/-- A byte before the letters comes from no other byte. -/
theorem asciiTolower_eq_iff {c : UInt8} (hc : c < 65) (d : UInt8) :
    asciiTolower d = c ↔ d = c := by
  unfold asciiTolower
  split
  · rename_i h
    have hl : 65 ≤ d.toNat := h.1
    have hc : c.toNat < 65 := hc
    have hd := toNat_add_32 h.2
    constructor
    · rintro rfl
      omega
    · rintro rfl
      omega
  · rfl

/-- The bytes are the same but for the case of an ASCII letter. -/
def SameLetter (c d : UInt8) : Prop :=
  c = d ∨ (chr 'A' ≤ c ∧ c ≤ chr 'Z' ∧ d = c + 32) ∨ (chr 'A' ≤ d ∧ d ≤ chr 'Z' ∧ c = d + 32)

theorem asciiTolower_upper {c : UInt8} (hl : chr 'A' ≤ c) (hu : c ≤ chr 'Z') :
    asciiTolower (c + 32) = asciiTolower c := by
  have hl' : 65 ≤ c.toNat := hl
  have hc := toNat_add_32 hu
  have hz : ¬c + 32 ≤ chr 'Z' := by
    intro hz
    have hz : (c + 32).toNat ≤ 90 := hz
    omega
  rw [asciiTolower, if_neg fun h => hz h.2, asciiTolower, if_pos ⟨hl, hu⟩]

theorem map_asciiTolower {p q : Bytes} (h : List.Forall₂ SameLetter p q) :
    p.map asciiTolower = q.map asciiTolower := by
  induction h with
  | nil => rfl
  | cons hc _ ih =>
    rw [List.map_cons, List.map_cons, ih]
    congr 1
    obtain rfl | ⟨hl, hu, rfl⟩ | ⟨hl, hu, rfl⟩ := hc
    · rfl
    · exact (asciiTolower_upper hl hu).symm
    · exact asciiTolower_upper hl hu

theorem extension_map (path : Bytes) :
    (extension path).map asciiTolower = extension (path.map asciiTolower) := by
  unfold extension
  rw [rfind_map (asciiTolower_eq_iff (by decide))]
  cases rfind (chr '.') path with
  | none => rfl
  | some pos => exact List.map_drop

theorem iequals_congr {a a' : Bytes} (h : a.map asciiTolower = a'.map asciiTolower) (b : Bytes) :
    iequals a b = iequals a' b := by
  rw [iequals, iequals, h]

/-- No entry of the table has a slash. -/
theorem iequals_of_slash {ext : Bytes} (h : chr '/' ∈ ext) :
    ∀ entry ∈ mimeTypes, iequals ext (ascii entry.1) = false := by
  have htable : ∀ entry ∈ mimeTypes, chr '/' ∉ (ascii entry.1).map asciiTolower := by decide
  intro entry hm
  rw [iequals, beq_eq_false_iff_ne]
  intro he
  refine htable entry hm (he ▸ ?_)
  exact List.mem_map.mpr ⟨_, h, (asciiTolower_eq_iff (by decide) _).mpr rfl⟩

/-! ## `mime_type` -/

/-- A path whose extension is not in the table. -/
theorem mimeType_default {path : Bytes}
    (h : ∀ entry ∈ mimeTypes, iequals (extension path) (ascii entry.1) = false) :
    mimeType path = ascii "application/text" := by
  have hf : mimeTypes.find? (fun entry => iequals (extension path) (ascii entry.1)) = none :=
    List.find?_eq_none.mpr fun entry hm => by simp [h entry hm]
  simp only [mimeType, hf]

theorem mimeType_of_extension_nil {path : Bytes} (h : extension path = []) :
    mimeType path = ascii "application/text" := by
  apply mimeType_default
  rw [h]
  decide

/-- **The type is that of what follows a slash**, the file name if it is the last one. -/
theorem mimeType_name (d f : Bytes) : mimeType (d ++ chr '/' :: f) = mimeType f := by
  by_cases hdot : chr '.' ∈ f
  · have he : extension (d ++ chr '/' :: f) = extension f := by
      rw [List.append_cons, extension_append hdot]
    simp only [mimeType, he]
  · have hname : extension f = [] := by
      rw [extension, rfind_eq_none_iff.mpr hdot]
    rw [mimeType_of_extension_nil hname]
    rcases extension_append_slash hdot d with he | he
    · exact mimeType_of_extension_nil he
    · exact mimeType_default (iequals_of_slash he)

/-- **The case of letters does not matter.** -/
theorem mimeType_case {p q : Bytes} (h : List.Forall₂ SameLetter p q) :
    mimeType p = mimeType q := by
  have he : (extension p).map asciiTolower = (extension q).map asciiTolower := by
    rw [extension_map, extension_map, map_asciiTolower h]
  simp only [mimeType, iequals_congr he]

/-! ## The path of a file -/

/-- The type of a file is that of its target, with `index.html` for a directory. -/
theorem mimeType_filePath {target : Bytes} (h : legalTarget target = true) (docRoot : Bytes) :
    mimeType (filePath docRoot target) = mimeType (filePath [] target) := by
  obtain ⟨t, rfl⟩ : ∃ t, target = chr '/' :: t := by
    cases target with
    | nil => cases h
    | cons c t =>
      simp only [legalTarget, Bool.and_eq_true, List.head?_cons, beq_iff_eq] at h
      exact ⟨t, by rw [Option.some.inj h.1.2]⟩
  have hpath (docRoot : Bytes) : ∃ d, filePath docRoot (chr '/' :: t) = d ++ chr '/' ::
      (if (chr '/' :: t).getLast? = some (chr '/') then t ++ ascii "index.html" else t) := by
    unfold filePath pathCat
    by_cases hroot : docRoot = []
    · refine ⟨[], ?_⟩
      simp only [if_pos hroot]
      split <;> simp
    · refine ⟨if docRoot.getLast? = some (chr '/') then docRoot.dropLast else docRoot, ?_⟩
      simp only [if_neg hroot]
      split <;> split <;> simp [*]
  obtain ⟨d, hd⟩ := hpath docRoot
  obtain ⟨d', hd'⟩ := hpath []
  rw [hd, hd', mimeType_name, mimeType_name]

end ChatServer
