import Mathlib.Data.List.Basic
import Mathlib.Data.List.Infix

/-!
# Lexical paths

A path is a list over any alphabet: the letter `sep` ends a segment, and the segments `.` and `..`
are made of the letter `dot`. A path is normalised on its text alone, no file system is asked.

* `segments`: the segments that are neither empty nor `.`; `normalPath`: what is left of them when
  each `..` has cancelled the segment before it.
* `segments_trimSep_append`: the segments of a root and of what is put after it.
* `normalPath_of_segments`: segments other than `..` behind a root leave the root's normal form as
  it is; `normalPath_prefix`: they do so one by one.
-/

namespace Lib

variable {α : Type} [DecidableEq α] (sep dot : α)

/-- The segments of a path that are neither empty nor `.`. -/
def segments (path : List α) : List (List α) :=
  (path.splitOn sep).filter fun segment => segment ≠ [] ∧ segment ≠ [dot]

/-- The path starts at the root of the file system. -/
def isAbsolute (path : List α) : Bool := path.head? == some sep

/-- One more segment: `..` cancels the last one, but for another `..`. Where there is none, an
absolute path stays at its root and a relative one keeps the `..`. -/
def pushSegment (absolute : Bool) (stack : List (List α)) (segment : List α) : List (List α) :=
  if segment = [dot, dot] then
    match stack.getLast? with
    | none => if absolute then [] else [segment]
    | some last => if last = [dot, dot] then stack ++ [segment] else stack.dropLast
  else stack ++ [segment]

/-- The segments that are left after all cancellations. -/
def resolve (absolute : Bool) (segments : List (List α)) : List (List α) :=
  segments.foldl (pushSegment dot absolute) []

/-- The normal form of a path. -/
def normalPath (path : List α) : List (List α) :=
  resolve dot (isAbsolute sep path) (segments sep dot path)

/-- The path without a separator at its end. -/
def trimSep (path : List α) : List α := if path.getLast? = some sep then path.dropLast else path

variable {sep dot} {p q root target : List α} {own : List (List α)}

/-! ## Segments -/

theorem segments_append_cons (p q : List α) :
    segments sep dot (p ++ sep :: q) = segments sep dot p ++ segments sep dot q := by
  unfold segments
  rw [List.splitOn_append_cons_self, List.filter_append]

@[simp] theorem segments_nil : segments sep dot [] = [] := by
  simp [segments]

@[simp] theorem segments_cons_sep (q : List α) : segments sep dot (sep :: q) = segments sep dot q :=
  segments_append_cons [] q

@[simp] theorem segments_snoc_sep (p : List α) :
    segments sep dot (p ++ [sep]) = segments sep dot p := by
  rw [segments_append_cons, segments_nil, List.append_nil]

/-- Nothing of a segment is lost or joined behind a path that ends with a separator. -/
theorem segments_append_of_getLast? (hp : p.getLast? = some sep) (q : List α) :
    segments sep dot (p ++ q) = segments sep dot p ++ segments sep dot q := by
  obtain ⟨p, rfl⟩ := List.getLast?_eq_some_iff.mp hp
  rw [List.append_assoc, List.singleton_append, segments_append_cons, segments_snoc_sep]

/-- Nor in front of one that starts with a separator. -/
theorem segments_append_of_head? (hq : q.head? = some sep) (p : List α) :
    segments sep dot (p ++ q) = segments sep dot p ++ segments sep dot q := by
  obtain ⟨q, rfl⟩ := List.head?_eq_some_iff.mp hq
  rw [segments_append_cons, segments_cons_sep]

theorem segments_trimSep (p : List α) : segments sep dot (trimSep sep p) = segments sep dot p := by
  unfold trimSep
  split
  · rename_i hp
    obtain ⟨p, rfl⟩ := List.getLast?_eq_some_iff.mp hp
    rw [List.dropLast_concat, segments_snoc_sep]
  · rfl

/-- A word that is not `.` and has no separator is its own segment. -/
theorem segments_word (hp : sep ∉ p) (hnil : p ≠ []) (hdot : p ≠ [dot]) :
    segments sep dot p = [p] := by
  simp [segments, List.splitOn_eq_singleton hp, hnil, hdot]

omit [DecidableEq α] in
theorem infix_intercalate (glue : List α) {l : List α} {ls : List (List α)} (h : l ∈ ls) :
    l <:+: glue.intercalate ls := by
  induction ls with
  | nil => cases h
  | cons head tail ih =>
    by_cases htail : tail = []
    · subst htail
      rw [List.mem_singleton.mp h, List.intercalate_singleton]
    · rw [List.intercalate_cons_of_ne_nil htail]
      rcases List.mem_cons.mp h with rfl | h
      · exact ⟨[], _, by rw [List.nil_append, List.append_assoc]⟩
      · exact (ih h).trans (List.suffix_append _ _).isInfix

/-- A segment stands in the path. -/
theorem infix_of_mem_segments {segment : List α} (h : segment ∈ segments sep dot p) :
    segment <:+: p := by
  have hs := infix_intercalate [sep] (List.mem_filter.mp h).1
  rwa [List.intercalate_splitOn] at hs

/-! ## A root and what is put after it -/

/-- A path that starts with a separator, put after a root, brings its own segments. -/
theorem segments_trimSep_append (htarget : target.head? = some sep) :
    segments sep dot (trimSep sep root ++ target) =
      segments sep dot root ++ segments sep dot target := by
  rw [segments_append_of_head? htarget, segments_trimSep]

theorem isAbsolute_append (hp : p ≠ []) (q : List α) :
    isAbsolute sep (p ++ q) = isAbsolute sep p := by
  cases p with
  | nil => exact absurd rfl hp
  | cons c p => rfl

/-- It stays absolute or relative: where trimming leaves nothing, the root was the separator. -/
theorem isAbsolute_trimSep_append (hroot : root ≠ []) (htarget : target.head? = some sep) :
    isAbsolute sep (trimSep sep root ++ target) = isAbsolute sep root := by
  unfold trimSep
  split
  · rename_i hr
    obtain ⟨root, rfl⟩ := List.getLast?_eq_some_iff.mp hr
    rw [List.dropLast_concat]
    cases root with
    | nil => simp [isAbsolute, htarget]
    | cons c root => rfl
  · exact isAbsolute_append hroot target

/-! ## Normalisation -/

/-- Segments other than `..` are only added. -/
theorem resolve_append (absolute : Bool) (before : List (List α)) (h : [dot, dot] ∉ own) :
    resolve dot absolute (before ++ own) = resolve dot absolute before ++ own := by
  unfold resolve
  rw [List.foldl_append]
  generalize before.foldl (pushSegment dot absolute) [] = stack
  induction own generalizing stack with
  | nil => exact (List.append_nil stack).symm
  | cons segment own ih =>
    obtain ⟨hne, hown⟩ := not_or.mp (mt List.mem_cons.mpr h)
    rw [List.foldl_cons, ih hown, pushSegment, if_neg (Ne.symm hne), List.append_assoc,
      List.singleton_append]

/-- **A path below a root**: with no `..` among the segments behind the root's, the normal form is
the root's and these segments. -/
theorem normalPath_of_segments (hs : segments sep dot p = segments sep dot root ++ own)
    (ha : isAbsolute sep p = isAbsolute sep root) (h : [dot, dot] ∉ own) :
    normalPath sep dot p = normalPath sep dot root ++ own := by
  unfold normalPath
  rw [hs, ha, resolve_append _ _ h]

/-- **No cancellation reaches the root**: from the root's last segment on, what is left after each
segment starts with the root's normal form. -/
theorem normalPath_prefix {taken : List (List α)} (hr : segments sep dot root <+: taken)
    (ht : taken <+: segments sep dot root ++ own) (h : [dot, dot] ∉ own) :
    normalPath sep dot root <+: resolve dot (isAbsolute sep root) taken := by
  obtain ⟨taken, rfl⟩ := hr
  have hown : taken <+: own := (List.prefix_append_right_inj _).mp ht
  rw [resolve_append _ _ fun hm => h (hown.subset hm)]
  exact List.prefix_append _ _

end Lib
