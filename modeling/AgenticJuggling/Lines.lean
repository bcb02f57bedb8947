/-
Lines of a stream that arrives in pieces.

A separator ends a line; what follows the last separator is a line that has not
ended yet.

* `splitLine` — the first line taken off a buffer;
* `terminated_of_splitLine` — the lines that have ended are that line and the
  lines of the rest;
* `terminated_append_of_not_mem` — a piece without separator ends no line;
* `terminated_of_prefix` — of a stream of lines the first ones have ended, wherever it was cut.
-/
import Mathlib

namespace Lines

variable {α : Type*} [DecidableEq α] {sep : α}

/-- The first line and what follows its separator. -/
def splitLine (sep : α) : List α → Option (List α × List α)
  | [] => none
  | x :: s => if x = sep then some ([], s) else (splitLine sep s).map fun p => (x :: p.1, p.2)

/-- The lines that have ended. -/
def terminated (sep : α) (s : List α) : List (List α) := (s.splitOn sep).dropLast

theorem splitLine_eq_none {s : List α} : splitLine sep s = none ↔ sep ∉ s := by
  induction s with
  | nil => simp [splitLine]
  | cons x s ih =>
    rw [splitLine, List.mem_cons, not_or]
    split
    · next hx => simp [hx]
    · next hx => rw [Option.map_eq_none_iff, ih, and_iff_right (Ne.symm hx)]

theorem splitLine_eq_some {s line rest : List α} (h : splitLine sep s = some (line, rest)) :
    sep ∉ line ∧ s = line ++ sep :: rest := by
  induction s generalizing line with
  | nil => simp [splitLine] at h
  | cons x s ih =>
    rw [splitLine] at h
    split at h
    · next hx =>
      obtain ⟨rfl, rfl⟩ := Prod.mk.inj (Option.some.inj h)
      exact ⟨List.not_mem_nil, by rw [hx, List.nil_append]⟩
    · next hx =>
      obtain ⟨⟨line, rest⟩, hs, heq⟩ := Option.map_eq_some_iff.mp h
      obtain ⟨rfl, rfl⟩ := Prod.mk.inj heq
      obtain ⟨hline, rfl⟩ := ih hs
      exact ⟨by rw [List.mem_cons, not_or]; exact ⟨Ne.symm hx, hline⟩, rfl⟩

theorem splitLine_of_not_mem {line : List α} (h : sep ∉ line) (rest : List α) :
    splitLine sep (line ++ sep :: rest) = some (line, rest) := by
  induction line with
  | nil => exact if_pos rfl
  | cons x line ih =>
    rw [List.mem_cons, not_or] at h
    rw [List.cons_append, splitLine, if_neg (Ne.symm h.1), ih h.2, Option.map_some]

theorem splitLine_length {s line rest : List α} (h : splitLine sep s = some (line, rest)) :
    rest.length < s.length := by
  rw [(splitLine_eq_some h).2, List.length_append, List.length_cons]
  omega

theorem splitLine_append {s line rest : List α} (h : splitLine sep s = some (line, rest))
    (t : List α) : splitLine sep (s ++ t) = some (line, rest ++ t) := by
  induction s generalizing line with
  | nil => simp [splitLine] at h
  | cons x s ih =>
    rw [splitLine] at h
    rw [List.cons_append, splitLine]
    split at h
    · next hx =>
      obtain ⟨rfl, rfl⟩ := Prod.mk.inj (Option.some.inj h)
      rw [if_pos hx]
    · next hx =>
      obtain ⟨⟨line, rest⟩, hs, heq⟩ := Option.map_eq_some_iff.mp h
      obtain ⟨rfl, rfl⟩ := Prod.mk.inj heq
      rw [if_neg hx, ih hs, Option.map_some]

theorem terminated_of_not_mem {s : List α} (h : sep ∉ s) : terminated sep s = [] := by
  rw [terminated, List.splitOn_eq_singleton h, List.dropLast_singleton]

/-- The lines of a buffer are its first line and the lines of the rest. -/
theorem terminated_of_splitLine {s line rest : List α} (h : splitLine sep s = some (line, rest)) :
    terminated sep s = line :: terminated sep rest := by
  obtain ⟨hline, rfl⟩ := splitLine_eq_some h
  rw [terminated, terminated, List.splitOn_append_cons_self_of_not_mem hline,
    List.dropLast_cons_of_ne_nil (List.splitOn_ne_nil _ _)]

/-- A piece without separator ends no line. -/
theorem terminated_append_of_not_mem {t : List α} (ht : sep ∉ t) (s : List α) :
    terminated sep (s ++ t) = terminated sep s := by
  induction hn : s.length using Nat.strong_induction_on generalizing s with
  | _ n ih =>
    cases hs : splitLine sep s with
    | none =>
      have hmem : sep ∉ s := splitLine_eq_none.mp hs
      rw [terminated_of_not_mem hmem, terminated_of_not_mem (by simp [hmem, ht])]
    | some p =>
      have hlt : p.2.length < n := hn ▸ splitLine_length hs
      rw [terminated_of_splitLine hs, terminated_of_splitLine (splitLine_append hs t),
        ih _ hlt p.2 rfl]

/-! ### Streams of lines -/

/-- The lines, each with its separator. -/
def unlines (sep : α) (lines : List (List α)) : List α := (lines.map (· ++ [sep])).flatten

omit [DecidableEq α] in
theorem unlines_cons (line : List α) (lines : List (List α)) :
    unlines sep (line :: lines) = line ++ sep :: unlines sep lines := by
  rw [unlines, List.map_cons, List.flatten_cons, List.append_assoc]
  rfl

omit [DecidableEq α] in
/-- What has arrived of a stream of lines ends within the first line or goes beyond it. -/
theorem prefix_unlines_cons {line s : List α} {lines : List (List α)} (hline : sep ∉ line)
    (hs : s <+: unlines sep (line :: lines)) :
    sep ∉ s ∨ ∃ rest, rest <+: unlines sep lines ∧ s = line ++ sep :: rest := by
  have hwhole : line ++ [sep] <+: unlines sep (line :: lines) := by
    rw [unlines_cons]
    exact ⟨unlines sep lines, by rw [List.append_assoc]; rfl⟩
  obtain hshort | ⟨rest, rfl⟩ := List.prefix_or_prefix_of_prefix hs hwhole
  · obtain rfl | hshort := List.prefix_concat_iff.mp hshort
    · exact .inr ⟨[], List.nil_prefix, rfl⟩
    · exact .inl fun hmem => hline (hshort.subset hmem)
  · refine .inr ⟨rest, ?_, by rw [List.append_assoc]; rfl⟩
    rw [unlines_cons, List.append_assoc, List.prefix_append_right_inj] at hs
    exact (List.cons_prefix_cons.mp hs).2

/-- **The lines that have ended in what has arrived of a stream are the first ones**, as
many as there are separators in it. -/
theorem terminated_of_prefix {lines : List (List α)} (hlines : ∀ line ∈ lines, sep ∉ line)
    {s : List α} (hs : s <+: unlines sep lines) :
    terminated sep s = lines.take (s.count sep) := by
  induction lines generalizing s with
  | nil =>
    obtain rfl := List.prefix_nil.mp hs
    rfl
  | cons line lines ih =>
    obtain ⟨hline, hlines⟩ := List.forall_mem_cons.mp hlines
    obtain hmem | ⟨rest, hrest, rfl⟩ := prefix_unlines_cons hline hs
    · rw [terminated_of_not_mem hmem, List.count_eq_zero.mpr hmem, List.take_zero]
    · rw [terminated_of_splitLine (splitLine_of_not_mem hline rest), ih hlines hrest,
        List.count_append, List.count_eq_zero.mpr hline, List.count_cons_self, Nat.zero_add,
        List.take_succ_cons]

theorem count_unlines {lines : List (List α)} (hlines : ∀ line ∈ lines, sep ∉ line) :
    (unlines sep lines).count sep = lines.length := by
  induction lines with
  | nil => rfl
  | cons line lines ih =>
    obtain ⟨hline, hlines⟩ := List.forall_mem_cons.mp hlines
    rw [unlines_cons, List.count_append, List.count_eq_zero.mpr hline, List.count_cons_self,
      ih hlines, Nat.zero_add, List.length_cons]

end Lines
