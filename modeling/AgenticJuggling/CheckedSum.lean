/-
Sums whose running total must fit.

Adding up stops with no result as soon as a running total does not fit, also if
a later summand would have brought it back.

* `checkedSum_eq_some_iff` — a sum that is given is the exact one, and is given
  exactly if every running total fits;
* `runningFits_iff_of_nonneg` — without negative summands it is enough that the whole
  sum fits.
-/
import Mathlib

namespace CheckedSum

variable {α : Type*} (fits : α → Bool)

/-- The running total after one more summand. -/
def add [Add α] (total x : α) : Option α :=
  if fits (total + x) then some (total + x) else none

/-- The sum of a list, from the left. -/
def checkedSum [Add α] [Zero α] (xs : List α) : Option α := xs.foldlM (add fits) 0

/-- Every running total of the list fits. -/
def RunningFits [Add α] [Zero α] (xs : List α) : Prop := ∀ first, first <+: xs → fits first.sum

variable {fits}

theorem foldlM_add_eq_some_iff [AddMonoid α] {total result : α} (htotal : fits total)
    {xs : List α} : xs.foldlM (add fits) total = some result ↔
      (∀ first, first <+: xs → fits (total + first.sum)) ∧ result = total + xs.sum := by
  induction xs generalizing total with
  | nil =>
    rw [List.foldlM_nil, List.sum_nil, add_zero]
    constructor
    · intro h
      refine ⟨fun first hfirst => ?_, (Option.some.inj h).symm⟩
      rwa [List.prefix_nil.mp hfirst, List.sum_nil, add_zero]
    · rintro ⟨-, rfl⟩
      rfl
  | cons x xs ih =>
    rw [List.foldlM_cons, add, List.sum_cons, ← add_assoc]
    by_cases hx : fits (total + x)
    · rw [if_pos hx]
      refine (ih hx).trans (and_congr_left' ⟨fun h first hfirst => ?_, fun h first hfirst => ?_⟩)
      · rcases List.prefix_cons_iff.mp hfirst with rfl | ⟨rest, rfl, hrest⟩
        · rwa [List.sum_nil, add_zero]
        · rw [List.sum_cons, ← add_assoc]
          exact h rest hrest
      · have hcons := h (x :: first) (List.cons_prefix_cons.mpr ⟨rfl, hfirst⟩)
        rwa [List.sum_cons, ← add_assoc] at hcons
    · -- The first summand already leads out of range.
      rw [if_neg hx]
      refine iff_of_false (Option.some_ne_none result).symm fun h => hx ?_
      have hsingle := h.1 [x] (List.cons_prefix_cons.mpr ⟨rfl, List.nil_prefix⟩)
      rwa [List.sum_singleton] at hsingle

/-- **A sum that is given is exact**, and is given if the running totals fit. -/
theorem checkedSum_eq_some_iff [AddMonoid α] (hzero : fits 0) {xs : List α} {result : α} :
    checkedSum fits xs = some result ↔ RunningFits fits xs ∧ result = xs.sum := by
  rw [checkedSum, foldlM_add_eq_some_iff hzero, zero_add]
  simp only [zero_add, RunningFits]

theorem checkedSum_of_fits [AddMonoid α] (hzero : fits 0) {xs : List α}
    (h : RunningFits fits xs) : checkedSum fits xs = some xs.sum :=
  (checkedSum_eq_some_iff hzero).mpr ⟨h, rfl⟩

theorem checkedSum_eq_none_iff [AddMonoid α] (hzero : fits 0) {xs : List α} :
    checkedSum fits xs = none ↔ ¬ RunningFits fits xs := by
  constructor
  · intro hnone h
    rw [checkedSum_of_fits hzero h] at hnone
    cases hnone
  · intro h
    cases hsum : checkedSum fits xs with
    | none => rfl
    | some result => exact absurd ((checkedSum_eq_some_iff hzero).mp hsum).1 h

/-- Without negative summands the whole sum is the largest of the running totals. -/
theorem runningFits_iff_of_nonneg [AddCommMonoid α] [PartialOrder α] [IsOrderedAddMonoid α]
    (hdown : ∀ a b : α, 0 ≤ a → a ≤ b → fits b → fits a) {xs : List α}
    (hxs : ∀ x ∈ xs, 0 ≤ x) : RunningFits fits xs ↔ fits xs.sum := by
  refine ⟨fun h => h xs List.prefix_rfl, fun h first hfirst => ?_⟩
  obtain ⟨rest, rfl⟩ := hfirst
  have hfirst : 0 ≤ first.sum :=
    List.sum_nonneg fun x hx => hxs x (List.mem_append_left rest hx)
  have hrest : 0 ≤ rest.sum :=
    List.sum_nonneg fun x hx => hxs x (List.mem_append_right first hx)
  refine hdown _ _ hfirst ?_ h
  rw [List.sum_append]
  exact le_add_of_nonneg_right hrest

end CheckedSum
