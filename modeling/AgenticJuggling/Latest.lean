/-
Totals of readings that supersede one another.

A source that keeps a running total reports it again and again under its key,
and the last report of a key is its reading.  Adding up all the reports counts
more than the readings, and by how much is `superseded`:

* `sum_eq_latestSum_add` — the sum of the reports is the sum of the latest
  readings and of what was superseded;
* `sum_eq_latestSum_iff` — if no report is negative, the two sums agree exactly
  if every report that is followed by another one of its key is zero.
-/
import Mathlib

namespace Latest

variable {κ ν : Type*} [DecidableEq κ]

/-- The last reading reported under a key. -/
def latest : List (κ × ν) → κ → Option ν
  | [], _ => none
  | report :: reports, k =>
    (latest reports k).or (if report.1 = k then some report.2 else none)

theorem latest_eq_none_iff {reports : List (κ × ν)} {k : κ} :
    latest reports k = none ↔ k ∉ reports.map Prod.fst := by
  induction reports with
  | nil => exact ⟨fun _ => List.not_mem_nil, fun _ => rfl⟩
  | cons report reports ih =>
    rw [latest, Option.or_eq_none_iff, ih, List.map_cons, List.mem_cons, not_or, and_comm]
    by_cases h : report.1 = k
    · simp [h]
    · simp [h, Ne.symm h]

/-- A report does not change the reading of a key that is reported later. -/
theorem latest_cons_of_mem {report : κ × ν} {reports : List (κ × ν)} {k : κ}
    (h : k ∈ reports.map Prod.fst) : latest (report :: reports) k = latest reports k := by
  rw [latest]
  cases hk : latest reports k with
  | none => exact absurd h (latest_eq_none_iff.mp hk)
  | some v => rfl

theorem latest_cons_self {report : κ × ν} {reports : List (κ × ν)}
    (h : report.1 ∉ reports.map Prod.fst) :
    latest (report :: reports) report.1 = some report.2 := by
  rw [latest, latest_eq_none_iff.mpr h, if_pos rfl]
  rfl

section Sums

variable [AddCommMonoid ν]

/-- The sum of the latest readings, one for each key. -/
def latestSum (reports : List (κ × ν)) : ν :=
  ((reports.map Prod.fst).dedup.map fun k => (latest reports k).getD 0).sum

/-- What the reports that a later one replaces add up to. -/
def superseded : List (κ × ν) → ν
  | [] => 0
  | report :: reports =>
    (if report.1 ∈ reports.map Prod.fst then report.2 else 0) + superseded reports

theorem latestSum_cons_of_mem {report : κ × ν} {reports : List (κ × ν)}
    (h : report.1 ∈ reports.map Prod.fst) : latestSum (report :: reports) = latestSum reports := by
  rw [latestSum, List.map_cons, List.dedup_cons_of_mem h, latestSum]
  congr 1
  refine List.map_congr_left fun k hk => ?_
  rw [latest_cons_of_mem (List.mem_dedup.mp hk)]

theorem latestSum_cons_of_not_mem {report : κ × ν} {reports : List (κ × ν)}
    (h : report.1 ∉ reports.map Prod.fst) :
    latestSum (report :: reports) = report.2 + latestSum reports := by
  rw [latestSum, List.map_cons, List.dedup_cons_of_notMem h, List.map_cons, List.sum_cons,
    latest_cons_self h, Option.getD_some, latestSum]
  congr 2
  refine List.map_congr_left fun k hk => ?_
  rw [latest_cons_of_mem (List.mem_dedup.mp hk)]

/-- **All the reports together** count the latest readings, and beyond them
what was superseded. -/
theorem sum_eq_latestSum_add (reports : List (κ × ν)) :
    (reports.map Prod.snd).sum = latestSum reports + superseded reports := by
  induction reports with
  | nil => exact (add_zero _).symm
  | cons report reports ih =>
    rw [List.map_cons, List.sum_cons, ih, superseded]
    by_cases h : report.1 ∈ reports.map Prod.fst
    · rw [if_pos h, latestSum_cons_of_mem h, add_left_comm]
    · rw [if_neg h, latestSum_cons_of_not_mem h, zero_add, add_assoc]

end Sums

section Order

variable [AddCommMonoid ν] [PartialOrder ν] [IsOrderedCancelAddMonoid ν]

theorem superseded_nonneg {reports : List (κ × ν)} (h : ∀ report ∈ reports, 0 ≤ report.2) :
    0 ≤ superseded reports := by
  induction reports with
  | nil => exact le_refl 0
  | cons report reports ih =>
    obtain ⟨hhead, htail⟩ := List.forall_mem_cons.mp h
    refine add_nonneg ?_ (ih htail)
    split
    · exact hhead
    · exact le_refl 0

/-- Nothing counts twice exactly if every superseded report is zero. -/
theorem superseded_eq_zero_iff {reports : List (κ × ν)} (h : ∀ report ∈ reports, 0 ≤ report.2) :
    superseded reports = 0 ↔ reports.Pairwise fun p q => p.1 = q.1 → p.2 = 0 := by
  induction reports with
  | nil => exact ⟨fun _ => List.Pairwise.nil, fun _ => rfl⟩
  | cons report reports ih =>
    obtain ⟨hhead, htail⟩ := List.forall_mem_cons.mp h
    rw [superseded, List.pairwise_cons, ← ih htail]
    by_cases hmem : report.1 ∈ reports.map Prod.fst
    · rw [if_pos hmem, add_eq_zero_iff_of_nonneg hhead (superseded_nonneg htail)]
      obtain ⟨q, hq, hkey⟩ := List.mem_map.mp hmem
      exact and_congr_left fun _ => ⟨fun hzero _ _ _ => hzero, fun hall => hall q hq hkey.symm⟩
    · rw [if_neg hmem, zero_add]
      refine ⟨fun hzero => ⟨fun q hq hkey => absurd ?_ hmem, hzero⟩, And.right⟩
      rw [hkey]
      exact List.mem_map_of_mem hq

/-- **When adding up the reports gives the readings.** -/
theorem sum_eq_latestSum_iff {reports : List (κ × ν)} (h : ∀ report ∈ reports, 0 ≤ report.2) :
    (reports.map Prod.snd).sum = latestSum reports ↔
      reports.Pairwise fun p q => p.1 = q.1 → p.2 = 0 := by
  rw [sum_eq_latestSum_add, add_eq_left, superseded_eq_zero_iff h]

end Order

end Latest
