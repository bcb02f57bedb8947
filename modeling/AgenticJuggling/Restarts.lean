/-
Timers that are set again after every restart.

A process runs in spells, listed in the order of time, each from a start to a
crash, the last one to its regular end.  At every start it sets a timer for every job, which goes off when
the job is due, or at once when it is overdue; nothing is remembered from one
spell to the next.

* `fires_eq_some` — a timer goes off in every spell that ends after the job is
  due;
* `firings_eq_iff` — it goes off once, when it should, just if the job is not
  due before any of the crashes.
-/
import Mathlib

variable {τ : Type*} [LinearOrder τ]

/-- A stretch of time in which the process runs. -/
structure Spell (τ : Type*) [LinearOrder τ] where
  start : τ
  stop : τ
  lt : start < stop

namespace Spell

/-- When the timer of a job goes off in the spell. -/
def fires (due : τ) (spell : Spell τ) : Option τ :=
  if max spell.start due < spell.stop then some (max spell.start due) else none

theorem fires_eq_some {due : τ} {spell : Spell τ} (h : due < spell.stop) :
    spell.fires due = some (max spell.start due) :=
  if_pos (max_lt spell.lt h)

theorem fires_eq_none {due : τ} {spell : Spell τ} (h : spell.stop ≤ due) :
    spell.fires due = none :=
  if_neg fun hlt => (h.trans (le_max_right _ _)).not_gt hlt

/-- The process runs at time `t`. -/
def Covers (spell : Spell τ) (t : τ) : Prop := spell.start ≤ t ∧ t < spell.stop

instance (spell : Spell τ) (t : τ) : Decidable (spell.Covers t) :=
  inferInstanceAs (Decidable (_ ∧ _))

/-- All the times at which the timer of a job goes off. -/
def firings (spells : List (Spell τ)) (due : τ) : List τ := spells.filterMap (fires due)

/-- When a job should be done: when it is due, if the process runs then, and at
the next start otherwise. -/
def whenDue (spells : List (Spell τ)) (due : τ) : Option τ :=
  if ∃ spell ∈ spells, spell.Covers due then some due
  else ((spells.map (·.start)).filter fun t => due < t).head?

/-- No timer goes off for a job that is due when everything is over. -/
theorem firings_eq_nil {spells : List (Spell τ)} {due : τ}
    (h : ∀ spell ∈ spells, spell.stop ≤ due) : firings spells due = [] := by
  rw [firings, List.filterMap_eq_nil_iff]
  exact fun spell hspell => fires_eq_none (h spell hspell)

theorem firings_concat {spells : List (Spell τ)} {last : Spell τ} {due : τ}
    (h : due < last.stop) :
    firings (spells ++ [last]) due = firings spells due ++ [max last.start due] := by
  rw [firings, List.filterMap_append, List.filterMap_cons_some (fires_eq_some h),
    List.filterMap_nil]
  rfl

/-- A job that is due after all crashes should be done in the last spell. -/
theorem whenDue_concat {spells : List (Spell τ)} {last : Spell τ} {due : τ}
    (hstop : ∀ spell ∈ spells, spell.stop ≤ due) (h : due < last.stop) :
    whenDue (spells ++ [last]) due = some (max last.start due) := by
  have hcovers : (∃ spell ∈ spells ++ [last], spell.Covers due) ↔ last.start ≤ due := by
    constructor
    · rintro ⟨spell, hmem, hcovers⟩
      rcases List.mem_append.mp hmem with hmem | hmem
      · exact absurd hcovers.2 (hstop spell hmem).not_gt
      · rw [List.mem_singleton.mp hmem] at hcovers
        exact hcovers.1
    · exact fun hle => ⟨last, by simp, hle, h⟩
  by_cases hle : last.start ≤ due
  · rw [whenDue, if_pos (hcovers.mpr hle), max_eq_right hle]
  · -- The process is down, and all the other starts are over.
    have hstart : ((spells.map (·.start)).filter fun t => due < t) = [] := by
      rw [List.filter_eq_nil_iff]
      intro t ht hlt
      obtain ⟨spell, hspell, rfl⟩ := List.mem_map.mp ht
      exact ((of_decide_eq_true hlt).trans spell.lt).not_ge (hstop spell hspell)
    have hlt : due < last.start := lt_of_not_ge hle
    rw [whenDue, if_neg (mt hcovers.mp hle), List.map_append, List.filter_append, hstart,
      max_eq_left hlt.le]
    simp [hlt]

/-- **Done once and when it should be** is a job that is due before the end just
if it is not due before any of the crashes. -/
theorem firings_eq_iff {spells : List (Spell τ)} {last : Spell τ} {due : τ}
    (h : due < last.stop) :
    firings (spells ++ [last]) due = (whenDue (spells ++ [last]) due).toList ↔
      ∀ spell ∈ spells, spell.stop ≤ due := by
  constructor
  · intro heq spell hspell
    by_contra hlt
    -- The timer goes off in that spell and once more in the last one.
    have hmem : max spell.start due ∈ firings spells due :=
      List.mem_filterMap.mpr ⟨spell, hspell, fires_eq_some (lt_of_not_ge hlt)⟩
    have hpos : 0 < (firings spells due).length := List.length_pos_of_mem hmem
    have hlen := congrArg List.length heq
    have hle : (whenDue (spells ++ [last]) due).toList.length ≤ 1 := by
      cases whenDue (spells ++ [last]) due <;> simp
    rw [firings_concat h, List.length_append, List.length_singleton] at hlen
    omega
  · intro hstop
    rw [firings_concat h, firings_eq_nil hstop, whenDue_concat hstop h]
    rfl

end Spell
