/-
Loops that nothing bounds in advance.

One round of a loop either goes on with a new state or leaves the loop with a
result; `run round fuel s` performs at most `fuel` rounds.  A loop *ends* when
some fuel is enough.

* `run_mono`, `run_unique` — the result does not depend on the fuel;
* `exit_of_run` — what holds at the round that leaves the loop;
* `ends_of_variant` — a measure that every other round decreases ends the loop;
* `ends_of_clock` — so does a clock that every other round advances, if the
  loop is left once it has passed a deadline;
* `run_eq_none_of_invariant` — a loop in which every round goes on never ends.
-/
import Mathlib

namespace WhileLoop

variable {σ ρ : Type*}

/-- At most `fuel` rounds from `s` on. -/
def run (round : σ → σ ⊕ ρ) : ℕ → σ → Option ρ
  | 0, _ => none
  | fuel + 1, s =>
    match round s with
    | .inl s' => run round fuel s'
    | .inr r => some r

/-- The loop is left after finitely many rounds. -/
def Ends (round : σ → σ ⊕ ρ) (s : σ) : Prop := ∃ fuel r, run round fuel s = some r

variable {round : σ → σ ⊕ ρ}

theorem run_goesOn {s s' : σ} (h : round s = .inl s') (fuel : ℕ) :
    run round (fuel + 1) s = run round fuel s' := by
  rw [run, h]

theorem run_leaves {s : σ} {r : ρ} (h : round s = .inr r) (fuel : ℕ) :
    run round (fuel + 1) s = some r := by
  rw [run, h]

/-- **The rule of the exit.**  An invariant of the rounds that go on holds where
the loop is left. -/
theorem exit_of_run (I : σ → Prop) (Q : ρ → Prop)
    (hstep : ∀ s s', I s → round s = .inl s' → I s')
    (hexit : ∀ s r, I s → round s = .inr r → Q r) {fuel : ℕ} {s : σ} {r : ρ}
    (hs : I s) (hr : run round fuel s = some r) : Q r := by
  induction fuel generalizing s with
  | zero => simp [run] at hr
  | succ fuel ih =>
    cases hround : round s with
    | inl s' =>
      rw [run_goesOn hround] at hr
      exact ih (hstep s s' hs hround) hr
    | inr r' =>
      rw [run_leaves hround] at hr
      exact Option.some.inj hr ▸ hexit s r' hs hround

theorem run_mono {fuel fuel' : ℕ} (hle : fuel ≤ fuel') {s : σ} {r : ρ}
    (hr : run round fuel s = some r) : run round fuel' s = some r := by
  induction fuel generalizing s fuel' with
  | zero => simp [run] at hr
  | succ fuel ih =>
    obtain ⟨k, rfl⟩ : ∃ k, fuel' = k + 1 := ⟨fuel' - 1, by omega⟩
    cases hround : round s with
    | inl s' =>
      rw [run_goesOn hround] at hr ⊢
      exact ih (by omega) hr
    | inr r' =>
      rw [run_leaves hround] at hr ⊢
      exact hr

theorem run_unique {fuel fuel' : ℕ} {s : σ} {r r' : ρ} (hr : run round fuel s = some r)
    (hr' : run round fuel' s = some r') : r = r' := by
  have h := run_mono (le_max_left fuel fuel') hr
  rw [run_mono (le_max_right fuel fuel') hr'] at h
  exact (Option.some.inj h).symm

theorem ends_of_goesOn {s s' : σ} (h : round s = .inl s') (hends : Ends round s') :
    Ends round s := by
  obtain ⟨fuel, r, hr⟩ := hends
  exact ⟨fuel + 1, r, by rw [run_goesOn h, hr]⟩

theorem ends_of_leaves {s : σ} {r : ρ} (h : round s = .inr r) : Ends round s :=
  ⟨1, r, run_leaves h 0⟩

/-- **The rule of the variant.** -/
theorem ends_of_variant (I : σ → Prop) (μ : σ → ℕ)
    (hstep : ∀ s s', I s → round s = .inl s' → I s' ∧ μ s' < μ s) {s : σ} (hs : I s) :
    Ends round s := by
  induction hn : μ s using Nat.strong_induction_on generalizing s with
  | _ n ih =>
    cases hround : round s with
    | inl s' =>
      obtain ⟨hs', hlt⟩ := hstep s s' hs hround
      exact ends_of_goesOn hround (ih (μ s') (hn ▸ hlt) hs' rfl)
    | inr r => exact ends_of_leaves hround

/-- **The rule of the deadline.**  No round goes on once the clock has reached
the deadline, and every round that goes on advances the clock by `δ`. -/
theorem ends_of_clock {K : Type*} [AddCommGroup K] [LinearOrder K] [IsOrderedAddMonoid K]
    [Archimedean K] (I : σ → Prop) (clock : σ → K) (deadline : K) {δ : K} (hδ : 0 < δ)
    (hstep : ∀ s s', I s → round s = .inl s' →
      I s' ∧ clock s < deadline ∧ clock s + δ ≤ clock s') {s : σ} (hs : I s) :
    Ends round s := by
  obtain ⟨n, hn⟩ := Archimedean.arch (deadline - clock s) hδ
  rw [sub_le_iff_le_add'] at hn
  -- At most `n` rounds go on.
  induction n generalizing s with
  | zero =>
    rw [zero_nsmul, add_zero] at hn
    cases hround : round s with
    | inl s' => exact absurd hn (not_le.mpr (hstep s s' hs hround).2.1)
    | inr r => exact ends_of_leaves hround
  | succ n ih =>
    cases hround : round s with
    | inl s' =>
      obtain ⟨hs', -, hclock⟩ := hstep s s' hs hround
      refine ends_of_goesOn hround (ih hs' ?_)
      calc deadline ≤ clock s + (n + 1) • δ := hn
        _ = clock s + δ + n • δ := by rw [succ_nsmul', add_assoc]
        _ ≤ clock s' + n • δ := add_le_add_left hclock _
    | inr r => exact ends_of_leaves hround

/-- **The rule of divergence.** -/
theorem run_eq_none_of_invariant (I : σ → Prop)
    (hstep : ∀ s, I s → ∃ s', round s = .inl s' ∧ I s')
    (fuel : ℕ) {s : σ} (hs : I s) : run round fuel s = none := by
  induction fuel generalizing s with
  | zero => rfl
  | succ fuel ih =>
    obtain ⟨s', hround, hs'⟩ := hstep s hs
    rw [run_goesOn hround]
    exact ih hs'

end WhileLoop
