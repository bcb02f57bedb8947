/-
Runs of a partial step function, and the rules for reasoning about them.

`run step s as` performs the labels `as` one after the other, failing as soon
as one of them is not enabled.  A run is *guarded* by a condition `C` when `C`
holds of every state and label at which it takes a step.

* `invariant_of_run` — an inductive invariant holds at the end of every run;
* `invariant_of_guarded` — the same along the runs guarded by a condition that
  the inductive step may use;
* `Guarded.of_append`, `run_append` — runs and guards split at any point;
* `invariant_of_guarded_observed` — an invariant that also speaks of what was
  seen of the run so far;
* `countP_observed_le` — what a run spends is bounded by its stock and its income;
* `Projection.run` — what is observed of a run is a run of another system, up to
  a relabelling that grows with the run;
* `past_append` — what holds of every entry of a growing history and of the
  entries before it.
-/
import Mathlib

namespace Transition

variable {σ α : Type*}

/-- Perform the labels in order; `none` as soon as one is not enabled. -/
def run (step : σ → α → Option σ) : σ → List α → Option σ
  | s, [] => some s
  | s, a :: as => (step s a).bind fun s' => run step s' as

/-- `C` holds wherever the run from `s` along the labels takes a step. -/
def Guarded (step : σ → α → Option σ) (C : σ → α → Prop) : σ → List α → Prop
  | _, [] => True
  | s, a :: as => C s a ∧ ∀ s', step s a = some s' → Guarded step C s' as

/-- Whether a run is guarded can be computed. -/
instance Guarded.decidable {step : σ → α → Option σ} {C : σ → α → Prop}
    [∀ s a, Decidable (C s a)] : ∀ s as, Decidable (Guarded step C s as)
  | _, [] => .isTrue trivial
  | s, a :: as =>
    have : Decidable (∀ s', step s a = some s' → Guarded step C s' as) :=
      match step s a with
      | none => .isTrue fun _ h' => nomatch h'
      | some t =>
        match Guarded.decidable t as with
        | .isTrue ht => .isTrue fun _ h' => Option.some.inj h' ▸ ht
        | .isFalse ht => .isFalse fun h' => ht (h' t rfl)
    inferInstanceAs (Decidable (C s a ∧ ∀ s', step s a = some s' → Guarded step C s' as))

variable {step : σ → α → Option σ} {C : σ → α → Prop}

@[simp] theorem run_nil (s : σ) : run step s [] = some s := rfl

theorem run_cons_eq_some {s s' : σ} {a : α} {as : List α} :
    run step s (a :: as) = some s' ↔
      ∃ t, step s a = some t ∧ run step t as = some s' := by
  rw [run, Option.bind_eq_some_iff]

theorem run_append (s : σ) (as bs : List α) :
    run step s (as ++ bs) = (run step s as).bind fun t => run step t bs := by
  induction as generalizing s with
  | nil => rfl
  | cons a as ih =>
    rw [List.cons_append, run, run, Option.bind_assoc]
    congr 1
    funext t
    exact ih t

theorem run_append_eq_some {s s' : σ} {as bs : List α} :
    run step s (as ++ bs) = some s' ↔
      ∃ t, run step s as = some t ∧ run step t bs = some s' := by
  rw [run_append, Option.bind_eq_some_iff]

theorem Guarded.mono {D : σ → α → Prop} (h : ∀ s a, C s a → D s a) :
    ∀ {as : List α} {s : σ}, Guarded step C s as → Guarded step D s as := by
  intro as
  induction as with
  | nil => exact fun _ => trivial
  | cons a as ih => exact fun hg => ⟨h _ _ hg.1, fun t ht => ih (hg.2 t ht)⟩

theorem Guarded.and {D : σ → α → Prop} : ∀ {as : List α} {s : σ}, Guarded step C s as →
    Guarded step D s as → Guarded step (fun s a => C s a ∧ D s a) s as := by
  intro as
  induction as with
  | nil => exact fun _ _ => trivial
  | cons a as ih => exact fun hc hd => ⟨⟨hc.1, hd.1⟩, fun t ht => ih (hc.2 t ht) (hd.2 t ht)⟩

/-- A guarded run splits into two guarded runs. -/
theorem Guarded.of_append {as bs : List α} :
    ∀ {s : σ}, Guarded step C s (as ++ bs) →
      Guarded step C s as ∧ ∀ t, run step s as = some t → Guarded step C t bs := by
  induction as with
  | nil =>
    intro s h
    refine ⟨trivial, fun t ht => ?_⟩
    rw [run_nil, Option.some_inj] at ht
    exact ht ▸ h
  | cons a as ih =>
    intro s h
    refine ⟨⟨h.1, fun t ht => (ih (h.2 t ht)).1⟩, fun t ht => ?_⟩
    obtain ⟨u, hu, ht⟩ := run_cons_eq_some.mp ht
    exact (ih (h.2 u hu)).2 t ht

/-- **The invariant rule for guarded runs.** -/
theorem invariant_of_guarded {I : σ → Prop}
    (hstep : ∀ s a s', I s → C s a → step s a = some s' → I s') :
    ∀ {as : List α} {s s' : σ}, I s → Guarded step C s as →
      run step s as = some s' → I s' := by
  intro as
  induction as with
  | nil =>
    intro s s' h0 _ hr
    rw [run_nil, Option.some_inj] at hr
    exact hr ▸ h0
  | cons a as ih =>
    intro s s' h0 hg hr
    obtain ⟨t, ht, hr⟩ := run_cons_eq_some.mp hr
    exact ih (hstep s a t h0 hg.1 ht) (hg.2 t ht) hr

/-- What an invariant and a guard give at every step. -/
theorem Guarded.of_invariant {I : σ → Prop} {D : σ → α → Prop}
    (hstep : ∀ s a s', I s → C s a → step s a = some s' → I s')
    (h : ∀ s a, I s → C s a → D s a) :
    ∀ {as : List α} {s : σ}, I s → Guarded step C s as → Guarded step D s as := by
  intro as
  induction as with
  | nil => exact fun _ _ => trivial
  | cons a as ih =>
    intro s h0 hg
    exact ⟨h s a h0 hg.1, fun t ht => ih (hstep s a t h0 hg.1 ht) (hg.2 t ht)⟩

/-- A condition on the labels guards every run along labels that meet it. -/
theorem guarded_of_forall {D : α → Prop} {as : List α} (h : ∀ a ∈ as, D a) :
    ∀ s, Guarded step (fun _ a => D a) s as := by
  induction as with
  | nil => exact fun s => trivial
  | cons a as ih =>
    exact fun s => ⟨h a List.mem_cons_self, fun t _ =>
      ih (fun b hb => h b (List.mem_cons_of_mem _ hb)) t⟩

theorem guarded_true (s : σ) (as : List α) :
    Guarded step (fun _ _ => True) s as :=
  guarded_of_forall (fun _ _ => trivial) s

/-- The invariant rule for all runs. -/
theorem invariant_of_run {I : σ → Prop}
    (hstep : ∀ s a s', I s → step s a = some s' → I s')
    {as : List α} {s s' : σ} (h0 : I s) (hr : run step s as = some s') : I s' :=
  invariant_of_guarded (fun s a s' h _ => hstep s a s' h) h0 (guarded_true s as) hr

/-! ### Observations -/

section Observations

variable {β : Type*}

/-- What `obs` sees of the steps of a run, in order. -/
def observed (step : σ → α → Option σ) (obs : σ → α → List β) : σ → List α → List β
  | _, [] => []
  | s, a :: as =>
    match step s a with
    | none => []
    | some t => obs s a ++ observed step obs t as

theorem observed_append {obs : σ → α → List β} {as bs : List α} : ∀ {s t : σ},
    run step s as = some t →
      observed step obs s (as ++ bs) = observed step obs s as ++ observed step obs t bs := by
  induction as with
  | nil =>
    intro s t h
    rw [run_nil, Option.some_inj] at h
    exact h ▸ rfl
  | cons a as ih =>
    intro s t h
    obtain ⟨u, hu, h⟩ := run_cons_eq_some.mp h
    simp only [List.cons_append, observed, hu]
    rw [ih h, List.append_assoc]

/-- **The invariant rule with a history**: along guarded runs the invariant may
speak of all that has been seen so far. -/
theorem invariant_of_guarded_observed {obs : σ → α → List β} {I : σ → List β → Prop}
    (hstep : ∀ s seen a s', I s seen → C s a → step s a = some s' → I s' (seen ++ obs s a)) :
    ∀ {as : List α} {s s' : σ} {seen : List β}, I s seen → Guarded step C s as →
      run step s as = some s' → I s' (seen ++ observed step obs s as) := by
  intro as
  induction as with
  | nil =>
    intro s s' seen h0 _ hr
    rw [run_nil, Option.some_inj] at hr
    rw [observed, List.append_nil]
    exact hr ▸ h0
  | cons a as ih =>
    intro s s' seen h0 hg hr
    obtain ⟨t, ht, hr⟩ := run_cons_eq_some.mp hr
    have h := ih (hstep s seen a t h0 hg.1 ht) (hg.2 t ht) hr
    rw [List.append_assoc] at h
    rw [observed, ht]
    exact h

/-- The same along all runs. -/
theorem invariant_of_observed {obs : σ → α → List β} {I : σ → List β → Prop}
    (hstep : ∀ s seen a s', I s seen → step s a = some s' → I s' (seen ++ obs s a))
    {as : List α} {s s' : σ} {seen : List β} (h0 : I s seen) (hr : run step s as = some s') :
    I s' (seen ++ observed step obs s as) :=
  invariant_of_guarded_observed (fun s seen a s' h _ => hstep s seen a s' h) h0
    (guarded_true s as) hr

/-- **The ledger rule.**  If what a step spends is covered by what its stock loses and
by what comes in, a run spends no more than it had and has been given. -/
theorem countP_observed_le {obs : σ → α → List β} {spent : β → Bool} {I : σ → Prop}
    {stock income : σ → ℕ} (hkeep : ∀ s a s', I s → step s a = some s' → I s')
    (hstep : ∀ s a s', I s → step s a = some s' →
      (obs s a).countP spent + stock s' + income s ≤ stock s + income s')
    {as : List α} {s s' : σ} (h0 : I s) (hr : run step s as = some s') :
    (observed step obs s as).countP spent + stock s' + income s ≤ stock s + income s' := by
  have hledger : I s' ∧ ([] ++ observed step obs s as).countP spent + stock s' + income s ≤
      stock s + income s' := by
    refine invariant_of_observed
      (I := fun t seen => I t ∧ seen.countP spent + stock t + income s ≤ stock s + income t)
      (fun t seen a t' h ht => ⟨hkeep t a t' h.1 ht, ?_⟩) ⟨h0, by simp⟩ hr
    have hspent := hstep t a t' h.1 ht
    have hbefore := h.2
    rw [List.countP_append]
    omega
  rw [List.nil_append] at hledger
  exact hledger.2

end Observations

/-! ### Projections -/

section Projections

variable {β ε ι τ γ : Type*}

/-- Runs of `step` project to runs of `step'`: a guarded step is answered by
performing what `obs` sees of it, with the same output.  `label i` translates the
labels; `grows s i j` says that `j` translates all that can be named in `s` as `i`
does. -/
structure Projection (step : σ → α → Option σ) (C : σ → α → Prop) (step' : τ → γ → Option τ)
    (obs : σ → α → List β) (label : ι → β → γ) (out : σ → α → List ε) (out' : τ → γ → List ε)
    (grows : σ → ι → ι → Prop) (R : ι → σ → τ → Prop) : Prop where
  refl : ∀ s i, grows s i i
  trans : ∀ s a s' i j k, step s a = some s' → grows s i j → grows s' j k → grows s i k
  labels : ∀ i s t a s' j k, R i s t → step s a = some s' → grows s' j k →
    ∀ b ∈ obs s a, label k b = label j b
  answer : ∀ i s t a s', R i s t → C s a → step s a = some s' → ∃ j t', grows s i j ∧
    run step' t ((obs s a).map (label j)) = some t' ∧
    observed step' out' t ((obs s a).map (label j)) = out s a ∧ R j s' t'

/-- **The projection rule.** -/
theorem Projection.run {step' : τ → γ → Option τ} {obs : σ → α → List β} {label : ι → β → γ}
    {out : σ → α → List ε} {out' : τ → γ → List ε} {grows : σ → ι → ι → Prop}
    {R : ι → σ → τ → Prop}
    (hp : Projection step C step' obs label out out' grows R) :
    ∀ {as : List α} {i : ι} {s s' : σ} {t : τ}, R i s t → Guarded step C s as →
      run step s as = some s' → ∃ j t', grows s i j ∧
        run step' t ((observed step obs s as).map (label j)) = some t' ∧
        observed step' out' t ((observed step obs s as).map (label j)) = observed step out s as ∧
        R j s' t' := by
  intro as
  induction as with
  | nil =>
    intro i s s' t hR _ hr
    rw [run_nil, Option.some_inj] at hr
    exact ⟨i, t, hp.refl s i, rfl, rfl, hr ▸ hR⟩
  | cons a as ih =>
    intro i s s' t hR hg hr
    obtain ⟨u, hu, hr⟩ := run_cons_eq_some.mp hr
    obtain ⟨j, v, hij, hv, hout, hR'⟩ := hp.answer i s t a u hR hg.1 hu
    obtain ⟨k, t', hjk, ht', hout', hR''⟩ := ih hR' (hg.2 u hu) hr
    refine ⟨k, t', hp.trans s a u i j k hu hij hjk, ?_, ?_, hR''⟩
    all_goals
      simp only [observed, hu, List.map_append]
      -- The first labels are translated as they were when they were performed.
      rw [List.map_congr_left (hp.labels i s t a u j k hR hu hjk)]
    · exact run_append_eq_some.mpr ⟨v, hv, ht'⟩
    · rw [observed_append hv, hout, hout']

end Projections

/-! ### Histories -/

section Histories

variable {ε : Type*} {Q R : List ε → ε → Prop}

/-- `Q` holds of every entry of the history, given the entries before it. -/
def Past (Q : List ε → ε → Prop) (history : List ε) : Prop :=
  ∀ pre e post, history = pre ++ e :: post → Q pre e

theorem past_nil : Past Q [] := by
  intro pre e post h
  simp at h

theorem Past.mono (h : ∀ pre e, Q pre e → R pre e) {history : List ε} (hp : Past Q history) :
    Past R history :=
  fun pre e post heq => h pre e (hp pre e post heq)

/-- A history that grows by `es`. -/
theorem past_append {history es : List ε} : Past Q (history ++ es) ↔
    Past Q history ∧ Past (fun pre e => Q (history ++ pre) e) es := by
  constructor
  · intro h
    refine ⟨fun pre e post heq => h pre e (post ++ es) ?_, fun pre e post heq =>
      h (history ++ pre) e post ?_⟩
    · rw [heq, List.append_assoc, List.cons_append]
    · rw [heq, List.append_assoc]
  · rintro ⟨hold, hnew⟩ pre e post heq
    rcases List.append_eq_append_iff.mp heq with ⟨mid, hpre, hes⟩ | ⟨mid, hhistory, hpost⟩
    · rw [hpre]
      exact hnew mid e post hes
    · -- The entry is an old one, or the first of the new ones.
      cases mid with
      | nil =>
        rw [List.append_nil] at hhistory
        rw [← hhistory, ← List.append_nil history]
        exact hnew [] e post hpost.symm
      | cons x mid =>
        obtain ⟨rfl, -⟩ := List.cons.inj hpost
        exact hold pre e mid hhistory

end Histories

end Transition
