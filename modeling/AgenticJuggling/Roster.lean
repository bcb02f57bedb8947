/-
Workers that are given to one job at a time.

A task that has found all the workers of its job idle gives the job to one
after the other, and strikes each off the idle list only after that.  Nothing
reserves the workers in between, so that whether a worker ever holds two jobs
depends on how the tasks and the idle list are used.

`Roster` says which workers are idle, which jobs each one holds and what every
task has still to do; `Orderly` steps are those in which no task takes a worker
that another job is about to be given, and no worker is put back on the idle
list while it holds a job.

* `Exclusive.step` — an orderly step keeps the roster exclusive;
* `Exclusive.alone` — in an exclusive roster a worker that is given a job holds
  no other.
-/
import Mathlib

/-- A task's hold on the workers of its job. -/
structure Claim (ν μ : Type*) where
  job : μ
  /-- The worker that was given the job last and is not yet off the idle list. -/
  pending : Option ν
  /-- The workers that are still to be given the job. -/
  rest : Set ν

structure Roster (ν μ τ : Type*) where
  idle : Set ν
  jobs : ν → Set μ
  claim : τ → Option (Claim ν μ)

variable {ν μ τ : Type*}

def Claim.Holds (c : Claim ν μ) (n : ν) : Prop := c.pending = some n ∨ n ∈ c.rest

namespace Roster

/-- Some task has given job `m` to worker `n` and will strike it off next. -/
def AboutToStrike (r : Roster ν μ τ) (n : ν) (m : μ) : Prop :=
  ∃ t c, r.claim t = some c ∧ c.job = m ∧ c.pending = some n

/-- **No worker is on its way to two jobs.** -/
structure Exclusive (r : Roster ν μ τ) : Prop where
  idle : ∀ n ∈ r.idle, ∀ m ∈ r.jobs n, r.AboutToStrike n m
  rest : ∀ t c, r.claim t = some c → ∀ n ∈ c.rest, ∀ m ∈ r.jobs n, m = c.job
  single : ∀ t t' c c', r.claim t = some c → r.claim t' = some c' →
    ∀ n, c.Holds n → c'.Holds n → c.job = c'.job

/-- Claims that are only worked off: a worker leaves `pending` when it is no
longer idle. -/
structure WorkedOff (r r' : Roster ν μ τ) : Prop where
  claim : ∀ t c', r'.claim t = some c' → ∃ c, r.claim t = some c ∧ c'.job = c.job ∧
    (c'.pending = c.pending ∨ c'.pending = none) ∧ c'.rest ⊆ c.rest
  pending : ∀ t c n, r.claim t = some c → c.pending = some n → n ∈ r'.idle →
    ∃ c', r'.claim t = some c' ∧ c'.job = c.job ∧ c'.pending = some n

/-- The steps that keep a roster exclusive. -/
inductive Orderly (r r' : Roster ν μ τ) : Prop
  /-- Nothing is added. -/
  | shrink (hidle : r'.idle ⊆ r.idle) (hjobs : ∀ n, r'.jobs n ⊆ r.jobs n) (hclaim : WorkedOff r r')
  /-- A task takes idle workers that no other job holds. -/
  | launch (t : τ) (m : μ) (ns : Set ν) (hidle : r'.idle = r.idle) (hjobs : r'.jobs = r.jobs)
      (hold : ∀ c, r.claim t = some c → c.pending = none)
      (hnew : r'.claim t = some ⟨m, none, ns⟩) (hother : ∀ t', t' ≠ t → r'.claim t' = r.claim t')
      (hready : ns ⊆ r.idle)
      (hfree : ∀ t' c, r.claim t' = some c → c.job ≠ m → ∀ n ∈ ns, ¬ c.Holds n)
  /-- A task strikes off its last worker and gives the job to another one. -/
  | give (t : τ) (c : Claim ν μ) (n : ν) (rest : Set ν) (hc : r.claim t = some c)
      (hidle : r'.idle ⊆ r.idle) (hstruck : ∀ k, c.pending = some k → k ∉ r'.idle)
      (hn : n ∈ c.rest) (hrest : rest ⊆ c.rest)
      (hjobs : ∀ k, ∀ m ∈ r'.jobs k, m ∈ r.jobs k ∨ (k = n ∧ m = c.job))
      (hnew : r'.claim t = some ⟨c.job, some n, rest⟩)
      (hother : ∀ t', t' ≠ t → r'.claim t' = r.claim t')
  /-- A worker is put back on the idle list. -/
  | ready (n : ν) (hidle : r'.idle ⊆ insert n r.idle) (hjobs : ∀ n, r'.jobs n ⊆ r.jobs n)
      (hclaim : r'.claim = r.claim) (hdone : ∀ m ∈ r.jobs n, r.AboutToStrike n m)

variable {r r' : Roster ν μ τ}

/-- Claims that are worked off hold no more than before. -/
theorem WorkedOff.holds (h : WorkedOff r r') {t : τ} {c' : Claim ν μ}
    (hc' : r'.claim t = some c') : ∃ c, r.claim t = some c ∧ c'.job = c.job ∧
      ∀ n, c'.Holds n → c.Holds n := by
  obtain ⟨c, hc, hjob, hpending, hrest⟩ := h.claim t c' hc'
  refine ⟨c, hc, hjob, fun n hn => ?_⟩
  rcases hn with hn | hn
  · rcases hpending with hp | hp
    · exact .inl (hp.symm.trans hn)
    · rw [hp] at hn
      cases hn
  · exact .inr (hrest hn)

theorem WorkedOff.of_eq (h : r'.claim = r.claim) : WorkedOff r r' where
  claim t c' hc' := ⟨c', by rw [← h, hc'], rfl, .inl rfl, subset_rfl⟩
  pending t c n hc hpending _ := ⟨c, by rw [h, hc], rfl, hpending⟩

/-- One task drops its claim, whose worker is struck off, or keeps it; the others
keep theirs. -/
theorem WorkedOff.of_own {t : τ} (hself : r'.claim t = none ∨ r'.claim t = r.claim t)
    (hother : ∀ t', t' ≠ t → r'.claim t' = r.claim t')
    (hstruck : r'.claim t = none → ∀ c n, r.claim t = some c → c.pending = some n → n ∉ r'.idle) :
    WorkedOff r r' := by
  have hsame : ∀ t', r'.claim t' ≠ none → r'.claim t' = r.claim t' := by
    intro t' hne
    by_cases ht : t' = t
    · subst ht
      exact hself.resolve_left hne
    · exact hother t' ht
  refine ⟨fun t' c' hc' => ?_, fun t' c n hc hpending hn => ?_⟩
  · refine ⟨c', ?_, rfl, .inl rfl, subset_rfl⟩
    rw [← hsame t' (by rw [hc']; exact Option.some_ne_none _)]
    exact hc'
  · refine ⟨c, ?_, rfl, hpending⟩
    rw [← hc]
    by_cases ht : t' = t
    · subst ht
      refine hself.resolve_left fun hnone => ?_
      exact hstruck hnone c n hc hpending hn
    · exact hother t' ht

theorem Exclusive.shrink (hr : r.Exclusive) (hidle : r'.idle ⊆ r.idle)
    (hjobs : ∀ n, r'.jobs n ⊆ r.jobs n) (hclaim : WorkedOff r r') : r'.Exclusive where
  idle n hn m hm := by
    obtain ⟨t, c, hc, hjob, hpending⟩ := hr.idle n (hidle hn) m (hjobs n hm)
    obtain ⟨c', hc', hjob', hpending'⟩ := hclaim.pending t c n hc hpending hn
    exact ⟨t, c', hc', hjob'.trans hjob, hpending'⟩
  rest t c' hc' n hn m hm := by
    obtain ⟨c, hc, hjob, -, hrest⟩ := hclaim.claim t c' hc'
    exact (hr.rest t c hc n (hrest hn) m (hjobs n hm)).trans hjob.symm
  single t t' c₁' c₂' h₁' h₂' n hn₁ hn₂ := by
    obtain ⟨c₁, h₁, hjob₁, hholds₁⟩ := hclaim.holds h₁'
    obtain ⟨c₂, h₂, hjob₂, hholds₂⟩ := hclaim.holds h₂'
    rw [hjob₁, hjob₂]
    exact hr.single t t' c₁ c₂ h₁ h₂ n (hholds₁ n hn₁) (hholds₂ n hn₂)

theorem Exclusive.launch [DecidableEq τ] (hr : r.Exclusive) {t : τ} {m : μ} {ns : Set ν}
    (hidle : r'.idle = r.idle) (hjobs : r'.jobs = r.jobs)
    (hold : ∀ c, r.claim t = some c → c.pending = none) (hnew : r'.claim t = some ⟨m, none, ns⟩)
    (hother : ∀ t', t' ≠ t → r'.claim t' = r.claim t') (hready : ns ⊆ r.idle)
    (hfree : ∀ t' c, r.claim t' = some c → c.job ≠ m → ∀ n ∈ ns, ¬ c.Holds n) :
    r'.Exclusive := by
  -- A claim of the new roster is the new one or an old one of another task.
  have hcases : ∀ t' c, r'.claim t' = some c →
      c = ⟨m, none, ns⟩ ∨ r.claim t' = some c := by
    intro t' c hc
    by_cases ht : t' = t
    · rw [ht, hnew, Option.some_inj] at hc
      exact .inl hc.symm
    · rw [hother t' ht] at hc
      exact .inr hc
  have hshared : ∀ t' c, r.claim t' = some c → ∀ n ∈ ns, c.Holds n → c.job = m := by
    intro t' c hc n hn hholds
    by_contra hjob
    exact hfree t' c hc hjob n hn hholds
  refine ⟨fun n hn m' hm => ?_, fun t' c hc n hn m' hm => ?_, fun t₁ t₂ c₁ c₂ h₁ h₂ n hn₁ hn₂ => ?_⟩
  · rw [hidle] at hn
    rw [hjobs] at hm
    obtain ⟨t', c, hc, hjob, hpending⟩ := hr.idle n hn m' hm
    have ht : t' ≠ t := by
      rintro rfl
      rw [hold c hc] at hpending
      cases hpending
    exact ⟨t', c, (hother t' ht).trans hc, hjob, hpending⟩
  · rw [hjobs] at hm
    rcases hcases t' c hc with rfl | hc
    · -- The workers are idle, so a job one of them holds is about to strike it off.
      obtain ⟨t'', c'', hc'', hjob, hpending⟩ := hr.idle n (hready hn) m' hm
      rw [← hjob]
      exact hshared t'' c'' hc'' n hn (.inl hpending)
    · exact hr.rest t' c hc n hn m' hm
  · have hnone : ∀ {n : ν}, (⟨m, none, ns⟩ : Claim ν μ).Holds n → n ∈ ns := by
      rintro n (h | h)
      · cases h
      · exact h
    rcases hcases t₁ c₁ h₁ with rfl | h₁
    · rcases hcases t₂ c₂ h₂ with rfl | h₂
      · rfl
      · exact (hshared t₂ c₂ h₂ n (hnone hn₁) hn₂).symm
    · rcases hcases t₂ c₂ h₂ with rfl | h₂
      · exact hshared t₁ c₁ h₁ n (hnone hn₂) hn₁
      · exact hr.single t₁ t₂ c₁ c₂ h₁ h₂ n hn₁ hn₂

/-- **A worker that a task is to give its job to holds no other.** -/
theorem Exclusive.alone (hr : r.Exclusive) {t : τ} {c : Claim ν μ} (hc : r.claim t = some c)
    {n : ν} (hn : n ∈ c.rest) {m : μ} (hm : m ∈ r.jobs n) : m = c.job :=
  hr.rest t c hc n hn m hm

theorem Exclusive.give [DecidableEq τ] (hr : r.Exclusive) {t : τ} {c : Claim ν μ} {n : ν}
    {rest : Set ν} (hc : r.claim t = some c) (hidle : r'.idle ⊆ r.idle)
    (hstruck : ∀ k, c.pending = some k → k ∉ r'.idle) (hn : n ∈ c.rest) (hrest : rest ⊆ c.rest)
    (hjobs : ∀ k, ∀ m ∈ r'.jobs k, m ∈ r.jobs k ∨ (k = n ∧ m = c.job))
    (hnew : r'.claim t = some ⟨c.job, some n, rest⟩)
    (hother : ∀ t', t' ≠ t → r'.claim t' = r.claim t') : r'.Exclusive := by
  -- Every claim of the new roster is one of the old roster, with no more to hold.
  have hcases : ∀ t' c', r'.claim t' = some c' → ∃ d, r.claim t' = some d ∧ c'.job = d.job ∧
      c'.rest ⊆ d.rest ∧ ∀ k, c'.Holds k → d.Holds k := by
    intro t' c' hc'
    by_cases ht : t' = t
    · rw [ht, hnew, Option.some_inj] at hc'
      subst hc'
      refine ⟨c, ht ▸ hc, rfl, hrest, fun k hk => .inr ?_⟩
      rcases hk with hk | hk
      · exact Option.some.inj hk ▸ hn
      · exact hrest hk
    · rw [hother t' ht] at hc'
      exact ⟨c', hc', rfl, subset_rfl, fun k hk => hk⟩
  refine ⟨fun k hk m hm => ?_, fun t' c' hc' k hk m hm => ?_, fun t₁ t₂ c₁ c₂ h₁ h₂ k hk₁ hk₂ => ?_⟩
  · rcases hjobs k m hm with hm | ⟨rfl, rfl⟩
    · obtain ⟨t', d, hd, hjob, hpending⟩ := hr.idle k (hidle hk) m hm
      have ht : t' ≠ t := by
        rintro rfl
        obtain rfl : c = d := Option.some.inj (hc.symm.trans hd)
        exact hstruck k hpending hk
      exact ⟨t', d, (hother t' ht).trans hd, hjob, hpending⟩
    · exact ⟨t, _, hnew, rfl, rfl⟩
  · obtain ⟨d, hd, hjob, hsub, -⟩ := hcases t' c' hc'
    rw [hjob]
    rcases hjobs k m hm with hm | ⟨rfl, rfl⟩
    · exact hr.rest t' d hd k (hsub hk) m hm
    · exact hr.single t t' c d hc hd k (.inr hn) (.inr (hsub hk))
  · obtain ⟨d₁, hd₁, hjob₁, -, hholds₁⟩ := hcases t₁ c₁ h₁
    obtain ⟨d₂, hd₂, hjob₂, -, hholds₂⟩ := hcases t₂ c₂ h₂
    rw [hjob₁, hjob₂]
    exact hr.single t₁ t₂ d₁ d₂ hd₁ hd₂ k (hholds₁ k hk₁) (hholds₂ k hk₂)

theorem Exclusive.ready (hr : r.Exclusive) {n : ν} (hidle : r'.idle ⊆ insert n r.idle)
    (hjobs : ∀ n, r'.jobs n ⊆ r.jobs n) (hclaim : r'.claim = r.claim)
    (hdone : ∀ m ∈ r.jobs n, r.AboutToStrike n m) : r'.Exclusive where
  idle k hk m hm := by
    have hstrike : r.AboutToStrike k m := by
      rcases hidle hk with rfl | hk
      · exact hdone m (hjobs k hm)
      · exact hr.idle k hk m (hjobs k hm)
    obtain ⟨t, c, hc, hjob, hpending⟩ := hstrike
    exact ⟨t, c, by rw [hclaim, hc], hjob, hpending⟩
  rest t c hc k hk m hm := by
    rw [hclaim] at hc
    exact hr.rest t c hc k hk m (hjobs k hm)
  single t t' c c' hc hc' := by
    rw [hclaim] at hc hc'
    exact hr.single t t' c c' hc hc'

/-- **An orderly step keeps a roster exclusive.** -/
theorem Exclusive.step [DecidableEq τ] (hr : r.Exclusive) (h : Orderly r r') : r'.Exclusive := by
  cases h with
  | shrink hidle hjobs hclaim => exact hr.shrink hidle hjobs hclaim
  | launch t m ns hidle hjobs hold hnew hother hready hfree =>
    exact hr.launch hidle hjobs hold hnew hother hready hfree
  | give t c n rest hc hidle hstruck hn hrest hjobs hnew hother =>
    exact hr.give hc hidle hstruck hn hrest hjobs hnew hother
  | ready n hidle hjobs hclaim hdone => exact hr.ready hidle hjobs hclaim hdone

end Roster
