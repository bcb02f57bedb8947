/-
What overlapping starts and stops of one match can and cannot do.

The lifecycle invariants, carried over to the runs of the server by
`Sys.step_view`.  Each result comes with the condition on the steps of a run
under which it holds and a run that violates it without:

* `row_follows_lifecycle` — the states written to a row follow the lifecycle
  if no `start` reads `LOBBY` while another has read it and not yet written,
  and no `stop` writes `FINISHED` while a `start` has a row write to come;
* `finished_stays_closed` — a finished match has no key and gets no `START` if
  no `stop` writes `FINISHED` while a `start` is on its way to the key;
* `start_is_single` — at most one `start` gets past the gate, `t0` is written
  once and every `START` carries it if no `start` reads `LOBBY` while another
  has read it and not yet written.
-/
import AgenticJuggling.Simulation

open Transition Lifecycle

namespace Sys

variable {P : Platform} {m : MatchId} {tokens : Dict NodeId String}
  {rows : Dict MatchId MatchRecord} {metrics : MetricsStore}

/-- The states the server wrote to the row of a match, in order. -/
def rowStates (s : Sys) (m : MatchId) : List MatchState := states (s.view m).history

/-- The start times the server wrote to the row of a match, in order. -/
def t0sWritten (s : Sys) (m : MatchId) : List ℚ := startTimes (s.view m).history

/-- The `START` packets the server sent for a match, in order. -/
def startsSent (s : Sys) (m : MatchId) : List Happening := starts (s.view m).history

theorem boot_phase {tid : TaskId} : ((boot tokens rows metrics).view m).phase tid = .idle := rfl

theorem boot_history : ((boot tokens rows metrics).view m).history = [] := rfl

theorem Fresh.phase_eq_idle {s : Sys} (hs : s.Fresh) {tid : TaskId} (h : s.next ≤ tid) :
    (s.view m).phase tid = .idle := by
  simp only [view, hs tid h]

/-- What holds of the phases of all tasks up to `next` holds of all tasks. -/
theorem Fresh.forall_phase {s : Sys} (hs : s.Fresh) {p : Phase → Prop} (hidle : p .idle)
    (h : ∀ tid < s.next, p ((s.view m).phase tid)) : ∀ tid, p ((s.view m).phase tid) := by
  intro tid
  rcases Nat.lt_or_ge tid s.next with hlt | hge
  · exact h tid hlt
  · rw [hs.phase_eq_idle hge]
    exact hidle

/-! ### The row follows the lifecycle -/

/-- No `start` reads `LOBBY` while another has read it and not yet written. -/
def GateGuard (m : MatchId) (s : Sys) (a : Act) : Prop :=
  s.readsLobby m a = true → ∀ tid < s.next, (s.view m).phase tid ≠ .gated

/-- No `stop` writes `FINISHED` while a `start` has a row write to come. -/
def CloseGuard (m : MatchId) (s : Sys) (a : Act) : Prop :=
  s.aboutToFinish m a = true → ∀ tid < s.next, ((s.view m).phase tid).racing = false

instance (s : Sys) (a : Act) : Decidable (GateGuard m s a) :=
  inferInstanceAs (Decidable (_ → _))

instance (s : Sys) (a : Act) : Decidable (CloseGuard m s a) :=
  inferInstanceAs (Decidable (_ → _))

theorem GateGuard.clear {s : Sys} {a : Act} {l : Label} (h : GateGuard m s a) (hs : s.Fresh)
    (hl : l = .gate → s.readsLobby m a = true) : GateClear l (s.view m) :=
  fun hgate => hs.forall_phase (p := fun p => p ≠ .gated) (by simp) (h (hl hgate))

theorem CloseGuard.clear {s : Sys} {a : Act} {l : Label} (h : CloseGuard m s a) (hs : s.Fresh)
    (hl : l = .close → s.aboutToFinish m a = true) : CloseClear l (s.view m) :=
  fun hclose => hs.forall_phase (p := fun p => p.racing = false) rfl (h (hl hclose))

/-- No write follows `FINISHED` except `FINISHED`. -/
def Absorbing (l : List MatchState) : Prop :=
  l.Pairwise fun a b => a = .finished → b = .finished

theorem absorbing_of_isChain {l : List MatchState} (h : l.IsChain Edge) : Absorbing l := by
  have hedge : ∀ a b, Edge a b → a = .finished → b = .finished := by
    intro a b hab ha
    subst ha
    cases b with
    | finished => rfl
    | lobby => exact hab.elim
    | starting => exact hab.elim
    | running => exact hab.elim
  have : IsTrans MatchState fun a b => a = .finished → b = .finished :=
    ⟨fun a b c hab hbc ha => hbc (hab ha)⟩
  exact List.isChain_iff_pairwise.mp (h.imp hedge)

theorem ordered_boot : Ordered ((rows m).map MatchRecord.state) ((boot tokens rows metrics).view m) := by
  refine ⟨fun tid tid' h => ?_, fun tid h => ?_, ?_, ?_⟩
  · rw [boot_phase] at h
    cases h
  · rw [boot_phase] at h
    cases h
  · show (((rows m).map MatchRecord.state).toList ++ []).getLast? = (rows m).map MatchRecord.state
    cases rows m with
    | none => rfl
    | some row => rfl
  · show (((rows m).map MatchRecord.state).toList ++ []).IsChain Edge
    cases rows m with
    | none => exact List.IsChain.nil
    | some row => exact List.isChain_singleton _

/-- **The row of a match follows the lifecycle** in every run in which the
starts and stops of the match keep out of each other's way. -/
theorem row_follows_lifecycle {acts : List Act} {s : Sys}
    (hrun : run (step P) (boot tokens rows metrics) acts = some s)
    (hguard : Guarded (step P) (fun s a => GateGuard m s a ∧ CloseGuard m s a)
      (boot tokens rows metrics) acts) :
    (((rows m).map MatchRecord.state).toList ++ s.rowStates m).IsChain Edge ∧
      Absorbing (((rows m).map MatchRecord.state).toList ++ s.rowStates m) := by
  have hinv : s.Fresh ∧ Ordered ((rows m).map MatchRecord.state) (s.view m) := by
    refine invariant_of_guarded
      (I := fun s => s.Fresh ∧ Ordered ((rows m).map MatchRecord.state) (s.view m))
      (fun s a s' ⟨hfresh, hord⟩ ⟨hgate, hclose⟩ hstep => ⟨hfresh.step hstep, ?_⟩)
      ⟨fresh_boot _ _ _, ordered_boot⟩ hguard hrun
    obtain ⟨l, hview, hlg, hlc⟩ := step_view m hstep
    exact hord.step (hgate.clear hfresh hlg) (hclose.clear hfresh hlc) hview
  exact ⟨hinv.2.chain, absorbing_of_isChain hinv.2.chain⟩

open Sample in
/-- Node `n` registers, and `m` is started and later stopped. -/
def startThenStop : List Act :=
  [register "n" [1], .call (.start "m" 30), .call (.stop "m")] ++ runs 0 1 0 ++ runs 1 7 5 ++
    runs 2 5 9

theorem row_follows_lifecycle_startThenStop : ∃ s,
    run (step Sample.platform) (Sample.boot [("m", ["n"])]) startThenStop = some s ∧
      s.rowStates "m" = [.starting, .running, .finished] ∧
      ([MatchState.lobby] ++ s.rowStates "m").IsChain Edge := by
  obtain ⟨s, hs, hstates⟩ := Option.map_eq_some_iff.mp
    (show (run (step Sample.platform) (Sample.boot [("m", ["n"])]) startThenStop).map
      (fun s => s.rowStates "m") = some [.starting, .running, .finished] by decide +kernel)
  exact ⟨s, hs, hstates, (row_follows_lifecycle (m := "m") hs (by decide +kernel)).1⟩

open Sample in
/-- A `stop` of `m` that runs to its end after the `start` has written
`STARTING` and before it polls. -/
def stopDuringStart : List Act :=
  [register "n" [1], .call (.start "m" 30), .call (.stop "m")] ++ runs 0 1 0 ++ runs 1 2 5 ++
    runs 2 5 5 ++ runs 1 2 5

/-- The `start` moves a finished match back to `RUNNING`. -/
theorem row_leaves_finished : ∃ acts s,
    run (step Sample.platform) (Sample.boot [("m", ["n"])]) acts = some s ∧
      s.rowStates "m" = [.starting, .finished, .running] ∧
      ¬ ([MatchState.lobby] ++ s.rowStates "m").IsChain Edge := by
  obtain ⟨s, hs, hstates⟩ := Option.map_eq_some_iff.mp
    (show (run (step Sample.platform) (Sample.boot [("m", ["n"])]) stopDuringStart).map
      (fun s => s.rowStates "m") = some [.starting, .finished, .running] by decide +kernel)
  exact ⟨_, s, hs, hstates, by rw [hstates]; decide⟩

/-! ### A finished match stays finished -/

/-- No `stop` writes `FINISHED` while a `start` is on its way to the key. -/
def KeyGuard (m : MatchId) (s : Sys) (a : Act) : Prop :=
  s.aboutToFinish m a = true → ∀ tid < s.next, ((s.view m).phase tid).beforeKey = false

instance (s : Sys) (a : Act) : Decidable (KeyGuard m s a) :=
  inferInstanceAs (Decidable (_ → _))

theorem KeyGuard.clear {s : Sys} {a : Act} {l : Label} (h : KeyGuard m s a) (hs : s.Fresh)
    (hl : l = .close → s.aboutToFinish m a = true) : KeyClear l (s.view m) :=
  fun hclose => hs.forall_phase (p := fun p => p.beforeKey = false) rfl (h (hl hclose))

/-- What holds once `FINISHED` has been written, along guarded runs. -/
theorem closed_of_finished {acts : List Act} {s : Sys}
    (hrun : run (step P) (boot tokens rows metrics) acts = some s)
    (hguard : Guarded (step P) (KeyGuard m) (boot tokens rows metrics) acts) :
    ∀ t, .wrote .finished t ∈ (s.view m).history → Closed (s.view m) := by
  have hinv : s.Fresh ∧ ∀ t, .wrote .finished t ∈ (s.view m).history → Closed (s.view m) := by
    refine invariant_of_guarded
      (I := fun s => s.Fresh ∧ ∀ t, .wrote .finished t ∈ (s.view m).history → Closed (s.view m))
      (fun s a s' ⟨hfresh, hclosed⟩ hkey hstep => ⟨hfresh.step hstep, ?_⟩)
      ⟨fresh_boot _ _ _, fun t h => ?_⟩ hguard hrun
    · rw [boot_history] at h
      cases h
    · obtain ⟨l, hview, -, hlc⟩ := step_view m hstep
      exact closed_step hclosed (hkey.clear hfresh hlc) hview
  exact hinv.2

/-- A closed match stays closed along every run. -/
theorem closed_run {s s' : Sys} {acts : List Act} (h : Closed (s.view m))
    (hrun : run (step P) s acts = some s') :
    Closed (s'.view m) ∧ s'.startsSent m = s.startsSent m := by
  refine invariant_of_run (I := fun s' => Closed (s'.view m) ∧ s'.startsSent m = s.startsSent m)
    (fun t a t' ⟨hclosed, hsent⟩ hstep => ?_) ⟨h, rfl⟩ hrun
  obtain ⟨l, hview, -, -⟩ := step_view m hstep
  obtain ⟨hclosed', hsent'⟩ := hclosed.step hview
  exact ⟨hclosed', hsent'.trans hsent⟩

/-- **A finished match stays finished**: once a `stop` has written `FINISHED`,
the server never again holds a key for the match nor sends a `START` for it. -/
theorem finished_stays_closed {as bs : List Act} {s s' : Sys}
    (hrun : run (step P) (boot tokens rows metrics) as = some s)
    (hfinished : .finished ∈ s.rowStates m) (hrun' : run (step P) s bs = some s')
    (hguard : Guarded (step P) (KeyGuard m) (boot tokens rows metrics) (as ++ bs)) :
    s'.server.store.stateOf m = some .finished ∧ s'.server.crypto.matchKeys m = none ∧
      s'.startsSent m = s.startsSent m := by
  obtain ⟨t, ht⟩ : ∃ t, .wrote .finished t ∈ (s.view m).history := by
    rw [rowStates, states, List.mem_filterMap] at hfinished
    obtain ⟨e, he, hstate⟩ := hfinished
    cases e with
    | started n t0 => cases hstate
    | wrote state t0 => exact ⟨t0, Option.some.inj hstate ▸ he⟩
  obtain ⟨hclosed, hsent⟩ := closed_run (closed_of_finished hrun hguard.of_append.1 t ht) hrun'
  exact ⟨hclosed.row, by simpa [view, Server.shared] using hclosed.key, hsent⟩

theorem finished_stays_closed_startThenStop : ∃ s s',
    run (step Sample.platform) (Sample.boot [("m", ["n"])]) startThenStop = some s ∧
      run (step Sample.platform) s (.call (.start "m" 30) :: Sample.runs 4 2 10) = some s' ∧
      s'.server.crypto.matchKeys "m" = none ∧ s'.startsSent "m" = s.startsSent "m" := by
  obtain ⟨s, hs, hstates⟩ := Option.map_eq_some_iff.mp
    (show (run (step Sample.platform) (Sample.boot [("m", ["n"])]) startThenStop).map
      (fun s => s.rowStates "m") = some [.starting, .running, .finished] by decide +kernel)
  obtain ⟨s', hs'⟩ := Option.isSome_iff_exists.mp
    (show (run (step Sample.platform) (Sample.boot [("m", ["n"])])
      (startThenStop ++ .call (.start "m" 30) :: Sample.runs 4 2 10)).isSome by decide +kernel)
  obtain ⟨t, ht, hs'⟩ := run_append_eq_some.mp hs'
  obtain rfl : s = t := Option.some.inj (hs.symm.trans ht)
  exact ⟨s, s', hs, hs', (finished_stays_closed (m := "m") hs (by rw [hstates]; decide) hs'
    (by decide +kernel)).2⟩

open Sample in
/-- A `stop` of `m` that runs to its end after the `start` has written
`RUNNING` and before it generates the key. -/
def stopBeforeKey : List Act :=
  [register "n" [1], .call (.start "m" 30), .call (.stop "m")] ++ runs 0 1 0 ++ runs 1 4 5 ++
    runs 2 5 5

/-- After the `stop` has returned, the `start` generates a key and sends the
`START`. -/
theorem finished_gets_key : ∃ s s',
    run (step Sample.platform) (Sample.boot [("m", ["n"])]) stopBeforeKey = some s ∧
      (s.tasks 2).bind (·.pc.outcome) = some .returned ∧ .finished ∈ s.rowStates "m" ∧
      run (step Sample.platform) s (Sample.runs 1 2 5) = some s' ∧
      s'.server.crypto.matchKeys "m" ≠ none ∧ s'.startsSent "m" ≠ s.startsSent "m" := by
  obtain ⟨s, hs, h⟩ := Option.map_eq_some_iff.mp
    (show (run (step Sample.platform) (Sample.boot [("m", ["n"])]) stopBeforeKey).map
      (fun s => ((s.tasks 2).bind (·.pc.outcome), s.rowStates "m", s.startsSent "m"))
        = some (some .returned, [.starting, .running, .finished], []) by decide +kernel)
  obtain ⟨s', hs', h'⟩ := Option.map_eq_some_iff.mp
    (show (run (step Sample.platform) (Sample.boot [("m", ["n"])])
      (stopBeforeKey ++ Sample.runs 1 2 5)).map
        (fun s => (s.server.crypto.matchKeys "m", s.startsSent "m"))
          = some (some [], [.started "n" 5]) by decide +kernel)
  obtain ⟨t, ht, hs'⟩ := run_append_eq_some.mp hs'
  obtain rfl : s = t := Option.some.inj (hs.symm.trans ht)
  obtain ⟨hdone, h⟩ := Prod.mk.inj h
  obtain ⟨hstates, hsent⟩ := Prod.mk.inj h
  obtain ⟨hkey, hsent'⟩ := Prod.mk.inj h'
  exact ⟨s, s', hs, hdone, by rw [hstates]; decide, hs', by rw [hkey]; simp,
    by rw [hsent, hsent']; decide⟩

/-! ### One start, one start time -/

/-- No write follows `RUNNING` except `FINISHED`. -/
def Settled (l : List MatchState) : Prop :=
  l.Pairwise fun a b => a = .running → b = .finished

theorem settled_of_later {h : List Happening} (hlater : h.Pairwise Absorbs) :
    Settled (states h) := by
  rw [Settled, states, List.pairwise_filterMap]
  refine hlater.imp fun {e e'} habs a ha b hb hra => ?_
  cases e with
  | started n t0 => cases ha
  | wrote state t =>
    cases e' with
    | started n t0 => cases hb
    | wrote state' t' =>
      obtain rfl : state = a := Option.some.inj ha
      obtain rfl : state' = b := Option.some.inj hb
      exact habs t state' t' (by rw [hra]) rfl

theorem single_boot : Single ((boot tokens rows metrics).view m) where
  unique _ _ h := absurd boot_phase h
  row tid st h := by rw [boot_phase] at h; cases h
  launched tid t0 h := by rw [boot_phase] at h; cases h
  settled h := absurd rfl h
  time t0 h := by rw [boot_history] at h; cases h
  once := Nat.zero_le 1
  carried n t0 h := by rw [boot_history] at h; cases h
  running t h := by rw [boot_history] at h; cases h
  later := List.Pairwise.nil

/-- **At most one `start` gets past the gate**, the start time is written at
most once, every `START` carries the one in the row, and once the row says
`RUNNING` only `FINISHED` is written to it. -/
theorem start_is_single {acts : List Act} {s : Sys}
    (hrun : run (step P) (boot tokens rows metrics) acts = some s)
    (hguard : Guarded (step P) (GateGuard m) (boot tokens rows metrics) acts) :
    (∀ tid tid', (s.view m).phase tid ≠ .idle → (s.view m).phase tid' ≠ .idle → tid = tid') ∧
      (s.t0sWritten m).length ≤ 1 ∧
      (∀ n t0, .started n t0 ∈ s.startsSent m → s.server.store.t0Of m = some t0) ∧
      Settled (s.rowStates m) := by
  have hinv : s.Fresh ∧ Single (s.view m) := by
    refine invariant_of_guarded (I := fun s => s.Fresh ∧ Single (s.view m))
      (fun s a s' ⟨hfresh, hsingle⟩ hgate hstep => ⟨hfresh.step hstep, ?_⟩)
      ⟨fresh_boot _ _ _, single_boot⟩ hguard hrun
    obtain ⟨l, hview, hlg, -⟩ := step_view m hstep
    exact hsingle.step (hgate.clear hfresh hlg) hview
  obtain ⟨-, hsingle⟩ := hinv
  refine ⟨hsingle.unique, hsingle.once, fun n t0 hmem => ?_, settled_of_later hsingle.later⟩
  have htimes := hsingle.carried n t0 (List.mem_filter.mp hmem).1
  exact hsingle.time t0 (by rw [htimes]; exact List.mem_singleton.mpr rfl)

theorem start_is_single_startThenStop : ∃ s,
    run (step Sample.platform) (Sample.boot [("m", ["n"])]) startThenStop = some s ∧
      s.t0sWritten "m" = [5] ∧ s.startsSent "m" = [.started "n" 5] ∧
      Settled (s.rowStates "m") := by
  obtain ⟨s, hs, hsent⟩ := Option.map_eq_some_iff.mp
    (show (run (step Sample.platform) (Sample.boot [("m", ["n"])]) startThenStop).map
      (fun s => (s.t0sWritten "m", s.startsSent "m")) = some ([5], [.started "n" 5]) by
        decide +kernel)
  obtain ⟨ht0s, hsent⟩ := Prod.mk.inj hsent
  exact ⟨s, hs, ht0s, hsent, (start_is_single (m := "m") hs (by decide +kernel)).2.2.2⟩

open Sample in
/-- Two starts of `m` read `LOBBY` and go on one after the other. -/
def twoStarts : List Act :=
  [register "n" [1], .call (.start "m" 30), .call (.start "m" 30)] ++ runs 0 1 0 ++ runs 1 1 5 ++
    runs 2 1 5 ++ runs 1 3 6 ++ runs 2 3 7 ++ runs 1 2 8

/-- Both write a start time, and the `START` carries the one overwritten. -/
theorem two_starts_past_gate : ∃ acts s,
    run (step Sample.platform) (Sample.boot [("m", ["n"])]) acts = some s ∧
      s.t0sWritten "m" = [6, 7] ∧ s.startsSent "m" = [.started "n" 6] ∧
      s.server.store.t0Of "m" = some 7 := by
  obtain ⟨s, hs, h⟩ := Option.map_eq_some_iff.mp
    (show (run (step Sample.platform) (Sample.boot [("m", ["n"])]) twoStarts).map
      (fun s => (s.t0sWritten "m", s.startsSent "m", s.server.store.t0Of "m"))
        = some ([6, 7], [.started "n" 6], some 7) by decide +kernel)
  obtain ⟨ht0s, h⟩ := Prod.mk.inj h
  obtain ⟨hsent, ht0⟩ := Prod.mk.inj h
  exact ⟨_, s, hs, ht0s, hsent, ht0⟩

end Sys
