/-
The loop of the metrics reporter (`node/metrics.py`).

A round walks through the live registry of windows and suspends in every
`send_metrics`; prompts open windows and matches close them meanwhile.

* `ReporterLoop.step_progress` — one step of a round in which no terminal enters
  or leaves the registry;
* `ReporterLoop.loop_reports` — if that is so in every round, only `stop` ends the
  loop, and a round reports every window that stays registered exactly once;
* `ReporterLoop.opened_raises` — a window opens while a report is being sent.
-/
import AgenticJuggling.LiveIteration
import AgenticJuggling.NodeMetrics
import AgenticJuggling.Scheduling

inductive ReporterPhase
  /-- In `asyncio.sleep`, or not yet started. -/
  | sleeping
  /-- Suspended in the `send_metrics` of a terminal. -/
  | sending (it : LiveIter String) (terminalId : String)
  /-- Cancelled by `stop`. -/
  | stopped
  /-- The iteration has raised. -/
  | raised

/-- The arguments of a `send_metrics`, and the window they were read from. -/
structure WindowReport where
  terminalId : String
  window : WindowId
  idleSeconds : Json
  tokensUsed : Json

structure ReporterLoop where
  registry : WindowRegistry
  windows : WindowId → AgentWindow
  phase : ReporterPhase

namespace ReporterLoop

/-- The loop has been started, with these windows open. -/
def start (registry : WindowRegistry) (windows : WindowId → AgentWindow) : ReporterLoop where
  registry := registry
  windows := windows
  phase := .sleeping

inductive Act
  /-- The interval is over. -/
  | wake
  /-- The suspended send ends; `choice` is read in a disturbed iteration only. -/
  | sent (fails : Bool) (choice : Option String)
  /-- `AgentWindow.open` registers its window. -/
  | opened (window : WindowId)
  /-- `AgentWindow.close`. -/
  | closed (terminalId : String)
  /-- A window applies a line of its runner. -/
  | measured (window : WindowId) (data : List (String × Json))
  | stop

/-- The loop `for terminal_id, window in windows.items()` from its next step on. -/
def proceed (s : ReporterLoop) (it : LiveIter String) (choice : Option String) : ReporterPhase :=
  match it.next s.registry.keys.length choice with
  | .raises => .raised
  | .stops => .sleeping
  | .yields terminalId it => .sending it terminalId

/-- The report that is sent in a phase, when it is entered. -/
def reportIn (s : ReporterLoop) : ReporterPhase → List WindowReport
  | .sending _ terminalId =>
    (s.registry.lookup terminalId).toList.map fun window =>
      { terminalId := terminalId, window := window, idleSeconds := (s.windows window).idleSeconds,
        tokensUsed := (s.windows window).tokensUsed }
  | _ => []

/-- A round begins; with no window it is over at once. -/
def beginRound (s : ReporterLoop) : ReporterPhase :=
  if s.registry.keys = [] then .sleeping else s.proceed (.ofMembers s.registry.keys) none

/-- The iteration is disturbed by a terminal that enters or leaves. -/
def withRegistry (s : ReporterLoop) (registry : WindowRegistry) : ReporterLoop :=
  { s with
    registry := registry
    phase :=
      match s.phase with
      | .sending it terminalId =>
        .sending (if registry.keys = s.registry.keys then it else it.disturb) terminalId
      | phase => phase }

/-- The phase the loop itself goes to; a failed send is only logged. -/
def resumed (s : ReporterLoop) : Act → Option ReporterPhase
  | .wake =>
    match s.phase with
    | .sleeping => some s.beginRound
    | _ => none
  | .sent _ choice =>
    match s.phase with
    | .sending it _ => if ∀ x ∈ choice, x ∈ s.registry then some (s.proceed it choice) else none
    | _ => none
  | _ => none

def step (s : ReporterLoop) : Act → Option ReporterLoop
  | .wake => (s.resumed .wake).map fun phase => { s with phase := phase }
  | .sent fails choice =>
    (s.resumed (.sent fails choice)).map fun phase => { s with phase := phase }
  | .opened window => some (s.withRegistry (s.registry.set window.terminalId window))
  | .closed terminalId => some (s.withRegistry (s.registry.pop terminalId))
  | .measured window data =>
    some { s with
      windows := Function.update s.windows window ((s.windows window).applyMetrics data) }
  | .stop =>
    match s.phase with
    | .raised => some s
    | _ => some { s with phase := .stopped }

/-- The report a step sends. -/
def reported (s : ReporterLoop) (a : Act) : List WindowReport :=
  match s.resumed a with
  | none => []
  | some phase => s.reportIn phase

def Sending (s : ReporterLoop) : Prop := ∃ it terminalId, s.phase = .sending it terminalId

/-- While a report is being sent, no terminal enters or leaves the registry. -/
def Quiet (s : ReporterLoop) : Act → Prop
  | .opened window => s.Sending → window.terminalId ∈ s.registry
  | .closed terminalId => s.Sending → terminalId ∉ s.registry
  | _ => True

instance (s : ReporterLoop) : Decidable s.Sending :=
  match h : s.phase with
  | .sending it terminalId => .isTrue ⟨it, terminalId, h⟩
  | .sleeping => .isFalse (by rintro ⟨_, _, h'⟩; simp [h] at h')
  | .stopped => .isFalse (by rintro ⟨_, _, h'⟩; simp [h] at h')
  | .raised => .isFalse (by rintro ⟨_, _, h'⟩; simp [h] at h')

instance : ∀ (s : ReporterLoop) (a : Act), Decidable (s.Quiet a)
  | s, .opened window => inferInstanceAs (Decidable (s.Sending → window.terminalId ∈ s.registry))
  | s, .closed terminalId => inferInstanceAs (Decidable (s.Sending → terminalId ∉ s.registry))
  | _, .wake => .isTrue trivial
  | _, .sent _ _ => .isTrue trivial
  | _, .measured _ _ => .isTrue trivial
  | _, .stop => .isTrue trivial

/-! ### One step -/

theorem wake_eq_some {s s' : ReporterLoop} (h : s.step .wake = some s') :
    s.phase = .sleeping ∧ s.resumed .wake = some s.beginRound ∧
      s' = { s with phase := s.beginRound } := by
  obtain ⟨phase, hresumed, rfl⟩ := Option.map_eq_some_iff.mp h
  rw [resumed] at hresumed ⊢
  split at hresumed
  · next hphase =>
    obtain rfl := Option.some.inj hresumed
    exact ⟨hphase, rfl, rfl⟩
  · cases hresumed

theorem sent_eq_some {s s' : ReporterLoop} {fails : Bool} {choice : Option String}
    (h : s.step (.sent fails choice) = some s') : ∃ it terminalId,
      s.phase = .sending it terminalId ∧
        s.resumed (.sent fails choice) = some (s.proceed it choice) ∧
          s' = { s with phase := s.proceed it choice } := by
  obtain ⟨phase, hresumed, rfl⟩ := Option.map_eq_some_iff.mp h
  rw [resumed] at hresumed ⊢
  split at hresumed
  · next it terminalId hphase =>
    split at hresumed
    · next hchoice =>
      obtain rfl := Option.some.inj hresumed
      exact ⟨it, terminalId, hphase, if_pos hchoice, rfl⟩
    · cases hresumed
  · cases hresumed

/-- In a round over the terminals `keys`, reports for `visited` have been sent. -/
def Progress (keys visited : List String) (s : ReporterLoop) : Prop :=
  match s.phase with
  | .sending it _ => s.registry.keys = keys ∧ it.Follows keys visited
  | .sleeping => visited = keys
  | .stopped => True
  | .raised => False

/-- The next step of an undisturbed iteration sends the report it names. -/
theorem proceed_progress {s : ReporterLoop} {visited : List String} {it : LiveIter String}
    (h : it.Follows s.registry.keys visited) (choice : Option String) :
    Progress s.registry.keys
      (visited ++ (s.reportIn (s.proceed it choice)).map WindowReport.terminalId)
      { s with phase := s.proceed it choice } := by
  rw [proceed]
  obtain ⟨hnext, hvisited⟩ | ⟨terminalId, it', hnext, hfollows⟩ := h.next choice
  · rw [hnext]
    simp only [reportIn, List.map_nil, List.append_nil]
    exact hvisited
  · rw [hnext]
    -- The iteration runs over the registry, so the terminal has a window.
    have hmem : terminalId ∈ s.registry := by
      rw [AList.mem_keys, ← hfollows.visited]
      simp
    obtain ⟨window, hwindow⟩ := Option.isSome_iff_exists.mp (AList.lookup_isSome.mpr hmem)
    simp only [reportIn, hwindow, Option.toList_some, List.map_singleton]
    exact ⟨rfl, hfollows⟩

theorem beginRound_progress (s : ReporterLoop) :
    Progress s.registry.keys ((s.reportIn s.beginRound).map WindowReport.terminalId)
      { s with phase := s.beginRound } := by
  rw [beginRound]
  split
  · next hempty => exact hempty.symm
  · exact proceed_progress (LiveIter.follows_ofMembers s.registry.keys) none

/-- A change of the registry that keeps the terminals does not disturb a round. -/
theorem withRegistry_progress {s : ReporterLoop} {registry : WindowRegistry}
    {keys visited : List String} (h : Progress keys visited s)
    (hkeys : s.Sending → registry.keys = s.registry.keys) :
    Progress keys visited (s.withRegistry registry) := by
  rw [Progress] at h ⊢
  rw [withRegistry]
  cases hphase : s.phase with
  | sending it terminalId =>
    rw [hphase] at h
    have hsame := hkeys ⟨it, terminalId, hphase⟩
    simp only [hsame, if_pos]
    exact h
  | sleeping =>
    rw [hphase] at h
    exact h
  | stopped => trivial
  | raised =>
    rw [hphase] at h
    exact h

/-- **One step of a round.** -/
theorem step_progress {s s' : ReporterLoop} {a : Act} {keys visited : List String}
    (h : Progress keys visited s) (hsending : s.Sending) (hquiet : s.Quiet a)
    (hstep : s.step a = some s') :
    Progress keys (visited ++ (s.reported a).map WindowReport.terminalId) s' := by
  cases a with
  | wake =>
    obtain ⟨it, terminalId, hphase⟩ := hsending
    rw [(wake_eq_some hstep).1] at hphase
    cases hphase
  | sent fails choice =>
    obtain ⟨it, terminalId, hphase, hresumed, rfl⟩ := sent_eq_some hstep
    rw [Progress, hphase] at h
    obtain ⟨hkeys, hfollows⟩ := h
    rw [reported, hresumed]
    rw [← hkeys] at hfollows ⊢
    exact proceed_progress hfollows choice
  | opened window =>
    have hsilent : s.reported (.opened window) = [] := rfl
    obtain rfl := Option.some.inj hstep
    rw [hsilent, List.map_nil, List.append_nil]
    exact withRegistry_progress h fun hs => OrderedDict.keys_set_of_mem (hquiet hs) window
  | closed terminalId' =>
    have hsilent : s.reported (.closed terminalId') = [] := rfl
    obtain rfl := Option.some.inj hstep
    rw [hsilent, List.map_nil, List.append_nil]
    exact withRegistry_progress h fun hs => OrderedDict.keys_pop_of_notMem (hquiet hs)
  | measured window data =>
    have hsilent : s.reported (.measured window data) = [] := rfl
    obtain rfl := Option.some.inj hstep
    rw [hsilent, List.map_nil, List.append_nil]
    exact h
  | stop =>
    obtain ⟨it, terminalId, hphase⟩ := hsending
    rw [step, hphase] at hstep
    obtain rfl := Option.some.inj hstep
    trivial

theorem wake_progress {s s' : ReporterLoop} (hstep : s.step .wake = some s') :
    Progress s.registry.keys ((s.reported .wake).map WindowReport.terminalId) s' := by
  obtain ⟨-, hresumed, rfl⟩ := wake_eq_some hstep
  rw [reported, hresumed]
  exact beginRound_progress s

/-- A report is read from the window that is registered then. -/
theorem lookup_of_mem_reported {s : ReporterLoop} {a : Act} {r : WindowReport}
    (h : r ∈ s.reported a) : s.registry.lookup r.terminalId = some r.window := by
  rw [reported] at h
  cases hresumed : s.resumed a with
  | none => simp [hresumed] at h
  | some phase =>
    rw [hresumed] at h
    cases phase with
    | sending it terminalId =>
      obtain ⟨window, hwindow, rfl⟩ := List.mem_map.mp h
      exact Option.mem_toList.mp hwindow
    | sleeping => exact absurd h List.not_mem_nil
    | stopped => exact absurd h List.not_mem_nil
    | raised => exact absurd h List.not_mem_nil

/-! ### Runs -/

/-- The loop has not raised, and its round is undisturbed. -/
def Alive (s : ReporterLoop) : Prop := ∃ keys visited, Progress keys visited s

theorem step_alive {s s' : ReporterLoop} {a : Act} (h : s.Alive) (hquiet : s.Quiet a)
    (hstep : s.step a = some s') : s'.Alive := by
  obtain ⟨keys, visited, h⟩ := h
  by_cases hsending : s.Sending
  · exact ⟨keys, _, step_progress h hsending hquiet hstep⟩
  · cases a with
    | wake => exact ⟨s.registry.keys, _, wake_progress hstep⟩
    | sent fails choice =>
      obtain ⟨it, terminalId, hphase, -⟩ := sent_eq_some hstep
      exact absurd ⟨it, terminalId, hphase⟩ hsending
    | opened window =>
      obtain rfl := Option.some.inj hstep
      exact ⟨keys, visited, withRegistry_progress h fun hs => absurd hs hsending⟩
    | closed terminalId =>
      obtain rfl := Option.some.inj hstep
      exact ⟨keys, visited, withRegistry_progress h fun hs => absurd hs hsending⟩
    | measured window data =>
      obtain rfl := Option.some.inj hstep
      exact ⟨keys, visited, h⟩
    | stop =>
      rw [step.eq_def] at hstep
      cases hphase : s.phase with
      | raised =>
        rw [Progress, hphase] at h
        exact h.elim
      | sending it terminalId => exact absurd ⟨it, terminalId, hphase⟩ hsending
      | sleeping =>
        rw [hphase] at hstep
        obtain rfl := Option.some.inj hstep
        exact ⟨keys, visited, trivial⟩
      | stopped =>
        rw [hphase] at hstep
        obtain rfl := Option.some.inj hstep
        exact ⟨keys, visited, trivial⟩

theorem proceed_ne_stopped (s : ReporterLoop) (it : LiveIter String) (choice : Option String) :
    s.proceed it choice ≠ .stopped := by
  rw [proceed]
  cases it.next s.registry.keys.length choice with
  | raises => simp
  | stops => simp
  | yields terminalId it => simp

theorem beginRound_ne_stopped (s : ReporterLoop) : s.beginRound ≠ .stopped := by
  rw [beginRound]
  split
  · simp
  · exact proceed_ne_stopped s _ none

theorem withRegistry_stopped {s : ReporterLoop} {registry : WindowRegistry} :
    (s.withRegistry registry).phase = .stopped ↔ s.phase = .stopped := by
  rw [withRegistry]
  cases s.phase with
  | sending it terminalId => simp
  | sleeping => simp
  | stopped => simp
  | raised => simp

/-- Only `stop` stops the loop. -/
theorem step_ne_stopped {s s' : ReporterLoop} {a : Act} (h : s.phase ≠ .stopped)
    (ha : a ≠ .stop) (hstep : s.step a = some s') : s'.phase ≠ .stopped := by
  cases a with
  | wake =>
    obtain ⟨-, -, rfl⟩ := wake_eq_some hstep
    exact beginRound_ne_stopped s
  | sent fails choice =>
    obtain ⟨it, terminalId, -, -, rfl⟩ := sent_eq_some hstep
    exact proceed_ne_stopped s it choice
  | opened window =>
    obtain rfl := Option.some.inj hstep
    exact mt withRegistry_stopped.mp h
  | closed terminalId =>
    obtain rfl := Option.some.inj hstep
    exact mt withRegistry_stopped.mp h
  | measured window data =>
    obtain rfl := Option.some.inj hstep
    exact h
  | stop => exact absurd rfl ha

/-- A round: the labels `wake :: bs` lead from `s` to the end of the round, `u`. -/
structure Round (s : ReporterLoop) (bs : List Act) (u : ReporterLoop) : Prop where
  run : Transition.run step s (.wake :: bs) = some u
  sending : ∀ t, s.step .wake = some t → Transition.Guarded step (fun s _ => s.Sending) t bs
  slept : u.phase = .sleeping

/-- A window is registered for the whole round. -/
structure Stays (terminalId : String) (window : WindowId) (s : ReporterLoop) (bs : List Act)
    (u : ReporterLoop) : Prop where
  during : Transition.Guarded step (fun s _ => s.registry.lookup terminalId = some window) s
    (.wake :: bs)
  after : u.registry.lookup terminalId = some window

/-- What an undisturbed round reports: the terminals in the registry when it
began, in order. -/
theorem Round.terminals {s u : ReporterLoop} {bs : List Act} (h : Round s bs u)
    (hquiet : Transition.Guarded step Quiet s (.wake :: bs)) :
    (Transition.observed step reported s (.wake :: bs)).map WindowReport.terminalId =
      s.registry.keys := by
  obtain ⟨t, hwake, hrun⟩ := Transition.run_cons_eq_some.mp h.run
  have hprogress := Transition.invariant_of_guarded_observed
    (I := fun u seen => Progress s.registry.keys (seen.map WindowReport.terminalId) u)
    (fun s seen a s' hs hg hstep => by
      rw [List.map_append]
      exact step_progress hs hg.1 hg.2 hstep)
    (wake_progress hwake) ((h.sending t hwake).and (hquiet.2 t hwake)) hrun
  rw [Progress, h.slept] at hprogress
  rw [Transition.observed, hwake]
  exact hprogress

/-- While a window is registered, it is the one its terminal's reports are about. -/
theorem Stays.window_eq {terminalId : String} {window : WindowId} {s u : ReporterLoop}
    {bs : List Act} (h : Stays terminalId window s bs u)
    (hrun : Transition.run step s (.wake :: bs) = some u) :
    ∀ r ∈ Transition.observed step reported s (.wake :: bs), r.terminalId = terminalId →
      r.window = window := by
  have hinvariant := Transition.invariant_of_guarded_observed
    (I := fun _ (seen : List WindowReport) => ∀ r ∈ seen, r.terminalId = terminalId → r.window = window)
    (fun s seen a s' hs hg _ r (hr : r ∈ seen ++ reported s a) hterminal => by
      obtain hold | hnew := List.mem_append.mp hr
      · exact hs r hold hterminal
      · have hlookup := lookup_of_mem_reported hnew
        rw [hterminal, hg] at hlookup
        exact (Option.some.inj hlookup).symm)
    (fun r hr => absurd hr List.not_mem_nil) h.during hrun
  rwa [List.nil_append] at hinvariant

/-- An undisturbed round reports each window that stays registered once. -/
theorem Round.reports_once {s u : ReporterLoop} {bs : List Act} (h : Round s bs u)
    (hquiet : Transition.Guarded step Quiet s (.wake :: bs)) {terminalId : String}
    {window : WindowId} (hstays : Stays terminalId window s bs u) :
    ∃ r, r.window = window ∧
      ((Transition.observed step reported s (.wake :: bs)).filter
        fun r => r.terminalId = terminalId) = [r] := by
  have hterminals := h.terminals hquiet
  have hmem : terminalId ∈ s.registry.keys := by
    rw [← AList.mem_keys, ← AList.lookup_isSome, hstays.during.1]
    rfl
  obtain ⟨r, hr, hterminal, hfilter⟩ := LiveIter.exists_filter_eq_singleton
    (f := WindowReport.terminalId) (hterminals ▸ s.registry.keys_nodup) (hterminals ▸ hmem)
  exact ⟨r, hstays.window_eq h.run r hr hterminal, hfilter⟩

/-- **Undisturbed rounds.**  If no terminal enters or leaves the registry while a
report is being sent, the loop does not raise and is ended by `stop` only; every
round reports each window that stays registered for all of it exactly once,
whichever sends fail. -/
theorem loop_reports {registry : WindowRegistry} {windows : WindowId → AgentWindow}
    {as : List Act} {s : ReporterLoop}
    (hquiet : Transition.Guarded step Quiet (start registry windows) as)
    (hrun : Transition.run step (start registry windows) as = some s) :
    s.phase ≠ .raised ∧ (s.phase = .stopped → .stop ∈ as) ∧
      ∀ as₁ bs as₂ t u terminalId window, as = as₁ ++ (.wake :: bs) ++ as₂ →
        Transition.run step (start registry windows) as₁ = some t → Round t bs u →
        Stays terminalId window t bs u →
        ∃ r, r.window = window ∧
          ((Transition.observed step reported t (.wake :: bs)).filter
            fun r => r.terminalId = terminalId) = [r] := by
  refine ⟨?_, ?_, ?_⟩
  · intro hraised
    have hstart : (start registry windows).Alive := ⟨[], [], rfl⟩
    obtain ⟨keys, visited, halive⟩ := Transition.invariant_of_guarded
      (I := Alive) (fun s a s' hs hq hstep => step_alive hs hq hstep) hstart hquiet hrun
    rw [Progress, hraised] at halive
    exact halive
  · intro hstopped
    by_contra hstop
    have hstart : (start registry windows).phase ≠ .stopped := by simp [start]
    have hnever : ∀ a ∈ as, a ≠ Act.stop := fun a ha heq => hstop (heq ▸ ha)
    exact Transition.invariant_of_guarded (I := fun s : ReporterLoop => s.phase ≠ .stopped)
      (fun s a s' hs ha hstep => step_ne_stopped hs ha hstep) hstart
      (Transition.guarded_of_forall hnever _) hrun hstopped
  · intro as₁ bs as₂ t u terminalId window has ht hround hstays
    rw [has, List.append_assoc] at hquiet
    exact hround.reports_once ((hquiet.of_append.2 t ht).of_append.1) hstays

/-- The window of the entry at this position of a schedule of match `m`. -/
def sampleWindow (scheduler : SchedulerId) (entry : ℕ) : WindowId where
  scheduler := scheduler
  entry := entry
  terminalId := "m-t" ++ toString entry

/-- The registry of two open windows. -/
def twoWindows : WindowRegistry :=
  (OrderedDict.set (∅ : WindowRegistry) "m-t0" (sampleWindow 0 0)).set "m-t1" (sampleWindow 0 1)

/-- The first send of a round fails, and a window is replaced during the second. -/
theorem loop_reports_two : ∃ s,
    Transition.run step (start twoWindows fun _ => {})
        [.wake, .sent true none, .opened (sampleWindow 1 0), .sent false none, .stop] = some s ∧
      s.phase ≠ .raised ∧
      ∃ r, r.window = sampleWindow 0 1 ∧
        ((Transition.observed step reported (start twoWindows fun _ => {})
          [.wake, .sent true none, .opened (sampleWindow 1 0), .sent false none]).filter
            fun r => r.terminalId = "m-t1") = [r] := by
  obtain ⟨s, hs⟩ : ∃ s, Transition.run step (start twoWindows fun _ => {})
      [.wake, .sent true none, .opened (sampleWindow 1 0), .sent false none, .stop] = some s :=
    ⟨_, rfl⟩
  obtain ⟨u, hu, hslept, hafter⟩ : ∃ u, Transition.run step (start twoWindows fun _ => {})
      [.wake, .sent true none, .opened (sampleWindow 1 0), .sent false none] = some u ∧
        u.phase = .sleeping ∧ u.registry.lookup "m-t1" = some (sampleWindow 0 1) :=
    ⟨_, rfl, rfl, rfl⟩
  have hsending : ∀ t, (start twoWindows fun _ => {}).step .wake = some t →
      Transition.Guarded step (fun s _ => s.Sending) t
        [.sent true none, .opened (sampleWindow 1 0), .sent false none] := by
    intro t ht
    obtain rfl := Option.some.inj ht
    decide
  obtain ⟨hraised, -, hrounds⟩ := loop_reports (by decide) hs
  exact ⟨s, hs, hraised, hrounds []
    [.sent true none, .opened (sampleWindow 1 0), .sent false none] [.stop]
    _ u "m-t1" (sampleWindow 0 1) rfl rfl ⟨hu, hsending, hslept⟩ ⟨by decide, hafter⟩⟩

/-- **A window opens during a send.**  The loop raises. -/
theorem opened_raises : ∃ s,
    Transition.run step (start ∅ fun _ => {})
        [.opened (sampleWindow 0 0), .wake, .opened (sampleWindow 0 1), .sent false none]
          = some s ∧
      s.phase = .raised :=
  ⟨_, rfl, rfl⟩

end ReporterLoop
