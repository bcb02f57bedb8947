/-
The auto-stop task of a match, when nothing else runs.

`stop` cancels the timer of its match, which for the auto-stop task is the
task itself.  It ends at its first suspension after that: in the first send
that suspends, or else in the update to `FINISHED`, before its commit.

* `autoStop_never_completes` — whatever the registry and the assignments, the
  task neither returns nor commits anything;
* `autoStop_cancels_itself` — a reachable state from which a manual `stop` does
  what the auto-stop task does not.
-/
import AgenticJuggling.SoloStop

open Transition MatchManager

namespace Sys

variable {P : Platform}

/-- Where the auto-stop task of match `m` can be when nothing else runs, with
the committed table as it was and without a regular end. -/
inductive AutoStopping (m : MatchId) (tid : TaskId) (committed : Dict MatchId MatchRecord)
    (s : Sys) : Prop
  | asleep (delay : ℚ) (ht : s.tasks tid = some (autoStopTask m delay))
      (htimer : s.server.timers m = some tid) (hrow : s.server.store.stateOf m = some .running)
      (hcommitted : s.server.store.committed = committed)
  | selected (record : MatchRecord)
      (ht : s.tasks tid = some ⟨.autoStop, m, .stopGet (some record), false⟩)
      (hstate : record.state = .running) (htimer : s.server.timers m = some tid)
      (hcommitted : s.server.store.committed = committed)
  /-- It has cancelled itself, in a send that did not suspend. -/
  | cancelling (na : NodeAssignment) (rest : List NodeAssignment)
      (ht : s.tasks tid = some ⟨.autoStop, m, .stopSent na rest, true⟩)
      (hcommitted : s.server.store.committed = committed)
  | ended (t : ServerTask) (outcome : Outcome) (ht : s.tasks tid = some t)
      (hpc : t.pc = .done outcome) (hne : outcome ≠ .returned)
      (hcommitted : s.server.store.committed = committed)

/-- A stretch of the loop in a task that has cancelled itself. -/
private theorem AutoStopping.of_stretch {m : MatchId} {tid : TaskId}
    {committed : Dict MatchId MatchRecord} {w : World} {sv : Server} {as : List NodeAssignment}
    {r : Stretch} (hstretch : StopStretch tid w m sv as r)
    (hcommitted : sv.store.committed = committed) {s : Sys} (hserver : s.server = r.server)
    (ht : s.tasks tid = some (if r.suspends then ⟨.autoStop, m, .done .cancelled, false⟩
      else ⟨.autoStop, m, r.pc, true⟩)) : AutoStopping m tid committed s := by
  cases hstretch with
  | ended hskip =>
    have hsuspends : ∀ {s : Server} {state : MatchState} {t0 : Option ℚ} {next : Pc},
        (updateState tid w s m state t0 next).suspends = true ∧
          (updateState tid w s m state t0 next).server.store.committed = s.store.committed := by
      intro s state t0 next
      unfold updateState
      split
      · exact ⟨rfl, rfl⟩
      · exact ⟨rfl, rfl⟩
    rw [if_pos hsuspends.1] at ht
    refine .ended _ .cancelled ht rfl (fun h => by cases h) ?_
    rw [hserver, hsuspends.2]
    exact hcommitted
  | sent skipped na rest identity has hskip hidentity =>
    by_cases hs : w.suspends
    · rw [if_pos hs] at ht
      refine .ended _ .cancelled ht rfl (fun h => by cases h) ?_
      rw [hserver]
      exact hcommitted
    · rw [if_neg hs] at ht
      refine .cancelling na rest ht ?_
      rw [hserver]
      exact hcommitted
  | failed hreach hok =>
    refine .ended _ (.raised .send) ht rfl (fun h => by cases h) ?_
    rw [hserver]
    exact hcommitted

theorem AutoStopping.step {m : MatchId} {tid : TaskId} {committed : Dict MatchId MatchRecord}
    {s s' : Sys} {w : World} (hs : AutoStopping m tid committed s)
    (h : step P s (.run tid w) = some s') : AutoStopping m tid committed s' := by
  cases hs with
  | asleep delay ht htimer hrow hcommitted =>
    by_cases hok : w.dbOk
    · obtain ⟨record, hrecord, hstate⟩ := Option.map_eq_some_iff.mp hrow
      have hr : resume P tid s.next s.server (autoStopTask m delay) w
          = { server := s.server, pc := .stopGet (some record) } := by
        rw [← hrecord]
        exact if_pos hok
      rw [step_alone ht rfl rfl w hr rfl rfl, Option.some_inj] at h
      subst h
      exact .selected record (Dict.set_self ..) hstate htimer hcommitted
    · have hr : resume P tid s.next s.server (autoStopTask m delay) w = dbError s.server :=
        if_neg hok
      rw [step_alone ht rfl rfl w hr rfl rfl, Option.some_inj] at h
      subst h
      exact .ended _ (.raised .database) (Dict.set_self ..) rfl (fun h => by cases h) hcommitted
  | selected record ht hstate htimer hcommitted =>
    rw [step_run ht rfl w, Option.some_inj] at h
    subst h
    cases has : MatchStore.parseAssignments record.configJson with
    | none =>
      have hr : resume P tid s.next s.server ⟨.autoStop, m, .stopGet (some record), false⟩ w
          = { finish { s.server with timers := s.server.timers.pop m } (.raised .malformedConfig)
              with cancels := some tid } := by
        simp [resume, stopGate, hstate, has, htimer]
      rw [hr]
      refine .ended _ (.raised .malformedConfig) (apply_self s rfl) (by simp [settle, finish])
        (fun h => by cases h) ?_
      rw [apply_server]
      exact hcommitted
    | some as =>
      -- `stop` cancels the timer of the match, which is the task it runs in.
      have hr : resume P tid s.next s.server ⟨.autoStop, m, .stopGet (some record), false⟩ w
          = { stopLoop tid w m { s.server with timers := s.server.timers.pop m } as with
              cancels := some tid } := by
        simp [resume, stopGate, hstate, has, htimer]
      have hstretch := stopLoop_stretch tid w m { s.server with timers := s.server.timers.pop m } as
      rw [hr]
      refine .of_stretch hstretch hcommitted (apply_server ..) ((apply_self s ?_).trans ?_)
      · exact hstretch.frame.2.2.2.2
      · simp [settle]
  | cancelling na rest ht hcommitted =>
    rw [step_run ht rfl w, Option.some_inj] at h
    subst h
    have hstretch := stopLoop_stretch tid w m (s.server.mark na.nodeId .ready) rest
    refine .of_stretch hstretch hcommitted (apply_server ..) ((apply_self s ?_).trans ?_)
    · exact hstretch.frame.2.2.2.2
    · simp [settle]
      rfl
  | ended t outcome ht hpc hne hcommitted =>
    simp [Sys.step, ht, hpc, Pc.isDone] at h

/-- **The auto-stop task never completes**: from any state in which match `m` is
`RUNNING` and its timer is the sleeping task `tid`, whatever that task does
when nothing else runs, it neither returns nor commits anything, so that it
never does what stopping the match takes. -/
theorem autoStop_never_completes {m : MatchId} {tid : TaskId} {delay : ℚ} {s s' : Sys}
    {ws : List World} (ht : s.tasks tid = some (autoStopTask m delay))
    (htimer : s.server.timers m = some tid)
    (hrow : s.server.store.stateOf m = some .running)
    (hrun : run (step P) s (solo tid ws) = some s') :
    s'.outcomeOf tid ≠ some .returned ∧
      s'.server.store.committed = s.server.store.committed ∧ ¬ StopDone m tid s s' := by
  have hinv : AutoStopping m tid s.server.store.committed s' := by
    refine invariant_of_guarded (I := AutoStopping m tid s.server.store.committed) ?_
      (.asleep delay ht htimer hrow rfl) (guarded_solo s tid ws) hrun
    rintro s a s' hs ⟨w, rfl⟩ h
    exact hs.step h
  have hne : s'.outcomeOf tid ≠ some .returned := by
    rw [outcomeOf]
    cases hinv with
    | asleep delay ht htimer hrow hcommitted => simp [ht, autoStopTask, Pc.outcome]
    | selected record ht hstate htimer hcommitted => simp [ht, Pc.outcome]
    | cancelling na rest ht hcommitted => simp [ht, Pc.outcome]
    | ended t outcome ht hpc hne hcommitted => simpa [ht, hpc, Pc.outcome] using hne
  refine ⟨hne, ?_, fun hdone => hne hdone.returned⟩
  cases hinv with
  | asleep delay ht htimer hrow hcommitted => exact hcommitted
  | selected record ht hstate htimer hcommitted => exact hcommitted
  | cancelling na rest ht hcommitted => exact hcommitted
  | ended t outcome ht hpc hne hcommitted => exact hcommitted

theorem autoStop_never_completes_started : ∃ s s',
    run (step Sample.platform) (Sample.boot [("m", ["n"])]) Sample.started = some s ∧
      run (step Sample.platform) s (solo 2 [{}, { suspends := false }, {}]) = some s' ∧
      s'.outcomeOf 2 ≠ some .returned := by
  obtain ⟨s, hs, h⟩ := Option.map_eq_some_iff.mp
    (show (run (step Sample.platform) (Sample.boot [("m", ["n"])]) Sample.started).map
      (fun s => (s.tasks 2, s.server.timers "m", s.server.store.stateOf "m"))
        = some (some (autoStopTask "m" 60), some 2, some .running) from rfl)
  obtain ⟨htask, h⟩ := Prod.mk.inj h
  obtain ⟨htimer, hrow⟩ := Prod.mk.inj h
  obtain ⟨s', hs'⟩ := Option.isSome_iff_exists.mp
    (show (run (step Sample.platform) (Sample.boot [("m", ["n"])])
      (Sample.started ++ solo 2 [{}, { suspends := false }, {}])).isSome by decide +kernel)
  obtain ⟨t, ht, hs'⟩ := run_append_eq_some.mp hs'
  obtain rfl : s = t := Option.some.inj (hs.symm.trans ht)
  exact ⟨s, s', hs, hs', (autoStop_never_completes htask htimer hrow hs').1⟩

/-- Where a manual `stop` completes, the auto-stop task sends its `STOP`, marks the node
and revokes the key, and ends cancelled in the update to `FINISHED`, which is not
committed. -/
theorem autoStop_cancels_itself : ∃ s,
    run (step Sample.platform) (Sample.boot [("m", ["n"])]) Sample.started = some s ∧
      s.tasks 2 = some (autoStopTask "m" 60) ∧ s.server.timers "m" = some 2 ∧
      s.server.store.stateOf "m" = some .running ∧
      (∃ s', run (step Sample.platform) s (solo 2 [{}, { suspends := false }, {}]) = some s' ∧
        s'.outcomeOf 2 = some .cancelled ∧ ¬ StopDone "m" 2 s s' ∧
        (s'.server.store.committed "m").map (·.state) = some .running ∧
        s'.server.crypto.matchKeys "m" = none ∧
        s'.server.registry.stateOf "n" = some .ready) ∧
      ∃ ws s', run (step Sample.platform) s (.call (.stop "m") :: solo s.next ws) = some s' ∧
        StopDone "m" s.next s s' := by
  obtain ⟨s, hs, h⟩ := Option.map_eq_some_iff.mp
    (show (run (step Sample.platform) (Sample.boot [("m", ["n"])]) Sample.started).map
      (fun s => (s.tasks 2, s.server.timers "m", s.server.store.stateOf "m"))
        = some (some (autoStopTask "m" 60), some 2, some .running) from rfl)
  obtain ⟨htask, h⟩ := Prod.mk.inj h
  obtain ⟨htimer, hrow⟩ := Prod.mk.inj h
  obtain ⟨s', hs', h'⟩ := Option.map_eq_some_iff.mp
    (show (run (step Sample.platform) (Sample.boot [("m", ["n"])])
      (Sample.started ++ solo 2 [{}, { suspends := false }, {}])).map (fun s => (s.outcomeOf 2,
        (s.server.store.committed "m").map (·.state), s.server.crypto.matchKeys "m",
        s.server.registry.stateOf "n"))
          = some (some .cancelled, some .running, none, some .ready) by decide +kernel)
  obtain ⟨t, ht, hs'⟩ := run_append_eq_some.mp hs'
  obtain rfl : s = t := Option.some.inj (hs.symm.trans ht)
  obtain ⟨houtcome, h'⟩ := Prod.mk.inj h'
  obtain ⟨hcommitted, h'⟩ := Prod.mk.inj h'
  obtain ⟨hkey, hnode⟩ := Prod.mk.inj h'
  have hne : s'.outcomeOf 2 ≠ some .returned := by
    rw [houtcome]
    decide
  refine ⟨s, hs, htask, htimer, hrow, ⟨s', hs', houtcome, fun hdone => hne hdone.returned,
    hcommitted, hkey, hnode⟩, ?_⟩
  obtain ⟨record, hrecord, hstate⟩ := Option.map_eq_some_iff.mp hrow
  have hconfig : s.server.store.configOf "m"
      = some (MatchStore.recordOf (Sample.config "m" ["n"])).configJson := by
    obtain ⟨s₁, hs₁, h₁⟩ := Option.map_eq_some_iff.mp
      (show (run (step Sample.platform) (Sample.boot [("m", ["n"])]) Sample.started).map
        (fun s => s.server.store.configOf "m")
          = some (some (MatchStore.recordOf (Sample.config "m" ["n"])).configJson) from rfl)
    obtain rfl : s = s₁ := Option.some.inj (hs.symm.trans hs₁)
    exact h₁
  rw [MatchStore.configOf, hrecord, Option.map_some, Option.some_inj] at hconfig
  have has : MatchStore.parseAssignments record.configJson
      = some (Sample.config "m" ["n"]).nodes := by
    rw [hconfig]
    rfl
  exact stop_completes (sound_run (sound_boot _ _ _) hs) hrecord (by rw [hstate]; decide) has

end Sys
