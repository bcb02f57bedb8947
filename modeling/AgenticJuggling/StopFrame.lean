/-
Which nodes a `stop` touches.

A node is *untouched* if it was sent no `STOP` and its registry state is what it
was.

* `stop_spares_iff` — whether every solo `stop` of a match leaves a running node
  alone is decided by the node's assignment to the match, not by the match it
  runs;
* `stop_touches_running_node` — a `stop` of a match in `LOBBY` that stops a node
  in the middle of another match.
-/
import AgenticJuggling.SoloStop

open Transition MatchManager

namespace Sys

variable {P : Platform}

/-- The `STOP` messages sent to a node. -/
def stopsTo (n : NodeId) (trace : List Event) : List Event :=
  trace.filter fun
    | .sent nodeId _ .stop _ => decide (nodeId = n)
    | _ => false

/-- Node `n` was neither sent a `STOP` nor has its registry state changed. -/
def Untouched (n : NodeId) (s s' : Server) : Prop :=
  stopsTo n s'.trace = stopsTo n s.trace ∧ s'.registry.stateOf n = s.registry.stateOf n

theorem stopsTo_append (n : NodeId) (trace es : List Event) :
    stopsTo n (trace ++ es) = stopsTo n trace ++ stopsTo n es :=
  List.filter_append ..

theorem stopsTo_of_isRow {n : NodeId} {es : List Event} (h : ∀ e ∈ es, e.isRow = true) :
    stopsTo n es = [] := by
  rw [stopsTo, List.filter_eq_nil_iff]
  intro e he
  cases e with
  | rowWritten tid matchId state t0 => exact Bool.false_ne_true
  | _ => cases h _ he

/-- A mark of another node touches nothing of `n`. -/
theorem Untouched.mark {n n' : NodeId} {s s' : Server} (h : Untouched n s s') (hne : n ≠ n')
    (st : NodeState) : Untouched n s (s'.mark n' st) := by
  refine ⟨?_, ?_⟩
  · rw [Server.mark_trace, stopsTo_append]
    exact (List.append_nil _).trans h.1
  · rw [Server.mark_registry, NodeRegistry.updateState_stateOf_of_ne _ hne]
    exact h.2

theorem Untouched.quiet {n : NodeId} {s s' : Server} {r : Stretch} (h : Untouched n s s')
    (hr : Quiet s' r) : Untouched n s r.server := by
  obtain ⟨es, htrace, hes⟩ := hr.trace
  refine ⟨?_, ?_⟩
  · rw [htrace, stopsTo_append, stopsTo_of_isRow hes, List.append_nil]
    exact h.1
  · rw [hr.registry]
    exact h.2

/-- The loop of `stop` touches none but the nodes it goes through. -/
theorem Untouched.stopStretch {n : NodeId} {s s' : Server} {tid : TaskId} {w : World} {m : MatchId}
    {as : List NodeAssignment} {r : Stretch} (h : Untouched n s s')
    (has : ∀ na ∈ as, n ≠ na.nodeId) (hr : StopStretch tid w m s' as r) :
    Untouched n s r.server := by
  cases hr with
  | ended hskip =>
    have hrevoked : Untouched n s { s' with crypto := s'.crypto.revokeMatchKey m } := h
    exact hrevoked.quiet (quiet_updateState ..)
  | sent skipped na rest identity hsplit hskip hidentity =>
    refine ⟨?_, h.2⟩
    have hne : n ≠ na.nodeId := has na (by rw [hsplit]; simp)
    rw [Server.log_trace, stopsTo_append]
    simpa [stopsTo, Ne.symm hne] using h.1
  | failed hreach hok => exact h

/-- Where a solo `stop` of `m` can be that has not touched node `n`. -/
inductive Sparing (m : MatchId) (n : NodeId) (tid : TaskId) (s0 : Server) (s : Sys) : Prop
  | called (ht : s.tasks tid = some ⟨.stop, m, .stopCall, false⟩) (hs : s.server = s0)
  | selected (ht : s.tasks tid = some ⟨.stop, m, .stopGet (s0.store.rows m), false⟩)
      (hs : s.server = s0)
  | sending (na : NodeAssignment) (rest : List NodeAssignment)
      (ht : s.tasks tid = some ⟨.stop, m, .stopSent na rest, false⟩) (hna : n ≠ na.nodeId)
      (hrest : ∀ na ∈ rest, n ≠ na.nodeId) (hs : Untouched n s0 s.server)
  | ending (outcome : Outcome) (pc : Pc) (ht : s.tasks tid = some ⟨.stop, m, pc, false⟩)
      (hpc : pc = .wrote .matchDb outcome ∨ pc = .committing outcome ∨ pc = .done outcome)
      (hs : Untouched n s0 s.server)

/-- A stretch of the loop over assignments that do not name `n`. -/
private theorem Sparing.of_stretch {m : MatchId} {n : NodeId} {tid : TaskId} {s0 sv : Server}
    {w : World} {as : List NodeAssignment} {r : Stretch} (huntouched : Untouched n s0 sv)
    (has : ∀ na ∈ as, n ≠ na.nodeId) (hr : StopStretch tid w m sv as r) {s : Sys}
    (hserver : s.server = r.server) (ht : s.tasks tid = some ⟨.stop, m, r.pc, false⟩) :
    Sparing m n tid s0 s := by
  have hs : Untouched n s0 s.server := hserver ▸ huntouched.stopStretch has hr
  cases hr with
  | ended hskip =>
    rcases updateState_pc tid w { sv with crypto := sv.crypto.revokeMatchKey m } m .finished none
      (.wrote .matchDb .returned) with h | h
    · rw [h] at ht
      exact .ending .returned _ ht (.inl rfl) hs
    · rw [h] at ht
      exact .ending (.raised .database) _ ht (.inr (.inr rfl)) hs
  | sent skipped na rest identity hsplit hskip hidentity =>
    refine .sending na rest ht (has na (by rw [hsplit]; simp)) (fun na' h => has na' ?_) hs
    rw [hsplit]
    exact List.mem_append_right _ (List.mem_cons_of_mem _ h)
  | failed hreach hok => exact .ending (.raised .send) _ ht (.inr (.inr rfl)) hs

theorem Sparing.step {m : MatchId} {n : NodeId} {tid : TaskId} {s0 : Server} {s s' : Sys}
    {w : World} (hcond : s0.store.stateOf m = some .finished ∨
      n ∉ (s0.assignments m).map (·.nodeId))
    (htimer : s0.timers m ≠ some tid) (hs : Sparing m n tid s0 s)
    (h : step P s (.run tid w) = some s') : Sparing m n tid s0 s' := by
  have hrefl : Untouched n s0 s0 := ⟨rfl, rfl⟩
  cases hs with
  | called ht hserver =>
    subst hserver
    by_cases hok : w.dbOk
    · rw [step_alone ht rfl rfl w (if_pos hok) rfl rfl, Option.some_inj] at h
      subst h
      exact .selected (Dict.set_self ..) rfl
    · rw [step_alone ht rfl rfl w (if_neg hok) rfl rfl, Option.some_inj] at h
      subst h
      exact .ending (.raised .database) _ (Dict.set_self ..) (.inr (.inr rfl)) hrefl
  | selected ht hserver =>
    subst hserver
    cases hrow : s.server.store.rows m with
    | none =>
      rw [hrow] at ht
      rw [step_alone ht rfl rfl w rfl rfl rfl, Option.some_inj] at h
      subst h
      exact .ending (.raised .notFound) _ (Dict.set_self ..) (.inr (.inr rfl)) hrefl
    | some record =>
      rw [hrow] at ht
      by_cases hfin : record.state = .finished
      · rw [step_alone ht rfl rfl w (if_pos hfin) rfl rfl, Option.some_inj] at h
        subst h
        exact .ending .returned _ (Dict.set_self ..) (.inr (.inr rfl)) hrefl
      · cases has : MatchStore.parseAssignments record.configJson with
        | none =>
          -- The timer is dropped before the assignments turn out to be malformed.
          have hr : resume P tid s.next s.server ⟨.stop, m, .stopGet (some record), false⟩ w
              = { finish { s.server with timers := s.server.timers.pop m }
                  (.raised .malformedConfig) with cancels := s.server.timers m } := by
            simp [resume, stopGate, hfin, has]
          rw [step_run ht rfl w, hr, Option.some_inj] at h
          subst h
          refine .ending (.raised .malformedConfig) _ ((apply_self s rfl).trans ?_)
            (.inr (.inr rfl)) (by rw [apply_server]; exact hrefl)
          simp [settle, finish, htimer]
        | some as =>
          -- The match is not finished, so `n` is not among its nodes.
          have hnot : ∀ na ∈ as, n ≠ na.nodeId := by
            rintro na hna rfl
            rcases hcond with hcond | hcond
            · rw [MatchStore.stateOf, hrow, Option.map_some, Option.some_inj] at hcond
              exact hfin hcond
            · rw [assignments_of_row hrow has] at hcond
              exact hcond (List.mem_map_of_mem hna)
          obtain ⟨s1, h1, hserver1, ht1⟩ := step_stopGate (P := P) ht hfin has htimer w
          obtain rfl : s1 = s' := Option.some.inj (h1.symm.trans h)
          have hpop : Untouched n s.server { s.server with timers := s.server.timers.pop m } :=
            hrefl
          exact .of_stretch hpop hnot (stopLoop_stretch ..) hserver1 ht1
  | sending na rest ht hna hrest huntouched =>
    have hstretch := stopLoop_stretch tid w m (s.server.mark na.nodeId .ready) rest
    rw [step_alone ht rfl rfl w rfl hstretch.frame.2.2.2.1 hstretch.frame.2.2.2.2,
      Option.some_inj] at h
    subst h
    exact .of_stretch (huntouched.mark hna .ready) hrest hstretch rfl (Dict.set_self ..)
  | ending outcome pc ht hpc huntouched =>
    rcases hpc with rfl | rfl | rfl
    · have hquiet := quiet_commit w s.server .matchDb (.committing outcome)
      rw [step_alone ht rfl rfl w rfl hquiet.cancels hquiet.spawns, Option.some_inj] at h
      subst h
      -- Whether the commit succeeds or fails, no node is touched any more.
      by_cases hok : w.dbOk
      · refine .ending outcome _ ((Dict.set_self ..).trans ?_) (.inr (.inl rfl))
          (huntouched.quiet hquiet)
        simp [resume, commit, hok]
      · refine .ending (.raised .database) _ ((Dict.set_self ..).trans ?_) (.inr (.inr rfl))
          (huntouched.quiet hquiet)
        simp [resume, commit, hok, dbError]
    · rw [step_alone ht rfl rfl w rfl rfl rfl, Option.some_inj] at h
      subst h
      exact .ending outcome _ (Dict.set_self ..) (.inr (.inr rfl)) huntouched
    · simp [Sys.step, ht, Pc.isDone] at h

/-- **When a `stop` spares a node that runs another match**: every solo `stop` of `m`
leaves node `n` alone exactly if `m` is already finished or `n` is not assigned
to it.  Which match the node runs plays no part. -/
theorem stop_spares_iff {tokens : Dict NodeId String} {rows : Dict MatchId MatchRecord}
    {metrics : MetricsStore} {acts : List Act} {s : Sys} {m m' : MatchId} {n : NodeId}
    (hrun : run (step P) (boot tokens rows metrics) acts = some s)
    (hrunning : (unstopped n s.server.trace).head? = some m') (_hne : m' ≠ m) :
    (∀ ws s', run (step P) s (.call (.stop m) :: solo s.next ws) = some s' →
        Untouched n s.server s'.server) ↔
      s.server.store.stateOf m = some .finished ∨ n ∉ (s.server.assignments m).map (·.nodeId) := by
  have hsound : s.Sound := sound_run (sound_boot ..) hrun
  constructor
  · intro hspares
    by_contra hcond
    push Not at hcond
    obtain ⟨hfin, hassigned⟩ := hcond
    -- The node is assigned to an unfinished match and has an identity.
    obtain ⟨na, hna, rfl⟩ := List.mem_map.mp hassigned
    obtain ⟨record, hrow, as, has⟩ : ∃ record, s.server.store.rows m = some record ∧
        ∃ as, MatchStore.parseAssignments record.configJson = some as := by
      rw [Server.assignments, MatchStore.configOf] at hna
      cases hrow : s.server.store.rows m with
      | none => simp [hrow] at hna
      | some record =>
        cases has : MatchStore.parseAssignments record.configJson with
        | none => simp [hrow, has] at hna
        | some as => exact ⟨record, rfl, as, has⟩
    have hstate : record.state ≠ .finished := by
      intro h
      rw [MatchStore.stateOf, hrow, Option.map_some, h] at hfin
      exact hfin rfl
    obtain ⟨identity, hid⟩ := Option.ne_none_iff_exists'.mp
      ((addressed_run hrun).identity_of_unstopped (List.mem_of_head? hrunning))
    obtain ⟨ws, s', hrun', hdone⟩ := stop_completes (P := P) hsound hrow hstate has
    obtain ⟨es, htrace, hstopped⟩ := hdone.stopped
    have hsame := (hspares ws s' hrun').1
    rw [htrace, stopsTo_append] at hsame
    have hnil := List.append_right_eq_self.mp hsame
    rw [stopsTo, List.filter_eq_nil_iff] at hnil
    exact hnil _ (hstopped na hna identity hid).1 (decide_eq_true rfl)
  · intro hcond ws s' hrun'
    obtain ⟨s1, h1, hrun'⟩ := run_cons_eq_some.mp hrun'
    have hcalled : Sparing m n s.next s.server s1 := by
      rw [← Option.some.inj h1]
      exact .called (Dict.set_self ..) rfl
    have hsparing : Sparing m n s.next s.server s' := by
      refine invariant_of_guarded (I := Sparing m n s.next s.server) ?_ hcalled
        (guarded_solo _ _ _) hrun'
      rintro t a t' ht ⟨w, rfl⟩ hstep
      exact ht.step hcond (hsound.timer_ne_next m) hstep
    cases hsparing with
    | called ht hserver => rw [hserver]; exact ⟨rfl, rfl⟩
    | selected ht hserver => rw [hserver]; exact ⟨rfl, rfl⟩
    | sending na rest ht hna hrest huntouched => exact huntouched
    | ending outcome pc ht hpc huntouched => exact huntouched

open Sample in
/-- Node `n` is assigned to both `m` and `m'`, and `m'` is started. -/
def otherStarted : List Act :=
  [register "n" [1], .call (.start "m'" 30)] ++ runs 0 1 0 ++ runs 1 7 5

theorem stop_spares_iff_otherStarted : ∃ s,
    run (step Sample.platform) (Sample.boot [("m", ["n"]), ("m'", ["n"])]) otherStarted = some s ∧
      ((∀ ws s', run (step Sample.platform) s (.call (.stop "m") :: solo s.next ws) = some s' →
          Untouched "n" s.server s'.server) ↔
        s.server.store.stateOf "m" = some .finished ∨
          "n" ∉ (s.server.assignments "m").map (·.nodeId)) := by
  obtain ⟨s, hs, h⟩ := Option.map_eq_some_iff.mp
    (show (run (step Sample.platform) (Sample.boot [("m", ["n"]), ("m'", ["n"])])
      otherStarted).map (fun s => unstopped "n" s.server.trace) = some ["m'"] by decide +kernel)
  exact ⟨s, hs, stop_spares_iff hs (by rw [h]; rfl) (by decide)⟩

/-- A `stop` of `m`, which is still in `LOBBY`, stops the node in the middle of
`m'` and marks it `READY`. -/
theorem stop_touches_running_node : ∃ s ws s',
    run (step Sample.platform) (Sample.boot [("m", ["n"]), ("m'", ["n"])]) otherStarted = some s ∧
      (unstopped "n" s.server.trace).head? = some "m'" ∧
      s.server.store.stateOf "m" = some .lobby ∧
      run (step Sample.platform) s (.call (.stop "m") :: solo s.next ws) = some s' ∧
      (stopsTo "n" s.server.trace).length = 0 ∧ (stopsTo "n" s'.server.trace).length = 1 ∧
      s.server.registry.stateOf "n" = some .running ∧
      s'.server.registry.stateOf "n" = some .ready := by
  obtain ⟨s, hs, h⟩ := Option.map_eq_some_iff.mp
    (show (run (step Sample.platform) (Sample.boot [("m", ["n"]), ("m'", ["n"])])
      otherStarted).map (fun s => (unstopped "n" s.server.trace, s.server.store.stateOf "m",
        (stopsTo "n" s.server.trace).length, s.server.registry.stateOf "n", s.next))
          = some (["m'"], some .lobby, 0, some .running, 3) by decide +kernel)
  obtain ⟨s', hs', h'⟩ := Option.map_eq_some_iff.mp
    (show (run (step Sample.platform) (Sample.boot [("m", ["n"]), ("m'", ["n"])])
      (otherStarted ++ .call (.stop "m") :: solo 3 (List.replicate 5 {}))).map
        (fun s => ((stopsTo "n" s.server.trace).length, s.server.registry.stateOf "n"))
          = some (1, some .ready) by decide +kernel)
  obtain ⟨t, ht, hs'⟩ := run_append_eq_some.mp hs'
  obtain rfl : s = t := Option.some.inj (hs.symm.trans ht)
  simp only [Prod.mk.injEq] at h h'
  obtain ⟨hrunning, hlobby, hstops, hnode, hnext⟩ := h
  exact ⟨s, List.replicate 5 {}, s', hs, by rw [hrunning]; rfl, hlobby, hnext ▸ hs', hstops, h'.1,
    hnode, h'.2⟩

end Sys
