/-
A `stop` that runs alone.

A task is *solo* in a run that consists of its own stretches only.

* `loop_completes` — the loop of a solo `stop` sends to every node it can reach
  and finishes the match;
* `stop_completes` — with every request and send answered, a solo `stop` of an
  unfinished match runs to its end and does all that stopping a match takes.
-/
import AgenticJuggling.NodeHistory

open Transition MatchManager

/-- The assignments of a match, as its row has them. -/
def Server.assignments (s : Server) (m : MatchId) : List NodeAssignment :=
  ((s.store.configOf m).bind MatchStore.parseAssignments).getD []

namespace Sys

/-- The assignments as the row of the match has them. -/
theorem assignments_of_row {s : Server} {m : MatchId} {record : MatchRecord}
    {as : List NodeAssignment} (hrow : s.store.rows m = some record)
    (has : MatchStore.parseAssignments record.configJson = some as) : s.assignments m = as := by
  rw [Server.assignments, MatchStore.configOf, hrow, Option.map_some, Option.bind_some, has]
  rfl

variable {P : Platform}

/-- Task `tid` runs through these stretches, and nothing else runs. -/
def solo (tid : TaskId) (ws : List World) : List Act := ws.map (.run tid)

/-- Solo runs take only steps of their task. -/
theorem guarded_solo (s : Sys) (tid : TaskId) (ws : List World) :
    Guarded (step P) (fun _ a => ∃ w, a = .run tid w) s (solo tid ws) := by
  refine guarded_of_forall (fun a ha => ?_) s
  obtain ⟨w, -, rfl⟩ := List.mem_map.mp ha
  exact ⟨w, rfl⟩

/-- How a task ended. -/
def outcomeOf (s : Sys) (tid : TaskId) : Option Outcome := (s.tasks tid).bind (·.pc.outcome)

/-- All that stopping match `m` takes, for a stop that runs as task `tid` from
`s` to `s'`. -/
structure StopDone (m : MatchId) (tid : TaskId) (s s' : Sys) : Prop where
  returned : s'.outcomeOf tid = some .returned
  committed : (s'.server.store.committed m).map (·.state) = some .finished
  revoked : s'.server.crypto.matchKeys m = none
  timer : s'.server.timers m = none
  stopped : ∃ es, s'.server.trace = s.server.trace ++ es ∧
    ∀ na ∈ s.server.assignments m, ∀ identity,
      s.server.registry.identityFor na.nodeId = some identity →
        .sent na.nodeId identity .stop (stopPayload m) ∈ es ∧
          s'.server.registry.stateOf na.nodeId = some .ready

/-! ### A manual stop -/

/-- One stretch of a task that nobody is cancelling. -/
theorem step_alone {s : Sys} {tid : TaskId} {t : ServerTask} (ht : s.tasks tid = some t)
    (hd : t.pc.isDone = false) (hm : t.mustCancel = false) (w : World) {r : Stretch}
    (hr : resume P tid s.next s.server t w = r) (hc : r.cancels = none)
    (hsp : r.spawns = none) : step P s (.run tid w)
      = some { s with server := r.server, tasks := s.tasks.set tid { t with pc := r.pc } } := by
  rw [step_run ht hd, hr, apply_alone s hm hc hsp]

/-- What a solo `stop` does from server `s` on, with the assignments `as` still
to go through. -/
structure Completes (m : MatchId) (tid : TaskId) (as : List NodeAssignment) (s : Server)
    (s' : Sys) : Prop where
  returned : s'.outcomeOf tid = some .returned
  committed : (s'.server.store.committed m).map (·.state) = some .finished
  revoked : s'.server.crypto.matchKeys m = none
  timers : s'.server.timers = s.timers
  sent : ∃ es, s'.server.trace = s.trace ++ es ∧ ∀ na ∈ as, ∀ identity,
    s.registry.identityFor na.nodeId = some identity →
      .sent na.nodeId identity .stop (stopPayload m) ∈ es
  ready : ∀ n, s.registry.identityFor n ≠ none →
    (s.registry.stateOf n = some .ready ∨ ∃ na ∈ as, na.nodeId = n) →
      s'.server.registry.stateOf n = some .ready

/-- The commit of `FINISHED` and the return. -/
theorem finish_completes {s : Sys} {tid : TaskId} {kind : TaskKind} {m : MatchId}
    {row : MatchRecord} (hpc : s.tasks tid = some ⟨kind, m, .wrote .matchDb .returned, false⟩)
    (hrow : s.server.store.rows m = some row) (hfin : row.state = .finished)
    (hkey : s.server.crypto.matchKeys m = none) :
    ∃ s', run (step P) s (solo tid [{}, {}]) = some s' ∧ Completes m tid [] s.server s' := by
  have h1 := step_alone (P := P) hpc rfl rfl {} rfl rfl rfl
  have hpc' : (s.tasks.set tid ⟨kind, m, .committing .returned, false⟩) tid
      = some ⟨kind, m, .committing .returned, false⟩ := Dict.set_self ..
  have h2 := step_alone (P := P) (s := ⟨{ s.server with store := s.server.store.commit },
    s.tasks.set tid ⟨kind, m, .committing .returned, false⟩, s.next⟩) hpc' rfl rfl {} rfl rfl rfl
  refine ⟨_, run_cons_eq_some.mpr ⟨_, h1, run_cons_eq_some.mpr ⟨_, h2, rfl⟩⟩, ?_, ?_, hkey, rfl,
    ⟨[], (List.append_nil _).symm, fun na h => (List.not_mem_nil h).elim⟩, fun n _ h => ?_⟩
  · simp only [outcomeOf, Dict.set_self]
    rfl
  · show (s.server.store.rows m).map (·.state) = some .finished
    rw [hrow, ← hfin]
    rfl
  · rcases h with h | ⟨na, hna, -⟩
    · exact h
    · exact (List.not_mem_nil hna).elim

/-- No node is left to be reached: the key is revoked, and the match is written
as finished. -/
theorem ended_completes {tid : TaskId} {kind : TaskKind} {m : MatchId} {as : List NodeAssignment}
    {sv : Server} {s : Sys}
    (hserver : s.server = (MatchManager.updateState tid {}
      { sv with crypto := sv.crypto.revokeMatchKey m } m .finished none
      (.wrote .matchDb .returned)).server)
    (htask : s.tasks tid = some ⟨kind, m, .wrote .matchDb .returned, false⟩)
    (hrow : sv.store.rows m ≠ none)
    (hskip : ∀ na ∈ as, sv.registry.identityFor na.nodeId = none) :
    ∃ s', run (step P) s (solo tid [{}, {}]) = some s' ∧ Completes m tid as sv s' := by
  obtain ⟨row, hrow⟩ := Option.ne_none_iff_exists'.mp hrow
  have hrow' : s.server.store.rows m = some { row with state := .finished, t0 := row.t0 } := by
    rw [hserver]
    exact (MatchStore.updateState_rows ..).trans (by rw [if_pos rfl, hrow]; rfl)
  have hkey : s.server.crypto.matchKeys m = none := by
    rw [hserver]
    exact Dict.pop_self ..
  obtain ⟨s', hrun, hdone⟩ := finish_completes (P := P) htask hrow' rfl hkey
  obtain ⟨es, htrace, -⟩ := hdone.sent
  have hwrote : s.server.trace = sv.trace ++ [.rowWritten tid m .finished none] := by
    rw [hserver]
    simp [MatchManager.updateState, hrow]
  refine ⟨s', hrun, hdone.returned, hdone.committed, hdone.revoked, ?_,
    ⟨.rowWritten tid m .finished none :: es, ?_, fun na hna identity hid => ?_⟩,
    fun n hid hready => ?_⟩
  · rw [hdone.timers, hserver]
    rfl
  · rw [htrace, hwrote, List.append_assoc]
    rfl
  · rw [hskip na hna] at hid
    cases hid
  · refine hdone.ready n (by rw [hserver]; exact hid) (.inl ?_)
    rw [hserver]
    rcases hready with h | ⟨na, hna, rfl⟩
    · exact h
    · exact absurd (hskip na hna) hid

/-- A `stop` that completes for the assignments behind `na` completes for all of
them, if it has just sent to `na`. -/
theorem Completes.sent_first {m : MatchId} {tid : TaskId} {skipped rest : List NodeAssignment}
    {na : NodeAssignment} {identity : Bytes} {sv : Server} {s' : Sys}
    (hskip : ∀ na' ∈ skipped, sv.registry.identityFor na'.nodeId = none)
    (hidentity : sv.registry.identityFor na.nodeId = some identity)
    (h : Completes m tid rest
      ((sv.log (.sent na.nodeId identity .stop (stopPayload m))).mark na.nodeId .ready) s') :
    Completes m tid (skipped ++ na :: rest) sv s' := by
  obtain ⟨es, htrace, hsent⟩ := h.sent
  refine ⟨h.returned, h.committed, h.revoked, h.timers,
    ⟨[.sent na.nodeId identity .stop (stopPayload m), .marked na.nodeId .ready] ++ es, ?_,
      fun na' hna' identity' hid => ?_⟩, fun n hid hready => ?_⟩
  · rw [htrace]
    simp
  · rw [List.mem_append, List.mem_cons] at hna'
    rcases hna' with hna' | rfl | hna'
    · rw [hskip na' hna'] at hid
      cases hid
    · obtain rfl : identity = identity' := Option.some.inj (hidentity.symm.trans hid)
      exact List.mem_cons_self
    · refine List.mem_append_right _ (hsent na' hna' identity' ?_)
      rw [Server.mark_registry, NodeRegistry.updateState_identityFor]
      exact hid
  · refine h.ready n (by
      rw [Server.mark_registry, NodeRegistry.updateState_identityFor]; exact hid) ?_
    rw [Server.mark_registry]
    by_cases hna : n = na.nodeId
    · exact .inl (hna ▸ NodeRegistry.updateState_stateOf_self (hna ▸ hid) _)
    · rw [NodeRegistry.updateState_stateOf_of_ne _ hna]
      rcases hready with hready | ⟨na', hmem, rfl⟩
      · exact .inl hready
      · rw [List.mem_append, List.mem_cons] at hmem
        rcases hmem with hmem | rfl | hmem
        · exact absurd (hskip na' hmem) hid
        · exact absurd rfl hna
        · exact .inr ⟨na', hmem, rfl⟩

/-- **The loop of a solo `stop` runs to its end.**  By induction on the number
of assignments left: each stretch sends to the first node it can reach. -/
theorem loop_completes {tid : TaskId} {kind : TaskKind} {m : MatchId} (as : List NodeAssignment)
    (sv : Server) (s : Sys) (hserver : s.server = (stopLoop tid {} m sv as).server)
    (htask : s.tasks tid = some ⟨kind, m, (stopLoop tid {} m sv as).pc, false⟩)
    (hrow : sv.store.rows m ≠ none) :
    ∃ ws s', run (step P) s (solo tid ws) = some s' ∧ Completes m tid as sv s' := by
  induction hn : as.length using Nat.strong_induction_on generalizing as sv s with
  | _ n ih =>
    have hstretch := stopLoop_stretch tid {} m sv as
    generalize stopLoop tid {} m sv as = r at hserver htask hstretch
    cases hstretch with
    | ended hskip =>
      obtain ⟨s', hrun, hdone⟩ := ended_completes (P := P) hserver htask hrow hskip
      exact ⟨_, s', hrun, hdone⟩
    | sent skipped na rest identity has hskip hidentity =>
      subst has
      -- The next stretch marks `na` and goes on with `rest`.
      have hframe := (stopLoop_stretch tid {} m (s.server.mark na.nodeId .ready) rest).frame
      have hstep := step_alone (P := P) htask rfl rfl {} rfl hframe.2.2.2.1 hframe.2.2.2.2
      have hlen : rest.length < n := by
        rw [← hn, List.length_append, List.length_cons]
        omega
      obtain ⟨ws, s', hrun, hdone⟩ := ih rest.length hlen rest (s.server.mark na.nodeId .ready)
        { s with
          server := (stopLoop tid {} m (s.server.mark na.nodeId .ready) rest).server
          tasks := s.tasks.set tid
            ⟨kind, m, (stopLoop tid {} m (s.server.mark na.nodeId .ready) rest).pc, false⟩ }
        rfl (Dict.set_self ..) (by rw [hserver]; exact hrow) rfl
      rw [hserver] at hdone
      exact ⟨_ :: ws, s', run_cons_eq_some.mpr ⟨_, hstep, hrun⟩, hdone.sent_first hskip hidentity⟩
    | failed hreach hok => cases hok

theorem Sound.timer_ne_next {s : Sys} (hs : s.Sound) (m : MatchId) :
    s.server.timers m ≠ some s.next := by
  intro h
  obtain ⟨t, ht, -⟩ := hs.timer m s.next h
  exact Nat.lt_irrefl _ (hs.lt_next ht)

/-- The stretch of `stop` behind its state check, in a task that is not the
timer of the match. -/
theorem step_stopGate {s : Sys} {tid : TaskId} {kind : TaskKind} {m : MatchId}
    {record : MatchRecord} {as : List NodeAssignment}
    (ht : s.tasks tid = some ⟨kind, m, .stopGet (some record), false⟩)
    (hstate : record.state ≠ .finished)
    (has : MatchStore.parseAssignments record.configJson = some as)
    (htimer : s.server.timers m ≠ some tid) (w : World) :
    ∃ s', step P s (.run tid w) = some s' ∧
      s'.server = (stopLoop tid w m { s.server with timers := s.server.timers.pop m } as).server ∧
      s'.tasks tid = some ⟨kind, m,
        (stopLoop tid w m { s.server with timers := s.server.timers.pop m } as).pc, false⟩ := by
  have hr : resume P tid s.next s.server ⟨kind, m, .stopGet (some record), false⟩ w
      = { stopLoop tid w m { s.server with timers := s.server.timers.pop m } as with
          cancels := s.server.timers m } := by
    simp [resume, stopGate, hstate, has]
  have hsp := (stopLoop_stretch tid w m { s.server with timers := s.server.timers.pop m } as).frame.2.2.2.2
  refine ⟨_, step_run ht rfl w, ?_, ?_⟩
  · rw [apply_server, hr]
  · rw [hr]
    refine (apply_self s ?_).trans ?_
    · exact hsp
    · simp [settle, htimer]

/-- **A manual `stop` that runs alone completes** for every unfinished match. -/
theorem stop_completes {s : Sys} (hs : s.Sound) {m : MatchId} {record : MatchRecord}
    {as : List NodeAssignment} (hrow : s.server.store.rows m = some record)
    (hstate : record.state ≠ .finished)
    (has : MatchStore.parseAssignments record.configJson = some as) :
    ∃ ws s', run (step P) s (.call (.stop m) :: solo s.next ws) = some s' ∧
      StopDone m s.next s s' := by
  set s1 : Sys := { s with
    tasks := s.tasks.set s.next (Call.task (.stop m)), next := s.next + 1 } with hs1
  have hcall : step P s (.call (.stop m)) = some s1 := rfl
  have ht1 : s1.tasks s.next = some (Call.task (.stop m)) := Dict.set_self ..
  have h2 := step_alone (P := P) ht1 rfl rfl {} rfl rfl rfl
  set s2 : Sys := { s1 with
    tasks := s1.tasks.set s.next ⟨.stop, m, .stopGet (some record), false⟩ } with hs2
  have h2 : step P s1 (.run s.next {}) = some s2 := by
    rw [hs2, ← hrow]
    exact h2
  obtain ⟨s3, h3, hserver, htask⟩ := step_stopGate (P := P) (s := s2) (Dict.set_self ..) hstate has
    (hs.timer_ne_next m) {}
  obtain ⟨ws, s', hrun, hdone⟩ := loop_completes (P := P) as _ s3 hserver htask
    (by rw [hs2]; exact hrow ▸ Option.some_ne_none _)
  refine ⟨{} :: {} :: ws, s', ?_, hdone.returned, hdone.committed, hdone.revoked, ?_, ?_⟩
  · exact run_cons_eq_some.mpr ⟨s1, hcall, run_cons_eq_some.mpr ⟨s2, h2,
      run_cons_eq_some.mpr ⟨s3, h3, hrun⟩⟩⟩
  · rw [hdone.timers]
    exact Dict.pop_self ..
  · obtain ⟨es, htrace, hsent⟩ := hdone.sent
    have hassigned := assignments_of_row hrow has
    refine ⟨es, htrace, fun na hna identity hid => ?_⟩
    rw [hassigned] at hna
    exact ⟨hsent na hna identity hid,
      hdone.ready na.nodeId (ne_of_eq_of_ne hid (Option.some_ne_none _)) (.inr ⟨na, hna, rfl⟩)⟩

end Sys
