/-
How many turns a task of the server takes.

Between two turns of a task the others may do what they like, and every request may
fail.  Still each turn brings the task nearer to its end, except for a poll of
`_await_ready` that finds a node missing before its deadline.  A turn ends at an `await`
of the source, where a suspension of the model may stand for more than one.  A `METRICS`
message is followed until its row is committed.

* `MatchManager.resume_turns` — after a suspension there are its turns less to take, or it
  was such a poll;
* `Sys.task_ends` — a task takes no more turns than its kind and the assignments of
  its match allow.
-/
import AgenticJuggling.Footprint

open Transition

/-- How many turns a task of this kind takes, for a match with `n` assignments. -/
def TaskKind.turns (n : ℕ) : TaskKind → ℕ
  | .create => 3
  | .start => n + 8
  | .stop => n + 6
  | .autoStop => n + 7
  | .dispatch => 6

/-- How many turns of the source lead from a suspension to the next: three behind a `SELECT`,
with `execute`, `fetchone` and the cursor's `close`, and two for a timer, whose task has to
begin its sleep. -/
def Pc.awaits : Pc → ℕ
  | .sleeping _ => 2
  | .startGet _ _ => 3
  | .stopGet _ => 3
  | .metricsGet _ _ _ => 3
  | .hookGet _ _ _ => 3
  | _ => 1

/-- How many turns are left to a task that stands here.  What it has not yet read of
its match's row has no more than `n` assignments. -/
def Pc.turns (n : ℕ) (pc : Pc) : ℕ :=
  match pc with
  | .createCall _ => 3
  | .startCall _ => n + 8
  | .stopCall => n + 6
  | .received _ => 6
  | .startGet _ _ => pc.targets.length + 7
  | .startingWrote _ _ as => as.length + 4
  | .startingCommit _ _ as => as.length + 3
  | .polling _ _ as => as.length + 3
  | .runningWrote _ _ as => as.length + 2
  | .runningCommit _ _ as => as.length + 1
  | .startSent _ _ _ rest => rest.length + 1
  | .sleeping _ => n + 7
  | .stopGet _ => pc.targets.length + 5
  | .stopSent _ rest => rest.length + 3
  | .metricsGet _ _ _ => 5
  | .hookGet _ _ _ => 5
  | .wrote _ _ => 2
  | .committing _ => 1
  | .done _ => 0

theorem Pc.turns_pos {n : ℕ} {pc : Pc} (h : pc.isDone = false) : 0 < pc.turns n := by
  cases pc with
  | done outcome => cases h
  | _ => exact Nat.succ_pos _

/-- A row with more assignments allows for more turns than it asks for. -/
theorem Pc.turns_mono {k : TaskKind} {pc : Pc} (hkind : pc.OfKind k) {n n' : ℕ} (hn : n ≤ n') :
    pc.turns n' + k.turns n ≤ pc.turns n + k.turns n' := by
  have hle : k.turns n ≤ k.turns n' := by
    cases k with
    | create => exact le_rfl
    | dispatch => exact le_rfl
    | start => exact Nat.add_le_add_right hn 8
    | stop => exact Nat.add_le_add_right hn 6
    | autoStop => exact Nat.add_le_add_right hn 7
  cases pc with
  | startCall readyTimeout =>
    obtain rfl : k = .start := hkind
    show n' + 8 + (n + 8) ≤ n + 8 + (n' + 8)
    omega
  | stopCall =>
    obtain rfl : k = .stop := hkind
    show n' + 6 + (n + 6) ≤ n + 6 + (n' + 6)
    omega
  | sleeping delay =>
    obtain rfl : k = .autoStop := hkind
    show n' + 7 + (n + 7) ≤ n + 7 + (n' + 7)
    omega
  | _ => exact Nat.add_le_add_left hle _

namespace MatchManager

variable {P : Platform}

/-- The turn is a poll of `_await_ready` that finds a node missing before its
deadline. -/
def waits (s : Server) (w : World) : Pc → Bool
  | .startingCommit readyTimeout _ as =>
    decide (missing s as ≠ []) && decide (w.mono < w.monoEntry + readyTimeout)
  | .polling deadline _ as => decide (missing s as ≠ []) && decide (w.mono < deadline)
  | _ => false

section Turns

variable {n : ℕ}

theorem turns_updateState (tid : TaskId) (w : World) (s : Server) (m : MatchId)
    (state : MatchState) (t0 : Option ℚ) (next : Pc) :
    (updateState tid w s m state t0 next).pc.turns n ≤ next.turns n := by
  rcases updateState_pc tid w s m state t0 next with hpc | hpc
  · rw [hpc]
  · rw [hpc]
    exact Nat.zero_le _

theorem turns_commit (w : World) (s : Server) (db : Connection) (next : Pc) :
    (commit w s db next).pc.turns n ≤ next.turns n := by
  rcases commit_pc w s db next with hpc | hpc
  · rw [hpc]
  · rw [hpc]
    exact Nat.zero_le _

theorem turns_beginCreate (tid : TaskId) (w : World) (s : Server) (config : MatchConfig) :
    (beginCreate tid w s config).pc.turns n ≤ 2 := by
  unfold beginCreate
  split
  · split
    · exact Nat.zero_le _
    · exact le_rfl
  · exact Nat.zero_le _

theorem length_targets_get (s : Server) (m : MatchId) :
    (((s.store.get m).bind fun record =>
      MatchStore.parseAssignments record.configJson).getD []).length
        = (s.assignments m).length := by
  rw [Server.assignments, MatchStore.configOf, Option.bind_map]
  rfl

theorem turns_beginStart (w : World) (s : Server) (m : MatchId) (readyTimeout : ℚ) :
    (beginStart w s m readyTimeout).pc.turns n ≤ (s.assignments m).length + 7 := by
  unfold beginStart
  split
  · exact Nat.add_le_add_right (length_targets_get s m).le 7
  · exact Nat.zero_le _

theorem turns_beginStop (w : World) (s : Server) (m : MatchId) :
    (beginStop w s m).pc.turns n ≤ (s.assignments m).length + 5 := by
  unfold beginStop
  split
  · exact Nat.add_le_add_right (length_targets_get s m).le 5
  · exact Nat.zero_le _

theorem turns_startGate (tid : TaskId) (w : World) (s : Server) (m : MatchId) (readyTimeout : ℚ)
    (record : Option MatchRecord) : (startGate tid w s m readyTimeout record).pc.turns n
      ≤ (Pc.startGet readyTimeout record).targets.length + 4 := by
  cases record with
  | none => exact Nat.zero_le _
  | some record =>
    rw [startGate]
    split
    · split
      · exact Nat.zero_le _
      · rename_i as has
        have htargets : (Pc.startGet readyTimeout (some record)).targets = as := by
          simp [Pc.targets, Pc.plan, has]
        rw [htargets]
        exact turns_updateState ..
    · exact Nat.zero_le _

/-- A poll that is no waiting brings `start` to its next write. -/
theorem turns_poll (tid : TaskId) (w : World) (s : Server) (m : MatchId) (deadline : ℚ)
    (record : MatchRecord) (as : List NodeAssignment) :
    (poll tid w s m deadline record as).pc.turns n +
      (if decide (missing s as ≠ []) && decide (w.mono < deadline) then 0 else 1)
        ≤ as.length + 3 := by
  rw [poll]
  by_cases hmissing : missing s as = []
  · rw [if_pos hmissing, if_neg (by simp [hmissing])]
    exact Nat.add_le_add_right (turns_updateState ..) 1
  · rw [if_neg hmissing]
    by_cases hlate : deadline ≤ w.mono
    · rw [if_pos hlate, if_neg (by simp [hlate])]
      have hturns := turns_updateState (n := n) tid w s m .lobby none
        (.wrote .matchDb (.raised (.readyTimeout (missing s as))))
      have htwo : (Pc.wrote .matchDb (.raised (.readyTimeout (missing s as)))).turns n = 2 := rfl
      omega
    · rw [if_neg hlate, if_pos (by simp [hmissing, not_le.mp hlate])]
      exact le_rfl

theorem DispatchStretch.turns {fresh : TaskId} {w : World} {m : MatchId} {t0 : ℚ}
    {record : MatchRecord} {s : Server} {as : List NodeAssignment} {r : Stretch}
    (h : DispatchStretch P fresh w m t0 record s as r) : r.pc.turns n ≤ as.length := by
  cases h with
  | ended hskip => exact Nat.zero_le _
  | sent skipped na rest identity payload has hskip hsent =>
    rw [has, List.length_append, List.length_cons]
    exact Nat.le_add_left _ _
  | failed e => exact Nat.zero_le _

theorem turns_dispatchStart (fresh : TaskId) (w : World) (s : Server) (m : MatchId) (t0 : ℚ)
    (record : MatchRecord) (as : List NodeAssignment) :
    (dispatchStart P fresh w s m t0 record as).pc.turns n ≤ as.length := by
  rcases dispatchStart_cases (P := P) fresh w s m t0 record as with heq | ⟨-, hloop⟩
  · rw [heq]
    exact Nat.zero_le _
  · exact hloop.turns

theorem StopStretch.turns {tid : TaskId} {w : World} {m : MatchId} {s : Server}
    {as : List NodeAssignment} {r : Stretch} (h : StopStretch tid w m s as r) :
    r.pc.turns n ≤ as.length + 2 := by
  rcases h.pc_cases with hpc | ⟨e, hpc⟩ | ⟨skipped, na, rest, has, hpc⟩
  · rw [hpc]
    exact Nat.le_add_left _ _
  · rw [hpc]
    exact Nat.zero_le _
  · rw [hpc, has, List.length_append, List.length_cons]
    show rest.length + 3 ≤ skipped.length + (rest.length + 1) + 2
    omega

theorem turns_stopGate (tid : TaskId) (kind : TaskKind) (w : World) (s : Server) (m : MatchId)
    (record : Option MatchRecord) : (stopGate tid kind w s m record).pc.turns n
      ≤ (Pc.stopGet record).targets.length + 2 := by
  cases record with
  | none => exact Nat.zero_le _
  | some record =>
    rw [stopGate]
    split
    · exact Nat.zero_le _
    · cases has : MatchStore.parseAssignments record.configJson with
      | none => exact Nat.zero_le _
      | some as =>
        have htargets : (Pc.stopGet (some record)).targets = as := by
          simp [Pc.targets, has]
        rw [htargets]
        exact (stopLoop_stretch tid w m { s with timers := s.timers.pop m } as).turns

theorem MessageStretch.turns {s : Server} {w : World} {pc : Pc} {r : Stretch}
    (h : MessageStretch P s w pc r) (hpc : 5 ≤ pc.turns n) :
    r.pc.turns n + pc.awaits ≤ pc.turns n := by
  have hawaits : pc.awaits ≤ 5 := by
    cases pc <;> exact Nat.le_of_ble_eq_true rfl
  cases h with
  | ended outcome => exact (Nat.zero_add _).le.trans (hawaits.trans hpc)
  | failed => exact (Nat.zero_add _).le.trans (hawaits.trans hpc)
  | register frames identity payload hframes =>
    exact (Nat.zero_add _).le.trans (hawaits.trans hpc)
  | _ => exact le_rfl

/-- **Each suspension leaves fewer turns to take, or it is a poll that waits.** -/
theorem resume_turns (tid fresh : TaskId) (s : Server) (t : ServerTask) (w : World)
    (hn : (s.assignments t.matchId).length ≤ n) (hd : t.pc.isDone = false) :
    (resume P tid fresh s t w).pc.turns n + (if waits s w t.pc then 0 else t.pc.awaits)
      ≤ t.pc.turns n := by
  obtain ⟨kind, m, pc, mustCancel⟩ := t
  cases pc with
  | createCall config => exact Nat.add_le_add_right (turns_beginCreate ..) 1
  | startCall readyTimeout =>
    exact Nat.add_le_add_right ((turns_beginStart ..).trans (Nat.add_le_add_right hn 7)) 1
  | stopCall =>
    exact Nat.add_le_add_right ((turns_beginStop ..).trans (Nat.add_le_add_right hn 5)) 1
  | received frames => exact (dispatch_message frames).turns (Nat.le_succ 5)
  | startGet readyTimeout record => exact Nat.add_le_add_right (turns_startGate ..) 3
  | startingWrote readyTimeout record as => exact Nat.add_le_add_right (turns_commit ..) 1
  | startingCommit readyTimeout record as => exact turns_poll ..
  | polling deadline record as => exact turns_poll ..
  | runningWrote t0 record as => exact Nat.add_le_add_right (turns_commit ..) 1
  | runningCommit t0 record as => exact Nat.add_le_add_right (turns_dispatchStart ..) 1
  | startSent t0 record na rest =>
    exact Nat.add_le_add_right (dispatchLoop_stretch (P := P) fresh w m t0 record _ rest 0).turns 1
  | sleeping delay =>
    exact Nat.add_le_add_right ((turns_beginStop ..).trans (Nat.add_le_add_right hn 5)) 2
  | stopGet record => exact Nat.add_le_add_right (turns_stopGate ..) 3
  | stopSent na rest => exact Nat.add_le_add_right (stopLoop_stretch tid w m _ rest).turns 1
  | metricsGet nodeId kvs record => exact (ingestMetric_message nodeId kvs record).turns le_rfl
  | hookGet nodeId kvs record => exact (ingestHook_message nodeId kvs record).turns le_rfl
  | wrote db outcome => exact Nat.add_le_add_right (turns_commit ..) 1
  | committing outcome => exact le_rfl
  | done outcome => cases hd

end Turns

end MatchManager

theorem Server.length_assignments_of_keeps {s s' : Server} (h : s.store.Keeps s'.store)
    (m : MatchId) : (s.assignments m).length ≤ (s'.assignments m).length := by
  cases hplan : s.planOf m with
  | none =>
    rw [assignments, ← planOf, hplan]
    exact Nat.zero_le _
  | some as =>
    rw [assignments_of_planOf hplan, assignments_of_planOf (planOf_of_keeps h hplan)]

namespace Sys

variable {P : Platform}

/-- The turns of task `tid`, one entry for each, the polls at which it only waits left
out. -/
def busyTurns (tid : TaskId) (s : Sys) : Act → List Pc
  | .call _ => []
  | .run tid' w =>
    match s.tasks tid with
    | none => []
    | some t =>
      if tid' = tid ∧ MatchManager.waits s.server w t.pc = false then
        List.replicate t.pc.awaits t.pc
      else []

/-- How many assignments the row of the task's match has. -/
def width (s : Sys) (t : ServerTask) : ℕ := (s.server.assignments t.matchId).length

/-- `seen` are turns of task `tid`, and with those left to it they are no more than its
kind allows. -/
structure Spent (tid : TaskId) (s : Sys) (seen : List Pc) : Prop where
  unborn : s.next ≤ tid → seen = []
  turns : ∀ t, s.tasks tid = some t →
    seen.length + t.pc.turns (s.width t) ≤ t.kind.turns (s.width t)

theorem turns_call (c : Call) (n : ℕ) : c.task.pc.turns n ≤ c.task.kind.turns n := by
  cases c <;> exact le_rfl

theorem busyTurns_of_none {tid : TaskId} {s : Sys} {a : Act} (h : s.tasks tid = none) :
    busyTurns tid s a = [] := by
  cases a with
  | call c => rfl
  | run tid' w => rw [busyTurns, h]

theorem busyTurns_of_ne {tid tid' : TaskId} {s : Sys} {w : World} (h : tid' ≠ tid) :
    busyTurns tid s (.run tid' w) = [] := by
  rw [busyTurns]
  split
  · rfl
  · exact if_neg fun hand => h hand.1

/-- Another task's step takes no turn of this one. -/
theorem Spent.other {tid : TaskId} {s s' : Sys} {seen : List Pc} (hs : s.Sound)
    (hspent : s.Spent tid seen) (hkeeps : s.server.store.Keeps s'.server.store)
    {u : ServerTask} (hu : s.tasks tid = some u) :
    seen.length + u.pc.turns (s'.width u) ≤ u.kind.turns (s'.width u) := by
  have hmono := Pc.turns_mono (hs.kind tid u hu)
    (Server.length_assignments_of_keeps hkeeps u.matchId)
  have hle := hspent.turns u hu
  rw [width] at hle ⊢
  omega

/-- A turn of the task is counted, unless it waits. -/
theorem Spent.turn {tid : TaskId} {s s' : Sys} {seen : List Pc} (hs : s.Sound)
    (hspent : s.Spent tid seen) {t : ServerTask} (ht : s.tasks tid = some t)
    (hd : t.pc.isDone = false) (w : World)
    (hs' : s' = s.apply tid t (MatchManager.resume P tid s.next s.server t w)) :
    (seen ++ busyTurns tid s (.run tid w)).length +
      (settle tid t (MatchManager.resume P tid s.next s.server t w)).pc.turns (s'.width t)
        ≤ t.kind.turns (s'.width t) := by
  have hkeeps : s.server.store.Keeps s'.server.store := by
    rw [hs', apply_server]
    exact MatchManager.resume_keeps ..
  have hturns := MatchManager.resume_turns (P := P) tid s.next s.server t w
    (Server.length_assignments_of_keeps hkeeps t.matchId) hd
  have hbusy : (busyTurns tid s (.run tid w)).length
      = if MatchManager.waits s.server w t.pc then 0 else t.pc.awaits := by
    rw [busyTurns, ht]
    cases hwaits : MatchManager.waits s.server w t.pc <;> simp [hwaits]
  have hsettle : (settle tid t (MatchManager.resume P tid s.next s.server t w)).pc.turns
      (s'.width t) ≤ (MatchManager.resume P tid s.next s.server t w).pc.turns (s'.width t) := by
    rcases settle_pc tid t (MatchManager.resume P tid s.next s.server t w) with hpc | hpc
    · rw [hpc]
    · rw [hpc]
      exact Nat.zero_le _
  have hle := hspent.other hs hkeeps ht
  rw [List.length_append, hbusy]
  rw [width] at hle hsettle ⊢
  omega

theorem Spent.step {tid : TaskId} {s s' : Sys} {a : Act} {seen : List Pc} (hs : s.Sound)
    (hspent : s.Spent tid seen) (h : step P s a = some s') :
    s'.Spent tid (seen ++ busyTurns tid s a) := by
  have hkeeps := step_keeps h
  have hnew : s.next ≤ tid → seen ++ busyTurns tid s a = [] := by
    intro hle
    rw [hspent.unborn hle, busyTurns_of_none (hs.fresh tid hle), List.nil_append]
  rcases step_cases h with ⟨c, rfl, rfl⟩ | ⟨tid', w, t, rfl, ht, hd, rfl⟩
  · refine ⟨fun hle => hnew (Nat.le_of_succ_le hle), fun u hu => ?_⟩
    have hu : s.tasks.set s.next c.task tid = some u := hu
    by_cases hn : tid = s.next
    · rw [hnew hn.ge]
      rw [hn, Dict.set_self, Option.some_inj] at hu
      rw [← hu, List.length_nil, Nat.zero_add]
      exact turns_call c _
    · rw [Dict.set_of_ne _ hn] at hu
      rw [busyTurns, List.append_nil]
      exact hspent.turns u hu
  · refine ⟨fun hle => hnew ((le_apply_next ..).trans hle), fun u hu => ?_⟩
    rcases apply_tasks hu with ⟨rfl, rfl⟩ | ⟨hn, delay, -, rfl⟩ | ⟨hne, u', hu', rfl | ⟨-, rfl⟩⟩
    · rw [settle_kind, width, settle_matchId]
      exact hspent.turn hs ht hd w rfl
    · rw [hnew hn.ge, List.length_nil, Nat.zero_add]
      exact le_rfl
    · rw [busyTurns_of_ne (Ne.symm hne), List.append_nil]
      exact hspent.other hs hkeeps hu'
    · rw [busyTurns_of_ne (Ne.symm hne), List.append_nil, cancelTask_kind, width,
        cancelTask_matchId]
      have hle := hspent.other hs hkeeps hu'
      rcases cancelTask_pc u' with hpc | hpc
      · rw [hpc]
        exact hle
      · rw [hpc]
        exact (Nat.le_add_right _ _).trans hle

/-- **Every task ends.**  Whatever the others do between its turns and whatever fails, a
task takes no more turns than its kind and the assignments of its match allow, polls
before the deadline of `_await_ready` apart, and fewer as long as it has not ended. -/
theorem task_ends {tokens : Dict NodeId String} {rows : Dict MatchId MatchRecord}
    {metrics : MetricsStore} {acts : List Act} {s : Sys}
    (hrun : run (step P) (boot tokens rows metrics) acts = some s) {tid : TaskId}
    {t : ServerTask} (ht : s.tasks tid = some t) :
    (observed (step P) (busyTurns tid) (boot tokens rows metrics) acts).length
        ≤ t.kind.turns (s.width t) ∧
      (t.pc.isDone = false →
        (observed (step P) (busyTurns tid) (boot tokens rows metrics) acts).length
          < t.kind.turns (s.width t)) := by
  have hinvariant : s.Sound ∧ s.Spent tid
      ([] ++ observed (step P) (busyTurns tid) (boot tokens rows metrics) acts) :=
    invariant_of_observed (I := fun s seen => s.Sound ∧ s.Spent tid seen)
      (fun s seen a s' hs h => ⟨hs.1.step h, hs.2.step hs.1 h⟩)
      ⟨sound_boot .., fun _ => rfl, fun t ht => by cases ht⟩ hrun
  have hle := hinvariant.2.turns t ht
  rw [List.nil_append] at hle
  refine ⟨(Nat.le_add_right _ _).trans hle, fun hd => ?_⟩
  have hpos := Pc.turns_pos (n := s.width t) hd
  omega

/-- A `start` with one assignment takes all the turns that it may. -/
theorem task_ends_sample : ∃ s t,
    run (step Sample.platform) (Sample.boot [("m", ["n"])]) Sample.started = some s ∧
      s.tasks 1 = some t ∧ t.pc.isDone = true ∧
      (observed (step Sample.platform) (busyTurns 1) (Sample.boot [("m", ["n"])])
        Sample.started).length = 9 ∧
      (observed (step Sample.platform) (busyTurns 1) (Sample.boot [("m", ["n"])])
        Sample.started).length ≤ t.kind.turns (s.width t) ∧ t.kind.turns (s.width t) = 9 := by
  have hruns : (run (step Sample.platform) (Sample.boot [("m", ["n"])]) Sample.started).bind
      (fun s => (s.tasks 1).map fun t => (t.pc.isDone, t.kind.turns (s.width t)))
        = some (true, 9) := by decide +kernel
  obtain ⟨s, hs, h⟩ := Option.bind_eq_some_iff.mp hruns
  obtain ⟨t, ht, heq⟩ := Option.map_eq_some_iff.mp h
  obtain ⟨hdone, hturns⟩ := Prod.mk.inj heq
  have hlength : (observed (step Sample.platform) (busyTurns 1) (Sample.boot [("m", ["n"])])
      Sample.started).length = 9 := by decide +kernel
  exact ⟨s, t, hs, ht, hdone, hlength, (task_ends hs ht).1, hturns⟩

end Sys
