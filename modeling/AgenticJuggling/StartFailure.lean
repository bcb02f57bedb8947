/-
What a `start` that raises leaves behind.

A `start` that is alone on its match moves the row from `LOBBY` to `STARTING`
and from there to `RUNNING`, or back to `LOBBY` when the nodes are not ready in
time.  No other exception is undone.

* `StartStretch` — what one stretch of a `start` does to the row, the key and
  the timer of its match;
* `Sys.start_undone_iff` — the match is left as it was exactly when the
  exception comes while its row is `LOBBY`.
-/
import AgenticJuggling.MatchFrame
import AgenticJuggling.Reconnect

open Transition

/-- The state of the row while a `start` that is alone on its match is here. -/
def Pc.startRow : Pc → Option MatchState
  | .startCall _ => some .lobby
  | .startGet _ _ => some .lobby
  | .startingWrote _ _ _ => some .starting
  | .startingCommit _ _ _ => some .starting
  | .polling _ _ _ => some .starting
  | .runningWrote _ _ _ => some .running
  | .runningCommit _ _ _ => some .running
  | .startSent _ _ _ _ => some .running
  -- The update back to `LOBBY` has been issued.
  | .wrote _ _ => some .lobby
  | .committing _ => some .lobby
  | _ => none

theorem Pc.exists_startRow {pc : Pc} (hkind : pc.OfKind .start) (hdone : pc.isDone = false) :
    ∃ state, pc.startRow = some state := by
  cases pc with
  | startCall readyTimeout => exact ⟨_, rfl⟩
  | startGet readyTimeout record => exact ⟨_, rfl⟩
  | startingWrote readyTimeout record as => exact ⟨_, rfl⟩
  | startingCommit readyTimeout record as => exact ⟨_, rfl⟩
  | polling deadline record as => exact ⟨_, rfl⟩
  | runningWrote t0 record as => exact ⟨_, rfl⟩
  | runningCommit t0 record as => exact ⟨_, rfl⟩
  | startSent t0 record na rest => exact ⟨_, rfl⟩
  | wrote db outcome => exact ⟨_, rfl⟩
  | committing outcome => exact ⟨_, rfl⟩
  | done outcome => cases hdone
  | stopGet record => rcases hkind with h | h <;> cases h
  | stopSent na rest => rcases hkind with h | h <;> cases h
  | _ => cases hkind

namespace MatchManager

variable {P : Platform}

/-- What a stretch of a `start` of `m` that stands at `pc` can be. -/
inductive StartStretch (m : MatchId) (s : Server) (pc : Pc) : Stretch → Prop
  /-- The row stays; the key and the timer are touched only once it is `RUNNING`. -/
  | stays (r : Stretch) (hrow : r.server.store.rows m = s.store.rows m)
      (hkept : pc.startRow ≠ some .running →
        r.server.crypto = s.crypto ∧ r.server.timers = s.timers)
      (hpc : r.pc.startRow = none ∨ r.pc.startRow = pc.startRow) :
      StartStretch m s pc r
  | writes (r : Stretch) (state : MatchState) (t0 : Option ℚ)
      (hfrom : pc.startRow ≠ some .running) (hpc : r.pc.startRow = some state)
      (ht0 : state ≠ .running → t0 = none)
      (hstore : r.server.store = s.store.updateState m state t0)
      (hcrypto : r.server.crypto = s.crypto) (htimers : r.server.timers = s.timers) :
      StartStretch m s pc r

section Cases

variable {m : MatchId} {s : Server} {pc : Pc}

theorem startStretch_finish (outcome : Outcome) : StartStretch m s pc (finish s outcome) :=
  .stays _ rfl (fun _ => ⟨rfl, rfl⟩) (.inl rfl)

theorem startStretch_dbError : StartStretch m s pc (dbError s) :=
  .stays _ rfl (fun _ => ⟨rfl, rfl⟩) (.inl rfl)

theorem startStretch_update {state : MatchState} {t0 : Option ℚ} {next : Pc} (tid : TaskId)
    (w : World) (hfrom : pc.startRow ≠ some .running) (hnext : next.startRow = some state)
    (ht0 : state ≠ .running → t0 = none) :
    StartStretch m s pc (updateState tid w s m state t0 next) := by
  rw [updateState]
  by_cases hok : w.dbOk
  · rw [if_pos hok]
    exact .writes _ state t0 hfrom hnext ht0 rfl rfl rfl
  · rw [if_neg hok]
    exact startStretch_dbError

theorem startStretch_commit {next : Pc} (w : World) (db : Connection)
    (hnext : next.startRow = pc.startRow) : StartStretch m s pc (commit w s db next) := by
  unfold commit
  by_cases hok : w.dbOk
  · rw [if_pos hok]
    cases db with
    | matchDb => exact .stays _ rfl (fun _ => ⟨rfl, rfl⟩) (.inr hnext)
    | metricsDb => exact .stays _ rfl (fun _ => ⟨rfl, rfl⟩) (.inr hnext)
  · rw [if_neg hok]
    exact startStretch_dbError

theorem startStretch_startGate (tid : TaskId) (w : World) (readyTimeout : ℚ)
    (record : Option MatchRecord) (hpc : pc.startRow = some .lobby) :
    StartStretch m s pc (startGate tid w s m readyTimeout record) := by
  have hfrom : pc.startRow ≠ some .running := by
    rw [hpc]
    exact fun h => by cases h
  cases record with
  | none => exact startStretch_finish _
  | some record =>
    rw [startGate]
    by_cases hlobby : record.state = .lobby
    · rw [if_pos hlobby]
      cases MatchStore.parseAssignments record.configJson with
      | none => exact startStretch_finish _
      | some as => exact startStretch_update tid w hfrom rfl fun _ => rfl
    · rw [if_neg hlobby]
      exact startStretch_finish _

theorem startStretch_poll (tid : TaskId) (w : World) (deadline : ℚ) (record : MatchRecord)
    (as : List NodeAssignment) (hpc : pc.startRow = some .starting) :
    StartStretch m s pc (poll tid w s m deadline record as) := by
  have hfrom : pc.startRow ≠ some .running := by
    rw [hpc]
    exact fun h => by cases h
  rw [poll]
  split
  · exact startStretch_update tid w hfrom rfl fun h => absurd rfl h
  · split
    · exact startStretch_update tid w hfrom rfl fun _ => rfl
    · exact .stays _ rfl (fun _ => ⟨rfl, rfl⟩) (.inr hpc.symm)

theorem startStretch_dispatchLoop {r : Stretch} {fresh : TaskId} {w : World} {t0 : ℚ}
    {record : MatchRecord} {s' : Server} {as : List NodeAssignment}
    (hpc : pc.startRow = some .running) (hr : DispatchStretch P fresh w m t0 record s' as r)
    (hstore : s'.store = s.store) : StartStretch m s pc r := by
  refine .stays r (by rw [hr.store, hstore]) (fun h => absurd hpc h) ?_
  cases hr with
  | ended hskip => exact .inl rfl
  | sent skipped na rest identity payload has hskip hsent => exact .inr hpc.symm
  | failed e => exact .inl rfl

end Cases

/-- **Every stretch of a `start` is one of these.** -/
theorem resume_startStretch (tid fresh : TaskId) (s : Server) (t : ServerTask) (w : World)
    (hkind : t.pc.OfKind .start) :
    StartStretch t.matchId s t.pc (resume P tid fresh s t w) := by
  obtain ⟨kind, m, pc, mustCancel⟩ := t
  cases pc with
  | startCall readyTimeout =>
    show StartStretch m s _ (beginStart w s m readyTimeout)
    rw [beginStart]
    by_cases hok : w.dbOk
    · rw [if_pos hok]
      exact .stays _ rfl (fun _ => ⟨rfl, rfl⟩) (.inr rfl)
    · rw [if_neg hok]
      exact startStretch_dbError
  | startGet readyTimeout record => exact startStretch_startGate tid w readyTimeout record rfl
  | startingWrote readyTimeout record as => exact startStretch_commit w .matchDb rfl
  | startingCommit readyTimeout record as => exact startStretch_poll tid w _ record as rfl
  | polling deadline record as => exact startStretch_poll tid w deadline record as rfl
  | runningWrote t0 record as => exact startStretch_commit w .matchDb rfl
  | runningCommit t0 record as =>
    show StartStretch m s _ (dispatchStart P fresh w s m t0 record as)
    rcases dispatchStart_cases (P := P) fresh w s m t0 record as with h | ⟨-, hloop⟩
    · rw [h]
      exact startStretch_finish _
    · exact startStretch_dispatchLoop rfl hloop rfl
  | startSent t0 record na rest =>
    exact startStretch_dispatchLoop rfl (dispatchLoop_stretch fresh w m t0 record
      (s.mark na.nodeId .running) rest 0) rfl
  | wrote db outcome => exact startStretch_commit w db rfl
  | committing outcome => exact startStretch_finish outcome
  | done outcome => exact startStretch_finish outcome
  | stopGet record => rcases hkind with h | h <;> cases h
  | stopSent na rest => rcases hkind with h | h <;> cases h
  | _ => cases hkind

end MatchManager

namespace Sys

variable {P : Platform}

open MatchManager

/-- No other operation on `m` takes a step while task `tid` is at work. -/
def AloneOn (m : MatchId) (tid : TaskId) (s : Sys) : Act → Prop
  | .call _ => True
  | .run tid' w => tid' = tid ∨ s.Elsewhere m (.run tid' w)

instance (m : MatchId) (tid : TaskId) (s : Sys) (a : Act) : Decidable (AloneOn m tid s a) := by
  cases a with
  | call c => exact .isTrue trivial
  | run tid' w =>
    exact inferInstanceAs (Decidable (tid' = tid ∨
      ∀ t ∈ s.tasks tid', t.matchId ≠ m ∨ t.kind = .dispatch))

/-- The nodes that a step of task `tid` marks `RUNNING`. -/
def marksOf (tid : TaskId) (s : Sys) : Act → List NodeId
  | .call _ => []
  | .run tid' w => if tid' = tid then (s.runMarks (.run tid' w)).toList else []

/-- The match is left as it was before its `start`: in `LOBBY` and not started,
without a key or a timer, and none of the nodes that the `start` has marked is
`RUNNING` still. -/
structure Undone (m : MatchId) (marked : List NodeId) (s : Server) : Prop where
  lobby : s.store.stateOf m = some .lobby
  t0 : s.store.t0Of m = none
  key : s.crypto.matchKeys m = none
  timer : s.timers m = none
  nodes : ∀ n ∈ marked, s.registry.stateOf n ≠ some .running

/-- The row of `m` is in `state`; unless that is `RUNNING`, everything else is as
it was in `s0`, and no node has been marked. -/
structure Staged (m : MatchId) (s0 s : Server) (marked : List NodeId) (state : MatchState) :
    Prop where
  row : s.store.stateOf m = some state
  t0 : state ≠ .running → s.store.t0Of m = s0.store.t0Of m
  key : state ≠ .running → s.crypto.matchKeys m = s0.crypto.matchKeys m
  timer : state ≠ .running → s.timers m = s0.timers m
  marked : state ≠ .running → marked = []

theorem Staged.of_sameMatch {m : MatchId} {s0 s s' : Server} {marked : List NodeId}
    {state : MatchState} (h : Staged m s0 s marked state) (hs : s.SameMatch m s') :
    Staged m s0 s' marked state where
  row := by rw [MatchStore.stateOf, hs.row]; exact h.row
  t0 hne := by rw [MatchStore.t0Of, hs.row]; exact h.t0 hne
  key hne := hs.key.trans (h.key hne)
  timer hne := hs.timer.trans (h.timer hne)
  marked := h.marked

/-- A stretch that leaves the row alone. -/
theorem Staged.stays {m : MatchId} {s0 s s' : Server} {seen marks : List NodeId}
    {state : MatchState} (h : Staged m s0 s seen state)
    (hrow : s'.store.rows m = s.store.rows m)
    (hkept : state ≠ .running → s'.crypto = s.crypto ∧ s'.timers = s.timers)
    (hmarks : state ≠ .running → marks = []) : Staged m s0 s' (seen ++ marks) state where
  row := by rw [MatchStore.stateOf, hrow]; exact h.row
  t0 hne := by rw [MatchStore.t0Of, hrow]; exact h.t0 hne
  key hne := by rw [(hkept hne).1]; exact h.key hne
  timer hne := by rw [(hkept hne).2]; exact h.timer hne
  marked hne := by rw [h.marked hne, hmarks hne]; rfl

/-- **One stretch of a `start` moves it from stage to stage.** -/
theorem Staged.stretch {m : MatchId} {s0 s : Server} {seen marks : List NodeId} {pc : Pc}
    {state : MatchState} {r : Stretch} (hpc : pc.startRow = some state)
    (h : Staged m s0 s seen state) (hr : StartStretch m s pc r)
    (hmarks : state ≠ .running → marks = []) :
    ∀ state', r.pc.startRow = some state' → Staged m s0 r.server (seen ++ marks) state' := by
  intro state' hpc'
  cases hr with
  | stays hrow hkept hstays =>
    rcases hstays with hnone | hsame
    · rw [hnone] at hpc'
      cases hpc'
    · obtain rfl : state = state' := Option.some.inj (hpc.symm.trans (hsame.symm.trans hpc'))
      exact h.stays hrow (fun hne => hkept (by rwa [hpc, ne_eq, Option.some_inj])) hmarks
  | writes new t0 hfrom hnew ht0 hstore hcrypto htimers =>
    obtain rfl : new = state' := Option.some.inj (hnew.symm.trans hpc')
    have hne : state ≠ .running := by rwa [hpc, ne_eq, Option.some_inj] at hfrom
    constructor
    · rw [hstore, MatchStore.updateState_stateOf, if_pos rfl, h.row]
      rfl
    · intro hnew'
      -- The update leaves `t0` alone.
      rw [hstore, ht0 hnew', MatchStore.t0Of, MatchStore.updateState_rows, if_pos rfl]
      rw [← h.t0 hne, MatchStore.t0Of]
      cases s.store.rows m with
      | none => rfl
      | some row => rfl
    · intro _
      rw [hcrypto]
      exact h.key hne
    · intro _
      rw [htimers]
      exact h.timer hne
    · intro _
      rw [h.marked hne, hmarks hne]
      rfl

/-- A `start` of `m` that has been alone on `m` since it was called on `s0`. -/
def StartsAloneFrom (m : MatchId) (tid : TaskId) (s0 : Server) (s : Sys) (marked : List NodeId) :
    Prop :=
  ∃ t, s.tasks tid = some t ∧ t.kind = .start ∧ t.matchId = m ∧
    ∀ state, t.pc.startRow = some state → Staged m s0 s.server marked state

/-- A task's own step settles it. -/
theorem Sound.own_step {s s' : Sys} (hs : s.Sound) {tid : TaskId} {t : ServerTask} {w : World}
    (ht : s.tasks tid = some t) (h : Sys.step P s (.run tid w) = some s') :
    t.pc.isDone = false ∧
      s'.tasks tid = some (settle tid t (resume P tid s.next s.server t w)) ∧
      s'.server = (resume P tid s.next s.server t w).server := by
  rcases step_cases h with ⟨c, hc, -⟩ | ⟨tid', w', t', ha, ht', hdone, rfl⟩
  · cases hc
  · obtain ⟨rfl, rfl⟩ := Act.run.inj ha
    obtain rfl : t = t' := Option.some.inj (ht.symm.trans ht')
    refine ⟨hdone, ?_, apply_server ..⟩
    obtain ⟨u, hu, -⟩ := s.apply_tasks_of_some ht ht (hs.lt_next ht)
      (r := resume P tid s.next s.server t w)
    rcases apply_tasks hu with ⟨-, rfl⟩ | ⟨h, -⟩ | ⟨h, -⟩
    · exact hu
    · exact absurd h (Nat.ne_of_lt (hs.lt_next ht))
    · exact absurd rfl h

/-- Only a `start` in the send of a `START` marks a node, and then its row is
`RUNNING`. -/
theorem marksOf_eq_nil {s : Sys} {tid : TaskId} {t : ServerTask} {w : World} {state : MatchState}
    (ht : s.tasks tid = some t) (hpc : t.pc.startRow = some state) (hne : state ≠ .running) :
    s.marksOf tid (.run tid w) = [] := by
  rw [marksOf, if_pos rfl, runMarks, ht]
  cases hpc' : t.pc with
  | startSent t0 record na rest =>
    rw [hpc'] at hpc
    exact absurd (Option.some.inj hpc).symm hne
  | _ => simp [hpc']

theorem StartsAloneFrom.step {m : MatchId} {tid : TaskId} {s0 : Server} {s s' : Sys} {a : Act}
    {seen : List NodeId} (hsound : s.Sound) (hs : StartsAloneFrom m tid s0 s seen)
    (ha : s.AloneOn m tid a) (h : Sys.step P s a = some s') :
    StartsAloneFrom m tid s0 s' (seen ++ s.marksOf tid a) := by
  obtain ⟨t, ht, hkind, hm, hstage⟩ := hs
  by_cases hown : ∃ w, a = .run tid w
  · obtain ⟨w, rfl⟩ := hown
    -- A stretch of the `start` itself goes from one stage to the next.
    obtain ⟨hdone, hu, hserver⟩ := hsound.own_step ht h
    have hofKind : t.pc.OfKind .start := hkind ▸ hsound.kind tid t ht
    obtain ⟨state, hpc⟩ := Pc.exists_startRow hofKind hdone
    have hr := resume_startStretch (P := P) tid s.next s.server t w hofKind
    rw [hm] at hr
    refine ⟨_, hu, (settle_kind ..).trans hkind, (settle_matchId ..).trans hm, ?_⟩
    intro state' hstate'
    rw [hserver]
    rcases settle_pc tid t (resume P tid s.next s.server t w) with hsame | hcancelled
    · rw [hsame] at hstate'
      exact (hstage state hpc).stretch hpc hr (marksOf_eq_nil ht hpc) state' hstate'
    · rw [hcancelled] at hstate'
      cases hstate'
  · push Not at hown
    -- Any other step leaves the row, the key and the timer of the match alone.
    have helsewhere : s.Elsewhere m a := by
      cases a with
      | call c => trivial
      | run tid' w =>
        refine ha.resolve_left ?_
        rintro rfl
        exact hown w rfl
    have hrow : ∀ state, t.pc.startRow = some state → s.server.store.rows m ≠ none := by
      intro state hpc hnone
      have h := (hstage state hpc).row
      rw [MatchStore.stateOf, hnone] at h
      cases h
    have hmarks : s.marksOf tid a = [] := by
      cases a with
      | call c => rfl
      | run tid' w =>
        rw [marksOf, if_neg]
        rintro rfl
        exact hown w rfl
    have hauto : t.kind ≠ .autoStop := by
      rw [hkind]
      exact fun h => by cases h
    refine ⟨t, hsound.task_kept h ht hauto hown, hkind, hm, fun state hpc => ?_⟩
    rw [hmarks, List.append_nil]
    exact (hstage state hpc).of_sameMatch (hsound.sameMatch h (hrow state hpc) helsewhere)

/-- **When a `start` that raises is undone**: exactly if the match had nothing left
from an earlier start, and the exception comes while the row is `LOBBY`, before
the update to `STARTING` or behind the update that takes it back. -/
theorem start_undone_iff {tokens : Dict NodeId String} {rows : Dict MatchId MatchRecord}
    {metrics : MetricsStore} {past acts : List Act} {s0 s1 s2 : Sys} {m : MatchId}
    {readyTimeout : ℚ} {t : ServerTask} {w : World} {e : Raised}
    (hpast : run (step P) (boot tokens rows metrics) past = some s0)
    (hlobby : s0.server.store.stateOf m = some .lobby)
    (halone : Guarded (step P) (AloneOn m s0.next) s0 (.call (.start m readyTimeout) :: acts))
    (hrun : run (step P) s0 (.call (.start m readyTimeout) :: acts) = some s1)
    (ht : s1.tasks s0.next = some t) (hstep : step P s1 (.run s0.next w) = some s2)
    (hraised : s2.outcomeOf s0.next = some (.raised e)) :
    Undone m (observed (step P) (marksOf s0.next) s0
        (.call (.start m readyTimeout) :: acts ++ [.run s0.next w])) s2.server ↔
      (s0.server.store.t0Of m = none ∧ s0.server.crypto.matchKeys m = none ∧
        s0.server.timers m = none) ∧ t.pc.startRow = some .lobby := by
  have hsound : s0.Sound := sound_run (sound_boot ..) hpast
  obtain ⟨s, hcall, hacts⟩ := run_cons_eq_some.mp hrun
  have hcalled : s.Sound ∧ StartsAloneFrom m s0.next s0.server s [] := by
    refine ⟨hsound.step hcall, ?_⟩
    obtain rfl := Option.some.inj hcall
    refine ⟨_, Dict.set_self .., rfl, rfl, fun state hstate => ?_⟩
    obtain rfl : MatchState.lobby = state := Option.some.inj hstate
    exact ⟨hlobby, fun _ => rfl, fun _ => rfl, fun _ => rfl, fun _ => rfl⟩
  have hseen : observed (step P) (marksOf s0.next) s0 (.call (.start m readyTimeout) :: acts)
      = [] ++ observed (step P) (marksOf s0.next) s acts := by
    rw [observed, hcall]
    rfl
  -- Until the last stretch the task is a `start` that has undone or kept its writes.
  obtain ⟨hsound1, t', ht', hkind, hm, hstage⟩ := invariant_of_guarded_observed
    (I := fun s seen => s.Sound ∧ StartsAloneFrom m s0.next s0.server s seen)
    (fun s seen a s' hs ha h => ⟨hs.1.step h, hs.2.step hs.1 ha h⟩) hcalled (halone.2 s hcall) hacts
  rw [← hseen] at hstage
  obtain rfl : t' = t := Option.some.inj (ht'.symm.trans ht)
  -- The last stretch ends in the exception.
  obtain ⟨hdone, hu, hserver⟩ := hsound1.own_step ht hstep
  have hofKind : t'.pc.OfKind .start := hkind ▸ hsound1.kind _ t' ht
  obtain ⟨state, hpc⟩ := Pc.exists_startRow hofKind hdone
  have hr := resume_startStretch (P := P) s0.next s1.next s1.server t' w hofKind
  rw [outcomeOf, hu, Option.bind_some] at hraised
  have hend : (resume P s0.next s1.next s1.server t' w).pc.startRow = none := by
    rcases settle_pc s0.next t' (resume P s0.next s1.next s1.server t' w) with h | h
    · rw [h] at hraised
      cases hpc' : (resume P s0.next s1.next s1.server t' w).pc with
      | done outcome => rfl
      | _ => rw [hpc'] at hraised; cases hraised
    · rw [h] at hraised
      cases hraised
  have hlast : observed (step P) (marksOf s0.next) s1 [.run s0.next w]
      = marksOf s0.next s1 (.run s0.next w) := by
    rw [observed, hstep]
    exact List.append_nil _
  rw [observed_append hrun, hlast]
  have hfinal : Staged m s0.server s2.server (observed (step P) (marksOf s0.next) s0
      (.call (.start m readyTimeout) :: acts) ++ marksOf s0.next s1 (.run s0.next w)) state := by
    rw [hserver]
    rw [hm] at hr
    cases hr with
    | stays hrow hkept _ =>
      exact (hstage state hpc).stays hrow (fun hne => hkept (by rwa [hpc, ne_eq, Option.some_inj]))
        (marksOf_eq_nil ht hpc)
    | writes new t0 hfrom hnew ht0 hstore hcrypto htimers =>
      rw [hend] at hnew
      cases hnew
  constructor
  · intro hundone
    obtain rfl : state = .lobby := Option.some.inj (hfinal.row.symm.trans hundone.lobby)
    have hne : MatchState.lobby ≠ .running := fun h => by cases h
    refine ⟨⟨?_, ?_, ?_⟩, hpc⟩
    · rw [← hfinal.t0 hne]
      exact hundone.t0
    · rw [← hfinal.key hne]
      exact hundone.key
    · rw [← hfinal.timer hne]
      exact hundone.timer
  · rintro ⟨⟨ht0, hkey, htimer⟩, hlobby'⟩
    obtain rfl : state = .lobby := Option.some.inj (hpc.symm.trans hlobby')
    have hne : MatchState.lobby ≠ .running := fun h => by cases h
    refine ⟨hfinal.row, (hfinal.t0 hne).trans ht0, (hfinal.key hne).trans hkey,
      (hfinal.timer hne).trans htimer, fun n hn => ?_⟩
    rw [hfinal.marked hne] at hn
    exact (List.not_mem_nil hn).elim

open Sample in
/-- Node `n` never registers, and the `start` of `m` gives up on it. -/
theorem start_undone_iff_notReady : ∃ s1 s2,
    run (step platform) (Sample.boot [("m", ["n"])]) (.call (.start "m" 0) :: runs 0 5 0)
        = some s1 ∧
      step platform s1 (.run 0 {}) = some s2 ∧
      Undone "m" (observed (step platform) (marksOf 0) (Sample.boot [("m", ["n"])])
        (.call (.start "m" 0) :: runs 0 5 0 ++ [.run 0 {}])) s2.server := by
  obtain ⟨s2, hs2, h2⟩ := Option.map_eq_some_iff.mp
    (show (run (step platform) (Sample.boot [("m", ["n"])])
        ((.call (.start "m" 0) :: runs 0 5 0) ++ [.run 0 {}])).map (fun s => s.outcomeOf 0)
      = some (some (.raised (.readyTimeout ["n"]))) by decide +kernel)
  obtain ⟨s1, hs1, hlast⟩ := run_append_eq_some.mp hs2
  obtain ⟨s2', hstep, hs2'⟩ := run_cons_eq_some.mp hlast
  obtain rfl : s2' = s2 := Option.some.inj hs2'
  obtain ⟨s1', hs1', h1⟩ := Option.map_eq_some_iff.mp
    (show (run (step platform) (Sample.boot [("m", ["n"])])
        (.call (.start "m" 0) :: runs 0 5 0)).map (fun s => (s.tasks 0).bind (·.pc.startRow))
      = some (some .lobby) by decide +kernel)
  obtain rfl : s1 = s1' := Option.some.inj (hs1.symm.trans hs1')
  obtain ⟨t, ht, hpc⟩ := Option.bind_eq_some_iff.mp h1
  exact ⟨s1, s2', hs1, hstep, (start_undone_iff (run_nil _) (by decide +kernel)
    (by decide +kernel) hs1 ht hstep h2).mpr ⟨by decide +kernel, hpc⟩⟩

open Sample in
/-- Nodes `n` and `n'` are ready, and the second `START` cannot be sent: `m` stays
`RUNNING`, with its key, and `n` with it. -/
theorem start_leaves_match_running : ∃ s0 s1 s2,
    run (step platform) (Sample.boot [("m", ["n", "n'"])])
        ([register "n" [1], register "n'" [2]] ++ runs 0 1 0 ++ runs 1 1 0) = some s0 ∧
      (s0.server.store.stateOf "m" = some .lobby ∧ s0.server.store.t0Of "m" = none ∧
        s0.server.crypto.matchKeys "m" = none ∧ s0.server.timers "m" = none) ∧
      Guarded (step platform) (AloneOn "m" s0.next) s0 (.call (.start "m" 30) :: runs 2 6 5) ∧
      run (step platform) s0 (.call (.start "m" 30) :: runs 2 6 5) = some s1 ∧
      step platform s1 (.run 2 { sendOk := false }) = some s2 ∧
      s2.outcomeOf 2 = some (.raised .send) ∧
      s2.server.store.stateOf "m" = some .running ∧ s2.server.store.t0Of "m" = some 5 ∧
      (s2.server.crypto.matchKeys "m").isSome = true ∧
      s2.server.registry.stateOf "n" = some .running ∧
      ¬Undone "m" (observed (step platform) (marksOf s0.next) s0
        (.call (.start "m" 30) :: runs 2 6 5 ++ [.run 2 { sendOk := false }])) s2.server := by
  obtain ⟨s2, hs2, h2⟩ := Option.map_eq_some_iff.mp
    (show (run (step platform) (Sample.boot [("m", ["n", "n'"])])
        (([register "n" [1], register "n'" [2]] ++ runs 0 1 0 ++ runs 1 1 0) ++
          ((.call (.start "m" 30) :: runs 2 6 5) ++ [.run 2 { sendOk := false }]))).map
        (fun s => (s.outcomeOf 2, s.server.store.stateOf "m", s.server.store.t0Of "m",
          (s.server.crypto.matchKeys "m").isSome, s.server.registry.stateOf "n"))
      = some (some (.raised .send), some .running, some 5, true, some .running)
      by decide +kernel)
  obtain ⟨s0, hs0, hs2⟩ := run_append_eq_some.mp hs2
  obtain ⟨s1, hs1, hlast⟩ := run_append_eq_some.mp hs2
  obtain ⟨s2', hstep, hs2'⟩ := run_cons_eq_some.mp hlast
  obtain rfl : s2' = s2 := Option.some.inj hs2'
  obtain ⟨s0', hs0', hlobby, ht0, hkey, htimer, hguard⟩ : ∃ s0',
      run (step platform) (Sample.boot [("m", ["n", "n'"])])
        ([register "n" [1], register "n'" [2]] ++ runs 0 1 0 ++ runs 1 1 0) = some s0' ∧
      s0'.server.store.stateOf "m" = some .lobby ∧ s0'.server.store.t0Of "m" = none ∧
        s0'.server.crypto.matchKeys "m" = none ∧ s0'.server.timers "m" = none ∧
        Guarded (step platform) (AloneOn "m" s0'.next) s0'
          (.call (.start "m" 30) :: runs 2 6 5) := by
    refine ⟨_, rfl, ?_⟩
    decide +kernel
  obtain rfl : s0 = s0' := Option.some.inj (hs0.symm.trans hs0')
  simp only [Prod.mk.injEq] at h2
  obtain ⟨houtcome, hrow, ht0', hkey', hn⟩ := h2
  refine ⟨s0, s1, s2', hs0, ⟨hlobby, ht0, hkey, htimer⟩, hguard, hs1, hstep, houtcome, hrow, ht0',
    hkey', hn, fun hundone => ?_⟩
  have hlobby' := hrow.symm.trans hundone.lobby
  cases hlobby'

end Sys
