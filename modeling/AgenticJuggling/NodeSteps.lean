/-
What one stretch of a task does to the nodes.

Most stretches only talk to the database.  `NodeStretch` names the others: a
registration, the launch of a match whose nodes are all ready, the two kinds
of stretch of `_dispatch_start` and the two of `stop`.  Every stretch is one
of them (`resume_stretch`), so that a property of the nodes is proved for a
handful of cases and not for every `await` of the server.

* `Sys.Sound.step` — in every run a task stands only where its coroutine can,
  and the timer of a match is an auto-stop task, so that no `start` is ever
  cancelled.
-/
import AgenticJuggling.Loops
import AgenticJuggling.MessageSteps

/-- What a `start` past its readiness check has still to do: mark the node
whose `START` is under way, and send to the rest. -/
structure Duty where
  pending : Option NodeAssignment
  rest : List NodeAssignment

def Pc.duty : Pc → Option Duty
  | .runningWrote _ _ as => some ⟨none, as⟩
  | .runningCommit _ _ as => some ⟨none, as⟩
  | .startSent _ _ na rest => some ⟨some na, rest⟩
  | _ => none

/-- The assignments a `start` is waiting for. -/
def Pc.awaited : Pc → Option (List NodeAssignment)
  | .startingCommit _ _ as => some as
  | .polling _ _ as => some as
  | _ => none

/-- Where a task of each kind can stand; a `start` never ends by a commit. -/
def Pc.OfKind (k : TaskKind) : Pc → Prop
  | .createCall _ => k = .create
  | .startCall _ => k = .start
  | .startGet _ _ => k = .start
  | .startingWrote _ _ _ => k = .start
  | .startingCommit _ _ _ => k = .start
  | .polling _ _ _ => k = .start
  | .runningWrote _ _ _ => k = .start
  | .runningCommit _ _ _ => k = .start
  | .startSent _ _ _ _ => k = .start
  | .stopCall => k = .stop
  | .sleeping _ => k = .autoStop
  | .stopGet _ => k = .stop ∨ k = .autoStop
  | .stopSent _ _ => k = .stop ∨ k = .autoStop
  | .received _ => k = .dispatch
  | .metricsGet _ _ _ => k = .dispatch
  | .hookGet _ _ _ => k = .dispatch
  | .wrote _ outcome => k = .start → outcome ≠ .returned
  | .committing outcome => k = .start → outcome ≠ .returned
  | .done _ => True

/-- A task past the readiness check is a `start`. -/
theorem Pc.OfKind.of_duty {k : TaskKind} {pc : Pc} {d : Duty} (h : pc.OfKind k)
    (hd : pc.duty = some d) : k = .start := by
  cases pc with
  | runningWrote t0 record as => exact h
  | runningCommit t0 record as => exact h
  | startSent t0 record na rest => exact h
  | _ => cases hd

namespace MatchManager

variable {P : Platform}

/-- A stretch that leaves the nodes, the keys and the timers alone. -/
structure Quiet (s : Server) (r : Stretch) : Prop where
  registry : r.server.registry = s.registry
  crypto : r.server.crypto = s.crypto
  timers : r.server.timers = s.timers
  trace : ∃ es : List Event, r.server.trace = s.trace ++ es ∧ ∀ e ∈ es, e.isRow = true
  cancels : r.cancels = none
  spawns : r.spawns = none

theorem quiet_same {s : Server} {r : Stretch} (h : r.server.registry = s.registry)
    (hc : r.server.crypto = s.crypto) (ht : r.server.timers = s.timers)
    (htr : r.server.trace = s.trace) (hca : r.cancels = none) (hsp : r.spawns = none) :
    Quiet s r :=
  ⟨h, hc, ht, ⟨[], by rw [htr, List.append_nil], fun e he => (List.not_mem_nil he).elim⟩, hca, hsp⟩

theorem quiet_finish (s : Server) (outcome : Outcome) : Quiet s (finish s outcome) :=
  quiet_same rfl rfl rfl rfl rfl rfl

theorem quiet_dbError (s : Server) : Quiet s (dbError s) :=
  quiet_same rfl rfl rfl rfl rfl rfl

theorem quiet_updateState (tid : TaskId) (w : World) (s : Server) (m : MatchId)
    (state : MatchState) (t0 : Option ℚ) (next : Pc) :
    Quiet s (updateState tid w s m state t0 next) := by
  unfold updateState
  split
  · refine ⟨rfl, rfl, rfl, ⟨_, rfl, fun e he => ?_⟩, rfl, rfl⟩
    split at he
    · rw [List.mem_singleton.mp he]
      rfl
    · exact (List.not_mem_nil he).elim
  · exact quiet_dbError s

theorem quiet_commit (w : World) (s : Server) (db : Connection) (next : Pc) :
    Quiet s (commit w s db next) := by
  unfold commit
  split
  · cases db with
    | matchDb => exact quiet_same rfl rfl rfl rfl rfl rfl
    | metricsDb => exact quiet_same rfl rfl rfl rfl rfl rfl
  · exact quiet_dbError s

/-- What a stretch can do to the nodes. -/
inductive NodeStretch (P : Platform) (tid fresh : TaskId) (s : Server) (t : ServerTask)
    (w : World) : Stretch → Prop
  | quiet (r : Stretch) (hquiet : Quiet s r)
      (hduty : r.pc.duty = none ∨ r.pc.duty = t.pc.duty)
      (hkind : t.pc.OfKind t.kind → r.pc.OfKind t.kind) :
      NodeStretch P tid fresh s t w r
  | register (frames : List Frame) (identity : Bytes) (payload : Json)
      (hpc : t.pc = .received frames) (hframes : registerOf frames = some (identity, payload)) :
      NodeStretch P tid fresh s t w
        (finish (s.handleRegister P.toPrimitives identity payload w.priv).1
          (s.handleRegister P.toPrimitives identity payload w.priv).2)
  | launch (r : Stretch) (t0 : ℚ) (record : MatchRecord) (as : List NodeAssignment)
      (hpc : t.pc.awaited = some as) (hready : missing s as = []) (hquiet : Quiet s r)
      (hr : r.pc = .runningWrote t0 record as) :
      NodeStretch P tid fresh s t w r
  | begin (r : Stretch) (t0 : ℚ) (record : MatchRecord) (as : List NodeAssignment)
      (hpc : t.pc = .runningCommit t0 record as) (hkey : s.crypto.matchKeys t.matchId = none)
      (hr : DispatchStretch P fresh w t.matchId t0 record
        { s with crypto := { s.crypto with
            matchKeys := s.crypto.matchKeys.set t.matchId w.key } } as r) :
      NodeStretch P tid fresh s t w r
  | next (r : Stretch) (t0 : ℚ) (record : MatchRecord) (na : NodeAssignment)
      (rest : List NodeAssignment) (hpc : t.pc = .startSent t0 record na rest)
      (hr : DispatchStretch P fresh w t.matchId t0 record (s.mark na.nodeId .running) rest r) :
      NodeStretch P tid fresh s t w r
  | stopBegin (r : Stretch) (record : MatchRecord) (as : List NodeAssignment)
      (hpc : t.pc = .stopGet (some record)) (hstate : record.state ≠ .finished)
      (has : MatchStore.parseAssignments record.configJson = some as)
      (hr : StopStretch tid w t.matchId { s with timers := s.timers.pop t.matchId } as r) :
      NodeStretch P tid fresh s t w { r with cancels := s.timers t.matchId }
  | stopMalformed (record : MatchRecord) (hpc : t.pc = .stopGet (some record)) :
      NodeStretch P tid fresh s t w
        { finish { s with timers := s.timers.pop t.matchId } (.raised .malformedConfig) with
          cancels := s.timers t.matchId }
  | stopNext (r : Stretch) (na : NodeAssignment) (rest : List NodeAssignment)
      (hpc : t.pc = .stopSent na rest)
      (hr : StopStretch tid w t.matchId (s.mark na.nodeId .ready) rest r) :
      NodeStretch P tid fresh s t w r

section Cases

variable {tid fresh : TaskId} {s : Server} {t : ServerTask} {w : World}

theorem stretch_finish (outcome : Outcome) : NodeStretch P tid fresh s t w (finish s outcome) :=
  .quiet _ (quiet_finish s outcome) (.inl rfl) fun _ => trivial

theorem stretch_dbError : NodeStretch P tid fresh s t w (dbError s) :=
  .quiet _ (quiet_dbError s) (.inl rfl) fun _ => trivial

/-- A stretch that changes no more than the database. -/
theorem stretch_same {r : Stretch} (hkind : t.pc.OfKind t.kind → r.pc.OfKind t.kind)
    (hpc : r.pc.duty = none) (h : r.server.registry = s.registry)
    (hc : r.server.crypto = s.crypto) (ht : r.server.timers = s.timers)
    (htr : r.server.trace = s.trace) (hca : r.cancels = none) (hsp : r.spawns = none) :
    NodeStretch P tid fresh s t w r :=
  .quiet r (quiet_same h hc ht htr hca hsp) (.inl hpc) hkind

theorem stretch_commit (db : Connection) {next : Pc}
    (hkind : t.pc.OfKind t.kind → next.OfKind t.kind)
    (hnext : next.duty = none ∨ next.duty = t.pc.duty) :
    NodeStretch P tid fresh s t w (commit w s db next) := by
  rcases commit_pc w s db next with h | h
  · exact .quiet _ (quiet_commit w s db next) (by rw [h]; exact hnext) (by rw [h]; exact hkind)
  · exact .quiet _ (quiet_commit w s db next) (by rw [h]; exact .inl rfl)
      (by rw [h]; exact fun _ => trivial)

theorem stretch_updateState {m : MatchId} {state : MatchState} {t0 : Option ℚ} {next : Pc}
    (hkind : t.pc.OfKind t.kind → next.OfKind t.kind) (hnext : next.duty = none) :
    NodeStretch P tid fresh s t w (updateState tid w s m state t0 next) := by
  rcases updateState_pc tid w s m state t0 next with h | h
  · exact .quiet _ (quiet_updateState ..) (by rw [h]; exact .inl hnext) (by rw [h]; exact hkind)
  · exact .quiet _ (quiet_updateState ..) (by rw [h]; exact .inl rfl)
      (by rw [h]; exact fun _ => trivial)

theorem stretch_startGate (m : MatchId) (readyTimeout : ℚ) (record : Option MatchRecord)
    (hpc : t.pc = .startGet readyTimeout record) :
    NodeStretch P tid fresh s t w (startGate tid w s m readyTimeout record) := by
  cases record with
  | none => exact stretch_finish _
  | some record =>
    rw [startGate]
    split
    · split
      · exact stretch_finish _
      · exact stretch_updateState (by rw [hpc]; exact id) rfl
    · exact stretch_finish _

theorem stretch_poll (m : MatchId) (deadline : ℚ) (record : MatchRecord)
    (as : List NodeAssignment) (hpc : t.pc.awaited = some as) :
    NodeStretch P tid fresh s t w (poll tid w s m deadline record as) := by
  have hstart : t.pc.OfKind t.kind → t.kind = .start := by
    cases hp : t.pc with
    | startingCommit readyTimeout record as => exact id
    | polling deadline record as => exact id
    | _ => rw [hp] at hpc; cases hpc
  rw [poll]
  split
  · rename_i hready
    by_cases hok : w.dbOk
    · refine .launch _ w.wall record as hpc hready (quiet_updateState ..) ?_
      rw [updateState, if_pos hok]
    · rw [updateState, if_neg hok]
      exact stretch_dbError
  · split
    · exact stretch_updateState (fun _ _ h => by cases h) rfl
    · exact stretch_same hstart rfl rfl rfl rfl rfl rfl rfl

theorem stretch_dispatchStart (t0 : ℚ) (record : MatchRecord) (as : List NodeAssignment)
    (hpc : t.pc = .runningCommit t0 record as) :
    NodeStretch P tid fresh s t w (dispatchStart P fresh w s t.matchId t0 record as) := by
  rcases dispatchStart_cases (P := P) fresh w s t.matchId t0 record as with h | ⟨hnone, hloop⟩
  · rw [h]
    exact stretch_finish _
  · exact .begin _ t0 record as hpc hnone hloop

theorem stretch_stopGate (record : Option MatchRecord) (hpc : t.pc = .stopGet record) :
    NodeStretch P tid fresh s t w (stopGate tid t.kind w s t.matchId record) := by
  cases record with
  | none => exact stretch_finish _
  | some record =>
    rw [stopGate]
    split
    · exact stretch_finish _
    · rename_i hstate
      cases has : MatchStore.parseAssignments record.configJson with
      | none => exact .stopMalformed record hpc
      | some as => exact .stopBegin _ record as hpc hstate has (stopLoop_stretch ..)

/-- A message registers a node or leaves the nodes alone. -/
theorem stretch_message {pc : Pc} {r : Stretch} (hpc : t.pc = pc)
    (h : MessageStretch P s w pc r) : NodeStretch P tid fresh s t w r := by
  have hstored : t.kind = .dispatch → (Pc.wrote .metricsDb .returned).OfKind t.kind :=
    fun hkind hstart => by cases hkind.symm.trans hstart
  cases h with
  | ended outcome => exact stretch_finish outcome
  | failed => exact stretch_dbError
  | register frames identity payload hframes =>
    exact .register frames identity payload hpc hframes
  | readMetrics frames n kvs hreport hn hnode =>
    exact stretch_same (by rw [hpc]; exact id) rfl rfl rfl rfl rfl rfl rfl
  | readHook frames n kvs hreport hn hnode =>
    exact stretch_same (by rw [hpc]; exact id) rfl rfl rfl rfl rfl rfl rfl
  | metric n kvs record row ht0 hrow =>
    exact stretch_same (by rw [hpc]; exact hstored) rfl rfl rfl rfl rfl rfl rfl
  | hook n kvs record event ht0 hevent =>
    exact stretch_same (by rw [hpc]; exact hstored) rfl rfl rfl rfl rfl rfl rfl

theorem stretch_beginCreate (config : MatchConfig) (hpc : t.pc = .createCall config) :
    NodeStretch P tid fresh s t w (beginCreate tid w s config) := by
  have hkind : t.pc.OfKind t.kind → (Pc.wrote .matchDb .returned).OfKind t.kind := by
    rw [hpc]
    intro h hstart
    cases h.symm.trans hstart
  unfold beginCreate
  split
  · split
    · exact stretch_same (fun _ => trivial) rfl rfl rfl rfl rfl rfl rfl
    · refine .quiet _ ⟨rfl, rfl, rfl, ⟨_, rfl, fun e he => ?_⟩, rfl, rfl⟩ (.inl rfl) hkind
      rw [List.mem_singleton.mp he]
      rfl
  · exact stretch_dbError

theorem stretch_beginStart (m : MatchId) (readyTimeout : ℚ)
    (hpc : t.pc = .startCall readyTimeout) :
    NodeStretch P tid fresh s t w (beginStart w s m readyTimeout) := by
  rw [beginStart]
  split
  · exact stretch_same (by rw [hpc]; exact id) rfl rfl rfl rfl rfl rfl rfl
  · exact stretch_dbError

theorem stretch_beginStop (m : MatchId)
    (hkind : t.pc.OfKind t.kind → t.kind = .stop ∨ t.kind = .autoStop) :
    NodeStretch P tid fresh s t w (beginStop w s m) := by
  rw [beginStop]
  split
  · exact stretch_same hkind rfl rfl rfl rfl rfl rfl rfl
  · exact stretch_dbError

end Cases

/-- **Every stretch is one of these.** -/
theorem resume_stretch (tid fresh : TaskId) (s : Server) (t : ServerTask) (w : World) :
    NodeStretch P tid fresh s t w (resume P tid fresh s t w) := by
  rw [resume]
  cases hpc : t.pc with
  | createCall config => exact stretch_beginCreate config hpc
  | startCall readyTimeout => exact stretch_beginStart _ _ hpc
  | stopCall => exact stretch_beginStop _ (by rw [hpc]; exact .inl)
  | received frames => exact stretch_message hpc (dispatch_message frames)
  | startGet readyTimeout record => exact stretch_startGate _ _ _ hpc
  | startingWrote readyTimeout record as =>
    exact stretch_commit _ (by rw [hpc]; exact id) (.inl rfl)
  | startingCommit readyTimeout record as => exact stretch_poll _ _ _ _ (by rw [hpc]; rfl)
  | polling deadline record as => exact stretch_poll _ _ _ _ (by rw [hpc]; rfl)
  | runningWrote t0 record as =>
    exact stretch_commit _ (by rw [hpc]; exact id) (.inr (by rw [hpc]; rfl))
  | runningCommit t0 record as => exact stretch_dispatchStart _ _ _ hpc
  | startSent t0 record na rest => exact .next _ t0 record na rest hpc (dispatchLoop_stretch ..)
  | sleeping delay => exact stretch_beginStop _ (by rw [hpc]; exact .inr)
  | stopGet record => exact stretch_stopGate record hpc
  | stopSent na rest => exact .stopNext _ na rest hpc (stopLoop_stretch ..)
  | metricsGet n kvs record => exact stretch_message hpc (ingestMetric_message n kvs record)
  | hookGet n kvs record => exact stretch_message hpc (ingestHook_message n kvs record)
  | wrote db outcome => exact stretch_commit db (by rw [hpc]; exact id) (.inl rfl)
  | committing outcome => exact stretch_finish outcome
  | done outcome => exact stretch_finish outcome

/-- What a stretch of `_dispatch_start` leaves its task at. -/
theorem DispatchStretch.ofKind {fresh : TaskId} {w : World} {m : MatchId} {t0 : ℚ}
    {record : MatchRecord} {s : Server} {as : List NodeAssignment} {r : Stretch}
    (h : DispatchStretch P fresh w m t0 record s as r) : r.pc.OfKind .start := by
  cases h with
  | ended hskip => exact trivial
  | sent skipped na rest identity payload has hskip hsent => rfl
  | failed e => exact trivial

/-- What a stretch of the loop of `stop` leaves its task at. -/
theorem StopStretch.ofKind {tid : TaskId} {w : World} {m : MatchId} {s : Server}
    {as : List NodeAssignment} {r : Stretch} (h : StopStretch tid w m s as r) {k : TaskKind}
    (hk : k = .stop ∨ k = .autoStop) : r.pc.OfKind k := by
  rcases h.pc_cases with hpc | ⟨e, hpc⟩ | ⟨skipped, na, rest, -, hpc⟩
  · rw [hpc]
    rintro rfl
    rcases hk with h | h
    · cases h
    · cases h
  · rw [hpc]
    exact trivial
  · rw [hpc]
    exact hk

theorem resume_ofKind (tid fresh : TaskId) (s : Server) (t : ServerTask) (w : World)
    (h : t.pc.OfKind t.kind) : (resume P tid fresh s t w).pc.OfKind t.kind := by
  have hstretch := resume_stretch (P := P) tid fresh s t w
  generalize resume P tid fresh s t w = r at hstretch
  cases hstretch with
  | quiet _ hquiet hduty hkind => exact hkind h
  | register frames identity payload hpc hframes => exact trivial
  | launch _ t0 record as hpc hready hquiet hr =>
    rw [hr]
    cases hp : t.pc with
    | startingCommit readyTimeout record as => rw [hp] at h; exact h
    | polling deadline record as => rw [hp] at h; exact h
    | _ => rw [hp] at hpc; cases hpc
  | begin _ t0 record as hpc hkey hr =>
    rw [hpc] at h
    rw [show t.kind = .start from h]
    exact hr.ofKind
  | next _ t0 record na rest hpc hr =>
    rw [hpc] at h
    rw [show t.kind = .start from h]
    exact hr.ofKind
  | stopBegin r record as hpc hstate has hr =>
    rw [hpc] at h
    exact hr.ofKind h
  | stopMalformed record hpc => exact trivial
  | stopNext _ na rest hpc hr =>
    rw [hpc] at h
    exact hr.ofKind h

end MatchManager
/-! ### What a stretch of a loop leaves alone -/

namespace MatchManager

variable {P : Platform}

/-- The loop of `_dispatch_start` changes no table: it creates the auto-stop
task at its end, and adds a `START` to the trace before that. -/
theorem DispatchStretch.frame {fresh : TaskId} {w : World} {m : MatchId} {t0 : ℚ}
    {record : MatchRecord} {s : Server} {as : List NodeAssignment} {r : Stretch}
    (h : DispatchStretch P fresh w m t0 record s as r) :
    r.server.registry = s.registry ∧ r.server.crypto = s.crypto ∧ r.cancels = none ∧
      (r.server.timers = s.timers ∨
        r.server.timers = s.timers.set m fresh ∧ r.spawns = some record.durationS) := by
  cases h with
  | ended hskip => exact ⟨rfl, rfl, rfl, .inr ⟨rfl, rfl⟩⟩
  | sent skipped na rest identity payload has hskip hsent => exact ⟨rfl, rfl, rfl, .inl rfl⟩
  | failed e => exact ⟨rfl, rfl, rfl, .inl rfl⟩

/-- The loop of `stop` keeps the registry, the sessions and the timers. -/
theorem StopStretch.frame {tid : TaskId} {w : World} {m : MatchId} {s : Server}
    {as : List NodeAssignment} {r : Stretch} (h : StopStretch tid w m s as r) :
    r.server.registry = s.registry ∧ r.server.crypto.sessions = s.crypto.sessions ∧
      r.server.timers = s.timers ∧ r.cancels = none ∧ r.spawns = none := by
  cases h with
  | ended hskip =>
    obtain ⟨hreg, hcrypto, htimers, -, hcancels, hspawns⟩ := quiet_updateState tid w
      { s with crypto := s.crypto.revokeMatchKey m } m .finished none (.wrote .matchDb .returned)
    exact ⟨hreg, by rw [hcrypto]; rfl, htimers, hcancels, hspawns⟩
  | sent skipped na rest identity has hskip hidentity => exact ⟨rfl, rfl, rfl, rfl, rfl⟩
  | failed hreach hok => exact ⟨rfl, rfl, rfl, rfl, rfl⟩

end MatchManager

namespace MatchManager

variable {P : Platform}

/-- A timer is kept, removed, or set to the task that the stretch creates. -/
theorem resume_timers (tid fresh : TaskId) (s : Server) (t : ServerTask) (w : World)
    (m : MatchId) : (resume P tid fresh s t w).server.timers m = s.timers m ∨
      (resume P tid fresh s t w).server.timers m = none ∨
      ((resume P tid fresh s t w).server.timers m = some fresh ∧
        (resume P tid fresh s t w).spawns.isSome = true) := by
  have hstretch := resume_stretch (P := P) tid fresh s t w
  generalize resume P tid fresh s t w = r at hstretch
  have hset : ∀ {r : Stretch} {delay : ℚ}, r.server.timers = s.timers ∨
        r.server.timers = s.timers.set t.matchId fresh ∧ r.spawns = some delay →
      r.server.timers m = s.timers m ∨ r.server.timers m = none ∨
        (r.server.timers m = some fresh ∧ r.spawns.isSome = true) := by
    rintro r delay (h | ⟨h, hspawns⟩)
    · exact .inl (congrFun h m)
    · rw [h, hspawns, Dict.set_apply]
      by_cases hm : m = t.matchId
      · exact .inr (.inr ⟨if_pos hm, rfl⟩)
      · exact .inl (if_neg hm)
  have hpop : (s.timers.pop t.matchId) m = s.timers m ∨ (s.timers.pop t.matchId) m = none := by
    rw [Dict.pop_apply]
    by_cases hm : m = t.matchId
    · exact .inr (if_pos hm)
    · exact .inl (if_neg hm)
  cases hstretch with
  | quiet _ hquiet hduty hkind => exact .inl (congrFun hquiet.timers m)
  | register frames identity payload hpc hframes =>
    exact .inl (congrFun (s.handleRegister_frame identity payload w.priv).timers m)
  | launch _ t0 record as hpc hready hquiet hr => exact .inl (congrFun hquiet.timers m)
  | begin _ t0 record as hpc hkey hr => exact hset hr.frame.2.2.2
  | next _ t0 record na rest hpc hr => exact hset hr.frame.2.2.2
  | stopBegin r record as hpc hstate has hr =>
    show r.server.timers m = _ ∨ r.server.timers m = _ ∨ _
    rw [hr.frame.2.2.1]
    exact hpop.imp_right .inl
  | stopMalformed record hpc => exact hpop.imp_right .inl
  | stopNext _ na rest hpc hr => exact .inl (congrFun hr.frame.2.2.1 m)

/-- Only `stop` cancels, and only the timer of its match. -/
theorem resume_cancels (tid fresh : TaskId) (s : Server) (t : ServerTask) (w : World) :
    (resume P tid fresh s t w).cancels = none ∨
      (resume P tid fresh s t w).cancels = s.timers t.matchId := by
  have hstretch := resume_stretch (P := P) tid fresh s t w
  generalize resume P tid fresh s t w = r at hstretch
  cases hstretch with
  | quiet _ hquiet hduty hkind => exact .inl hquiet.cancels
  | register frames identity payload hpc hframes => exact .inl rfl
  | launch _ t0 record as hpc hready hquiet hr => exact .inl hquiet.cancels
  | begin _ t0 record as hpc hkey hr => exact .inl hr.frame.2.2.1
  | next _ t0 record na rest hpc hr => exact .inl hr.frame.2.2.1
  | stopBegin r record as hpc hstate has hr => exact .inr rfl
  | stopMalformed record hpc => exact .inr rfl
  | stopNext _ na rest hpc hr => exact .inl hr.frame.2.2.2.1

end MatchManager

/-! ### Tasks, kinds and timers -/

namespace Sys

variable {P : Platform}

/-- The pool of tasks is in order: no task has an id still to be given out,
each stands where its coroutine can, and only auto-stop tasks are timers or are
about to be cancelled by themselves. -/
structure Sound (s : Sys) : Prop where
  fresh : s.Fresh
  kind : ∀ tid t, s.tasks tid = some t → t.pc.OfKind t.kind
  flag : ∀ tid t, s.tasks tid = some t → t.mustCancel = true → t.kind = .autoStop
  timer : ∀ m c, s.server.timers m = some c → ∃ t, s.tasks c = some t ∧ t.kind = .autoStop

theorem sound_boot (tokens : Dict NodeId String) (rows : Dict MatchId MatchRecord)
    (metrics : MetricsStore) : (boot tokens rows metrics).Sound where
  fresh := fresh_boot tokens rows metrics
  kind _ _ h := by cases h
  flag _ _ h := by cases h
  timer _ _ h := by cases h

theorem Sound.lt_next {s : Sys} (hs : s.Sound) {tid : TaskId} {t : ServerTask}
    (h : s.tasks tid = some t) : tid < s.next := by
  by_contra hge
  have hnone := hs.fresh tid (Nat.le_of_not_lt hge)
  rw [h] at hnone
  cases hnone

theorem call_ofKind (c : Call) : c.task.pc.OfKind c.task.kind := by
  cases c <;> rfl

theorem settle_kind (tid : TaskId) (t : ServerTask) (r : Stretch) :
    (settle tid t r).kind = t.kind := by
  rw [settle]
  split <;> rfl

theorem settle_matchId (tid : TaskId) (t : ServerTask) (r : Stretch) :
    (settle tid t r).matchId = t.matchId := by
  rw [settle]
  split <;> rfl

theorem cancelTask_kind (t : ServerTask) : (cancelTask t).kind = t.kind := by
  rw [cancelTask]
  split <;> rfl

/-- The tasks that were there are still there, as the same kinds of task. -/
theorem apply_tasks_of_some (s : Sys) {tid tid' : TaskId} {t u : ServerTask} {r : Stretch}
    (ht : s.tasks tid = some t) (hu : s.tasks tid' = some u) (hlt : tid' < s.next) :
    ∃ u', (s.apply tid t r).tasks tid' = some u' ∧ u'.kind = u.kind := by
  have hother : ∃ u', cancelOther (s.tasks.set tid (settle tid t r)) tid r.cancels tid' = some u' ∧
      u'.kind = u.kind := by
    have hset : ∃ u', s.tasks.set tid (settle tid t r) tid' = some u' ∧ u'.kind = u.kind := by
      by_cases hid : tid' = tid
      · rw [hid] at hu ⊢
        obtain rfl : t = u := Option.some.inj (ht.symm.trans hu)
        exact ⟨_, Dict.set_self .., settle_kind ..⟩
      · exact ⟨u, (Dict.set_of_ne _ hid _).trans hu, rfl⟩
    obtain ⟨u', hu', hkind⟩ := hset
    cases hc : r.cancels with
    | none => exact ⟨u', hu', hkind⟩
    | some c =>
      rw [cancelOther]
      by_cases hct : c = tid
      · rw [if_pos hct]
        exact ⟨u', hu', hkind⟩
      · rw [if_neg hct, Dict.modify_apply]
        by_cases hc' : tid' = c
        · rw [if_pos hc', ← hc', hu']
          exact ⟨_, rfl, (cancelTask_kind u').trans hkind⟩
        · rw [if_neg hc']
          exact ⟨u', hu', hkind⟩
  rw [apply]
  cases r.spawns with
  | none => exact hother
  | some delay =>
    dsimp only
    rw [Dict.set_of_ne _ (Nat.ne_of_lt hlt)]
    exact hother

theorem cancelTask_pc (t : ServerTask) :
    (cancelTask t).pc = t.pc ∨ (cancelTask t).pc = .done .cancelled := by
  rw [cancelTask]
  split
  · exact .inl rfl
  · exact .inr rfl

theorem settle_pc (tid : TaskId) (t : ServerTask) (r : Stretch) :
    (settle tid t r).pc = r.pc ∨ (settle tid t r).pc = .done .cancelled := by
  rw [settle]
  split
  · exact .inr rfl
  · exact .inl rfl

theorem Sound.kind_step {s s' : Sys} {a : Act} (hs : s.Sound) (h : step P s a = some s') :
    ∀ tid t, s'.tasks tid = some t → t.pc.OfKind t.kind := by
  refine forall_tasks_of_step h call_ofKind (fun m delay => rfl) (fun t ht => ?_) hs.kind
    fun tid w t _ ht => ?_
  · rw [cancelTask_kind]
    rcases cancelTask_pc t with hpc | hpc
    · rw [hpc]
      exact ht
    · rw [hpc]
      exact trivial
  · rw [settle_kind]
    rcases settle_pc tid t (MatchManager.resume P tid s.next s.server t w) with hpc | hpc
    · rw [hpc]
      exact MatchManager.resume_ofKind _ _ _ _ _ (hs.kind tid t ht)
    · rw [hpc]
      exact trivial

/-- Only an auto-stop task ever cancels itself. -/
theorem Sound.flag_step {s s' : Sys} {a : Act} (hs : s.Sound) (h : step P s a = some s') :
    ∀ tid t, s'.tasks tid = some t → t.mustCancel = true → t.kind = .autoStop := by
  refine forall_tasks_of_step h (fun c => ?_) (fun m delay _ => rfl) (fun t ht => ?_) hs.flag
    fun tid w t _ ht => ?_
  · cases c <;> exact fun hflag => by cases hflag
  · rw [cancelTask_kind]
    intro hflag
    refine ht ?_
    rw [cancelTask] at hflag
    split at hflag
    · exact hflag
    · exact hflag
  · rw [settle_kind]
    intro hflag
    rw [settle] at hflag
    split at hflag
    · cases hflag
    · rw [Bool.or_eq_true, decide_eq_true_eq] at hflag
      rcases hflag with hflag | hcancels
      · exact hs.flag tid t ht hflag
      · rcases MatchManager.resume_cancels (P := P) tid s.next s.server t w with hc | hc
        · rw [hc] at hcancels
          cases hcancels
        · rw [hc] at hcancels
          obtain ⟨u, hu, hkind⟩ := hs.timer _ _ hcancels
          obtain rfl : t = u := Option.some.inj (ht.symm.trans hu)
          exact hkind

theorem Sound.timer_step {s s' : Sys} {a : Act} (hs : s.Sound) (h : step P s a = some s') :
    ∀ m c, s'.server.timers m = some c → ∃ t, s'.tasks c = some t ∧ t.kind = .autoStop := by
  intro m c hc
  rcases step_cases h with ⟨call, -, rfl⟩ | ⟨tid', w, t, -, ht, -, rfl⟩
  · obtain ⟨u, hu, hkind⟩ := hs.timer m c hc
    exact ⟨u, (Dict.set_of_ne _ (Nat.ne_of_lt (hs.lt_next hu)) _).trans hu, hkind⟩
  · rw [apply_server] at hc
    rcases MatchManager.resume_timers (P := P) tid' s.next s.server t w m with h | h | ⟨h, hsp⟩
    · rw [h] at hc
      obtain ⟨u, hu, hkind⟩ := hs.timer m c hc
      obtain ⟨u', hu', hkind'⟩ := s.apply_tasks_of_some ht hu (hs.lt_next hu)
      exact ⟨u', hu', hkind'.trans hkind⟩
    · rw [h] at hc
      cases hc
    · obtain rfl : s.next = c := Option.some.inj (h.symm.trans hc)
      obtain ⟨delay, hdelay⟩ := Option.isSome_iff_exists.mp hsp
      refine ⟨autoStopTask t.matchId delay, ?_, rfl⟩
      rw [apply, hdelay]
      exact Dict.set_self ..

theorem Sound.step {s s' : Sys} {a : Act} (hs : s.Sound) (h : step P s a = some s') : s'.Sound :=
  ⟨hs.fresh.step h, hs.kind_step h, hs.flag_step h, hs.timer_step h⟩

theorem sound_run {acts : List Act} {s s' : Sys} (hs : s.Sound)
    (hrun : Transition.run (Sys.step P) s acts = some s') : s'.Sound :=
  Transition.invariant_of_run (I := Sound) (fun _ _ _ hs h => hs.step h) hs hrun

/-- A task other than an auto-stop task is moved by its own stretches only. -/
theorem Sound.task_kept {s s' : Sys} {a : Act} (hs : s.Sound) (h : Sys.step P s a = some s')
    {tid : TaskId} {t : ServerTask} (ht : s.tasks tid = some t) (hk : t.kind ≠ .autoStop)
    (ha : ∀ w, a ≠ .run tid w) : s'.tasks tid = some t := by
  have hne : tid ≠ s.next := Nat.ne_of_lt (hs.lt_next ht)
  rcases step_cases h with ⟨c, -, rfl⟩ | ⟨tid', w, t', rfl, ht', -, rfl⟩
  · exact (Dict.set_of_ne _ hne _).trans ht
  · have htid : tid ≠ tid' := by
      rintro rfl
      exact ha w rfl
    obtain ⟨u, hu, -⟩ := s.apply_tasks_of_some ht' ht (hs.lt_next ht)
      (r := MatchManager.resume P tid' s.next s.server t' w)
    rcases apply_tasks hu with ⟨h, -⟩ | ⟨h, -⟩ | ⟨-, u', hu', h⟩
    · exact absurd h htid
    · exact absurd h hne
    · obtain rfl : t = u' := Option.some.inj (ht.symm.trans hu')
      rcases h with rfl | ⟨hcancel, -⟩
      · exact hu
      · -- Only the timer of a match is ever cancelled.
        exfalso
        rcases MatchManager.resume_cancels (P := P) tid' s.next s.server t' w with h | h
        · rw [h] at hcancel
          cases hcancel
        · rw [h] at hcancel
          obtain ⟨v, hv, hkind⟩ := hs.timer _ _ hcancel
          obtain rfl : t = v := Option.some.inj (ht.symm.trans hv)
          exact hk hkind

end Sys
