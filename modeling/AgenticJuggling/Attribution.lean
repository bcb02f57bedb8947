/-
Whom the server believes about whose work.

A `METRICS` or `HOOK` message is attributed to the node its payload names.  The
handler checks that this node is registered, and the ingester that the match it
names has a start time; the identity the message arrived on, the assignments of
the match and its state are not looked at.

* `MetricsWrite`, `resume_reading` — what one stretch does to the tables, and
  where the message it stores comes from;
* `Sys.reports_attributed` — a row is stored only for the node that a message
  names after that node's token has been presented;
* `Sys.rows_admitted` — a row is stored only for a registered node and a match
  that has been started.
-/
import AgenticJuggling.Authentication
import AgenticJuggling.Scoring
import AgenticJuggling.Simulation

open Transition

/-! ### Rows and scores -/

theorem Ingester.metricRow_eq_some {P : Platform} {record : MatchRecord} {n : NodeId}
    {kvs : List (String × Json)} {now : ℚ} {row : MetricRow}
    (h : metricRow P record n kvs now = some row) :
    row.nodeId = n ∧ Ingester.matchId P kvs = some row.matchId := by
  simp only [metricRow, Option.bind_eq_bind, Option.bind_eq_some_iff] at h
  obtain ⟨t0, -, matchId, hmatch, terminalId, -, tRel, -, idle, -, idleSeconds, -, tokens, -, h⟩ := h
  split at h
  · rw [Option.some_inj] at h
    subst h
    exact ⟨rfl, hmatch⟩
  · cases h

theorem Ingester.hookEvent_nodeId {P : Platform} {record : MatchRecord} {n : NodeId}
    {kvs : List (String × Json)} {now : ℚ} {event : HookEvent}
    (h : hookEvent P record n kvs now = some event) : event.nodeId = n := by
  simp only [hookEvent, Option.bind_eq_bind, Option.bind_eq_some_iff, Option.some_inj] at h
  obtain ⟨t0, -, matchId, -, tRel, -, eventType, -, rfl⟩ := h
  rfl

namespace MetricsStore

theorem rowsOf_concat_of_ne {rows : List MetricRow} {row : MetricRow} {n : NodeId}
    (hne : row.nodeId ≠ n) (m : MatchId) : rowsOf (rows ++ [row]) m n = rowsOf rows m n := by
  rw [rowsOf, List.filter_append]
  simp [hne, rowsOf]

/-- Rows of other matches leave the totals of a match alone. -/
theorem getTotalsPerNode_append {rows new : List MetricRow} {hooks hooks' : List HookEvent}
    {m : MatchId} (hnew : ∀ row ∈ new, row.matchId ≠ m) :
    getTotalsPerNode ⟨rows ++ new, hooks'⟩ m = getTotalsPerNode ⟨rows, hooks⟩ m := by
  have hnil : ∀ p : MetricRow → Bool, new.filter (fun row => decide (row.matchId = m) && p row)
      = [] := by
    intro p
    rw [List.filter_eq_nil_iff]
    intro row hrow
    simp [hnew row hrow]
  have hnodes : nodesOf (rows ++ new) m = nodesOf rows m := by
    have h := hnil fun _ => true
    simp only [Bool.and_true] at h
    rw [nodesOf, List.filter_append, h, List.append_nil, nodesOf]
  have hrows : ∀ n, rowsOf (rows ++ new) m n = rowsOf rows m n := by
    intro n
    have h := hnil fun row => decide (row.nodeId = n)
    simp only [rowsOf, List.filter_append, Bool.decide_and, h, List.append_nil]
  simp only [getTotalsPerNode, hnodes, hrows]

end MetricsStore

namespace ScoringEngine

open MetricsStore

/-- A row changes no score but that of its node. -/
theorem mem_rankings_insertMetric {db : MetricsStore} {row : MetricRow} {m : MatchId}
    {tokenWeight idlePenalty : ℚ} {board board' : Leaderboard}
    (hboard : compute db m tokenWeight idlePenalty = some board)
    (hboard' : compute (db.insertMetric row) m tokenWeight idlePenalty = some board')
    {score : NodeScore} (hne : score.nodeId ≠ row.nodeId) :
    score ∈ board'.rankings ↔ score ∈ board.rankings := by
  have hmem : ∀ n, n ≠ row.nodeId →
      (n ∈ nodesOf (db.metrics ++ [row]) m ↔ n ∈ nodesOf db.metrics m) := by
    intro n hn
    simp only [mem_nodesOf, List.mem_append, List.mem_singleton]
    constructor
    · rintro ⟨r, hr | rfl, hm, rfl⟩
      · exact ⟨r, hr, hm, rfl⟩
      · exact absurd rfl hn
    · rintro ⟨r, hr, hm, hrn⟩
      exact ⟨r, .inl hr, hm, hrn⟩
  rw [mem_rankings hboard, mem_rankings hboard', insertMetric]
  constructor
  · rintro ⟨n, hn, rfl⟩
    have hn' : n ≠ row.nodeId := hne
    refine ⟨n, (hmem n hn').mp hn, ?_⟩
    rw [rowsOf_concat_of_ne (Ne.symm hn')]
  · rintro ⟨n, hn, rfl⟩
    have hn' : n ≠ row.nodeId := hne
    refine ⟨n, (hmem n hn').mpr hn, ?_⟩
    rw [rowsOf_concat_of_ne (Ne.symm hn')]

/-- Only nodes with a row for the match are ranked. -/
theorem exists_row_of_mem_rankings {db : MetricsStore} {m : MatchId}
    {tokenWeight idlePenalty : ℚ} {board : Leaderboard}
    (hboard : compute db m tokenWeight idlePenalty = some board) {score : NodeScore}
    (h : score ∈ board.rankings) :
    ∃ row ∈ db.metrics, row.matchId = m ∧ row.nodeId = score.nodeId := by
  obtain ⟨n, hn, rfl⟩ := (mem_rankings hboard).mp h
  exact mem_nodesOf.mp hn

end ScoringEngine

/-! ### One stretch -/

/-- Only the handler of a `REGISTER` looks at the identity a message arrived on. -/
theorem MatchManager.dispatch_identity {P : Platform} {msgType : Frame}
    (hregister : msgType.bytes ≠ utf8 "REGISTER") (w : World) (s : Server)
    (identity identity' : Frame) (rest : List Frame) :
    dispatch P w s (identity :: msgType :: rest) = dispatch P w s (identity' :: msgType :: rest) := by
  cases rest with
  | nil => rfl
  | cons raw rest =>
    simp only [dispatch, if_neg hregister]

/-- The report whose `SELECT` has been answered: its type, its node and its pairs. -/
def Pc.reading : Pc → Option (String × NodeId × List (String × Json) × Option MatchRecord)
  | .metricsGet n kvs record => some ("METRICS", n, kvs, record)
  | .hookGet n kvs record => some ("HOOK", n, kvs, record)
  | _ => none

namespace MatchManager

variable {P : Platform}

/-- A report is read where its message is handled, of a registered node and under
the match that its payload names. -/
theorem MessageStretch.reading {s : Server} {w : World} {pc : Pc} {r : Stretch}
    (h : MessageStretch P s w pc r) {msgType : String} {n : NodeId} {kvs : List (String × Json)}
    {record : Option MatchRecord} (hr : r.pc.reading = some (msgType, n, kvs, record)) :
    ∃ frames, pc = .received frames ∧ reportOf msgType frames = some kvs ∧
      Json.getD kvs "node_id" (.str "") = .str n ∧ (s.registry.nodes n).isSome = true ∧
      record = Ingester.getMatch P s.store kvs := by
  cases h with
  | readMetrics frames n' kvs' hreport hn hnode =>
    simp only [Pc.reading, Option.some_inj, Prod.mk.injEq] at hr
    obtain ⟨rfl, rfl, rfl, rfl⟩ := hr
    exact ⟨frames, rfl, hreport, hn, hnode, rfl⟩
  | readHook frames n' kvs' hreport hn hnode =>
    simp only [Pc.reading, Option.some_inj, Prod.mk.injEq] at hr
    obtain ⟨rfl, rfl, rfl, rfl⟩ := hr
    exact ⟨frames, rfl, hreport, hn, hnode, rfl⟩
  | _ => cases hr

theorem commit_reading (w : World) (s : Server) (db : Connection) (outcome : Outcome) :
    (commit w s db (.committing outcome)).pc.reading = none := by
  rcases commit_pc w s db (.committing outcome) with h | h
  · rw [h]
    rfl
  · rw [h]
    rfl

/-- **A report is read where its message is handled**, of a registered node and
under the match that its payload names. -/
theorem resume_reading {tid fresh : TaskId} {s : Server} {t : ServerTask} {w : World}
    (hkind : t.pc.OfKind t.kind) {msgType : String} {n : NodeId} {kvs : List (String × Json)}
    {record : Option MatchRecord}
    (h : (resume P tid fresh s t w).pc.reading = some (msgType, n, kvs, record)) :
    ∃ frames, t.pc = .received frames ∧ reportOf msgType frames = some kvs ∧
      Json.getD kvs "node_id" (.str "") = .str n ∧ (s.registry.nodes n).isSome = true ∧
      record = Ingester.getMatch P s.store kvs := by
  -- Only the task of a message comes to read a report.
  have hdispatch : t.kind = .dispatch := by
    have hk := resume_ofKind (P := P) tid fresh s t w hkind
    cases hpc : (resume P tid fresh s t w).pc with
    | metricsGet n kvs record =>
      rw [hpc] at hk
      exact hk
    | hookGet n kvs record =>
      rw [hpc] at hk
      exact hk
    | _ => rw [hpc] at h; cases h
  obtain ⟨kind, m, pc, mustCancel⟩ := t
  obtain rfl : kind = .dispatch := hdispatch
  cases pc with
  | received frames => exact (dispatch_message frames).reading h
  | metricsGet n' kvs' record' => exact (ingestMetric_message n' kvs' record').reading h
  | hookGet n' kvs' record' => exact (ingestHook_message n' kvs' record').reading h
  | wrote db outcome => exact absurd ((commit_reading w s db outcome).symm.trans h) (by simp)
  | committing outcome => cases h
  | done outcome => cases h
  | stopGet record' => rcases hkind with hk | hk <;> cases hk
  | stopSent na rest => rcases hkind with hk | hk <;> cases hk
  | _ => cases hkind

/-- What a stretch that starts at `pc` can do to the tables of metrics and hooks. -/
inductive MetricsWrite (P : Platform) (pc : Pc) (w : World) (db : MetricsStore) :
    MetricsStore → Prop
  | same : MetricsWrite P pc w db db
  | metric (n : NodeId) (kvs : List (String × Json)) (record : MatchRecord) (row : MetricRow)
      (hpc : pc.reading = some ("METRICS", n, kvs, some record)) (ht0 : record.t0 ≠ none)
      (hrow : Ingester.metricRow P record n kvs w.wall = some row) :
      MetricsWrite P pc w db (db.insertMetric row)
  | hook (n : NodeId) (kvs : List (String × Json)) (record : MatchRecord) (event : HookEvent)
      (hpc : pc.reading = some ("HOOK", n, kvs, some record)) (ht0 : record.t0 ≠ none)
      (hevent : Ingester.hookEvent P record n kvs w.wall = some event) :
      MetricsWrite P pc w db (db.insertHook event)

theorem updateState_metrics (tid : TaskId) (w : World) (s : Server) (m : MatchId)
    (state : MatchState) (t0 : Option ℚ) (next : Pc) :
    (updateState tid w s m state t0 next).server.metrics = s.metrics := by
  unfold updateState
  split <;> rfl

theorem commit_metrics (w : World) (s : Server) (db : Connection) (next : Pc) :
    (commit w s db next).server.metrics = s.metrics := by
  unfold commit
  split
  · cases db <;> rfl
  · rfl

theorem poll_metrics (tid : TaskId) (w : World) (s : Server) (m : MatchId) (deadline : ℚ)
    (record : MatchRecord) (as : List NodeAssignment) :
    (poll tid w s m deadline record as).server.metrics = s.metrics := by
  unfold poll
  split
  · exact updateState_metrics ..
  · split
    · exact updateState_metrics ..
    · rfl

theorem DispatchStretch.metrics {fresh : TaskId} {w : World} {m : MatchId} {t0 : ℚ}
    {record : MatchRecord} {s : Server} {as : List NodeAssignment} {r : Stretch}
    (h : DispatchStretch P fresh w m t0 record s as r) : r.server.metrics = s.metrics := by
  cases h with
  | ended hskip => rfl
  | sent skipped na rest identity payload has hskip hsent => rfl
  | failed e => rfl

theorem StopStretch.metrics {tid : TaskId} {w : World} {m : MatchId} {s : Server}
    {as : List NodeAssignment} {r : Stretch} (h : StopStretch tid w m s as r) :
    r.server.metrics = s.metrics := by
  cases h with
  | ended hskip => exact updateState_metrics ..
  | sent skipped na rest identity has hskip hidentity => rfl
  | failed hreach hok => rfl

theorem MessageStretch.metricsWrite {s : Server} {w : World} {pc : Pc} {r : Stretch}
    (h : MessageStretch P s w pc r) : MetricsWrite P pc w s.metrics r.server.metrics := by
  cases h with
  | register frames identity payload hframes =>
    show MetricsWrite P _ w s.metrics (s.handleRegister _ _ _ _).1.metrics
    rw [(s.handleRegister_frame _ _ _).metrics]
    exact .same
  | metric n kvs record row ht0 hrow => exact .metric n kvs record row rfl ht0 hrow
  | hook n kvs record event ht0 hevent => exact .hook n kvs record event rfl ht0 hevent
  | _ => exact .same

/-- **What one stretch does to the tables of metrics and hooks.** -/
theorem resume_metricsWrite (tid fresh : TaskId) (s : Server) (t : ServerTask) (w : World) :
    MetricsWrite P t.pc w s.metrics (resume P tid fresh s t w).server.metrics := by
  -- Only the handlers of reports write; every other stretch keeps the store.
  have hsame : ∀ {r : Stretch}, r.server.metrics = s.metrics →
      MetricsWrite P t.pc w s.metrics r.server.metrics := fun h => h ▸ .same
  obtain ⟨kind, m, pc, mustCancel⟩ := t
  cases pc with
  | createCall config =>
    refine hsame (r := beginCreate tid w s config) ?_
    unfold beginCreate
    split
    · split <;> rfl
    · rfl
  | startCall readyTimeout =>
    exact hsame (congrArg Server.metrics (beginStart_server w s m readyTimeout))
  | stopCall =>
    exact hsame (congrArg Server.metrics (beginStop_server w s m))
  | sleeping delay =>
    exact hsame (congrArg Server.metrics (beginStop_server w s m))
  | received frames => exact (dispatch_message frames).metricsWrite
  | startGet readyTimeout record =>
    refine hsame (r := startGate tid w s m readyTimeout record) ?_
    unfold startGate
    split
    · rfl
    · split
      · split
        · rfl
        · exact updateState_metrics ..
      · rfl
  | startingWrote readyTimeout record as =>
    exact hsame (r := commit w s .matchDb (.startingCommit readyTimeout record as))
      (commit_metrics ..)
  | startingCommit readyTimeout record as =>
    exact hsame (r := poll tid w s m (w.monoEntry + readyTimeout) record as) (poll_metrics ..)
  | polling deadline record as =>
    exact hsame (r := poll tid w s m deadline record as) (poll_metrics ..)
  | runningWrote t0 record as =>
    exact hsame (r := commit w s .matchDb (.runningCommit t0 record as)) (commit_metrics ..)
  | runningCommit t0 record as =>
    refine hsame (r := dispatchStart P fresh w s m t0 record as) ?_
    rcases dispatchStart_cases (P := P) fresh w s m t0 record as with h | ⟨-, hloop⟩
    · rw [h]
      rfl
    · exact hloop.metrics
  | startSent t0 record na rest =>
    exact hsame (r := dispatchLoop P fresh w m t0 record 0 (s.mark na.nodeId .running) rest)
      (dispatchLoop_stretch ..).metrics
  | stopGet record =>
    refine hsame (r := stopGate tid kind w s m record) ?_
    unfold stopGate
    split
    · rfl
    · split
      · rfl
      · split
        · rfl
        · exact (stopLoop_stretch tid w m { s with timers := s.timers.pop m } _).metrics
  | stopSent na rest =>
    exact hsame (r := stopLoop tid w m (s.mark na.nodeId .ready) rest) (stopLoop_stretch ..).metrics
  | metricsGet n kvs record => exact (ingestMetric_message n kvs record).metricsWrite
  | hookGet n kvs record => exact (ingestHook_message n kvs record).metricsWrite
  | wrote db outcome => exact hsame (r := commit w s db (.committing outcome)) (commit_metrics ..)
  | committing outcome => exact .same
  | done outcome => exact .same

end MatchManager

/-! ### The messages behind the rows -/

/-- Task `tid` has handled a message of this type that names node `n`, after a
message that presented the token of `n`. -/
def Reported (tokens : Dict NodeId String) (handled : List (TaskId × List Frame)) (tid : TaskId)
    (msgType : String) (n : NodeId) : Prop :=
  ∃ pre frames post kvs, handled = pre ++ (tid, frames) :: post ∧
    reportOf msgType frames = some kvs ∧ Json.getD kvs "node_id" (.str "") = .str n ∧
    ∃ p ∈ pre, Presents tokens p.2 n

theorem Reported.append {tokens : Dict NodeId String} {handled : List (TaskId × List Frame)}
    {tid : TaskId} {msgType : String} {n : NodeId} (h : Reported tokens handled tid msgType n)
    (more : List (TaskId × List Frame)) : Reported tokens (handled ++ more) tid msgType n := by
  obtain ⟨pre, frames, post, kvs, rfl, hreport, hn, hpresents⟩ := h
  exact ⟨pre, frames, post ++ more, kvs, by simp, hreport, hn, hpresents⟩

namespace Sample

/-- A `METRICS` message from a socket identity, of 100 tokens for node `n` in match `m`. -/
def metricsFrames (identity : Bytes) (n : NodeId) (m : MatchId) : List Frame :=
  [⟨identity, none⟩, ⟨utf8 "METRICS", none⟩,
    ⟨[], some (.obj [("node_id", .str n), ("match_id", .str m), ("terminal_id", .str "t"),
      ("idle_seconds", .float (.fin 0)), ("tokens_used", .int 100),
      ("timestamp", .float (.fin 6))])⟩]

/-- `m` is in progress, and a peer that has never registered reports for its node. -/
def foreignReport : List Act :=
  started ++ [.call (.receive (metricsFrames [9] "n" "m"))] ++ runs 3 1 6

/-- `m` is started and stopped; its node is `n`, and `x` is registered too. -/
def finished : List Act :=
  [register "n" [1], register "x" [2], .call (.start "m" 30)] ++ runs 0 1 0 ++ runs 1 1 0 ++
    runs 2 7 5 ++ [.call (.stop "m")] ++ runs 4 5 6

end Sample

namespace Sys

variable {P : Platform}

open MatchManager

/-- The message a step handles, with its task. -/
def handlesBy (s : Sys) : Act → List (TaskId × List Frame)
  | .call _ => []
  | .run tid w => (s.handles (.run tid w)).map fun frames => (tid, frames)

/-- The messages handled along a run, each with its task. -/
def handledBy (P : Platform) (s : Sys) (acts : List Act) : List (TaskId × List Frame) :=
  observed (step P) handlesBy s acts

theorem handlesBy_map (s : Sys) (a : Act) : (s.handlesBy a).map Prod.snd = s.handles a := by
  cases a with
  | call c => rfl
  | run tid w => simp [handlesBy]

/-- A registered node stays registered. -/
theorem step_registered {s s' : Sys} {a : Act} (h : step P s a = some s') {n : NodeId}
    (hn : (s.server.registry.nodes n).isSome = true) :
    (s'.server.registry.nodes n).isSome = true := by
  rcases step_cases h with ⟨c, -, rfl⟩ | ⟨tid, w, t, -, ht, -, rfl⟩
  · exact hn
  · rw [apply_server]
    rcases (resume_stretch (P := P) tid s.next s.server t w).registry with
      ⟨frames, identity, payload, hpc, hregister, -⟩ | ⟨-, hreg | ⟨n', state, hreg⟩⟩
    · rw [resume_register tid s.next s.server w hpc hregister]
      rcases s.server.handleRegister_cases_admits hregister w.priv (P := P.toPrimitives) with
        ⟨-, hreg, -⟩ | ⟨n', hostname, ip, pk, -, heq⟩
      · rw [finish, hreg]
        exact hn
      · rw [heq]
        obtain ⟨-, hid, hother⟩ := s.server.acceptRegister_frame identity n' hostname ip pk w.priv
          (P := P.toPrimitives)
        by_cases hne : n = n'
        · rw [hne, finish, Option.isSome_iff_ne_none]
          intro hnone
          rw [NodeRegistry.identityFor, hnone] at hid
          cases hid
        · rw [finish, (hother n hne).1]
          exact hn
    · rw [hreg]
      exact hn
    · rw [hreg, NodeRegistry.updateState_nodes_isSome]
      exact hn

/-- No step takes the start time of a match away. -/
theorem step_t0 {s s' : Sys} {a : Act} (h : step P s a = some s') {m : MatchId}
    (hm : s.server.store.t0Of m ≠ none) : s'.server.store.t0Of m ≠ none := by
  rcases step_cases h with ⟨c, -, rfl⟩ | ⟨tid, w, t, -, ht, -, rfl⟩
  · exact hm
  · rw [apply_server]
    have hwrite := resume_rowWrite (P := P) tid s.next s.server t w
    generalize (resume P tid s.next s.server t w).server.store = db at hwrite
    cases hwrite with
    | same => exact hm
    | committed => exact hm
    | updated state t0 hpc =>
      rw [MatchStore.t0Of, MatchStore.updateState_rows]
      by_cases hne : m = t.matchId
      · subst hne
        rw [if_pos rfl]
        rw [MatchStore.t0Of] at hm
        cases hrow : s.server.store.rows t.matchId with
        | none => simp [hrow] at hm
        | some row =>
          cases t0 with
          | none => simpa [hrow] using hm
          | some t0 => simp
      · rw [if_neg hne]
        exact hm
    | inserted config _ hpc hinsert =>
      obtain ⟨hnone, rfl⟩ := MatchStore.insert_eq_some.mp hinsert
      have hne : m ≠ config.matchId := by
        rintro rfl
        rw [MatchStore.t0Of, hnone] at hm
        exact hm rfl
      show (s.server.store.rows.set config.matchId (MatchStore.recordOf config) m).bind (·.t0) ≠ none
      rw [Dict.set_of_ne _ hne]
      exact hm

/-- Every report that is being read came with a message that names its node, the
node is registered, and a match it was answered to be started is started. -/
structure Attributed (P : Platform) (tokens : Dict NodeId String) (s : Sys)
    (seen : List (TaskId × List Frame)) : Prop where
  sound : s.Sound
  authenticated : Authenticated tokens s.server (seen.map Prod.snd)
  reported : ∀ tid t msgType n kvs record, s.tasks tid = some t →
    t.pc.reading = some (msgType, n, kvs, record) → Reported tokens seen tid msgType n
  registered : ∀ tid t msgType n kvs record, s.tasks tid = some t →
    t.pc.reading = some (msgType, n, kvs, record) → (s.server.registry.nodes n).isSome = true
  started : ∀ tid t msgType n kvs record, s.tasks tid = some t →
    t.pc.reading = some (msgType, n, kvs, some record) → record.t0 ≠ none →
      ∀ m, Ingester.matchId P kvs = some m → s.server.store.t0Of m ≠ none

/-- A registered node has presented its token. -/
theorem Attributed.presents {tokens : Dict NodeId String} {s : Sys}
    {seen : List (TaskId × List Frame)} (hs : Attributed P tokens s seen) {n : NodeId}
    (hn : (s.server.registry.nodes n).isSome = true) : ∃ p ∈ seen, Presents tokens p.2 n := by
  obtain ⟨identity, hid⟩ := Option.ne_none_iff_exists'.mp (hs.authenticated.known n hn)
  obtain ⟨pre, frames, post, heq, ⟨kvs, token, hframes, hnode, htoken, hsent, -⟩, -⟩ :=
    (hs.authenticated.identity n identity).mp hid
  have hmem : frames ∈ seen.map Prod.snd := by
    rw [heq]
    exact List.mem_append_right _ List.mem_cons_self
  obtain ⟨p, hp, rfl⟩ := List.mem_map.mp hmem
  exact ⟨p, hp, identity, kvs, token, hframes, hnode, htoken, hsent⟩

/-- A task that reads a report after a step did so before it, or handles the
message of the report in this step. -/
theorem reading_of_step {s s' : Sys} {a : Act} (hs : s.Sound) (h : step P s a = some s')
    {tid : TaskId} {t : ServerTask} (ht : s'.tasks tid = some t)
    {report : String × NodeId × List (String × Json) × Option MatchRecord}
    (hreading : t.pc.reading = some report) :
    (∃ u, s.tasks tid = some u ∧ u.pc.reading = some report) ∨
      ∃ frames, s.handlesBy a = [(tid, frames)] ∧ reportOf report.1 frames = some report.2.2.1 ∧
        Json.getD report.2.2.1 "node_id" (.str "") = .str report.2.1 ∧
        (s.server.registry.nodes report.2.1).isSome = true ∧
        report.2.2.2 = Ingester.getMatch P s.server.store report.2.2.1 := by
  rcases step_cases h with ⟨c, -, rfl⟩ | ⟨tid', w, u, rfl, hu, -, rfl⟩
  · have ht : s.tasks.set s.next c.task tid = some t := ht
    by_cases hn : tid = s.next
    · rw [hn, Dict.set_self, Option.some_inj] at ht
      subst ht
      cases c <;> cases hreading
    · rw [Dict.set_of_ne _ hn] at ht
      exact .inl ⟨t, ht, hreading⟩
  · rcases apply_tasks ht with ⟨rfl, rfl⟩ | ⟨-, delay, -, rfl⟩ | ⟨-, u', hu', rfl | ⟨-, rfl⟩⟩
    · rcases settle_pc tid u (resume P tid s.next s.server u w) with hpc | hpc
      · rw [hpc] at hreading
        obtain ⟨frames, hframes, hreport⟩ := resume_reading (hs.kind tid u hu) hreading
        exact .inr ⟨frames, by simp [handlesBy, handles, hu, hframes, Pc.frames], hreport⟩
      · rw [hpc] at hreading
        cases hreading
    · cases hreading
    · exact .inl ⟨t, hu', hreading⟩
    · rcases cancelTask_pc u' with hpc | hpc
      · rw [hpc] at hreading
        exact .inl ⟨u', hu', hreading⟩
      · rw [hpc] at hreading
        cases hreading

theorem Attributed.step {tokens : Dict NodeId String} {s s' : Sys} {a : Act}
    {seen : List (TaskId × List Frame)} (hs : Attributed P tokens s seen)
    (h : Sys.step P s a = some s') : Attributed P tokens s' (seen ++ s.handlesBy a) := by
  constructor
  · exact hs.sound.step h
  · rw [List.map_append, handlesBy_map]
    exact authenticated_step hs.authenticated h
  · intro tid t msgType n kvs record ht hreading
    rcases reading_of_step hs.sound h ht hreading with
      ⟨u, hu, hold⟩ | ⟨frames, hhandles, hreport, hn, hnode, -⟩
    · exact (hs.reported tid u msgType n kvs record hu hold).append _
    · rw [hhandles]
      exact ⟨seen, frames, [], kvs, rfl, hreport, hn, hs.presents hnode⟩
  · intro tid t msgType n kvs record ht hreading
    rcases reading_of_step hs.sound h ht hreading with ⟨u, hu, hold⟩ | ⟨frames, -, -, -, hnode, -⟩
    · exact step_registered h (hs.registered tid u msgType n kvs record hu hold)
    · exact step_registered h hnode
  · intro tid t msgType n kvs record ht hreading ht0 m hm
    rcases reading_of_step hs.sound h ht hreading with ⟨u, hu, hold⟩ | ⟨frames, -, -, -, -, hget⟩
    · exact step_t0 h (hs.started tid u msgType n kvs record hu hold ht0 m hm)
    · -- The `SELECT` has read the row as it stands.
      refine step_t0 h ?_
      have hget : some record = (Ingester.matchId P kvs).bind s.server.store.get := hget
      rw [hm, Option.bind_some] at hget
      have hrow : s.server.store.rows m = some record := hget.symm
      rw [MatchStore.t0Of, hrow]
      exact ht0

theorem attributed_run {tokens : Dict NodeId String} {rows : Dict MatchId MatchRecord}
    {metrics : MetricsStore} {acts : List Act} {s : Sys}
    (hrun : run (step P) (boot tokens rows metrics) acts = some s) :
    Attributed P tokens s (handledBy P (boot tokens rows metrics) acts) := by
  suffices hboot : Attributed P tokens (boot tokens rows metrics) [] from
    invariant_of_observed (I := Attributed P tokens) (fun s seen a s' hs h => hs.step h) hboot hrun
  refine ⟨sound_boot .., ⟨rfl, fun n identity => ⟨fun h => (by cases h), ?_⟩,
    fun n h => (by cases h), fun n h => absurd rfl h⟩, ?_, ?_, ?_⟩
  · rintro ⟨pre, frames, post, heq, -⟩
    simp at heq
  · intro tid t msgType n kvs record ht
    cases ht
  · intro tid t msgType n kvs record ht
    cases ht
  · intro tid t msgType n kvs record ht
    cases ht

/-- What a step stores, and on whose word. -/
theorem Attributed.stores {tokens : Dict NodeId String} {s s' : Sys} {a : Act}
    {seen : List (TaskId × List Frame)} (hs : Attributed P tokens s seen)
    (h : Sys.step P s a = some s') :
    s'.server.metrics = s.server.metrics ∨
      ∃ tid w, a = .run tid w ∧
        ((∃ row, s'.server.metrics = s.server.metrics.insertMetric row ∧
            Reported tokens seen tid "METRICS" row.nodeId ∧
            (s.server.registry.nodes row.nodeId).isSome = true ∧
            s.server.store.t0Of row.matchId ≠ none) ∨
          ∃ event, s'.server.metrics = s.server.metrics.insertHook event ∧
            Reported tokens seen tid "HOOK" event.nodeId ∧
            (s.server.registry.nodes event.nodeId).isSome = true) := by
  rcases step_cases h with ⟨c, -, rfl⟩ | ⟨tid, w, t, rfl, ht, -, rfl⟩
  · exact .inl rfl
  · rw [apply_server]
    have hwrite := resume_metricsWrite (P := P) tid s.next s.server t w
    generalize (resume P tid s.next s.server t w).server.metrics = db at hwrite
    cases hwrite with
    | same => exact .inl rfl
    | metric n kvs record row hpc ht0 hrow =>
      obtain ⟨rfl, hmatch⟩ := Ingester.metricRow_eq_some hrow
      exact .inr ⟨tid, w, rfl, .inl ⟨row, rfl, hs.reported tid t _ _ _ _ ht hpc,
        hs.registered tid t _ _ _ _ ht hpc, hs.started tid t _ _ _ _ ht hpc ht0 _ hmatch⟩⟩
    | hook n kvs record event hpc ht0 hevent =>
      obtain rfl := Ingester.hookEvent_nodeId hevent
      exact .inr ⟨tid, w, rfl, .inr ⟨event, rfl, hs.reported tid t _ _ _ _ ht hpc,
        hs.registered tid t _ _ _ _ ht hpc⟩⟩

/-- **Reports are attributed by name.**  In every run a step stores nothing, or one
row or event for the node that the message of its task names, which is registered
and had its token presented before that message; and it changes, from board to board, the
score of no node that a `METRICS` message of its task does not name.  How a message other
than a `REGISTER` is handled does not depend on the identity it arrived on. -/
theorem reports_attributed {tokens : Dict NodeId String} {rows : Dict MatchId MatchRecord}
    {metrics : MetricsStore} {acts : List Act} {s s' : Sys} {a : Act}
    (hrun : run (step P) (boot tokens rows metrics) acts = some s) (h : step P s a = some s') :
    (s'.server.metrics = s.server.metrics ∨
      ∃ tid w, a = .run tid w ∧
        ((∃ row, s'.server.metrics = s.server.metrics.insertMetric row ∧
            (s.server.registry.nodes row.nodeId).isSome = true ∧
            Reported tokens (handledBy P (boot tokens rows metrics) acts) tid "METRICS"
              row.nodeId) ∨
          ∃ event, s'.server.metrics = s.server.metrics.insertHook event ∧
            (s.server.registry.nodes event.nodeId).isSome = true ∧
            Reported tokens (handledBy P (boot tokens rows metrics) acts) tid "HOOK"
              event.nodeId)) ∧
    (∀ n, (∀ tid w, a = .run tid w →
        ¬Reported tokens (handledBy P (boot tokens rows metrics) acts) tid "METRICS" n) →
      ∀ m tokenWeight idlePenalty board board',
        ScoringEngine.compute s.server.metrics m tokenWeight idlePenalty = some board →
        ScoringEngine.compute s'.server.metrics m tokenWeight idlePenalty = some board' →
          ∀ score, score.nodeId = n → (score ∈ board'.rankings ↔ score ∈ board.rankings)) ∧
    ∀ (w : World) (server : Server) (identity identity' msgType : Frame) (rest : List Frame),
      msgType.bytes ≠ utf8 "REGISTER" →
        MatchManager.dispatch P w server (identity :: msgType :: rest) =
          MatchManager.dispatch P w server (identity' :: msgType :: rest) := by
  rw [← and_assoc]
  refine ⟨?_, fun w server identity identity' msgType rest hregister =>
    MatchManager.dispatch_identity hregister w server identity identity' rest⟩
  rcases (attributed_run hrun).stores h with
    hsame | ⟨tid, w, rfl, ⟨row, hrow, hreported, hnode, -⟩ | ⟨event, hevent, hreported, hnode⟩⟩
  · rw [hsame]
    refine ⟨.inl rfl, ?_⟩
    intro n _ m tokenWeight idlePenalty board board' hboard hboard' score _
    rw [Option.some.inj (hboard'.symm.trans hboard)]
  · refine ⟨.inr ⟨tid, w, rfl, .inl ⟨row, hrow, hnode, hreported⟩⟩, ?_⟩
    rintro n hn m tokenWeight idlePenalty board board' hboard hboard' score rfl
    rw [hrow] at hboard'
    refine ScoringEngine.mem_rankings_insertMetric hboard hboard' fun hne => hn tid w rfl ?_
    rw [hne]
    exact hreported
  · refine ⟨.inr ⟨tid, w, rfl, .inr ⟨event, hevent, hnode, hreported⟩⟩, ?_⟩
    intro n _ m tokenWeight idlePenalty board board' hboard hboard' score _
    rw [hevent] at hboard'
    rw [Option.some.inj (hboard'.symm.trans hboard)]

open Sample in
theorem reports_attributed_foreign : ∃ s s' row,
    run (step platform) (Sample.boot [("m", ["n"])]) foreignReport = some s ∧
      step platform s (.run 3 {}) = some s' ∧
      s'.server.metrics = s.server.metrics.insertMetric row ∧
      Reported (fun _ => some "token")
        (handledBy platform (Sample.boot [("m", ["n"])]) foreignReport) 3 "METRICS"
          row.nodeId := by
  obtain ⟨s', hs', h'⟩ := Option.map_eq_some_iff.mp
    (show (run (step platform) (Sample.boot [("m", ["n"])])
        (foreignReport ++ [.run 3 {}])).map (fun s => s.server.metrics.metrics.length) = some 1
      by decide +kernel)
  obtain ⟨s, hs, hlast⟩ := run_append_eq_some.mp hs'
  obtain ⟨u, hstep, hu⟩ := run_cons_eq_some.mp hlast
  obtain rfl : u = s' := Option.some.inj hu
  obtain ⟨u', hu', h⟩ := Option.map_eq_some_iff.mp
    (show (run (step platform) (Sample.boot [("m", ["n"])]) foreignReport).map
        (fun s => (s.server.metrics.metrics.length, s.server.metrics.hookEvents.length))
      = some (0, 0) by decide +kernel)
  obtain rfl : s = u' := Option.some.inj (hs.symm.trans hu')
  obtain ⟨v, hv, hhooks⟩ := Option.map_eq_some_iff.mp
    (show (run (step platform) (Sample.boot [("m", ["n"])])
        (foreignReport ++ [.run 3 {}])).map (fun s => s.server.metrics.hookEvents.length) = some 0
      by decide +kernel)
  obtain rfl : u = v := Option.some.inj (hs'.symm.trans hv)
  obtain ⟨hmetrics, -⟩ := Prod.mk.inj h
  rcases (reports_attributed hs hstep).1 with
    hsame | ⟨tid, w, hrun, ⟨row, hrow, -, hreported⟩ | ⟨event, hevent, -⟩⟩
  · rw [hsame, hmetrics] at h'
    cases h'
  · obtain ⟨rfl, -⟩ := Act.run.inj hrun
    exact ⟨s, u, row, hs, hstep, hrow, hreported⟩
  · rw [hevent, MetricsStore.insertHook, List.length_append] at hhooks
    simp at hhooks

open Sample in
/-- A message from identity `[9]` adds 100 tokens to node `n`, which is registered
under identity `[1]`. -/
theorem foreign_report_scores : ∃ s s',
    run (step platform) (Sample.boot [("m", ["n"])]) foreignReport = some s ∧
      s.server.registry.identityFor "n" = some [1] ∧
      (handledBy platform (Sample.boot [("m", ["n"])]) foreignReport).filterMap
        (fun p => if p.1 = 3 then p.2.head?.map (·.bytes) else none) = [[9]] ∧
      step platform s (.run 3 {}) = some s' ∧
      s'.server.registry.identityFor "n" = some [1] ∧
      MetricsStore.sumTokens (MetricsStore.rowsOf s.server.metrics.metrics "m" "n") = some 0 ∧
      MetricsStore.sumTokens (MetricsStore.rowsOf s'.server.metrics.metrics "m" "n")
        = some 100 := by
  obtain ⟨s', hs', h'⟩ := Option.map_eq_some_iff.mp
    (show (run (step platform) (Sample.boot [("m", ["n"])])
        (foreignReport ++ [.run 3 {}])).map (fun s => (s.server.registry.identityFor "n",
          MetricsStore.sumTokens (MetricsStore.rowsOf s.server.metrics.metrics "m" "n")))
      = some (some [1], some 100) by decide +kernel)
  obtain ⟨s, hs, hlast⟩ := run_append_eq_some.mp hs'
  obtain ⟨u, hstep, hu⟩ := run_cons_eq_some.mp hlast
  obtain rfl : u = s' := Option.some.inj hu
  obtain ⟨u', hu', h⟩ := Option.map_eq_some_iff.mp
    (show (run (step platform) (Sample.boot [("m", ["n"])]) foreignReport).map
        (fun s => (s.server.registry.identityFor "n",
          MetricsStore.sumTokens (MetricsStore.rowsOf s.server.metrics.metrics "m" "n")))
      = some (some [1], some 0) by decide +kernel)
  obtain rfl : s = u' := Option.some.inj (hs.symm.trans hu')
  obtain ⟨hid, htokens⟩ := Prod.mk.inj h
  obtain ⟨hid', htokens'⟩ := Prod.mk.inj h'
  exact ⟨s, u, hs, hid, by decide +kernel, hstep, hid', htokens, htokens'⟩

/-! ### The matches behind the rows -/

/-- Match `m` has been started: its row came with a start time, or has been set to
`RUNNING` since the server booted. -/
def Started (rows : Dict MatchId MatchRecord) (m : MatchId) (s : Sys) : Prop :=
  (rows m).bind (·.t0) ≠ none ∨
    ∃ tid t0, .rowWritten tid m .running (some t0) ∈ s.server.trace

theorem started_of_timed {rows : Dict MatchId MatchRecord} {m : MatchId} {s : Sys}
    (h : (s.view m).Timed ((rows m).bind (·.t0))) (ht0 : s.server.store.t0Of m ≠ none) :
    Started rows m s := by
  refine (h ht0).imp_right ?_
  rintro ⟨t0, hmem⟩
  obtain ⟨e, he, hhappening⟩ := List.mem_filterMap.mp hmem
  cases e with
  | rowWritten tid m' state t0' =>
    rw [Event.happening] at hhappening
    by_cases hm : m' = m
    · rw [if_pos hm, Option.some_inj] at hhappening
      obtain ⟨rfl, rfl⟩ := Lifecycle.Happening.wrote.inj hhappening
      exact ⟨tid, t0, hm ▸ he⟩
    · rw [if_neg hm] at hhappening
      cases hhappening
  | sent n identity msgType payload =>
    cases msgType with
    | start =>
      simp only [Event.happening] at hhappening
      split at hhappening
      · split at hhappening <;> simp at hhappening
      · cases hhappening
    | stop => cases hhappening
  | _ => cases hhappening

/-- The metric rows that have been added are those of registered nodes and started
matches. -/
def Admitted (metrics : MetricsStore) (s : Sys) : Prop :=
  ∃ new, s.server.metrics.metrics = metrics.metrics ++ new ∧
    ∀ row ∈ new, (s.server.registry.nodes row.nodeId).isSome = true ∧
      s.server.store.t0Of row.matchId ≠ none

theorem Admitted.step {tokens : Dict NodeId String} {metrics : MetricsStore} {s s' : Sys}
    {a : Act} {seen : List (TaskId × List Frame)} (hs : Admitted metrics s)
    (hattributed : Attributed P tokens s seen) (h : Sys.step P s a = some s') :
    Admitted metrics s' := by
  obtain ⟨new, hnew, hadmitted⟩ := hs
  have hkept : ∀ row : MetricRow, (s.server.registry.nodes row.nodeId).isSome = true ∧
      s.server.store.t0Of row.matchId ≠ none →
      (s'.server.registry.nodes row.nodeId).isSome = true ∧
        s'.server.store.t0Of row.matchId ≠ none :=
    fun row hrow => ⟨step_registered h hrow.1, step_t0 h hrow.2⟩
  rcases hattributed.stores h with
    hsame | ⟨tid, w, -, ⟨row, hrow, -, hnode, ht0⟩ | ⟨event, hevent, -⟩⟩
  · exact ⟨new, by rw [hsame, hnew], fun row hmem => hkept row (hadmitted row hmem)⟩
  · refine ⟨new ++ [row], ?_, fun row' hmem => ?_⟩
    · rw [hrow, MetricsStore.insertMetric, hnew, List.append_assoc]
    · rcases List.mem_append.mp hmem with hmem | hmem
      · exact hkept row' (hadmitted row' hmem)
      · rw [List.mem_singleton.mp hmem]
        exact hkept row ⟨hnode, ht0⟩
  · exact ⟨new, by rw [hevent]; exact hnew, fun row hmem => hkept row (hadmitted row hmem)⟩

/-- **Rows are admitted for registered nodes and started matches.**  A leaderboard
ranks no other nodes than these, and those with rows from before; and it does
not change before the match has been started. -/
theorem rows_admitted {tokens : Dict NodeId String} {rows : Dict MatchId MatchRecord}
    {metrics : MetricsStore} {acts : List Act} {s : Sys}
    (hrun : run (step P) (boot tokens rows metrics) acts = some s) :
    (∃ new, s.server.metrics.metrics = metrics.metrics ++ new ∧
      ∀ row ∈ new, (s.server.registry.nodes row.nodeId).isSome = true ∧
        Started rows row.matchId s) ∧
    ∀ m tokenWeight idlePenalty,
      (¬Started rows m s →
        ScoringEngine.compute s.server.metrics m tokenWeight idlePenalty
          = ScoringEngine.compute metrics m tokenWeight idlePenalty) ∧
      ∀ board, ScoringEngine.compute s.server.metrics m tokenWeight idlePenalty = some board →
        ∀ score ∈ board.rankings, (s.server.registry.nodes score.nodeId).isSome = true ∨
          ∃ row ∈ metrics.metrics, row.matchId = m ∧ row.nodeId = score.nodeId := by
  have hinv : (∃ seen, Attributed P tokens s seen) ∧ Admitted metrics s ∧
      ∀ m, (s.view m).Timed ((rows m).bind (·.t0)) := by
    -- A row needs a time of launch, and `Timed` says where the times come from.
    refine invariant_of_run
      (I := fun s => (∃ seen, Attributed P tokens s seen) ∧ Admitted metrics s ∧
        ∀ m, (s.view m).Timed ((rows m).bind (·.t0))) ?_ ?_ hrun
    · rintro s a s' ⟨⟨seen, hs⟩, hadmitted, htimed⟩ h
      refine ⟨⟨_, hs.step h⟩, hadmitted.step hs h, fun m => ?_⟩
      obtain ⟨l, hl, -, -⟩ := step_view m h
      exact (htimed m).step hl
    · refine ⟨⟨_, attributed_run (P := P) (run_nil _)⟩, ⟨[], ?_, ?_⟩, fun m => .inl⟩
      · exact (List.append_nil _).symm
      · exact fun row hmem => (List.not_mem_nil hmem).elim
  obtain ⟨-, ⟨new, hnew, hadmitted⟩, htimed⟩ := hinv
  have hstarted : ∀ row ∈ new, Started rows row.matchId s := fun row hrow =>
    started_of_timed (htimed row.matchId) (hadmitted row hrow).2
  refine ⟨⟨new, hnew, fun row hrow => ⟨(hadmitted row hrow).1, hstarted row hrow⟩⟩, ?_⟩
  intro m tokenWeight idlePenalty
  constructor
  · intro hnot
    have htotals : s.server.metrics.getTotalsPerNode m = metrics.getTotalsPerNode m := by
      have happend : MetricsStore.getTotalsPerNode
          ⟨metrics.metrics ++ new, s.server.metrics.hookEvents⟩ m
            = MetricsStore.getTotalsPerNode ⟨metrics.metrics, metrics.hookEvents⟩ m :=
        MetricsStore.getTotalsPerNode_append fun row hrow hm => hnot (hm ▸ hstarted row hrow)
      rwa [← hnew] at happend
    rw [ScoringEngine.compute, ScoringEngine.compute, htotals]
  · intro board hboard score hscore
    obtain ⟨row, hrow, hm, hn⟩ := ScoringEngine.exists_row_of_mem_rankings hboard hscore
    rw [hnew] at hrow
    rcases List.mem_append.mp hrow with hrow | hrow
    · exact .inr ⟨row, hrow, hm, hn⟩
    · rw [← hn]
      exact .inl (hadmitted row hrow).1

open Sample in
theorem rows_admitted_foreign : ∃ s,
    run (step platform) (Sample.boot [("m", ["n"])]) (foreignReport ++ [.run 3 {}]) = some s ∧
      ∃ row ∈ s.server.metrics.metrics, (s.server.registry.nodes row.nodeId).isSome = true ∧
        Started (Sample.boot [("m", ["n"])]).server.store.rows row.matchId s := by
  obtain ⟨s, hs, h⟩ := Option.map_eq_some_iff.mp
    (show (run (step platform) (Sample.boot [("m", ["n"])])
        (foreignReport ++ [.run 3 {}])).map (fun s => s.server.metrics.metrics.length) = some 1
      by decide +kernel)
  obtain ⟨⟨new, hnew, hadmitted⟩, -⟩ := rows_admitted hs
  obtain ⟨row, hrow⟩ := List.exists_mem_of_length_pos (l := s.server.metrics.metrics) (by omega)
  exact ⟨s, hs, row, hrow, hadmitted row (by rwa [hnew] at hrow)⟩

open Sample in
/-- Match `m` of node `n` is finished, and gets a row for node `x`. -/
theorem finished_match_gets_row : ∃ s s',
    run (step platform) (Sample.boot [("m", ["n"])]) finished = some s ∧
      s.server.store.stateOf "m" = some .finished ∧
      (s.server.assignments "m").map (·.nodeId) = ["n"] ∧
      s.server.metrics.metrics = [] ∧
      run (step platform) s ([.call (.receive (metricsFrames [2] "x" "m"))] ++ runs 5 2 7)
        = some s' ∧
      s'.server.store.stateOf "m" = some .finished ∧
      s'.server.metrics.metrics.map (fun row => (row.matchId, row.nodeId)) = [("m", "x")] := by
  obtain ⟨s', hs', h'⟩ := Option.map_eq_some_iff.mp
    (show (run (step platform) (Sample.boot [("m", ["n"])])
        (finished ++ ([.call (.receive (metricsFrames [2] "x" "m"))] ++ runs 5 2 7))).map
        (fun s => (s.server.store.stateOf "m",
          s.server.metrics.metrics.map fun row => (row.matchId, row.nodeId)))
      = some (some .finished, [("m", "x")]) by decide +kernel)
  obtain ⟨s, hs, hlast⟩ := run_append_eq_some.mp hs'
  obtain ⟨u, hu, h⟩ := Option.map_eq_some_iff.mp
    (show (run (step platform) (Sample.boot [("m", ["n"])]) finished).map
        (fun s => (s.server.store.stateOf "m", (s.server.assignments "m").map (·.nodeId),
          s.server.metrics.metrics))
      = some (some .finished, ["n"], []) by decide +kernel)
  obtain rfl : s = u := Option.some.inj (hs.symm.trans hu)
  simp only [Prod.mk.injEq] at h
  obtain ⟨hrow', hrows⟩ := Prod.mk.inj h'
  exact ⟨s, s', hs, h.1, h.2.1, h.2.2, hlast, hrow', hrows⟩

end Sys
