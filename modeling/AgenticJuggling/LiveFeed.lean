/-
The live feed of leaderboards (`on_metrics` of `metrics/ingester.py`).

Any number of `on_metrics` calls run at once.  Each looks up its match, inserts
its row, adds up the totals and hands the board to the score callback; every
request it makes waits in the queue of a database connection, and a call whose
request is done waits in the queue of the tasks that are ready.  All three
queues are first in, first out.

* `Feed.step_view` — the calls that have begun to add up stand in one line,
  wherever they are: every step is a move of `QueryLine`, or none;
* `Feed.boards_grow` — no board misses a row that an earlier one has counted.
-/
import AgenticJuggling.QueryLine
import AgenticJuggling.Leaderboards
import AgenticJuggling.System

/-- The arguments of `on_metrics`. -/
structure MetricsCall where
  nodeId : NodeId
  payload : List (String × Json)

/-- What a call asks of the connection of the match store. -/
inductive MatchRequest
  | execute
  | fetch (found : Option MatchRecord)
  | close (found : Option MatchRecord)

/-- What a call asks of the connection of the metrics store; a totals query
carries what the table held when it began and when its groups were fetched. -/
inductive MetricsRequest
  | insert (record : MatchRecord) (row : MetricRow)
  | commit (record : MatchRecord) (row : MetricRow)
  | execute (record : MatchRecord) (row : MetricRow)
  | fetch (record : MatchRecord) (row : MetricRow) (began : List MetricRow)
  | close (record : MatchRecord) (row : MetricRow) (began ended : List MetricRow)

/-- How far a call that is ready to run has come. -/
inductive MetricsReply
  | called
  | matchExecuted (found : Option MatchRecord)
  | matchFetched (found : Option MatchRecord)
  | matchClosed (found : Option MatchRecord)
  | inserted (record : MatchRecord) (row : MetricRow)
  | committed (record : MatchRecord) (row : MetricRow)
  | executed (record : MatchRecord) (row : MetricRow) (began : List MetricRow)
  | fetched (record : MatchRecord) (row : MetricRow) (began ended : List MetricRow)
  | closed (record : MatchRecord) (row : MetricRow) (began ended : List MetricRow)

/-- A board handed to the score callback. -/
structure Board where
  matchId : MatchId
  tokenWeight : ℚ
  idlePenalty : ℚ
  began : List MetricRow
  ended : List MetricRow

/-- What a call does until its next suspension. -/
inductive MetricsStretch
  | asksMatches (request : MatchRequest)
  | asksMetrics (request : MetricsRequest)
  | hands (board : Board)
  /-- The message is dropped, or the handler raises. -/
  | returns

namespace MetricsCall

/-- `on_metrics`, from one `await` to the next.  A row that cannot be built ends
the call; `time.time()` is `now`. -/
def resume (P : Platform) (call : MetricsCall) (now : ℚ) : MetricsReply → MetricsStretch
  | .called => .asksMatches .execute
  | .matchExecuted found => .asksMatches (.fetch found)
  | .matchFetched found => .asksMatches (.close found)
  | .matchClosed none => .returns
  | .matchClosed (some record) =>
    match Ingester.metricRow P record call.nodeId call.payload now with
    | none => .returns
    | some row => .asksMetrics (.insert record row)
  | .inserted record row => .asksMetrics (.commit record row)
  | .committed record row => .asksMetrics (.execute record row)
  | .executed record row began => .asksMetrics (.fetch record row began)
  | .fetched record row began ended => .asksMetrics (.close record row began ended)
  | .closed record row began ended =>
    .hands
      { matchId := row.matchId, tokenWeight := record.tokenWeight,
        idlePenalty := record.idlePenalty, began := began, ended := ended }

end MetricsCall

structure Feed where
  store : MatchStore
  rows : List MetricRow
  ready : List (MetricsCall × MetricsReply) := []
  matchQueue : List (MetricsCall × MatchRequest) := []
  metricsQueue : List (MetricsCall × MetricsRequest) := []
  /-- The boards handed over so far, in order. -/
  boards : List Board := []

namespace Feed

inductive Act
  /-- `on_metrics` is called. -/
  | call (nodeId : NodeId) (payload : List (String × Json))
  /-- The first task that is ready runs to its next `await`. -/
  | run (now : ℚ)
  /-- The connection of the match store performs its first request, or it fails. -/
  | serveMatches (fails : Bool)
  | serveMetrics (fails : Bool)
  /-- Another task writes match rows. -/
  | matchesWritten (store : MatchStore)

variable (P : Platform)

/-- What the match store answers; a match id that cannot be bound raises. -/
def serveMatch (s : Feed) (call : MetricsCall) : MatchRequest → Option MetricsReply
  | .execute => (Ingester.matchId P call.payload).map fun m => .matchExecuted (s.store.get m)
  | .fetch found => some (.matchFetched found)
  | .close found => some (.matchClosed found)

/-- What the metrics table holds after a request, and the answer to it. -/
def serveMetric (rows : List MetricRow) : MetricsRequest → List MetricRow × MetricsReply
  | .insert record row => (rows ++ [row], .inserted record row)
  | .commit record row => (rows, .committed record row)
  | .execute record row => (rows, .executed record row rows)
  | .fetch record row began => (rows, .fetched record row began rows)
  | .close record row began ended => (rows, .closed record row began ended)

/-- The stretch of a call is put into effect. -/
def settle (s : Feed) (call : MetricsCall) : MetricsStretch → Feed
  | .asksMatches request => { s with matchQueue := s.matchQueue ++ [(call, request)] }
  | .asksMetrics request => { s with metricsQueue := s.metricsQueue ++ [(call, request)] }
  | .hands board => { s with boards := s.boards ++ [board] }
  | .returns => s

/-- A task whose request fails ends when it is resumed and asks for nothing more. -/
def step (s : Feed) : Act → Option Feed
  | .call nodeId payload => some { s with ready := s.ready ++ [(⟨nodeId, payload⟩, .called)] }
  | .run now =>
    match s.ready with
    | [] => none
    | (call, reply) :: ready => some (settle { s with ready := ready } call (call.resume P now reply))
  | .serveMatches fails =>
    match s.matchQueue with
    | [] => none
    | (call, request) :: queue =>
      let reply := if fails then none else s.serveMatch P call request
      some { s with
        matchQueue := queue, ready := s.ready ++ (reply.map fun r => (call, r)).toList }
  | .serveMetrics fails =>
    match s.metricsQueue with
    | [] => none
    | (call, request) :: queue =>
      if fails then some { s with metricsQueue := queue }
      else some { s with
        metricsQueue := queue
        rows := (serveMetric s.rows request).1
        ready := s.ready ++ [(call, (serveMetric s.rows request).2)] }
  | .matchesWritten store => some { s with store := store }

/-- Before the first call; the table holds what was stored before. -/
def boot (store : MatchStore) (rows : List MetricRow) : Feed where
  store := store
  rows := rows

/-! ### One line of totals queries -/

section

variable (j : MetricsCall × MetricsReply) (r : MetricsCall × MetricsRequest)

def executed? : Option (List MetricRow) :=
  match j.2 with
  | .executed _ _ began => some began
  | _ => none

def fetching? : Option (List MetricRow) :=
  match r.2 with
  | .fetch _ _ began => some began
  | _ => none

def fetched? : Option (List MetricRow × List MetricRow) :=
  match j.2 with
  | .fetched _ _ began ended => some (began, ended)
  | _ => none

def closing? : Option (List MetricRow × List MetricRow) :=
  match r.2 with
  | .close _ _ began ended => some (began, ended)
  | _ => none

def closed? : Option (List MetricRow × List MetricRow) :=
  match j.2 with
  | .closed _ _ began ended => some (began, ended)
  | _ => none

end

/-- The queries in the order of their line: first those whose board is handed
over, last those that have just begun. -/
def view (s : Feed) : QueryLine MetricRow where
  rows := s.rows
  ended := s.boards.map (fun board => (board.began, board.ended)) ++
    (s.ready.filterMap closed? ++ (s.metricsQueue.filterMap closing? ++
      s.ready.filterMap fetched?))
  begun := s.metricsQueue.filterMap fetching? ++ s.ready.filterMap executed?

variable {P} {s s' : Feed}

/-- A task moves to the end of the queue it waits in next, which is where its
query already stands. -/
theorem settle_view (call : MetricsCall) (reply : MetricsReply)
    (ready : List (MetricsCall × MetricsReply)) (now : ℚ)
    (hready : s.ready = (call, reply) :: ready) :
    (settle { s with ready := ready } call (call.resume P now reply)).view = s.view := by
  cases reply with
  | matchClosed found =>
    cases found with
    | none => simp [view, hready, MetricsCall.resume, settle, List.filterMap_cons, executed?,
        fetched?, closed?]
    | some record =>
      rw [MetricsCall.resume]
      cases Ingester.metricRow P record call.nodeId call.payload now with
      | none => simp [view, hready, settle, List.filterMap_cons, executed?, fetched?, closed?]
      | some row => simp [view, hready, settle, List.filterMap_cons, executed?, fetched?, closed?,
          fetching?, closing?]
  | _ => simp [view, hready, MetricsCall.resume, settle, List.filterMap_cons, executed?, fetched?,
      closed?, fetching?, closing?]

/-- The state after the first request of the metrics store. -/
def servedMetric (s : Feed) (call : MetricsCall) (request : MetricsRequest)
    (queue : List (MetricsCall × MetricsRequest)) : Feed :=
  { s with
    metricsQueue := queue
    rows := (serveMetric s.rows request).1
    ready := s.ready ++ [(call, (serveMetric s.rows request).2)] }

/-- What a request of the metrics store does to the line. -/
theorem servedMetric_view (call : MetricsCall) (request : MetricsRequest)
    (queue : List (MetricsCall × MetricsRequest))
    (hqueue : s.metricsQueue = (call, request) :: queue) :
    (s.servedMetric call request queue).view = s.view ∨
      QueryLine.Move s.view (s.servedMetric call request queue).view := by
  cases request with
  | insert record row =>
    have heq : (s.servedMetric call (.insert record row) queue).view =
        { s.view with rows := s.view.rows ++ [row] } := by
      simp [servedMetric, view, hqueue, serveMetric, List.filterMap_cons, executed?, fetched?,
        closed?, fetching?, closing?]
    exact .inr (heq ▸ .insert row)
  | execute record row =>
    have heq : (s.servedMetric call (.execute record row) queue).view =
        { s.view with begun := s.view.begun ++ [s.view.rows] } := by
      simp [servedMetric, view, hqueue, serveMetric, List.filterMap_cons, executed?, fetched?,
        closed?, fetching?, closing?]
    exact .inr (heq ▸ .begins)
  | fetch record row began =>
    -- The first of the requests is the first of the line.
    have hfirst : s.view.begun =
        began :: (queue.filterMap fetching? ++ s.ready.filterMap executed?) := by
      simp [view, hqueue, List.filterMap_cons, fetching?]
    have heq : (s.servedMetric call (.fetch record row began) queue).view =
        { s.view with
          ended := s.view.ended ++ [(began, s.view.rows)]
          begun := queue.filterMap fetching? ++ s.ready.filterMap executed? } := by
      simp [servedMetric, view, hqueue, serveMetric, List.filterMap_cons, executed?, fetched?,
        closed?, closing?]
    exact .inr (heq ▸ .ends _ _ hfirst)
  | _ =>
    refine .inl ?_
    simp [servedMetric, view, hqueue, serveMetric, List.filterMap_cons, executed?, fetched?,
      closed?, fetching?, closing?]

/-- **Every step is a move of the line, or none.** -/
theorem step_view {a : Act} (h : s.step P a = some s') :
    s'.view = s.view ∨ QueryLine.Move s.view s'.view := by
  cases a with
  | call nodeId payload =>
    obtain rfl := Option.some.inj h
    exact .inl (by simp [view, List.filterMap_cons, executed?, fetched?, closed?])
  | run now =>
    cases hready : s.ready with
    | nil => simp [step, hready] at h
    | cons j ready =>
      obtain ⟨call, reply⟩ := j
      rw [step, hready] at h
      obtain rfl := Option.some.inj h
      exact .inl (settle_view call reply ready now hready)
  | serveMatches fails =>
    cases hqueue : s.matchQueue with
    | nil => simp [step, hqueue] at h
    | cons j queue =>
      obtain ⟨call, request⟩ := j
      rw [step, hqueue] at h
      obtain rfl := Option.some.inj h
      refine .inl ?_
      cases fails with
      | true => simp [view]
      | false =>
        cases request with
        | execute =>
          cases hid : Ingester.matchId P call.payload with
          | none => simp [view, serveMatch, hid]
          | some m => simp [view, serveMatch, hid, List.filterMap_cons, executed?, fetched?, closed?]
        | _ => simp [view, serveMatch, List.filterMap_cons, executed?, fetched?, closed?]
  | serveMetrics fails =>
    cases hqueue : s.metricsQueue with
    | nil => simp [step, hqueue] at h
    | cons j queue =>
      obtain ⟨call, request⟩ := j
      rw [step, hqueue] at h
      cases fails with
      | true =>
        obtain rfl := Option.some.inj h
        -- The query of the task, if it has one, leaves the line.
        have hqueue : queue.Sublist s.metricsQueue := hqueue ▸ List.sublist_cons_self ..
        refine .inr (.abandoned _ _ ?_ ?_)
        · exact (List.Sublist.refl _).append ((List.Sublist.refl _).append
            ((hqueue.filterMap _).append (List.Sublist.refl _)))
        · exact (hqueue.filterMap _).append (List.Sublist.refl _)
      | false =>
        obtain rfl := Option.some.inj h
        exact servedMetric_view call request queue hqueue
  | matchesWritten store =>
    obtain rfl := Option.some.inj h
    exact .inl rfl

theorem run_ordered {store : MatchStore} {rows : List MetricRow} {as : List Act} {s : Feed}
    (h : Transition.run (step P) (boot store rows) as = some s) : s.view.Ordered := by
  have hboot : (boot store rows).view.Ordered := QueryLine.Ordered.empty rows
  refine Transition.invariant_of_run (I := fun s : Feed => s.view.Ordered) ?_ hboot h
  intro s a s' hs hstep
  obtain heq | hmove := step_view hstep
  · exact heq ▸ hs
  · exact hmove.ordered hs

end Feed

/-! ### The boards -/

/-- What SQLite's walk along the index on `(match_id, node_id)` selects: the first
step reads the rows of the first node and one row of the next, the fetch reads
on from there. -/
def MetricsStore.indexScan (matchId : MatchId) : Selection MetricRow where
  rows began ended := began ++ (ended.drop began.length).filter fun row =>
    decide (∃ r₁ ∈ began, ∃ r₂ ∈ began, r₁.matchId = matchId ∧ r₂.matchId = matchId ∧
      r₁.nodeId < r₂.nodeId ∧ r₂.nodeId ≤ row.nodeId)
  mono := by
    rintro b e b' e' ⟨x, rfl⟩ ⟨x', rfl⟩ ⟨y, rfl⟩ ⟨z, hz⟩
    rw [List.append_assoc, List.append_assoc, List.append_cancel_left_eq,
      List.append_eq_append_iff] at hz
    rw [List.drop_left, List.drop_left]
    obtain ⟨w, rfl, -⟩ | ⟨w, rfl, rfl⟩ := hz
    · -- The later query began after the earlier one had ended.
      exact ((List.Sublist.refl b).append (List.filter_sublist.trans
        (List.sublist_append_left x w))).trans (List.sublist_append_left _ _)
    · rw [List.filter_append, List.filter_append, List.append_assoc]
      refine (List.Sublist.refl b).append (List.filter_sublist.append ?_)
      refine (List.monotone_filter_right w fun row hrow => ?_).trans
        (List.sublist_append_left _ _)
      obtain ⟨r₁, h₁, r₂, h₂, h⟩ := of_decide_eq_true hrow
      exact decide_eq_true
        ⟨r₁, List.mem_append_left y h₁, r₂, List.mem_append_left y h₂, h⟩

namespace Board

/-- The rows of its match that a board counts, for a query `Q`. -/
def counted (Q : MatchId → Selection MetricRow) (board : Board) : List MetricRow :=
  MetricsStore.matchRows ((Q board.matchId).rows board.began board.ended) board.matchId

/-- What the score callback is given; where a sum overflows, the fetch has failed. -/
def data (Q : MatchId → Selection MetricRow) (board : Board) : Option Json :=
  (ScoringEngine.compute ⟨(Q board.matchId).rows board.began board.ended, []⟩ board.matchId
    board.tokenWeight board.idlePenalty).map ScoringEngine.serialize

/-- The board says what its rows say. -/
theorem data_eq (Q : MatchId → Selection MetricRow) (board : Board) :
    board.data Q = (ScoringEngine.compute ⟨board.counted Q, []⟩ board.matchId board.tokenWeight
      board.idlePenalty).map ScoringEngine.serialize := by
  rw [data, counted, ScoringEngine.compute_matchRows _ [] []]

end Board

namespace Feed

/-- **The live feed never goes back.**  In every run, no board misses a metric
row that an earlier board of the same match has counted, whatever a query makes
of the rows inserted between its beginning and its end. -/
theorem boards_grow (P : Platform) (Q : MatchId → Selection MetricRow) {store : MatchStore}
    {rows : List MetricRow} {as : List Act} {s : Feed}
    (h : Transition.run (step P) (boot store rows) as = some s) :
    s.boards.Pairwise fun earlier later => earlier.matchId = later.matchId →
      (earlier.counted Q).Sublist (later.counted Q) := by
  have hended := (run_ordered h).rows_sublist
  have hboards := List.pairwise_map.mp (List.pairwise_append.mp hended).1
  refine hboards.imp fun {earlier later} hsub heq => ?_
  rw [Board.counted, Board.counted, ← heq]
  exact (hsub (Q earlier.matchId)).filter _

/-- Two calls for one match, request by request, each after the other. -/
def inTurns : List Act :=
  let payload : List (String × Json) := [("match_id", .str "m"), ("terminal_id", .str "t"),
    ("timestamp", .int 5), ("tokens_used", .int 100)]
  let asks : List Act := [.run 5, .run 5]
  let matches_ := asks ++ [.serveMatches false, .serveMatches false]
  let metrics := asks ++ [.serveMetrics false, .serveMetrics false]
  [.call "a" payload, .call "b" payload] ++ (List.replicate 3 matches_).flatten ++
    (List.replicate 5 metrics).flatten ++ asks

/-- The store of a match that has started. -/
def startedStore : MatchStore :=
  let record := { MatchStore.recordOf (Sample.config "m" ["a", "b"]) with
    state := .running, t0 := some 0 }
  { rows := Dict.empty.set "m" record, committed := Dict.empty.set "m" record }

theorem boards_grow_in_turns : ∃ s,
    Transition.run (step Sample.platform) (boot startedStore []) inTurns = some s ∧
      s.boards.length = 2 ∧
      s.boards.Pairwise fun earlier later => earlier.matchId = later.matchId →
        (earlier.counted MetricsStore.indexScan).Sublist
          (later.counted MetricsStore.indexScan) := by
  obtain ⟨s, hs, hlength⟩ := Option.map_eq_some_iff.mp
    (show (Transition.run (step Sample.platform) (boot startedStore []) inTurns).map
      (fun s => s.boards.length) = some 2 by decide +kernel)
  exact ⟨s, hs, hlength, boards_grow Sample.platform MetricsStore.indexScan hs⟩

end Feed
