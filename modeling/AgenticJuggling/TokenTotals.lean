/-
The token totals against the readings of the terminals.

A runner counts upwards and its reporter repeats what it last heard, while the
leaderboard adds up every row.

* `Fleet.tokens_eq_latest_iff` — in every run a node's total is the sum of the
  latest readings of its terminals exactly if no terminal was reported again
  after a report other than zero, and no node of the match was reported more than
  `SUM` can add up;
* `Fleet.resent_reading_counts_twice` — the same reading sent twice.
-/
import AgenticJuggling.NodeMetrics
import AgenticJuggling.Latest
import AgenticJuggling.Scoring
import AgenticJuggling.System

open Transition

namespace MetricsStore

/-- The counts reported for a node's terminals, in the order of the rows. -/
def readings (rows : List MetricRow) : List (String × ℤ) :=
  rows.map fun row => (row.terminalId, row.tokensUsed)

theorem exactTotals_tokensUsed (rows : List MetricRow) :
    (exactTotals rows).tokensUsed = ((readings rows).map Prod.snd).sum := by
  rw [exactTotals, readings, List.map_map]
  rfl

theorem rowsOf_append (rows rows' : List MetricRow) (m : MatchId) (n : NodeId) :
    rowsOf (rows ++ rows') m n = rowsOf rows m n ++ rowsOf rows' m n :=
  List.filter_append ..

end MetricsStore

namespace Fleet

/-- A count as a runner writes it. -/
def IsCount (value : Json) : Prop := ∃ k : ℕ, value = .int k

/-- Nothing but counts travels from the runners to the table. -/
structure Counting (m : MatchId) (s : Fleet) : Prop where
  window : ∀ n tid t, s.terminals n tid = some t → IsCount t.window.tokensUsed
  lines : ∀ n tid t, s.terminals n tid = some t → ∀ line ∈ t.lines,
    ∃ value, Json.lookup line "tokens_used" = some value ∧ IsCount value
  rows : ∀ n, ∀ row ∈ MetricsStore.rowsOf s.metrics.metrics m n, 0 ≤ row.tokensUsed

theorem pushMetrics_count (r : AgentRunner) (terminalId : String) (now : ℚ) :
    ∃ value, Json.lookup (r.pushMetrics terminalId now) "tokens_used" = some value ∧
      IsCount value :=
  ⟨.int r.tokensUsed, by simp [AgentRunner.pushMetrics, Json.lookup], r.tokensUsed, rfl⟩

theorem read_line {r : AgentRunner} {terminalId : String} {numbers : List ℕ} {clock : RunnerClock}
    {line : List (String × Json)} (h : line ∈ (r.read terminalId numbers clock).2.toList) :
    ∃ r' : AgentRunner, line = r'.pushMetrics terminalId clock.push := by
  unfold AgentRunner.read at h
  dsimp only at h
  split at h
  · rw [Option.toList_some, List.mem_singleton] at h
    exact ⟨_, h⟩
  · exact (List.not_mem_nil h).elim

theorem setTerminal_cases {s : Fleet} {n n' : NodeId} {tid tid' : String} {t t' : Terminal}
    (h : (s.setTerminal n tid t).terminals n' tid' = some t') :
    t' = t ∨ s.terminals n' tid' = some t' := by
  have h : Function.update s.terminals n ((s.terminals n).set tid t) n' tid' = some t' := h
  by_cases hn : n' = n
  · subst hn
    rw [Function.update_self] at h
    by_cases ht : tid' = tid
    · subst ht
      rw [Dict.set_self, Option.some_inj] at h
      exact .inl h.symm
    · rw [Dict.set_of_ne _ ht] at h
      exact .inr h
  · rw [Function.update_of_ne hn] at h
    exact .inr h

variable {P : Platform} {tokenRe : Bytes → List ℕ} {record : MatchRecord}

/-- A stored row carries the count of its window. -/
theorem rowOf_tokensUsed {n : NodeId} {tid : String} {window : AgentWindow} {now : ℚ}
    {row : MetricRow} (hcount : IsCount window.tokensUsed)
    (h : rowOf P record n tid window now = some row) : 0 ≤ row.tokensUsed := by
  obtain ⟨k, hk⟩ := hcount
  have htokens : Ingester.toInt P (Json.getD (("match_id", .str record.matchId) ::
      Report.metricsPayload n tid window.idleSeconds window.tokensUsed now) "tokens_used" (.int 0))
        = some (k : ℤ) := by
    simp [Json.getD, Json.lookup, Report.metricsPayload, hk, Ingester.toInt]
  simp only [rowOf, Ingester.metricRow, Option.bind_eq_bind, Option.bind_eq_some_iff] at h
  obtain ⟨t0, -, m, -, terminalId, -, tRel, -, idle, -, idleSeconds, -, tokens, hrow, h⟩ := h
  obtain rfl : (k : ℤ) = tokens := Option.some.inj (htokens.symm.trans hrow)
  split at h
  · rw [← Option.some.inj h]
    exact Int.natCast_nonneg k
  · cases h

/-- Replacing one terminal by a counting one. -/
theorem Counting.setTerminal {m : MatchId} {s : Fleet} (hs : s.Counting m) (n : NodeId)
    (tid : String) {t : Terminal} (hwindow : IsCount t.window.tokensUsed)
    (hlines : ∀ line ∈ t.lines, ∃ value, Json.lookup line "tokens_used" = some value ∧
      IsCount value) : (s.setTerminal n tid t).Counting m where
  window n' tid' t' h := by
    rcases setTerminal_cases h with rfl | h
    · exact hwindow
    · exact hs.window n' tid' t' h
  lines n' tid' t' h := by
    rcases setTerminal_cases h with rfl | h
    · exact hlines
    · exact hs.lines n' tid' t' h
  rows := hs.rows

theorem Counting.step {m : MatchId} {s s' : Fleet} {a : Act} (hs : s.Counting m)
    (h : Fleet.step P tokenRe record s a = some s') : s'.Counting m := by
  cases a with
  | opened n tid lastOutput lastPush =>
    rw [← Option.some.inj h]
    exact hs.setTerminal n tid ⟨0, rfl⟩ fun line hline => (List.not_mem_nil hline).elim
  | read n tid chunk clock =>
    obtain ⟨t, ht, h⟩ := Option.bind_eq_some_iff.mp h
    rw [← Option.some.inj h]
    refine hs.setTerminal n tid (hs.window n tid t ht) fun line hline => ?_
    rcases List.mem_append.mp hline with hline | hline
    · exact hs.lines n tid t ht line hline
    · obtain ⟨r', rfl⟩ := read_line hline
      exact pushMetrics_count ..
  | ended n tid now =>
    obtain ⟨t, ht, h⟩ := Option.bind_eq_some_iff.mp h
    rw [← Option.some.inj h]
    refine hs.setTerminal n tid (hs.window n tid t ht) fun line hline => ?_
    rcases List.mem_append.mp hline with hline | hline
    · exact hs.lines n tid t ht line hline
    · rw [List.mem_singleton.mp hline]
      exact pushMetrics_count ..
  | received n tid =>
    obtain ⟨t, ht, h⟩ := Option.bind_eq_some_iff.mp h
    obtain ⟨line, hline, h⟩ := Option.bind_eq_some_iff.mp h
    rw [← Option.some.inj h]
    refine hs.setTerminal n tid ?_ fun line' hline' =>
      hs.lines n tid t ht line' (List.mem_of_mem_tail hline')
    -- The window takes over the count of the line.
    obtain ⟨value, hvalue, hcount⟩ := hs.lines n tid t ht line (List.mem_of_head? hline)
    show IsCount (Json.getD line "tokens_used" t.window.tokensUsed)
    rw [Json.getD, hvalue]
    exact hcount
  | closed n tid =>
    rw [← Option.some.inj h]
    have hkept : ∀ n' tid' t', Function.update s.terminals n ((s.terminals n).pop tid) n' tid'
        = some t' → s.terminals n' tid' = some t' := by
      intro n' tid' t' h'
      by_cases hn : n' = n
      · subst hn
        rw [Function.update_self] at h'
        exact (Dict.pop_eq_some.mp h').2
      · rwa [Function.update_of_ne hn] at h'
    exact ⟨fun n' tid' t' h' => hs.window n' tid' t' (hkept n' tid' t' h'),
      fun n' tid' t' h' => hs.lines n' tid' t' (hkept n' tid' t' h'), hs.rows⟩
  | reported n tid now =>
    obtain ⟨t, ht, h⟩ := Option.bind_eq_some_iff.mp h
    obtain ⟨row, hrow, h⟩ := Option.bind_eq_some_iff.mp h
    rw [← Option.some.inj h]
    refine ⟨hs.window, hs.lines, fun n' row' hrow' => ?_⟩
    rw [MetricsStore.insertMetric, MetricsStore.rowsOf_append] at hrow'
    rcases List.mem_append.mp hrow' with hrow' | hrow'
    · exact hs.rows n' row' hrow'
    · rw [List.mem_singleton.mp (List.mem_of_mem_filter hrow')]
      exact rowOf_tokensUsed (hs.window n tid t ht) hrow

theorem counting_run {m : MatchId} {metrics : MetricsStore} {acts : List Act} {s : Fleet}
    (hempty : ∀ n, MetricsStore.rowsOf metrics.metrics m n = [])
    (hrun : run (Fleet.step P tokenRe record) (boot metrics) acts = some s) : s.Counting m := by
  refine invariant_of_run (I := Counting m) (fun _ _ _ hs h => hs.step h)
    ⟨fun n tid t h => (by cases h),
      fun n tid t h => (by cases h),
      fun n row hrow => ?_⟩ hrun
  rw [show (boot metrics).metrics.metrics = metrics.metrics from rfl, hempty n] at hrow
  exact (List.not_mem_nil hrow).elim

/-- **When a node's total is the sum of its terminals' readings**: in the
totals and on the leaderboard alike, exactly if every report of the node that
another one of the same terminal follows carries no tokens, and what any node of
the match has reported adds up to less than `2 ^ 63`. -/
theorem tokens_eq_latest_iff {metrics : MetricsStore} {acts : List Act} {s : Fleet} {n : NodeId}
    {tokenWeight idlePenalty : ℚ}
    (hempty : ∀ n, MetricsStore.rowsOf metrics.metrics record.matchId n = [])
    (hrun : run (Fleet.step P tokenRe record) (boot metrics) acts = some s)
    (hrow : ∃ row ∈ s.metrics.metrics, row.matchId = record.matchId ∧ row.nodeId = n) :
    ((∃ totals, s.metrics.getTotalsPerNode record.matchId = some totals ∧
          ∃ t, (n, t) ∈ totals ∧ t.tokensUsed = Latest.latestSum (MetricsStore.readings
            (MetricsStore.rowsOf s.metrics.metrics record.matchId n))) ∧
        ∃ board, ScoringEngine.compute s.metrics record.matchId tokenWeight idlePenalty
            = some board ∧
          ∃ score ∈ board.rankings, score.nodeId = n ∧
            score.tokensUsed = Latest.latestSum (MetricsStore.readings
              (MetricsStore.rowsOf s.metrics.metrics record.matchId n))) ↔
      (∀ n', ((MetricsStore.rowsOf s.metrics.metrics record.matchId n').map
        (·.tokensUsed)).sum < 2 ^ 63) ∧
      (MetricsStore.rowsOf s.metrics.metrics record.matchId n).Pairwise fun earlier later =>
        earlier.terminalId = later.terminalId → earlier.tokensUsed = 0 := by
  have hcounts := (counting_run hempty hrun).rows
  have hnonneg : ∀ reading ∈ MetricsStore.readings
      (MetricsStore.rowsOf s.metrics.metrics record.matchId n), 0 ≤ reading.2 := by
    intro reading hreading
    obtain ⟨row, hrow, rfl⟩ := List.mem_map.mp hreading
    exact hcounts n row hrow
  rw [← MetricsStore.sumsFit_iff_of_nonneg hcounts]
  -- What the query adds up are all the readings of the node.
  have hlatest : (MetricsStore.exactTotals
        (MetricsStore.rowsOf s.metrics.metrics record.matchId n)).tokensUsed
          = Latest.latestSum (MetricsStore.readings
            (MetricsStore.rowsOf s.metrics.metrics record.matchId n)) ↔
      (MetricsStore.rowsOf s.metrics.metrics record.matchId n).Pairwise fun earlier later =>
        earlier.terminalId = later.terminalId → earlier.tokensUsed = 0 := by
    rw [MetricsStore.exactTotals_tokensUsed, Latest.sum_eq_latestSum_iff hnonneg,
      MetricsStore.readings, List.pairwise_map]
  constructor
  · rintro ⟨⟨totals, htotals, t, ht, hsum⟩, -⟩
    obtain ⟨hfits, rfl⟩ := MetricsStore.getTotalsPerNode_eq_some_iff.mp htotals
    obtain ⟨n', -, heq⟩ := List.mem_map.mp ht
    obtain ⟨rfl, rfl⟩ := Prod.mk.inj heq
    exact ⟨hfits, hlatest.mp hsum⟩
  · rintro ⟨hfits, hpairwise⟩
    have hn := MetricsStore.mem_nodesOf.mpr hrow
    have hsum := hlatest.mpr hpairwise
    refine ⟨⟨_, MetricsStore.getTotalsPerNode_of_fits hfits, _, List.mem_map_of_mem hn, hsum⟩, ?_⟩
    obtain ⟨board, hboard⟩ := Option.isSome_iff_exists.mp
      (ScoringEngine.compute_isSome_iff.mpr hfits)
    exact ⟨board, hboard, _, (ScoringEngine.mem_rankings hboard).mpr ⟨n, hn, rfl⟩, rfl, hsum⟩

section Runs

/-- `TOKEN_RE` on the one chunk of the sample runs. -/
def sampleRe (chunk : Bytes) : List ℕ := if chunk = utf8 "tokens: 100" then [100] else []

/-- A running match with one node. -/
def sampleRecord : MatchRecord :=
  { MatchStore.recordOf (Sample.config "m" ["n"]) with state := .running, t0 := some 0 }

/-- A terminal opens, its agent uses 100 tokens and ends, and the reporter
sends the reading `k` times. -/
def readingSent (k : ℕ) : List Act :=
  [.opened "n" "m-t0" 0 0, .read "n" "m-t0" (utf8 "tokens: 100") ⟨1, 1, 1, 1⟩, .ended "n" "m-t0" 2,
    .received "n" "m-t0"] ++ List.replicate k (.reported "n" "m-t0" 5)

theorem tokens_eq_latest_iff_once : ∃ s,
    run (Fleet.step Sample.platform sampleRe sampleRecord) (boot ⟨[], []⟩) (readingSent 1) = some s ∧
      (∃ totals, s.metrics.getTotalsPerNode "m" = some totals ∧
        ∃ t, ("n", t) ∈ totals ∧ t.tokensUsed = Latest.latestSum (MetricsStore.readings
          (MetricsStore.rowsOf s.metrics.metrics "m" "n"))) ∧
      ∃ board, ScoringEngine.compute s.metrics "m" 1 1 = some board ∧
        ∃ score ∈ board.rankings, score.nodeId = "n" ∧
          score.tokensUsed = Latest.latestSum (MetricsStore.readings
            (MetricsStore.rowsOf s.metrics.metrics "m" "n")) := by
  obtain ⟨s, hs, hrows⟩ := Option.map_eq_some_iff.mp
    (show (run (Fleet.step Sample.platform sampleRe sampleRecord) (boot ⟨[], []⟩)
      (readingSent 1)).map (fun s => s.metrics.metrics)
      = some [⟨"m", "n", "m-t0", .fin 5, .fin 1, 100⟩] by decide +kernel)
  have hn : ∃ row ∈ s.metrics.metrics, row.matchId = "m" ∧ row.nodeId = "n" := by
    rw [hrows]
    exact ⟨_, List.mem_singleton_self _, rfl, rfl⟩
  refine ⟨s, hs, (tokens_eq_latest_iff (fun n => rfl) hs hn).mpr ⟨fun n' => ?_, ?_⟩⟩
  · rw [hrows, MetricsStore.rowsOf, List.filter_singleton]
    cases decide ("m" = sampleRecord.matchId ∧ "n" = n') <;> decide
  · rw [hrows]
    exact (List.pairwise_singleton _ _).filter _

/-- An unchanged reading that is sent once more doubles the total, where the
latest reading is still 100. -/
theorem resent_reading_counts_twice : ∃ s,
    run (Fleet.step Sample.platform sampleRe sampleRecord) (boot ⟨[], []⟩) (readingSent 2) = some s ∧
      s.metrics.getTotalsPerNode "m" = some [("n", ⟨200, .fin 2⟩)] ∧
      (ScoringEngine.compute s.metrics "m" 1 1).map (·.rankings.map (·.tokensUsed)) = some [200] ∧
      Latest.latestSum (MetricsStore.readings
        (MetricsStore.rowsOf s.metrics.metrics "m" "n")) = 100 := by
  obtain ⟨s, hs, h⟩ := Option.map_eq_some_iff.mp
    (show (run (Fleet.step Sample.platform sampleRe sampleRecord) (boot ⟨[], []⟩)
      (readingSent 2)).map (fun s => (s.metrics.getTotalsPerNode "m",
        (ScoringEngine.compute s.metrics "m" 1 1).map (·.rankings.map (·.tokensUsed)),
        Latest.latestSum (MetricsStore.readings (MetricsStore.rowsOf s.metrics.metrics "m" "n"))))
      = some (some [("n", ⟨200, .fin 2⟩)], some [200], 100) by decide +kernel)
  obtain ⟨htotals, h⟩ := Prod.mk.inj h
  obtain ⟨hscores, hlatest⟩ := Prod.mk.inj h
  exact ⟨s, hs, htotals, hscores, hlatest⟩

end Runs

end Fleet
