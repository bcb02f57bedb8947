/-
The metrics and hook tables (`metrics/store.py`).

Rows in insertion order; `getTotalsPerNode` is the `SUM … GROUP BY node_id` of
the leaderboard, its groups in ascending order of the node.  A `REAL` sum that
is not a number comes back as `NULL` and is read as `0.0`; an integer sum is
added up in 64 bits, and the query raises if one overflows.
-/
import AgenticJuggling.MatchStore
import AgenticJuggling.CheckedSum

namespace List

variable {α β : Type*}

theorem mapM_of_forall {f : α → Option β} {g : α → β} {l : List α}
    (h : ∀ a ∈ l, f a = some (g a)) : l.mapM f = some (l.map g) := by
  induction l with
  | nil => rfl
  | cons a l ih =>
    obtain ⟨ha, hl⟩ := forall_mem_cons.mp h
    rw [mapM_cons, ha, ih hl]
    rfl

theorem mapM_eq_none_of_mem {f : α → Option β} {l : List α} {a : α} (ha : a ∈ l)
    (h : f a = none) : l.mapM f = none := by
  induction l with
  | nil => cases ha
  | cons b l ih =>
    rw [mapM_cons]
    rcases mem_cons.mp ha with rfl | ha
    · rw [h]
      rfl
    · rw [ih ha]
      cases f b <;> rfl

end List

structure MetricRow where
  matchId : MatchId
  nodeId : NodeId
  terminalId : String
  tRel : PyFloat
  idleSeconds : PyFloat
  tokensUsed : ℤ
  deriving DecidableEq

structure HookEvent where
  matchId : MatchId
  nodeId : NodeId
  tRel : PyFloat
  eventType : String
  payload : Json

structure MetricsStore where
  metrics : List MetricRow
  hookEvents : List HookEvent

/-- The aggregate of one node. -/
structure NodeTotals where
  tokensUsed : ℤ
  idleSeconds : PyFloat
  deriving DecidableEq

namespace MetricsStore

def insertMetric (db : MetricsStore) (row : MetricRow) : MetricsStore :=
  { db with metrics := db.metrics ++ [row] }

def insertHook (db : MetricsStore) (event : HookEvent) : MetricsStore :=
  { db with hookEvents := db.hookEvents ++ [event] }

/-- The rows of one node in one match. -/
def rowsOf (rows : List MetricRow) (matchId : MatchId) (nodeId : NodeId) : List MetricRow :=
  rows.filter fun row => row.matchId = matchId ∧ row.nodeId = nodeId

/-- `SUM(idle_seconds)`, read with `or 0.0`. -/
def sumIdle (rows : List MetricRow) : PyFloat :=
  match (rows.map (·.idleSeconds)).foldl PyFloat.add (.fin 0) with
  | .nan => .fin 0
  | total => total

/-- The nodes with a row for the match, ascending. -/
def nodesOf (rows : List MetricRow) (matchId : MatchId) : List NodeId :=
  ((rows.filter fun row => row.matchId = matchId).map (·.nodeId)).dedup.mergeSort (· ≤ ·)

/-- SQLite integers have 64 bits. -/
def fitsInt64 (i : ℤ) : Bool := decide (-2 ^ 63 ≤ i ∧ i < 2 ^ 63)

/-- `SUM(tokens_used)`; `none` where it raises. -/
def sumTokens (rows : List MetricRow) : Option ℤ :=
  CheckedSum.checkedSum fitsInt64 (rows.map (·.tokensUsed))

def totalsOf (rows : List MetricRow) : Option NodeTotals :=
  (sumTokens rows).map fun tokensUsed =>
    { tokensUsed := tokensUsed, idleSeconds := sumIdle rows }

/-- One pair for each node with a row for the match; `none` where the query raises. -/
def getTotalsPerNode (db : MetricsStore) (matchId : MatchId) :
    Option (List (NodeId × NodeTotals)) :=
  (nodesOf db.metrics matchId).mapM fun n =>
    (totalsOf (rowsOf db.metrics matchId n)).map fun totals => (n, totals)

/-- No sum of tokens overflows on the way. -/
def SumsFit (rows : List MetricRow) (matchId : MatchId) : Prop :=
  ∀ n, CheckedSum.RunningFits fitsInt64 ((rowsOf rows matchId n).map (·.tokensUsed))

/-- The totals of rows whose tokens can be added up. -/
def exactTotals (rows : List MetricRow) : NodeTotals where
  tokensUsed := (rows.map (·.tokensUsed)).sum
  idleSeconds := sumIdle rows

theorem mem_nodesOf {rows : List MetricRow} {m : MatchId} {n : NodeId} :
    n ∈ nodesOf rows m ↔ ∃ row ∈ rows, row.matchId = m ∧ row.nodeId = n := by
  simp [nodesOf, List.mem_mergeSort, and_assoc]

theorem rowsOf_eq_nil {rows : List MetricRow} {m : MatchId} {n : NodeId}
    (h : n ∉ nodesOf rows m) : rowsOf rows m n = [] := by
  rw [rowsOf, List.filter_eq_nil_iff]
  intro row hrow hcond
  exact h (mem_nodesOf.mpr ⟨row, hrow, of_decide_eq_true hcond⟩)

theorem totalsOf_of_fits {rows : List MetricRow}
    (h : CheckedSum.RunningFits fitsInt64 (rows.map (·.tokensUsed))) :
    totalsOf rows = some (exactTotals rows) := by
  rw [totalsOf, sumTokens, CheckedSum.checkedSum_of_fits rfl h]
  rfl

theorem totalsOf_of_not_fits {rows : List MetricRow}
    (h : ¬CheckedSum.RunningFits fitsInt64 (rows.map (·.tokensUsed))) : totalsOf rows = none := by
  rw [totalsOf, sumTokens, (CheckedSum.checkedSum_eq_none_iff rfl).mpr h]
  rfl

theorem getTotalsPerNode_of_fits {db : MetricsStore} {m : MatchId} (h : SumsFit db.metrics m) :
    db.getTotalsPerNode m =
      some ((nodesOf db.metrics m).map fun n => (n, exactTotals (rowsOf db.metrics m n))) := by
  refine List.mapM_of_forall fun n _ => ?_
  rw [totalsOf_of_fits (h n)]
  rfl

/-- One overflow fails the query for all nodes. -/
theorem sumsFit_of_totals {db : MetricsStore} {m : MatchId} {totals : List (NodeId × NodeTotals)}
    (h : db.getTotalsPerNode m = some totals) : SumsFit db.metrics m := by
  intro n
  by_cases hn : n ∈ nodesOf db.metrics m
  · by_contra hover
    rw [getTotalsPerNode, List.mapM_eq_none_of_mem hn] at h
    · cases h
    · rw [totalsOf_of_not_fits hover]
      rfl
  · -- A node without rows has nothing to add up.
    rw [rowsOf_eq_nil hn]
    intro first hfirst
    rw [List.prefix_nil.mp hfirst]
    rfl

/-- **When a match has totals, and which**: exactly if no sum overflows. -/
theorem getTotalsPerNode_eq_some_iff {db : MetricsStore} {m : MatchId}
    {totals : List (NodeId × NodeTotals)} : db.getTotalsPerNode m = some totals ↔
      SumsFit db.metrics m ∧
        totals = (nodesOf db.metrics m).map fun n => (n, exactTotals (rowsOf db.metrics m n)) := by
  constructor
  · intro h
    have hfits := sumsFit_of_totals h
    rw [getTotalsPerNode_of_fits hfits] at h
    exact ⟨hfits, (Option.some.inj h).symm⟩
  · rintro ⟨hfits, rfl⟩
    exact getTotalsPerNode_of_fits hfits

/-- Counts can be added up as long as the sums of the nodes fit. -/
theorem sumsFit_iff_of_nonneg {rows : List MetricRow} {m : MatchId}
    (h : ∀ n, ∀ row ∈ rowsOf rows m n, 0 ≤ row.tokensUsed) :
    SumsFit rows m ↔ ∀ n, ((rowsOf rows m n).map (·.tokensUsed)).sum < 2 ^ 63 := by
  have hdown : ∀ a b : ℤ, 0 ≤ a → a ≤ b → fitsInt64 b → fitsInt64 a := by
    intro a b ha hab hb
    have hb := of_decide_eq_true hb
    exact decide_eq_true ⟨by omega, by omega⟩
  refine forall_congr' fun n => ?_
  have hnonneg : ∀ tokens ∈ (rowsOf rows m n).map (·.tokensUsed), 0 ≤ tokens := by
    intro tokens htokens
    obtain ⟨row, hrow, rfl⟩ := List.mem_map.mp htokens
    exact h n row hrow
  rw [CheckedSum.runningFits_iff_of_nonneg hdown hnonneg, fitsInt64, decide_eq_true_eq]
  have hsum := List.sum_nonneg hnonneg
  omega

/-- So they can if all rows together stay below the bound. -/
theorem sumsFit_of_sum_lt {rows : List MetricRow} (h : ∀ row ∈ rows, 0 ≤ row.tokensUsed)
    (hsum : (rows.map (·.tokensUsed)).sum < 2 ^ 63) (m : MatchId) : SumsFit rows m := by
  refine (sumsFit_iff_of_nonneg fun n row hrow => h row (List.mem_of_mem_filter hrow)).mpr ?_
  intro n
  refine lt_of_le_of_lt ((List.filter_sublist.map _).sum_le_sum fun tokens htokens => ?_) hsum
  obtain ⟨row, hrow, rfl⟩ := List.mem_map.mp htokens
  exact h row hrow

end MetricsStore
