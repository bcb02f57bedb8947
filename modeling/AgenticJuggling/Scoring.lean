/-
The leaderboard (`metrics/scoring.py`).

Scores are computed exactly and rounded half to even at the fourth decimal.
There is no board where the totals cannot be added up.
-/
import AgenticJuggling.MetricsStore

namespace PyFloat

/-- `x * q` for a finite `q`. -/
def scale : PyFloat → ℚ → PyFloat
  | fin p, q => fin (p * q)
  | nan, _ => nan
  | posInf, q => if q = 0 then nan else if 0 < q then posInf else negInf
  | negInf, q => if q = 0 then nan else if 0 < q then negInf else posInf

/-- `x <= y`. -/
def le : PyFloat → PyFloat → Bool
  | nan, _ => false
  | _, nan => false
  | negInf, _ => true
  | _, posInf => true
  | fin p, fin q => decide (p ≤ q)
  | _, _ => false

/-- The nearest integer, an even one on a tie. -/
def roundHalfEven (q : ℚ) : ℤ :=
  let below := ⌊q⌋
  if q - below < 1 / 2 then below
  else if 1 / 2 < q - below then below + 1
  else if below % 2 = 0 then below else below + 1

/-- `round(x, 4)`. -/
def round4 : PyFloat → PyFloat
  | fin q => fin (roundHalfEven (q * 10000) / 10000)
  | x => x

end PyFloat

structure NodeScore where
  nodeId : NodeId
  tokensUsed : ℤ
  idleSeconds : PyFloat
  score : PyFloat

structure Leaderboard where
  matchId : MatchId
  rankings : List NodeScore

namespace ScoringEngine

def nodeScore (tokenWeight idlePenalty : ℚ) (nodeId : NodeId) (data : NodeTotals) : NodeScore where
  nodeId := nodeId
  tokensUsed := data.tokensUsed
  idleSeconds := data.idleSeconds
  score := ((PyFloat.fin (data.tokensUsed * tokenWeight)).sub
    (data.idleSeconds.scale idlePenalty)).round4

/-- The scores in descending order; `sorted` keeps equal ones in place.  The
exception of a totals query is passed on. -/
def compute (db : MetricsStore) (matchId : MatchId) (tokenWeight idlePenalty : ℚ) :
    Option Leaderboard :=
  (db.getTotalsPerNode matchId).map fun totals =>
    { matchId := matchId
      rankings := (totals.map fun p => nodeScore tokenWeight idlePenalty p.1 p.2).mergeSort
        fun a b => b.score.le a.score }

theorem compute_isSome_iff {db : MetricsStore} {m : MatchId} {tokenWeight idlePenalty : ℚ} :
    (compute db m tokenWeight idlePenalty).isSome ↔ MetricsStore.SumsFit db.metrics m := by
  rw [compute, Option.isSome_map, Option.isSome_iff_exists]
  constructor
  · rintro ⟨totals, h⟩
    exact MetricsStore.sumsFit_of_totals h
  · intro h
    exact ⟨_, MetricsStore.getTotalsPerNode_of_fits h⟩

theorem mem_rankings {db : MetricsStore} {m : MatchId} {tokenWeight idlePenalty : ℚ}
    {board : Leaderboard} (h : compute db m tokenWeight idlePenalty = some board)
    {score : NodeScore} : score ∈ board.rankings ↔
      ∃ n ∈ MetricsStore.nodesOf db.metrics m, nodeScore tokenWeight idlePenalty n
        (MetricsStore.exactTotals (MetricsStore.rowsOf db.metrics m n)) = score := by
  obtain ⟨totals, htotals, rfl⟩ := Option.map_eq_some_iff.mp h
  obtain ⟨-, rfl⟩ := MetricsStore.getTotalsPerNode_eq_some_iff.mp htotals
  rw [List.mem_mergeSort, List.map_map, List.mem_map]
  rfl

end ScoringEngine
