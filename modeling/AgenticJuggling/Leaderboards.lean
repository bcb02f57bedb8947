/-
What a leaderboard says about the stored rows (`compute` and `serialize` of
`metrics/scoring.py`), for rows with finite idle times.

* `List.pairwise_mergeSort_stable` — a stable sort leaves ties in the order of the
  list;
* `PyFloat.roundHalfEven_nearest`, `PyFloat.roundHalfEven_mono` — what rounding
  does, and that it never swaps two scores;
* `ScoringEngine.serialize_compute` — the leaderboard lists the nodes with a row,
  each once, with the sums of its rows, in the order of the scores, and depends
  on the rows of the match but not on their order; there is one exactly if no sum
  of tokens overflows.
-/
import AgenticJuggling.Scoring

/-! ### Stable sorting -/

namespace List

variable {α : Type*}

theorem pair_sublist_or {l : List α} {a b : α} (ha : a ∈ l) (hb : b ∈ l) (hne : a ≠ b) :
    [a, b] <+ l ∨ [b, a] <+ l := by
  induction l with
  | nil => cases ha
  | cons x l ih =>
    by_cases hax : a = x
    · subst hax
      have hbl : b ∈ l := (mem_cons.mp hb).resolve_left (Ne.symm hne)
      exact .inl ((singleton_sublist.mpr hbl).cons_cons a)
    · by_cases hbx : b = x
      · subst hbx
        have hal : a ∈ l := (mem_cons.mp ha).resolve_left hne
        exact .inr ((singleton_sublist.mpr hal).cons_cons b)
      · have hal : a ∈ l := (mem_cons.mp ha).resolve_left hax
        have hbl : b ∈ l := (mem_cons.mp hb).resolve_left hbx
        exact (ih hal hbl).imp (·.cons x) (·.cons x)

/-- Two members of a list without duplicates come in one order. -/
theorem Nodup.not_pair_sublist {l : List α} (hl : l.Nodup) {a b : α} (hab : [a, b] <+ l) :
    ¬ [b, a] <+ l := by
  induction l with
  | nil => cases hab
  | cons x l ih =>
    obtain ⟨hx, hl⟩ := nodup_cons.mp hl
    intro hba
    by_cases hax : a = x
    · subst hax
      have hal : [a] <+ l := by
        cases hba with
        | cons _ h => exact (sublist_cons_self b [a]).trans h
        | cons_cons _ h => exact h
      exact hx (singleton_sublist.mp hal)
    · have hab' : [a, b] <+ l := by
        cases hab with
        | cons _ h => exact h
        | cons_cons _ h => exact (hax rfl).elim
      by_cases hbx : b = x
      · subst hbx
        exact hx (hab'.subset (mem_cons_of_mem a (mem_singleton_self b)))
      · have hba : [b, a] <+ l := by
          cases hba with
          | cons _ h => exact h
          | cons_cons _ h => exact (hbx rfl).elim
        exact ih hl hab' hba

/-- **Ties stay in the order of the list.** -/
theorem pairwise_mergeSort_stable {le : α → α → Bool} (trans : ∀ a b c, le a b → le b c → le a c)
    (total : ∀ a b, le a b || le b a) {l : List α} (hl : l.Nodup) :
    (l.mergeSort le).Pairwise fun a b => le a b ∧ (le b a → [a, b] <+ l) := by
  have hsorted : (l.mergeSort le).Nodup := (mergeSort_perm l le).nodup_iff.mpr hl
  rw [pairwise_iff_forall_sublist]
  intro a b hab
  have hle : le a b := pairwise_iff_forall_sublist.mp (pairwise_mergeSort trans total l) hab
  refine ⟨hle, fun hba => ?_⟩
  have hne : a ≠ b := by
    rintro rfl
    exact hsorted.not_pair_sublist hab hab
  have ha : a ∈ l := mem_mergeSort.mp (hab.subset (by simp))
  have hb : b ∈ l := mem_mergeSort.mp (hab.subset (by simp))
  refine (pair_sublist_or ha hb hne).resolve_right fun hswap => ?_
  exact hsorted.not_pair_sublist hab (pair_sublist_mergeSort trans total hba hswap)

end List

/-! ### Rounding -/

namespace PyFloat

theorem floor_le_roundHalfEven (q : ℚ) : ⌊q⌋ ≤ roundHalfEven q := by
  rw [roundHalfEven]
  split_ifs <;> omega

theorem roundHalfEven_le_floor_add_one (q : ℚ) : roundHalfEven q ≤ ⌊q⌋ + 1 := by
  rw [roundHalfEven]
  split_ifs <;> omega

/-- **Rounding goes to a nearest integer**, and to an even one on a tie. -/
theorem roundHalfEven_nearest (q : ℚ) :
    |(roundHalfEven q : ℚ) - q| ≤ 1 / 2 ∧
      (|(roundHalfEven q : ℚ) - q| = 1 / 2 → Even (roundHalfEven q)) := by
  have hbelow : (⌊q⌋ : ℚ) ≤ q := Int.floor_le q
  have habove : q < ⌊q⌋ + 1 := Int.lt_floor_add_one q
  have hdown : |(⌊q⌋ : ℚ) - q| = q - ⌊q⌋ := by
    rw [abs_sub_comm, abs_of_nonneg (sub_nonneg.mpr hbelow)]
  have hup : |((⌊q⌋ + 1 : ℤ) : ℚ) - q| = ⌊q⌋ + 1 - q := by
    rw [Int.cast_add, Int.cast_one, abs_of_pos (sub_pos.mpr habove)]
  rw [roundHalfEven]
  split_ifs with hlow hhigh heven
  · rw [hdown]
    exact ⟨hlow.le, fun h => absurd h hlow.ne⟩
  · -- Above the middle there is no tie.
    rw [hup]
    refine ⟨by linarith, fun h => ?_⟩
    linarith
  · rw [hdown]
    exact ⟨not_lt.mp hhigh, fun _ => Int.even_iff.mpr heven⟩
  · -- The integer below is odd, so the one above is even.
    rw [hup]
    refine ⟨by linarith [not_lt.mp hlow], fun _ => ?_⟩
    rw [Int.even_iff]
    omega

/-- **Rounding is monotone.** -/
theorem roundHalfEven_mono {q r : ℚ} (h : q ≤ r) : roundHalfEven q ≤ roundHalfEven r := by
  obtain hlt | heq := (Int.floor_le_floor h).lt_or_eq
  · exact (roundHalfEven_le_floor_add_one q).trans (hlt.trans_le (floor_le_roundHalfEven r))
  · -- Between the same two integers only the fractional part counts.
    rw [roundHalfEven, roundHalfEven, heq]
    split_ifs <;> first | omega | linarith

end PyFloat

namespace MetricRow

/-- The idle time of a row, as a number. -/
def idle (row : MetricRow) : ℚ :=
  match row.idleSeconds with
  | .fin q => q
  | _ => 0

/-- An idle time that is a number. -/
def Finite (row : MetricRow) : Prop := row.idleSeconds = .fin row.idle

end MetricRow

namespace MetricsStore

/-- The rows of a match. -/
def matchRows (rows : List MetricRow) (matchId : MatchId) : List MetricRow :=
  rows.filter fun row => row.matchId = matchId

theorem rowsOf_eq_filter (rows : List MetricRow) (m : MatchId) (n : NodeId) :
    rowsOf rows m n = (matchRows rows m).filter fun row => row.nodeId = n := by
  rw [rowsOf, matchRows, List.filter_filter]
  congr 1
  funext row
  rw [Bool.decide_and, Bool.and_comm]

theorem nodesOf_pairwise (rows : List MetricRow) (m : MatchId) :
    (nodesOf rows m).Pairwise (· < ·) := by
  have hnodup : (nodesOf rows m).Nodup :=
    (List.mergeSort_perm _ _).nodup_iff.mpr (List.nodup_dedup _)
  have hle : (nodesOf rows m).Pairwise (· ≤ ·) := by
    have hsorted : (nodesOf rows m).Pairwise fun a b => decide (a ≤ b) = true :=
      List.pairwise_mergeSort
        (fun a b c hab hbc =>
          decide_eq_true ((of_decide_eq_true hab).trans (of_decide_eq_true hbc)))
        (fun a b => by simpa using le_total a b) _
    exact hsorted.imp fun h => of_decide_eq_true h
  exact hle.imp₂ (fun a b hab hne => lt_of_le_of_ne hab hne) hnodup

theorem nodesOf_perm {rows rows' : List MetricRow} {m : MatchId}
    (h : (matchRows rows' m).Perm (matchRows rows m)) : nodesOf rows' m = nodesOf rows m := by
  have hperm : (nodesOf rows' m).Perm (nodesOf rows m) := by
    refine (List.mergeSort_perm _ _).trans (List.Perm.trans ?_ (List.mergeSort_perm _ _).symm)
    exact (h.map _).dedup
  exact hperm.eq_of_pairwise (fun a b _ _ hab hba => absurd hba hab.asymm)
    (nodesOf_pairwise rows' m) (nodesOf_pairwise rows m)

theorem sumIdle_of_finite {rows : List MetricRow} (h : ∀ row ∈ rows, row.Finite) :
    sumIdle rows = .fin (rows.map (·.idle)).sum := by
  have key : ∀ (rows : List MetricRow), (∀ row ∈ rows, row.Finite) → ∀ q,
      (rows.map (·.idleSeconds)).foldl PyFloat.add (.fin q) = .fin (q + (rows.map (·.idle)).sum) := by
    intro rows
    induction rows with
    | nil =>
      intro _ q
      rw [List.map_nil, List.foldl_nil, List.map_nil, List.sum_nil, add_zero]
    | cons row rows ih =>
      intro hrows q
      obtain ⟨hrow, hrows⟩ := List.forall_mem_cons.mp hrows
      rw [List.map_cons, List.foldl_cons, hrow, PyFloat.fin_add_fin, ih hrows, List.map_cons,
        List.sum_cons, add_assoc]
  rw [sumIdle, key rows h, zero_add]

end MetricsStore

theorem MetricsStore.rowsOf_perm {rows rows' : List MetricRow} {m : MatchId}
    (h : (matchRows rows' m).Perm (matchRows rows m)) (n : NodeId) :
    (rowsOf rows' m n).Perm (rowsOf rows m n) := by
  rw [rowsOf_eq_filter, rowsOf_eq_filter]
  exact h.filter _

/-- The totals of a match read no other rows. -/
theorem MetricsStore.getTotalsPerNode_matchRows (rows : List MetricRow) (hooks hooks' : List HookEvent)
    (m : MatchId) :
    getTotalsPerNode ⟨matchRows rows m, hooks⟩ m = getTotalsPerNode ⟨rows, hooks'⟩ m := by
  have hsame : matchRows (matchRows rows m) m = matchRows rows m := by
    simp [matchRows]
  have hnodes : nodesOf (matchRows rows m) m = nodesOf rows m :=
    nodesOf_perm (List.Perm.of_eq hsame)
  have hrows : ∀ n, rowsOf (matchRows rows m) m n = rowsOf rows m n := by
    intro n
    rw [rowsOf_eq_filter, hsame, rowsOf_eq_filter]
  simp only [getTotalsPerNode, hnodes, hrows]

namespace ScoringEngine

/-- One entry of the board, the first one with rank 1. -/
def rankingJson (rank : ℕ) (ns : NodeScore) : Json :=
  .obj [("rank", .int (rank + 1)), ("node_id", .str ns.nodeId), ("score", .float ns.score),
    ("tokens_used", .int ns.tokensUsed), ("idle_seconds", .float ns.idleSeconds)]

def serialize (board : Leaderboard) : Json :=
  .obj [("match_id", .str board.matchId), ("rankings", .arr (board.rankings.mapIdx rankingJson))]

/-! ### What the rows say of a node -/

section

variable (rows : List MetricRow) (m : MatchId) (tokenWeight idlePenalty : ℚ) (n : NodeId)

def tokensOf : ℤ := ((MetricsStore.rowsOf rows m n).map (·.tokensUsed)).sum

def idleOf : ℚ := ((MetricsStore.rowsOf rows m n).map (·.idle)).sum

def exactScore : ℚ := tokensOf rows m n * tokenWeight - idleOf rows m n * idlePenalty

/-- The exact score, rounded to four decimals. -/
def reportedScore : ℚ :=
  PyFloat.roundHalfEven (exactScore rows m tokenWeight idlePenalty n * 10000) / 10000

def scoresAtLeast (a b : NodeId) : Bool :=
  decide (reportedScore rows m tokenWeight idlePenalty b ≤
    reportedScore rows m tokenWeight idlePenalty a)

/-- The entry the rows of a node amount to. -/
def entryOf : NodeScore where
  nodeId := n
  tokensUsed := tokensOf rows m n
  idleSeconds := .fin (idleOf rows m n)
  score := .fin (reportedScore rows m tokenWeight idlePenalty n)

end

variable {db : MetricsStore} {m : MatchId} {tokenWeight idlePenalty : ℚ}

theorem reportedScore_mono {rows : List MetricRow} {a b : NodeId}
    (h : exactScore rows m tokenWeight idlePenalty a ≤ exactScore rows m tokenWeight idlePenalty b) :
    reportedScore rows m tokenWeight idlePenalty a ≤
      reportedScore rows m tokenWeight idlePenalty b := by
  have hround := PyFloat.roundHalfEven_mono (mul_le_mul_of_nonneg_right h (by norm_num : (0 : ℚ) ≤ 10000))
  rw [reportedScore, reportedScore]
  gcongr

/-- A reported score is the multiple of 1/10000 nearest to the exact one. -/
theorem reportedScore_nearest (rows : List MetricRow) (n : NodeId) :
    ∃ k : ℤ, reportedScore rows m tokenWeight idlePenalty n = k / 10000 ∧
      |(k : ℚ) / 10000 - exactScore rows m tokenWeight idlePenalty n| ≤ 1 / 20000 ∧
      (|(k : ℚ) / 10000 - exactScore rows m tokenWeight idlePenalty n| = 1 / 20000 → Even k) := by
  obtain ⟨hle, htie⟩ :=
    PyFloat.roundHalfEven_nearest (exactScore rows m tokenWeight idlePenalty n * 10000)
  refine ⟨_, rfl, ?_⟩
  generalize exactScore rows m tokenWeight idlePenalty n = q at hle htie
  generalize PyFloat.roundHalfEven (q * 10000) = k at hle htie
  have hscale : |(k : ℚ) / 10000 - q| = |(k : ℚ) - q * 10000| / 10000 := by
    rw [show (k : ℚ) / 10000 - q = (k - q * 10000) / 10000 by ring, abs_div]
    norm_num
  rw [hscale]
  refine ⟨by linarith, fun h => htie ?_⟩
  linarith

theorem nodeScore_exactTotals {rows : List MetricRow}
    (h : ∀ row ∈ rows, row.matchId = m → row.Finite) (n : NodeId) :
    nodeScore tokenWeight idlePenalty n
        (MetricsStore.exactTotals (MetricsStore.rowsOf rows m n)) =
      entryOf rows m tokenWeight idlePenalty n := by
  have hfinite : ∀ row ∈ MetricsStore.rowsOf rows m n, row.Finite := by
    intro row hrow
    obtain ⟨hmem, hcond⟩ := List.mem_filter.mp hrow
    exact h row hmem (of_decide_eq_true hcond).1
  rw [nodeScore, MetricsStore.exactTotals, MetricsStore.sumIdle_of_finite hfinite]
  rw [entryOf, reportedScore, exactScore, PyFloat.scale, PyFloat.fin_sub_fin, PyFloat.round4]
  rfl

/-- The nodes in the order of the board. -/
def ranking (rows : List MetricRow) (m : MatchId) (tokenWeight idlePenalty : ℚ) : List NodeId :=
  (MetricsStore.nodesOf rows m).mergeSort (scoresAtLeast rows m tokenWeight idlePenalty)

/-- The board of rows whose tokens can be added up. -/
theorem compute_of_fits (h : ∀ row ∈ db.metrics, row.matchId = m → row.Finite)
    (hfits : MetricsStore.SumsFit db.metrics m) :
    compute db m tokenWeight idlePenalty = some
      { matchId := m
        rankings := (ranking db.metrics m tokenWeight idlePenalty).map
          (entryOf db.metrics m tokenWeight idlePenalty) } := by
  have hmap : ((MetricsStore.nodesOf db.metrics m).map fun n =>
        (n, MetricsStore.exactTotals (MetricsStore.rowsOf db.metrics m n))).map
          (fun p => nodeScore tokenWeight idlePenalty p.1 p.2) =
      (MetricsStore.nodesOf db.metrics m).map (entryOf db.metrics m tokenWeight idlePenalty) := by
    rw [List.map_map]
    exact List.map_congr_left fun n _ => nodeScore_exactTotals h n
  have hsort : ((MetricsStore.nodesOf db.metrics m).map
        (entryOf db.metrics m tokenWeight idlePenalty)).mergeSort
          (fun a b => b.score.le a.score) =
      (ranking db.metrics m tokenWeight idlePenalty).map
        (entryOf db.metrics m tokenWeight idlePenalty) := by
    symm
    apply List.map_mergeSort
    intro a _ b _
    rfl
  rw [compute, MetricsStore.getTotalsPerNode_of_fits hfits, Option.map_some, hmap, hsort]

/-- Scores descend along the ranking, and equal ones are in the order of the nodes. -/
theorem ranking_pairwise (rows : List MetricRow) :
    (ranking rows m tokenWeight idlePenalty).Pairwise fun a b =>
      reportedScore rows m tokenWeight idlePenalty b ≤
          reportedScore rows m tokenWeight idlePenalty a ∧
        (reportedScore rows m tokenWeight idlePenalty a =
          reportedScore rows m tokenWeight idlePenalty b → a < b) := by
  have htrans : ∀ a b c, scoresAtLeast rows m tokenWeight idlePenalty a b →
      scoresAtLeast rows m tokenWeight idlePenalty b c →
      scoresAtLeast rows m tokenWeight idlePenalty a c := fun a b c hab hbc =>
    decide_eq_true ((of_decide_eq_true hbc).trans (of_decide_eq_true hab))
  have htotal : ∀ a b, scoresAtLeast rows m tokenWeight idlePenalty a b ||
      scoresAtLeast rows m tokenWeight idlePenalty b a := by
    intro a b
    simpa [scoresAtLeast] using le_total _ _
  have hnodes := MetricsStore.nodesOf_pairwise rows m
  have hsorted := List.pairwise_mergeSort_stable htrans htotal (hnodes.imp fun h => h.ne)
  refine hsorted.imp fun {a b} h => ⟨of_decide_eq_true h.1, fun heq => ?_⟩
  exact List.pairwise_iff_forall_sublist.mp hnodes (h.2 (decide_eq_true heq.le))

theorem compute_matchRows (rows : List MetricRow) (hooks hooks' : List HookEvent) (m : MatchId)
    (tokenWeight idlePenalty : ℚ) :
    compute ⟨MetricsStore.matchRows rows m, hooks⟩ m tokenWeight idlePenalty =
      compute ⟨rows, hooks'⟩ m tokenWeight idlePenalty := by
  rw [compute, MetricsStore.getTotalsPerNode_matchRows rows hooks hooks', compute]

theorem mem_ranking {rows : List MetricRow} {n : NodeId} :
    n ∈ ranking rows m tokenWeight idlePenalty ↔
      ∃ row ∈ rows, row.matchId = m ∧ row.nodeId = n := by
  rw [ranking, List.mem_mergeSort, MetricsStore.mem_nodesOf]

theorem entryOf_perm {rows rows' : List MetricRow}
    (h : (MetricsStore.matchRows rows' m).Perm (MetricsStore.matchRows rows m)) :
    entryOf rows' m tokenWeight idlePenalty = entryOf rows m tokenWeight idlePenalty := by
  funext n
  have htokens : tokensOf rows' m n = tokensOf rows m n :=
    ((MetricsStore.rowsOf_perm h n).map _).sum_eq
  have hidle : idleOf rows' m n = idleOf rows m n := ((MetricsStore.rowsOf_perm h n).map _).sum_eq
  rw [entryOf, entryOf, reportedScore, reportedScore, exactScore, exactScore, htokens, hidle]

/-- A board depends on the rows of its match, and not on their order. -/
theorem compute_congr {db' : MetricsStore}
    (h : ∀ row ∈ db.metrics, row.matchId = m → row.Finite)
    (hperm : (MetricsStore.matchRows db'.metrics m).Perm (MetricsStore.matchRows db.metrics m))
    (hfits : MetricsStore.SumsFit db.metrics m) (hfits' : MetricsStore.SumsFit db'.metrics m) :
    compute db' m tokenWeight idlePenalty = compute db m tokenWeight idlePenalty := by
  have h' : ∀ row ∈ db'.metrics, row.matchId = m → row.Finite := by
    intro row hrow hm
    have hmem : row ∈ MetricsStore.matchRows db'.metrics m :=
      List.mem_filter.mpr ⟨hrow, decide_eq_true hm⟩
    exact h row (List.mem_filter.mp (hperm.mem_iff.mp hmem)).1 hm
  have hentry : entryOf db'.metrics m tokenWeight idlePenalty =
      entryOf db.metrics m tokenWeight idlePenalty := entryOf_perm hperm
  have hscore : scoresAtLeast db'.metrics m tokenWeight idlePenalty =
      scoresAtLeast db.metrics m tokenWeight idlePenalty := by
    funext a b
    have hreported : ∀ n, reportedScore db'.metrics m tokenWeight idlePenalty n =
        reportedScore db.metrics m tokenWeight idlePenalty n := by
      intro n
      have hn := congrArg NodeScore.score (congrFun hentry n)
      exact PyFloat.fin.inj hn
    rw [scoresAtLeast, scoresAtLeast, hreported, hreported]
  rw [compute_of_fits h hfits, compute_of_fits h' hfits', ranking, ranking,
    MetricsStore.nodesOf_perm hperm, hscore, hentry]

/-- The entries of a board, numbered from 1. -/
theorem serialize_entries (rows : List MetricRow) (nodes : List NodeId) :
    serialize { matchId := m
                rankings := nodes.map (entryOf rows m tokenWeight idlePenalty) } =
      .obj [("match_id", .str m), ("rankings", .arr (nodes.mapIdx fun i n =>
        .obj [("rank", .int (i + 1)), ("node_id", .str n),
          ("score", .float (.fin (reportedScore rows m tokenWeight idlePenalty n))),
          ("tokens_used", .int (tokensOf rows m n)),
          ("idle_seconds", .float (.fin (idleOf rows m n)))]))] := by
  have hmap : (nodes.map (entryOf rows m tokenWeight idlePenalty)).mapIdx rankingJson =
      nodes.mapIdx fun i n => rankingJson i (entryOf rows m tokenWeight idlePenalty n) := by
    apply List.ext_getElem
    · rw [List.length_mapIdx, List.length_map, List.length_mapIdx]
    · intro i _ _
      rw [List.getElem_mapIdx, List.getElem_map, List.getElem_mapIdx]
  rw [serialize, hmap]
  rfl

/-- **The leaderboard of a match.**  If no sum of tokens overflows, it lists the nodes
with a row, each once and with the sums of its rows, ranked from 1; the scores are
rounded to a nearest multiple of 1/10000, descend with the ranks and never swap two
nodes; and the rows count only as those of this match and in any order.  If a sum
overflows, there is no leaderboard. -/
theorem serialize_compute (db : MetricsStore) (m : MatchId) (tokenWeight idlePenalty : ℚ)
    (h : ∀ row ∈ db.metrics, row.matchId = m → row.Finite) :
    (MetricsStore.SumsFit db.metrics m →
      (∃ (nodes : List NodeId) (score : NodeId → ℚ),
        (compute db m tokenWeight idlePenalty).map serialize = some
            (.obj [("match_id", .str m), ("rankings", .arr (nodes.mapIdx fun i n =>
              .obj [("rank", .int (i + 1)), ("node_id", .str n), ("score", .float (.fin (score n))),
                ("tokens_used", .int (tokensOf db.metrics m n)),
                ("idle_seconds", .float (.fin (idleOf db.metrics m n)))]))]) ∧
          nodes.Nodup ∧
          (∀ n, n ∈ nodes ↔ ∃ row ∈ db.metrics, row.matchId = m ∧ row.nodeId = n) ∧
          (∀ n, ∃ k : ℤ, score n = k / 10000 ∧
            |(k : ℚ) / 10000 - exactScore db.metrics m tokenWeight idlePenalty n| ≤ 1 / 20000 ∧
            (|(k : ℚ) / 10000 - exactScore db.metrics m tokenWeight idlePenalty n| = 1 / 20000 →
              Even k)) ∧
          (nodes.Pairwise fun a b => score b ≤ score a) ∧
          ∀ a b, exactScore db.metrics m tokenWeight idlePenalty a <
            exactScore db.metrics m tokenWeight idlePenalty b → score a ≤ score b) ∧
        ∀ db' : MetricsStore,
          (MetricsStore.matchRows db'.metrics m).Perm (MetricsStore.matchRows db.metrics m) →
          MetricsStore.SumsFit db'.metrics m →
            (compute db' m tokenWeight idlePenalty).map serialize =
              (compute db m tokenWeight idlePenalty).map serialize) ∧
      (¬MetricsStore.SumsFit db.metrics m → compute db m tokenWeight idlePenalty = none) := by
  refine ⟨fun hfits => ⟨⟨ranking db.metrics m tokenWeight idlePenalty,
    reportedScore db.metrics m tokenWeight idlePenalty, ?_, ?_, fun n => mem_ranking,
    reportedScore_nearest db.metrics, ?_, ?_⟩, fun db' hperm hfits' => ?_⟩, fun hover => ?_⟩
  · rw [compute_of_fits h hfits, Option.map_some, serialize_entries]
  · exact (ranking_pairwise db.metrics).imp fun {a b} hab heq => by
      subst heq
      exact lt_irrefl _ (hab.2 rfl)
  · exact (ranking_pairwise db.metrics).imp fun hab => hab.1
  · exact fun a b hab => reportedScore_mono hab.le
  · rw [compute_congr h hperm hfits hfits']
  · exact Option.not_isSome_iff_eq_none.mp fun hsome => hover (compute_isSome_iff.mp hsome)

/-- Two nodes report to one match and one of them to another. -/
def sampleRows : List MetricRow :=
  [⟨"m", "a", "t", .fin 1, .fin 2, 300⟩, ⟨"m", "b", "t", .fin 1, .fin 2, 300⟩,
    ⟨"m'", "a", "t", .fin 1, .fin 0, 7⟩]

/-- Two nodes with equal scores keep their places when their rows change places. -/
theorem serialize_compute_swapped :
    (compute ⟨sampleRows, []⟩ "m" (1 / 100) 1).isSome ∧
      (compute ⟨sampleRows.reverse, []⟩ "m" (1 / 100) 1).map serialize =
        (compute ⟨sampleRows, []⟩ "m" (1 / 100) 1).map serialize := by
  have hrows : ∀ row ∈ sampleRows, row.Finite ∧ 0 ≤ row.tokensUsed := by
    intro row hrow
    simp only [sampleRows, List.mem_cons, List.not_mem_nil, or_false] at hrow
    rcases hrow with rfl | rfl | rfl <;> exact ⟨rfl, by decide⟩
  have hfits : MetricsStore.SumsFit sampleRows "m" :=
    MetricsStore.sumsFit_of_sum_lt (fun row hrow => (hrows row hrow).2) (by decide) "m"
  have hfits' : MetricsStore.SumsFit sampleRows.reverse "m" :=
    MetricsStore.sumsFit_of_sum_lt (fun row hrow => (hrows row (List.mem_reverse.mp hrow)).2)
      (by decide) "m"
  refine ⟨compute_isSome_iff.mpr hfits, ((serialize_compute ⟨sampleRows, []⟩ "m" (1 / 100) 1
    fun row hrow _ => (hrows row hrow).1).1 hfits).2 ⟨sampleRows.reverse, []⟩ ?_ hfits'⟩
  exact List.Perm.swap ..

end ScoringEngine
