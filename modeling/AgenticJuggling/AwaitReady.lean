/-
Waiting for the nodes of a match (`_await_ready` of `match/manager.py`).

The loop polls the registry, which other tasks change while it sleeps, and the
monotonic clock.  `polls k` is what its `k`-th round reads of the two.

* `MatchManager.awaitReady_spec` — the loop ends, and what it has seen where it
  returns and where it raises;
* `MatchManager.poll_eq_pollOutcome` — a poll of the match operations is a round
  of this loop;
* `Sys.inState_iff` — the set of `READY` ids that a round computes.
-/
import AgenticJuggling.Sessions
import AgenticJuggling.WhileLoop

/-! ### The ids of the nodes in a state -/

namespace NodeRegistry

/-- Every record is stored under its own id. -/
def Keyed (r : NodeRegistry) : Prop := ∀ key node, r.nodes key = some node → node.nodeId = key

theorem keyed_empty (allowedTokens : Dict NodeId String) :
    Keyed { allowedTokens := allowedTokens, nodes := Dict.empty } := by
  intro key node h
  cases h

theorem Keyed.set {r : NodeRegistry} (h : r.Keyed) {n : NodeId} {node : NodeRecord}
    (hn : node.nodeId = n) : Keyed { r with nodes := r.nodes.set n node } := by
  intro key node' hnode
  dsimp only at hnode
  rw [Dict.set_apply] at hnode
  split at hnode
  · next hkey => rw [← Option.some.inj hnode, hn, hkey]
  · exact h key node' hnode

theorem Keyed.register {r : NodeRegistry} (h : r.Keyed) (n : NodeId) (hostname ip : Json)
    (identity : Bytes) : (r.register n hostname ip identity).1.Keyed := by
  rw [NodeRegistry.register]
  cases hr : r.nodes n with
  | none => exact h.set rfl
  | some old => exact h.set (h n old hr)

theorem Keyed.updateState {r : NodeRegistry} (h : r.Keyed) (n : NodeId) (state : NodeState) :
    (r.updateState n state).Keyed := by
  intro key node hnode
  rw [NodeRegistry.updateState] at hnode
  dsimp only at hnode
  rw [Dict.modify_apply] at hnode
  split at hnode
  · next hkey =>
    obtain ⟨old, hold, rfl⟩ := Option.map_eq_some_iff.mp hnode
    rw [hkey]
    exact h n old hold
  · exact h key node hnode

/-- `{n.node_id for n in all_in_state(state)}`. -/
def idsInState (r : NodeRegistry) (state : NodeState) : Set NodeId :=
  {n | ∃ key node, r.nodes key = some node ∧ node.state = state ∧ node.nodeId = n}

theorem Keyed.inState_iff {r : NodeRegistry} (h : r.Keyed) {state : NodeState} {n : NodeId} :
    r.inState state n = true ↔ n ∈ r.idsInState state := by
  rw [inState]
  constructor
  · intro hstate
    cases hn : r.nodes n with
    | none => simp [hn] at hstate
    | some node =>
      rw [hn] at hstate
      exact ⟨n, node, hn, of_decide_eq_true hstate, h n node hn⟩
  · rintro ⟨key, node, hnode, hstate, rfl⟩
    rw [h key node hnode, hnode]
    exact decide_eq_true hstate

end NodeRegistry

theorem Server.handleRegister_keyed {P : Primitives} {s : Server} (hs : s.registry.Keyed)
    (identity : Bytes) (payload : Json) (priv : Bytes) :
    (s.handleRegister P identity payload priv).1.registry.Keyed := by
  rcases s.handleRegister_cases identity payload priv (P := P) with
    ⟨outcome, h⟩ | ⟨reason, h⟩ | ⟨kvs, n, -, -, -, -, h⟩
  · rw [h]
    exact hs
  · rw [h]
    exact hs
  · rw [h]
    rcases s.acceptRegister_cases identity n _ _ _ priv (P := P) with ⟨-, h⟩ | ⟨b64, -, h⟩
    · rw [h]
      exact hs.register n _ _ identity
    · rw [h]
      dsimp only [log]
      split
      · exact hs.register n _ _ identity
      · exact (hs.register n _ _ identity).updateState n .ready

namespace Sys

variable {P : Platform}

theorem registry_keyed_step {s s' : Sys} {a : Act} (hs : s.server.registry.Keyed)
    (h : step P s a = some s') : s'.server.registry.Keyed := by
  rcases step_cases h with ⟨c, -, rfl⟩ | ⟨tid, w, t, -, ht, -, rfl⟩
  · exact hs
  · rw [apply_server]
    rcases (MatchManager.resume_stretch (P := P) tid s.next s.server t w).registry with
      ⟨frames, identity, payload, -, -, hr⟩ | ⟨-, hreg | ⟨n, state, hreg⟩⟩
    · rw [hr]
      exact Server.handleRegister_keyed hs identity payload w.priv
    · rw [hreg]
      exact hs
    · rw [hreg]
      exact hs.updateState n state

/-- **After every run** the test for a state agrees with the set that the source
computes. -/
theorem inState_iff {tokens : Dict NodeId String} {rows : Dict MatchId MatchRecord}
    {metrics : MetricsStore} {acts : List Act} {s : Sys}
    (hrun : Transition.run (step P) (boot tokens rows metrics) acts = some s) {state : NodeState}
    {n : NodeId} :
    s.server.registry.inState state n = true ↔ n ∈ s.server.registry.idsInState state := by
  have hkeyed : s.server.registry.Keyed :=
    Transition.invariant_of_run (I := fun s => s.server.registry.Keyed)
      (fun _ _ _ hs h => registry_keyed_step hs h) (NodeRegistry.keyed_empty tokens) hrun
  exact hkeyed.inState_iff

end Sys

namespace MatchManager

/-- `_READY_POLL`. -/
def readyPoll : ℚ := 1 / 2

/-- What a round of the loop reads. -/
structure Poll where
  registry : NodeRegistry
  /-- `time.monotonic()` at the deadline check. -/
  mono : ℚ

/-- All expected nodes are `READY`. -/
def Poll.AllReady (p : Poll) (expected : Finset NodeId) : Prop :=
  ∀ n ∈ expected, p.registry.inState .ready n = true

instance (p : Poll) (expected : Finset NodeId) : Decidable (p.AllReady expected) :=
  inferInstanceAs (Decidable (∀ n ∈ expected, p.registry.inState .ready n = true))

/-- `expected - ready`. -/
def Poll.missing (p : Poll) (expected : Finset NodeId) : Finset NodeId :=
  expected.filter fun n => p.registry.inState .ready n = false

inductive ReadyOutcome
  | returned
  /-- The `MatchError` with the ids its text names. -/
  | raised (matchId : MatchId) (missing : Finset NodeId)
  deriving DecidableEq

/-- What one round decides; `none` where it goes to sleep. -/
def pollOutcome (matchId : MatchId) (expected : Finset NodeId) (deadline : ℚ) (p : Poll) :
    Option ReadyOutcome :=
  if p.AllReady expected then some .returned
  else if deadline ≤ p.mono then some (.raised matchId (p.missing expected))
  else none

/-- The `k`-th round. -/
def awaitRound (matchId : MatchId) (expected : Finset NodeId) (deadline : ℚ) (polls : ℕ → Poll)
    (k : ℕ) : ℕ ⊕ (ℕ × ReadyOutcome) :=
  match pollOutcome matchId expected deadline (polls k) with
  | none => .inl (k + 1)
  | some outcome => .inr (k, outcome)

/-- `_await_ready`, entered when the clock shows `entry`: the round in which the
loop is left, and how. -/
def awaitReady (matchId : MatchId) (expected : Finset NodeId) (timeout entry : ℚ)
    (polls : ℕ → Poll) (fuel : ℕ) : Option (ℕ × ReadyOutcome) :=
  WhileLoop.run (awaitRound matchId expected (entry + timeout) polls) fuel 0

variable {matchId : MatchId} {expected : Finset NodeId} {deadline : ℚ} {p : Poll}

theorem Poll.mem_missing {n : NodeId} :
    n ∈ p.missing expected ↔ n ∈ expected ∧ p.registry.stateOf n ≠ some .ready := by
  rw [missing, Finset.mem_filter, Ne, ← NodeRegistry.inState_iff, Bool.not_eq_true]

theorem Poll.allReady_iff :
    p.AllReady expected ↔ ∀ n ∈ expected, p.registry.stateOf n = some .ready := by
  simp only [AllReady, NodeRegistry.inState_iff]

/-- The three ways a round can go. -/
theorem pollOutcome_cases (matchId : MatchId) (expected : Finset NodeId) (deadline : ℚ)
    (p : Poll) :
    (p.AllReady expected ∧ pollOutcome matchId expected deadline p = some .returned) ∨
      (¬p.AllReady expected ∧ deadline ≤ p.mono ∧
        pollOutcome matchId expected deadline p
          = some (.raised matchId (p.missing expected))) ∨
      (¬p.AllReady expected ∧ p.mono < deadline ∧
        pollOutcome matchId expected deadline p = none) := by
  rw [pollOutcome]
  by_cases hready : p.AllReady expected
  · exact .inl ⟨hready, if_pos hready⟩
  · rw [if_neg hready]
    by_cases hlate : deadline ≤ p.mono
    · exact .inr (.inl ⟨hready, hlate, if_pos hlate⟩)
    · exact .inr (.inr ⟨hready, not_le.mp hlate, if_neg hlate⟩)

theorem awaitRound_goesOn {polls : ℕ → Poll} {k k' : ℕ}
    (h : awaitRound matchId expected deadline polls k = .inl k') :
    k' = k + 1 ∧ ¬(polls k).AllReady expected ∧ (polls k).mono < deadline := by
  rw [awaitRound] at h
  obtain ⟨-, heq⟩ | ⟨-, -, heq⟩ | ⟨hready, hearly, heq⟩ :=
    pollOutcome_cases matchId expected deadline (polls k)
  · rw [heq] at h
    cases h
  · rw [heq] at h
    cases h
  · rw [heq] at h
    exact ⟨(Sum.inl.inj h).symm, hready, hearly⟩

theorem awaitRound_leaves {polls : ℕ → Poll} {k k' : ℕ} {outcome : ReadyOutcome}
    (h : awaitRound matchId expected deadline polls k = .inr (k', outcome)) :
    k' = k ∧ pollOutcome matchId expected deadline (polls k) = some outcome := by
  rw [awaitRound] at h
  cases ho : pollOutcome matchId expected deadline (polls k) with
  | none =>
    rw [ho] at h
    cases h
  | some o =>
    rw [ho] at h
    obtain ⟨rfl, rfl⟩ := Prod.mk.inj (Sum.inr.inj h)
    exact ⟨rfl, rfl⟩

/-- Every sleep brings the deadline closer. -/
theorem awaitReady_ends {timeout entry : ℚ} {polls : ℕ → Poll}
    (hclock : ∀ k, (polls k).mono + readyPoll ≤ (polls (k + 1)).mono) :
    ∃ fuel k outcome, awaitReady matchId expected timeout entry polls fuel = some (k, outcome) := by
  have hpoll : (0 : ℚ) < readyPoll := by
    rw [readyPoll]
    norm_num
  obtain ⟨fuel, ⟨k, outcome⟩, hr⟩ : WhileLoop.Ends
      (awaitRound matchId expected (entry + timeout) polls) 0 := by
    refine WhileLoop.ends_of_clock (fun _ => True) (fun k => (polls k).mono) (entry + timeout)
      hpoll ?_ trivial
    intro k k' _ hround
    obtain ⟨rfl, -, hearly⟩ := awaitRound_goesOn hround
    exact ⟨trivial, hearly, hclock k⟩
  exact ⟨fuel, k, outcome, hr⟩

/-- The rounds before the one that leaves the loop went to sleep. -/
theorem awaitReady_leaves {timeout entry : ℚ} {polls : ℕ → Poll} {fuel k : ℕ}
    {outcome : ReadyOutcome}
    (h : awaitReady matchId expected timeout entry polls fuel = some (k, outcome)) :
    pollOutcome matchId expected (entry + timeout) (polls k) = some outcome ∧
      ∀ j < k, ¬(polls j).AllReady expected ∧ (polls j).mono < entry + timeout := by
  refine WhileLoop.exit_of_run
    (fun k => ∀ j < k, ¬(polls j).AllReady expected ∧ (polls j).mono < entry + timeout)
    (fun r => pollOutcome matchId expected (entry + timeout) (polls r.1) = some r.2 ∧
      ∀ j < r.1, ¬(polls j).AllReady expected ∧ (polls j).mono < entry + timeout)
    ?_ ?_ (by simp) h
  · intro k k' hk hround j hj
    obtain ⟨rfl, hwaits⟩ := awaitRound_goesOn hround
    obtain hlt | rfl := Nat.lt_succ_iff_lt_or_eq.mp hj
    · exact hk j hlt
    · exact hwaits
  · rintro k ⟨k', o⟩ hk hround
    obtain ⟨rfl, ho⟩ := awaitRound_leaves hround
    exact ⟨ho, hk⟩

/-- **Waiting for readiness.**  If every sleep takes at least its interval, the
loop ends.  It returns in the first round that finds all expected nodes `READY`
at once, and raises in a round that is past the deadline and does not, naming
the expected nodes that are not `READY` in that round. -/
theorem awaitReady_spec (matchId : MatchId) (expected : Finset NodeId) (timeout entry : ℚ)
    (polls : ℕ → Poll) (hclock : ∀ k, (polls k).mono + readyPoll ≤ (polls (k + 1)).mono) :
    (∃ fuel k outcome,
        awaitReady matchId expected timeout entry polls fuel = some (k, outcome)) ∧
      ∀ fuel k outcome, awaitReady matchId expected timeout entry polls fuel = some (k, outcome) →
        ((outcome = .returned ∧ ∀ n ∈ expected, (polls k).registry.stateOf n = some .ready) ∨
          ∃ missing, outcome = .raised matchId missing ∧ entry + timeout ≤ (polls k).mono ∧
            (∃ n ∈ expected, (polls k).registry.stateOf n ≠ some .ready) ∧
            ∀ n, n ∈ missing ↔ n ∈ expected ∧ (polls k).registry.stateOf n ≠ some .ready) ∧
          ∀ j < k, (∃ n ∈ expected, (polls j).registry.stateOf n ≠ some .ready) ∧
            (polls j).mono < entry + timeout := by
  have hnot : ∀ p : Poll, ¬p.AllReady expected →
      ∃ n ∈ expected, p.registry.stateOf n ≠ some .ready := by
    intro p hp
    rw [Poll.allReady_iff] at hp
    push Not at hp
    exact hp
  refine ⟨awaitReady_ends hclock, fun fuel k outcome h => ?_⟩
  -- What is known of the last round is what it decided.
  obtain ⟨houtcome, hwaits⟩ := awaitReady_leaves h
  refine ⟨?_, fun j hj => ⟨hnot _ (hwaits j hj).1, (hwaits j hj).2⟩⟩
  obtain ⟨hready, heq⟩ | ⟨hready, hlate, heq⟩ | ⟨-, -, heq⟩ :=
    pollOutcome_cases matchId expected (entry + timeout) (polls k)
  · rw [heq] at houtcome
    exact .inl ⟨(Option.some.inj houtcome).symm, Poll.allReady_iff.mp hready⟩
  · rw [heq] at houtcome
    exact .inr ⟨_, (Option.some.inj houtcome).symm, hlate, hnot _ hready,
      fun n => Poll.mem_missing⟩
  · rw [heq] at houtcome
    cases houtcome

/-- A clock that shows the seconds, and no node. -/
theorem awaitReady_spec_missing :
    let registry : NodeRegistry := { allowedTokens := Dict.empty, nodes := Dict.empty }
    let polls : ℕ → Poll := fun k => { registry := registry, mono := k }
    ∃ fuel k, awaitReady "m" {"n"} 30 0 polls fuel = some (k, .raised "m" {"n"}) := by
  intro registry polls
  have hclock : ∀ k, (polls k).mono + readyPoll ≤ (polls (k + 1)).mono := by
    intro k
    show (k : ℚ) + 1 / 2 ≤ ((k + 1 : ℕ) : ℚ)
    push_cast
    linarith
  obtain ⟨⟨fuel, k, outcome, h⟩, hspec⟩ := awaitReady_spec "m" {"n"} 30 0 polls hclock
  -- It cannot have returned, for the node is in no round.
  obtain ⟨⟨-, hready⟩ | ⟨missing, rfl, -, -, hmissing⟩, -⟩ := hspec fuel k outcome h
  · cases hready "n" (Finset.mem_singleton_self "n")
  · have heq : missing = {"n"} := by
      ext n
      rw [hmissing, and_iff_left_iff_imp]
      intro _ hstate
      cases hstate
    exact ⟨fuel, k, heq ▸ h⟩

/-! ### The polls of the match operations -/

/-- The ids of `start`'s assignments. -/
def expectedNodes (assignments : List NodeAssignment) : Finset NodeId :=
  (assignments.map (·.nodeId)).toFinset

theorem missing_toFinset (s : Server) (assignments : List NodeAssignment) (mono : ℚ) :
    (missing s assignments).toFinset =
      (Poll.mk s.registry mono).missing (expectedNodes assignments) := by
  ext n
  simp [missing, Poll.missing, expectedNodes]

theorem missing_eq_nil (s : Server) (assignments : List NodeAssignment) (mono : ℚ) :
    missing s assignments = [] ↔
      (Poll.mk s.registry mono).AllReady (expectedNodes assignments) := by
  simp [missing, Poll.AllReady, expectedNodes, List.filter_eq_nil_iff]

/-- The ids that `start` is told of are those of the last round. -/
theorem raised_missing {s : Server} {assignments : List NodeAssignment} {deadline mono : ℚ}
    {m m' : MatchId} {ids : Finset NodeId}
    (h : pollOutcome m (expectedNodes assignments) deadline ⟨s.registry, mono⟩ =
      some (.raised m' ids)) : m' = m ∧ ids = (missing s assignments).toFinset := by
  obtain ⟨-, heq⟩ | ⟨-, -, heq⟩ | ⟨-, -, heq⟩ :=
    pollOutcome_cases m (expectedNodes assignments) deadline ⟨s.registry, mono⟩
  · rw [heq] at h
    cases h
  · rw [heq] at h
    obtain ⟨rfl, rfl⟩ := ReadyOutcome.raised.inj (Option.some.inj h)
    exact ⟨rfl, (missing_toFinset s assignments mono).symm⟩
  · rw [heq] at h
    cases h

/-- **A poll of the match operations is a round of the loop.** -/
theorem poll_eq_pollOutcome (tid : TaskId) (w : World) (s : Server) (m : MatchId) (deadline : ℚ)
    (record : MatchRecord) (assignments : List NodeAssignment) :
    poll tid w s m deadline record assignments =
      match pollOutcome m (expectedNodes assignments) deadline ⟨s.registry, w.mono⟩ with
      | some .returned =>
        updateState tid w s m .running (some w.wall) (.runningWrote w.wall record assignments)
      | some (.raised _ _) =>
        updateState tid w s m .lobby none
          (.wrote .matchDb (.raised (.readyTimeout (missing s assignments))))
      | none => { server := s, pc := .polling deadline record assignments } := by
  rw [poll]
  have hnil := missing_eq_nil s assignments w.mono
  obtain ⟨hready, heq⟩ | ⟨hready, hlate, heq⟩ | ⟨hready, hearly, heq⟩ :=
    pollOutcome_cases m (expectedNodes assignments) deadline ⟨s.registry, w.mono⟩
  · rw [heq, if_pos (hnil.mpr hready)]
  · rw [heq, if_neg (mt hnil.mp hready), if_pos hlate]
  · rw [heq, if_neg (mt hnil.mp hready), if_neg (not_le.mpr hearly)]

end MatchManager
