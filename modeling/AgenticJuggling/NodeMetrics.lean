/-
From an agent's output to the reports of its node (`node/agent_runner.py`,
`node/window.py`, `node/metrics.py`).

The runner inside a terminal adds up the numbers it finds in the agent's
output and writes its total to the window of the terminal as a line of JSON;
the window keeps the values of the line it received last; the reporter sends
the values of every open window, again and again.
-/
import AgenticJuggling.NodeConnection

/-- The clock readings of one round of the runner's loop. -/
structure RunnerClock where
  output : ℚ
  check : ℚ
  push : ℚ
  pushed : ℚ

/-- The local variables of the runner's loop. -/
structure AgentRunner where
  tokensUsed : ℕ := 0
  lastOutput : ℚ
  lastPush : ℚ

namespace AgentRunner

/-- The line `push_metrics` writes. -/
def pushMetrics (r : AgentRunner) (terminalId : String) (now : ℚ) : List (String × Json) :=
  [("terminal_id", .str terminalId), ("idle_seconds", .float (.fin (now - r.lastOutput))),
    ("tokens_used", .int r.tokensUsed)]

/-- One round of the loop, for a chunk in which `TOKEN_RE` finds `numbers`. -/
def read (r : AgentRunner) (terminalId : String) (numbers : List ℕ) (clock : RunnerClock) :
    AgentRunner × Option (List (String × Json)) :=
  let r := { r with lastOutput := clock.output, tokensUsed := r.tokensUsed + numbers.sum }
  if 5 ≤ clock.check - r.lastPush then
    ({ r with lastPush := clock.pushed }, some (r.pushMetrics terminalId clock.push))
  else (r, none)

section Rounds

variable {χ : Type*} (tokenRe : χ → List ℕ)

/-- The rounds of the loop, one for each chunk; `tokenRe` gives the numbers `TOKEN_RE`
finds in a chunk. -/
def readAll (terminalId : String) (r : AgentRunner) (reads : List (χ × RunnerClock)) :
    AgentRunner :=
  reads.foldl (fun r p => (r.read terminalId (tokenRe p.1) p.2).1) r

/-- What the rounds of the loop push, with the state they leave. -/
def pushes (terminalId : String) (r : AgentRunner) :
    List (χ × RunnerClock) → List (List (String × Json))
  | [] => []
  | p :: reads =>
    (r.read terminalId (tokenRe p.1) p.2).2.toList ++
      pushes terminalId (r.read terminalId (tokenRe p.1) p.2).1 reads

variable {tokenRe}

theorem read_tokensUsed (r : AgentRunner) (terminalId : String) (numbers : List ℕ)
    (clock : RunnerClock) :
    (r.read terminalId numbers clock).1.tokensUsed = r.tokensUsed + numbers.sum := by
  rw [read]
  split <;> rfl

theorem readAll_tokensUsed (terminalId : String) (reads : List (χ × RunnerClock))
    (r : AgentRunner) :
    (r.readAll tokenRe terminalId reads).tokensUsed =
      r.tokensUsed + ((reads.map Prod.fst).map fun chunk => (tokenRe chunk).sum).sum := by
  induction reads generalizing r with
  | nil => rfl
  | cons p reads ih =>
    have hstep : r.readAll tokenRe terminalId (p :: reads) =
        (r.read terminalId (tokenRe p.1) p.2).1.readAll tokenRe terminalId reads := rfl
    rw [hstep, ih, read_tokensUsed, List.map_cons, List.map_cons, List.sum_cons, Nat.add_assoc]

end Rounds

end AgentRunner

/-- What the window keeps of the runner's lines. -/
structure AgentWindow where
  idleSeconds : Json := .float (.fin 0)
  tokensUsed : Json := .int 0

namespace AgentWindow

/-- `_apply_metrics`. -/
def applyMetrics (window : AgentWindow) (data : List (String × Json)) : AgentWindow where
  idleSeconds := Json.getD data "idle_seconds" window.idleSeconds
  tokensUsed := Json.getD data "tokens_used" window.tokensUsed

end AgentWindow

/-- A terminal: its runner, the lines on the socket between runner and window,
and the window. -/
structure Terminal where
  runner : AgentRunner
  lines : List (List (String × Json)) := []
  window : AgentWindow := {}

/-- The open terminals of every node, and the table their reports end up in. -/
structure Fleet where
  terminals : NodeId → Dict String Terminal
  metrics : MetricsStore

namespace Fleet

inductive Act
  /-- A prompt is fired: the window opens and its runner starts. -/
  | opened (nodeId : NodeId) (terminalId : String) (lastOutput lastPush : ℚ)
  /-- The runner reads a chunk of the agent's output. -/
  | read (nodeId : NodeId) (terminalId : String) (chunk : Bytes) (clock : RunnerClock)
  /-- The agent has ended: the runner pushes once more. -/
  | ended (nodeId : NodeId) (terminalId : String) (now : ℚ)
  /-- The window receives the next line. -/
  | received (nodeId : NodeId) (terminalId : String)
  | closed (nodeId : NodeId) (terminalId : String)
  /-- The reporter sends the values of an open window. -/
  | reported (nodeId : NodeId) (terminalId : String) (now : ℚ)

def setTerminal (s : Fleet) (nodeId : NodeId) (terminalId : String) (t : Terminal) : Fleet :=
  { s with
    terminals := Function.update s.terminals nodeId ((s.terminals nodeId).set terminalId t) }

variable (P : Platform)

/-- The row of a report that names its match. -/
def rowOf (record : MatchRecord) (nodeId : NodeId) (terminalId : String) (window : AgentWindow)
    (now : ℚ) : Option MetricRow :=
  Ingester.metricRow P record nodeId (("match_id", .str record.matchId) ::
    Report.metricsPayload nodeId terminalId window.idleSeconds window.tokensUsed now) now

/-- `tokenRe` gives the numbers `TOKEN_RE` finds in a chunk.  Every report is
stored as one row of the match of `record`. -/
def step (tokenRe : Bytes → List ℕ) (record : MatchRecord) (s : Fleet) : Act → Option Fleet
  | .opened nodeId terminalId lastOutput lastPush =>
    some (s.setTerminal nodeId terminalId
      { runner := { lastOutput := lastOutput, lastPush := lastPush } })
  | .read nodeId terminalId chunk clock => do
    let t ← s.terminals nodeId terminalId
    let (runner, line) := t.runner.read terminalId (tokenRe chunk) clock
    some (s.setTerminal nodeId terminalId
      { t with runner := runner, lines := t.lines ++ line.toList })
  | .ended nodeId terminalId now => do
    let t ← s.terminals nodeId terminalId
    some (s.setTerminal nodeId terminalId
      { t with lines := t.lines ++ [t.runner.pushMetrics terminalId now] })
  | .received nodeId terminalId => do
    let t ← s.terminals nodeId terminalId
    let line ← t.lines.head?
    some (s.setTerminal nodeId terminalId
      { t with lines := t.lines.tail, window := t.window.applyMetrics line })
  | .closed nodeId terminalId =>
    some { s with terminals :=
      Function.update s.terminals nodeId ((s.terminals nodeId).pop terminalId) }
  | .reported nodeId terminalId now => do
    let t ← s.terminals nodeId terminalId
    let row ← rowOf P record nodeId terminalId t.window now
    some { s with metrics := s.metrics.insertMetric row }

/-- Before the first prompt is fired. -/
def boot (metrics : MetricsStore) : Fleet where
  terminals _ := Dict.empty
  metrics := metrics

end Fleet
