/-
The idle times a runner reports (`push_metrics` and the read loop of
`node/agent_runner.py`).

A runner blocks in its read, and what it reads ends the silence before it
computes how long the silence was.

* `AgentRunner.read_idle` — a push inside the loop reports the time since the
  read of its own round, whatever came before;
* `AgentRunner.idle_reported_iff` — the silences between the chunks are reported
  exactly as far as the time from the last chunk to the end of the agent
  reaches.
-/
import AgenticJuggling.NodeMetrics

/-- A chunk of output and the time at which it is read. -/
structure OutputRead where
  chunk : Bytes
  time : ℚ

namespace AgentRunner

variable (tokenRe : Bytes → List ℕ)

/-- The clock in a round that takes no time. -/
def clockAt (t : ℚ) : RunnerClock where
  output := t
  check := t
  push := t
  pushed := t

/-- The messages of a run that begins at `start` and whose agent ends at `stop`. -/
def messages (terminalId : String) (start : ℚ) (reads : List OutputRead) (stop : ℚ) :
    List (List (String × Json)) :=
  let rounds := reads.map fun read => (read.chunk, clockAt read.time)
  let r : AgentRunner := { lastOutput := start, lastPush := start }
  r.pushes tokenRe terminalId rounds ++
    [(r.readAll tokenRe terminalId rounds).pushMetrics terminalId stop]

/-- The times between consecutive chunks. -/
def gaps (reads : List OutputRead) : List ℚ :=
  (reads.zip reads.tail).map fun p => p.2.time - p.1.time

/-- The time of the last output: that of the last chunk, if there is one. -/
def lastRead (start : ℚ) (reads : List OutputRead) : ℚ :=
  (reads.getLast?.map (·.time)).getD start

/-- A message with an idle time of at least `d`. -/
def ReportsIdle (d : ℚ) (line : List (String × Json)) : Prop :=
  ∃ q, Json.lookup line "idle_seconds" = some (.float (.fin q)) ∧ d ≤ q

variable {tokenRe}

theorem reportsIdle_pushMetrics (r : AgentRunner) (terminalId : String) (now d : ℚ) :
    ReportsIdle d (r.pushMetrics terminalId now) ↔ d ≤ now - r.lastOutput := by
  have hlookup : Json.lookup (r.pushMetrics terminalId now) "idle_seconds" =
      some (.float (.fin (now - r.lastOutput))) := by
    simp [pushMetrics, Json.lookup]
  constructor
  · rintro ⟨q, hq, hle⟩
    rw [hlookup, Option.some_inj] at hq
    cases hq
    exact hle
  · exact fun hle => ⟨_, hlookup, hle⟩

/-- **A push inside the loop reports the time since the read of its round.** -/
theorem read_idle {r : AgentRunner} {terminalId : String} {numbers : List ℕ} {clock : RunnerClock}
    {line : List (String × Json)} (h : line ∈ (r.read terminalId numbers clock).2) (d : ℚ) :
    ReportsIdle d line ↔ d ≤ clock.push - clock.output := by
  unfold read at h
  dsimp only at h
  split at h
  · rw [Option.mem_some_iff] at h
    rw [← h, reportsIdle_pushMetrics]
  · cases h

theorem read_lastOutput (r : AgentRunner) (terminalId : String) (numbers : List ℕ)
    (clock : RunnerClock) : (r.read terminalId numbers clock).1.lastOutput = clock.output := by
  rw [read]
  split <;> rfl

/-- In rounds that take no time nothing but zero is pushed. -/
theorem not_reportsIdle_of_mem_pushes {terminalId : String} {reads : List OutputRead}
    {r : AgentRunner} {line : List (String × Json)} {d : ℚ} (hd : 0 < d)
    (h : line ∈ r.pushes tokenRe terminalId
      (reads.map fun read => (read.chunk, clockAt read.time))) : ¬ ReportsIdle d line := by
  induction reads generalizing r with
  | nil => cases h
  | cons read reads ih =>
    obtain h | h := List.mem_append.mp h
    · have hzero : (clockAt read.time).push - (clockAt read.time).output = 0 := sub_self _
      rw [read_idle (Option.mem_toList.mp h), hzero, not_le]
      exact hd
    · exact ih h

theorem readAll_lastOutput (tokenRe : Bytes → List ℕ) (terminalId : String)
    (reads : List OutputRead) (r : AgentRunner) :
    (r.readAll tokenRe terminalId
        (reads.map fun read => (read.chunk, clockAt read.time))).lastOutput =
      lastRead r.lastOutput reads := by
  induction reads generalizing r with
  | nil => rfl
  | cons read reads ih =>
    have hstep : r.readAll tokenRe terminalId ((read :: reads).map fun read =>
          (read.chunk, clockAt read.time)) =
        (r.read terminalId (tokenRe read.chunk) (clockAt read.time)).1.readAll tokenRe terminalId
          (reads.map fun read => (read.chunk, clockAt read.time)) := rfl
    rw [hstep, ih, read_lastOutput, lastRead, lastRead, List.getLast?_cons]
    cases reads.getLast? <;> rfl

/-- **A silence is reported exactly as far as the end of the run reaches.**
Every silence of more than five seconds is reported up to five seconds if and
only if the agent goes on that long after its last chunk, whatever it prints and
whatever numbers are found in it. -/
theorem idle_reported_iff (tokenRe : Bytes → List ℕ) (terminalId : String) (start : ℚ)
    (reads : List OutputRead) (stop : ℚ) :
    (∀ d ∈ gaps reads, 5 < d →
        ∃ line ∈ messages tokenRe terminalId start reads stop, ReportsIdle (d - 5) line) ↔
      ∀ d ∈ gaps reads, 5 < d → d - 5 ≤ stop - lastRead start reads := by
  refine forall₃_congr fun d _ hd => ?_
  rw [← readAll_lastOutput tokenRe terminalId reads { lastOutput := start, lastPush := start },
    ← reportsIdle_pushMetrics _ terminalId]
  constructor
  · rintro ⟨line, hline, hidle⟩
    obtain hline | hline := List.mem_append.mp hline
    · exact (not_reportsIdle_of_mem_pushes (by linarith) hline hidle).elim
    · rwa [List.mem_singleton.mp hline] at hidle
  · exact fun h => ⟨_, List.mem_append_right _ (List.mem_singleton_self _), h⟩

/-- A silence of a hundred seconds before the last chunk. -/
theorem silence_not_reported :
    let reads := [OutputRead.mk [] 0, OutputRead.mk [] 100]
    ¬ ∀ d ∈ gaps reads, 5 < d →
      ∃ line ∈ messages (fun _ => []) "m-t0" 0 reads 100, ReportsIdle (d - 5) line := by
  intro reads h
  obtain ⟨line, hline, hidle⟩ := h 100 (by norm_num [gaps, reads]) (by norm_num)
  obtain hline | hline := List.mem_append.mp hline
  · exact not_reportsIdle_of_mem_pushes (by norm_num) hline hidle
  · rw [List.mem_singleton.mp hline, reportsIdle_pushMetrics, readAll_lastOutput] at hidle
    have hlast : lastRead 0 reads = 100 := rfl
    rw [hlast] at hidle
    norm_num at hidle

end AgentRunner
