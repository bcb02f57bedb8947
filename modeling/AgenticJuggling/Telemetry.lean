/-
From a runner's counters to its window (`push_metrics` and the read loop of
`node/agent_runner.py`, `_deliver_prompt_and_collect` of `node/window.py`).

The runner writes its counters as lines of JSON whenever five seconds have passed, and once
more when its agent has ended; the window cuts what it receives into lines again.  At every
moment the window has applied the first of the runner's messages, whole and in order,
however the socket cuts the bytes and wherever a receive times out.

* `Collector.collect_messages` — what a window has applied of any messages, at any moment;
* `AgentWindow.follows_runner` — what the window shows at any moment, and in the end.
-/
import AgenticJuggling.IdleTime
import AgenticJuggling.Wire

open JsonText
open Collector (newline)

/-! ### The window's end -/

namespace Collector

variable {loads : Bytes → Except LoadsError Json} {c : Collector}

/-- Lines that are objects are applied, and the loop goes on. -/
theorem applyLines_reading (hphase : c.phase = .reading) {next : Bytes}
    (h : ∀ line ∈ Lines.terminated newline (c.buf ++ next), objectOf loads line ≠ none) :
    (applyLines loads c).phase = .reading ∧
      ∀ line ∈ Lines.terminated newline ((applyLines loads c).buf ++ next),
        objectOf loads line ≠ none := by
  induction c using lines_induction loads with
  | partialLine c hbuf =>
    rw [applyLines_none (Lines.splitLine_eq_none.mpr hbuf)]
    exact ⟨hphase, h⟩
  | stop c line rest hs ho =>
    rw [Lines.terminated_of_splitLine (Lines.splitLine_append hs next)] at h
    exact absurd ho (h line List.mem_cons_self)
  | object c line rest data hs ho ih =>
    rw [applyLines_some hs ho]
    rw [Lines.terminated_of_splitLine (Lines.splitLine_append hs next)] at h
    exact ih hphase fun line hline => h line (List.mem_cons_of_mem _ hline)

/-- **A stream of objects never makes the window's task raise.** -/
theorem collect_reading {receipts : List Receipt} (hphase : c.phase ≠ .raised)
    (h : c.phase = .reading → ∀ line ∈ Lines.terminated newline (c.buf ++ received receipts),
      objectOf loads line ≠ none) : (c.collect loads receipts).phase ≠ .raised := by
  induction receipts generalizing c with
  | nil => exact hphase
  | cons r receipts ih =>
    have hnext : (c.receive loads r).phase ≠ .raised ∧
        ((c.receive loads r).phase = .reading →
          ∀ line ∈ Lines.terminated newline ((c.receive loads r).buf ++ received receipts),
            objectOf loads line ≠ none) := by
      by_cases hreading : c.phase = .reading
      · cases r with
        | chunk data =>
          rw [receive, if_neg (not_not.mpr hreading)]
          split
          · exact ⟨by simp, fun h => (by cases h)⟩
          · next hdata =>
            have hlines := h hreading
            rw [received, if_neg hdata, ← List.append_assoc] at hlines
            obtain ⟨hgoes, hrest⟩ :=
              applyLines_reading (c := { c with buf := c.buf ++ data }) hreading hlines
            exact ⟨by rw [hgoes]; simp, fun _ => hrest⟩
        | timeout => exact ⟨hphase, h⟩
        | connectionReset =>
          rw [receive, if_neg (not_not.mpr hreading)]
          exact ⟨by simp, fun h => (by cases h)⟩
      · have hsame : c.receive loads r = c := by
          cases r with
          | chunk data => rw [receive, if_pos hreading]
          | timeout => rfl
          | connectionReset => rw [receive, if_pos hreading]
        rw [hsame]
        exact ⟨hphase, fun h => absurd h hreading⟩
    exact ih hnext.1 hnext.2

/-- Updates that are all objects. -/
theorem leadingObjects_map {bytes : List (String × Json) → Bytes}
    {messages : List (List (String × Json))}
    (h : ∀ message ∈ messages, objectOf loads (bytes message) = some message) :
    leadingObjects loads (messages.map bytes) = messages := by
  induction messages with
  | nil => rfl
  | cons message messages ih =>
    obtain ⟨hmessage, hmessages⟩ := List.forall_mem_cons.mp h
    rw [List.map_cons, leadingObjects, hmessage]
    exact congrArg (message :: ·) (ih hmessages)

/-- **A window that receives messages**, or a part of their bytes, has applied the first of
them, and its task has not raised. -/
theorem collect_messages {bytes : List (String × Json) → Bytes}
    {messages : List (List (String × Json))}
    (hline : ∀ message ∈ messages, newline ∉ bytes message)
    (hobject : ∀ message ∈ messages, objectOf loads (bytes message) = some message)
    {receipts : List Receipt}
    (hreceived : received receipts <+: Lines.unlines newline (messages.map bytes)) :
    (collect loads { window := {} } receipts).phase ≠ .raised ∧
      (collect loads { window := {} } receipts).applied =
        messages.take ((received receipts).count newline) ∧
      (collect loads { window := {} } receipts).Folded {} := by
  have hlines : ∀ line ∈ messages.map bytes, newline ∉ line := by
    intro line h
    obtain ⟨message, hmessage, rfl⟩ := List.mem_map.mp h
    exact hline message hmessage
  -- Of the bytes received so far the terminated lines are the first messages.
  have hterminated := Lines.terminated_of_prefix hlines hreceived
  rw [← List.map_take] at hterminated
  have hsome : ∀ message ∈ messages.take ((received receipts).count newline),
      objectOf loads (bytes message) = some message :=
    fun message h => hobject message (List.mem_of_mem_take h)
  have hboot : Sound {} { window := {} } := ⟨fun _ => List.not_mem_nil, rfl⟩
  refine ⟨?_, ?_, (collect_sound receipts hboot).folded⟩
  · refine collect_reading (by simp) fun _ line h => ?_
    rw [List.nil_append, hterminated] at h
    obtain ⟨message, hmessage, rfl⟩ := List.mem_map.mp h
    rw [hsome message hmessage]
    exact Option.some_ne_none _
  · rw [collect_outcome hboot, outcome_of_reading rfl, List.nil_append, List.nil_append, updates,
      hterminated]
    exact leadingObjects_map hsome

end Collector

/-! ### The runner's end -/

namespace AgentRunner

variable {N : Numerals}

/-- All the messages of a runner whose agent ends at `stop`. -/
def reports (tokenRe : Bytes → List ℕ) (terminalId : String) (r : AgentRunner)
    (reads : List (Bytes × RunnerClock)) (stop : ℚ) : List (List (String × Json)) :=
  r.pushes tokenRe terminalId reads ++
    [(r.readAll tokenRe terminalId reads).pushMetrics terminalId stop]

/-- The bytes of the messages, as `push_metrics` sends them. -/
def stream (N : Numerals) (messages : List (List (String × Json))) : Bytes :=
  Lines.unlines newline (messages.map fun message => (Json.obj message).bytes N)

theorem length_natText_mono {m n : ℕ} (h : m ≤ n) : (natText m).length ≤ (natText n).length := by
  obtain ⟨c, s, heq, -⟩ := natText_eq_cons n
  rw [natText]
  split
  · rw [heq]
    simp
  · next hm =>
    have hn : n ≠ 0 := by omega
    rw [natText, if_neg hn, List.length_map, List.length_map, List.length_reverse,
      List.length_reverse]
    exact Nat.le_length_digits_le 10 m n h

theorem plain_pushMetrics {r : AgentRunner} (h : (natText r.tokensUsed).length ≤ N.maxDigits)
    (terminalId : String) (now : ℚ) : (Json.obj (r.pushMetrics terminalId now)).Plain N := by
  simpa [pushMetrics] using h

/-- A push inside the loop reports the count of its round. -/
theorem pushed_of_read {r : AgentRunner} {terminalId : String} {numbers : List ℕ}
    {clock : RunnerClock} {message : List (String × Json)}
    (h : message ∈ (r.read terminalId numbers clock).2) : ∃ r' : AgentRunner, ∃ now,
      message = r'.pushMetrics terminalId now ∧
        r'.tokensUsed = (r.read terminalId numbers clock).1.tokensUsed := by
  unfold read at h ⊢
  dsimp only at h ⊢
  split at h
  · next hpush =>
    rw [if_pos hpush]
    exact ⟨_, clock.push, (Option.mem_some_iff.mp h).symm, rfl⟩
  · cases h

/-- A message reports the count of some round, and the count only grows. -/
theorem mem_reports {tokenRe : Bytes → List ℕ} {terminalId : String}
    {reads : List (Bytes × RunnerClock)} {stop : ℚ} {message : List (String × Json)} :
    ∀ {r : AgentRunner}, message ∈ r.reports tokenRe terminalId reads stop →
      ∃ r' : AgentRunner, ∃ now, message = r'.pushMetrics terminalId now ∧
        r'.tokensUsed ≤ (r.readAll tokenRe terminalId reads).tokensUsed := by
  induction reads with
  | nil =>
    intro r h
    obtain rfl := List.mem_singleton.mp h
    exact ⟨r, stop, rfl, le_rfl⟩
  | cons p reads ih =>
    intro r h
    rw [reports, pushes, List.append_assoc] at h
    obtain hfirst | hlater := List.mem_append.mp h
    · obtain ⟨r', now, heq, htokens⟩ := pushed_of_read (Option.mem_toList.mp hfirst)
      refine ⟨r', now, heq, htokens.le.trans ?_⟩
      show _ ≤ ((r.read terminalId (tokenRe p.1) p.2).1.readAll tokenRe terminalId
        reads).tokensUsed
      rw [readAll_tokensUsed]
      exact Nat.le_add_right _ _
    · exact ih hlater

end AgentRunner

/-! ### Both ends -/

namespace AgentWindow

variable {N : Numerals}

/-- A window shows the counters of the message that it applied last. -/
theorem applyMetrics_pushMetrics (window : AgentWindow) (r : AgentRunner) (terminalId : String)
    (now : ℚ) : window.applyMetrics (r.pushMetrics terminalId now) =
      { idleSeconds := .float (.fin (now - r.lastOutput)), tokensUsed := .int r.tokensUsed } := by
  simp [applyMetrics, AgentRunner.pushMetrics, Json.getD, Json.lookup]

theorem foldl_counts {total : ℕ} {messages : List (List (String × Json))}
    (h : ∀ message ∈ messages, ∃ r : AgentRunner, ∃ terminalId now,
      message = r.pushMetrics terminalId now ∧ r.tokensUsed ≤ total) :
    ∃ k ≤ total, (messages.foldl applyMetrics {}).tokensUsed = .int (k : ℕ) := by
  obtain rfl | ⟨before, last, rfl⟩ := List.eq_nil_or_concat messages
  · exact ⟨0, Nat.zero_le _, rfl⟩
  · rw [List.concat_eq_append] at h ⊢
    obtain ⟨r, terminalId, now, rfl, hle⟩ := h last (by simp)
    refine ⟨r.tokensUsed, hle, ?_⟩
    rw [List.foldl_append, List.foldl_cons, List.foldl_nil, applyMetrics_pushMetrics]

/-- **A window follows its runner.**  Whatever bytes the agent prints, whatever numbers are
found in each chunk, whatever the clocks show and however the bytes are cut and delayed on
the socket, as long as the count stays within the digits that `json.dumps` writes: at every
moment the window's task has not raised, it has applied the first of the runner's messages,
whole and in order, and it shows no more tokens than the runner has counted; and when all
has arrived it shows the runner's count and the silence at the end. -/
theorem follows_runner (hN : N.Lawful) {loads : Bytes → Except LoadsError Json}
    (hloads : Json.Reads N loads) (tokenRe : Bytes → List ℕ) (terminalId : String)
    (r : AgentRunner) (reads : List (Bytes × RunnerClock)) (stop : ℚ)
    (hdigits : (natText (r.readAll tokenRe terminalId reads).tokensUsed).length ≤ N.maxDigits)
    {receipts : List Receipt}
    (hreceived : Collector.received receipts <+:
      AgentRunner.stream N (r.reports tokenRe terminalId reads stop)) :
    (Collector.collect loads { window := {} } receipts).phase ≠ .raised ∧
      (Collector.collect loads { window := {} } receipts).applied =
        (r.reports tokenRe terminalId reads stop).take ((Collector.received receipts).count newline) ∧
      (∃ k ≤ (r.readAll tokenRe terminalId reads).tokensUsed,
        (Collector.collect loads { window := {} } receipts).window.tokensUsed = .int (k : ℕ)) ∧
      (Collector.received receipts = AgentRunner.stream N (r.reports tokenRe terminalId reads stop) →
        (Collector.collect loads { window := {} } receipts).window =
          { idleSeconds := .float (.fin (stop - (r.readAll tokenRe terminalId reads).lastOutput))
            tokensUsed := .int ((r.tokensUsed +
              ((reads.map Prod.fst).map fun chunk => (tokenRe chunk).sum).sum : ℕ)) }) := by
  have hplain : ∀ message ∈ r.reports tokenRe terminalId reads stop, (Json.obj message).Plain N := by
    intro message hmessage
    obtain ⟨r', now, rfl, hle⟩ := AgentRunner.mem_reports hmessage
    exact AgentRunner.plain_pushMetrics ((AgentRunner.length_natText_mono hle).trans hdigits) ..
  have hline : ∀ message ∈ r.reports tokenRe terminalId reads stop,
      newline ∉ (Json.obj message).bytes N :=
    fun message hmessage => Json.newline_not_mem_bytes hN (hplain message hmessage)
  have hobject : ∀ message ∈ r.reports tokenRe terminalId reads stop,
      Collector.objectOf loads ((Json.obj message).bytes N) = some message := by
    intro message hmessage
    rw [Collector.objectOf, Json.loads_bytes hN hloads (hplain message hmessage)]
    rfl
  obtain ⟨hphase, happlied, hwindow⟩ := Collector.collect_messages hline hobject hreceived
  rw [Collector.Folded, happlied] at hwindow
  refine ⟨hphase, happlied, ?_, fun hwhole => ?_⟩
  · rw [hwindow]
    refine foldl_counts fun message hmessage => ?_
    obtain ⟨r', now, heq, hle⟩ := AgentRunner.mem_reports (List.mem_of_mem_take hmessage)
    exact ⟨r', terminalId, now, heq, hle⟩
  · -- All of the stream are all the messages, and the last one has the final counts.
    have hall : (Collector.received receipts).count newline =
        (r.reports tokenRe terminalId reads stop).length := by
      rw [hwhole, AgentRunner.stream, Lines.count_unlines, List.length_map]
      intro line h
      obtain ⟨message, hmessage, rfl⟩ := List.mem_map.mp h
      exact hline message hmessage
    rw [hwindow, hall, List.take_length, AgentRunner.reports, List.foldl_append, List.foldl_cons,
      List.foldl_nil, applyMetrics_pushMetrics, AgentRunner.readAll_tokensUsed]

theorem received_bytewise (bytes : Bytes) :
    Collector.received (bytes.flatMap fun b => [.chunk [b], .timeout]) = bytes := by
  induction bytes with
  | nil => rfl
  | cons b bytes ih =>
    rw [List.flatMap_cons, List.cons_append, List.cons_append, List.nil_append,
      Collector.received, if_neg (List.cons_ne_nil b []), Collector.received, ih]
    rfl

end AgentWindow

/-- An agent that prints one chunk, in which the number 5 is found. -/
def Sample.reads : List (Bytes × RunnerClock) := [(utf8 "tokens: 5", ⟨1, 6, 6, 6⟩)]

def Sample.tokenRe (chunk : Bytes) : List ℕ := if chunk = utf8 "tokens: 5" then [5] else []

namespace AgentWindow

/-- Its messages arrive byte by byte, with a timeout after every byte. -/
theorem follows_runner_sample : ∃ receipts : List Receipt,
    receipts.Forall (fun r => r = .timeout ∨ ∃ b, r = .chunk [b]) ∧
      (Collector.collect Sample.loads { window := {} } receipts).window =
        { idleSeconds := .float (.fin 8), tokensUsed := .int 5 } := by
  let r : AgentRunner := { lastOutput := 0, lastPush := 0 }
  have htokens : (r.readAll Sample.tokenRe "m-t0" Sample.reads).tokensUsed = 5 := by
    rw [AgentRunner.readAll_tokensUsed]
    decide
  have hdigits : (natText (r.readAll Sample.tokenRe "m-t0" Sample.reads).tokensUsed).length ≤
      Sample.numerals.maxDigits := by
    rw [htokens]
    norm_num [natText, Sample.numerals]
  let stream := AgentRunner.stream Sample.numerals
    (r.reports Sample.tokenRe "m-t0" Sample.reads 9)
  have hreceived := received_bytewise stream
  obtain ⟨-, -, -, hwhole⟩ := follows_runner Sample.numerals_lawful Sample.reads_loads
    Sample.tokenRe "m-t0" r Sample.reads 9 hdigits (by rw [hreceived])
  refine ⟨stream.flatMap fun b => [.chunk [b], .timeout], ?_, ?_⟩
  · rw [List.forall_iff_forall_mem]
    intro receipt hreceipt
    obtain ⟨b, -, hb⟩ := List.mem_flatMap.mp hreceipt
    simp only [List.mem_cons, List.not_mem_nil, or_false] at hb
    exact hb.symm.imp_right fun h => ⟨b, h⟩
  · have hidle : (9 : ℚ) - (r.readAll Sample.tokenRe "m-t0" Sample.reads).lastOutput = 8 := by
      norm_num [r, Sample.reads, AgentRunner.readAll, AgentRunner.read]
    have hcount : r.tokensUsed + ((Sample.reads.map Prod.fst).map fun chunk =>
        (Sample.tokenRe chunk).sum).sum = 5 := by decide
    rw [hwhole hreceived, hidle, hcount]
    rfl

end AgentWindow
