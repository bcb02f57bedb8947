/-
What a window makes of the runner's bytes (`_deliver_prompt_and_collect` of
`node/window.py`).

The window receives chunks, cuts them into lines and applies the lines until
one of them is no JSON object.  A receive either times out, having taken
nothing, or returns the next bytes, none at the end of the stream.

* `Collector.outcome` — the updates a window has applied and will apply if it
  receives the given bytes next;
* `Collector.receive_outcome` — a receive moves bytes from the future into the
  buffer and nothing else;
* `Collector.collect_received` — what is applied depends on the received bytes
  only, and is the updates of the newline-terminated lines before the first
  that is no JSON object.
-/
import AgenticJuggling.Lines
import AgenticJuggling.NodeMetrics

/-- How `json.loads` fails. -/
inductive LoadsError
  | jsonDecodeError
  /-- The bytes are no text, or nested too deeply. -/
  | other

/-- How one `wait_for(loop.sock_recv(conn, 4096), timeout=5.0)` ends. -/
inductive Receipt
  | chunk (data : Bytes)
  | timeout
  | connectionReset

inductive CollectPhase
  | reading
  /-- The loop was left by `break`. -/
  | closed
  /-- An exception has ended the task. -/
  | raised
  deriving DecidableEq

/-- The window and the local variables of its loop. -/
structure Collector where
  window : AgentWindow
  buf : Bytes := []
  phase : CollectPhase := .reading
  /-- What `_apply_metrics` was called with. -/
  applied : List (List (String × Json)) := []

namespace Collector

def newline : UInt8 := 10

def applyMetrics (c : Collector) (data : List (String × Json)) : Collector :=
  { c with window := c.window.applyMetrics data, applied := c.applied ++ [data] }

variable (loads : Bytes → Except LoadsError Json)

/-- `while b"\n" in buf`. -/
def applyLines (c : Collector) : Collector :=
  match _h : Lines.splitLine newline c.buf with
  | none => c
  | some (line, rest) =>
    match loads line with
    | .error .jsonDecodeError => { c with buf := rest, phase := .closed }
    | .error .other => { c with buf := rest, phase := .raised }
    | .ok data =>
      match data.asObj with
      -- `data.get` raises `AttributeError`, which the loop does not catch.
      | none => { c with buf := rest, phase := .raised }
      | some data => applyLines ({ c with buf := rest }.applyMetrics data)
  termination_by c.buf.length
  decreasing_by exact Lines.splitLine_length _h

/-- One round of the loop; once it has ended nothing is received. -/
def receive (c : Collector) : Receipt → Collector
  | .chunk data =>
    if c.phase ≠ .reading then c
    else if data = [] then { c with phase := .closed }
    else applyLines loads { c with buf := c.buf ++ data }
  | .timeout => c
  | .connectionReset => if c.phase ≠ .reading then c else { c with phase := .closed }

def collect (c : Collector) (receipts : List Receipt) : Collector :=
  receipts.foldl (receive loads) c

/-! ### What a byte stream says -/

/-- The bytes received before the stream ends. -/
def received : List Receipt → Bytes
  | [] => []
  | .chunk data :: receipts => if data = [] then [] else data ++ received receipts
  | .timeout :: receipts => received receipts
  | .connectionReset :: _ => []

/-- The object a line stands for, if it is one. -/
def objectOf (line : Bytes) : Option (List (String × Json)) :=
  (loads line).toOption.bind Json.asObj

/-- The objects before the first line that is none. -/
def leadingObjects : List Bytes → List (List (String × Json))
  | [] => []
  | line :: lines =>
    match objectOf loads line with
    | none => []
    | some data => data :: leadingObjects lines

/-- The updates in a byte stream. -/
def updates (stream : Bytes) : List (List (String × Json)) :=
  leadingObjects loads (Lines.terminated newline stream)

/-- What a window will have applied if it receives the bytes `next` and no more. -/
def outcome (c : Collector) (next : Bytes) : List (List (String × Json)) :=
  if c.phase = .reading then c.applied ++ updates loads (c.buf ++ next) else c.applied

variable {loads} {c : Collector}

theorem outcome_of_reading (h : c.phase = .reading) (next : Bytes) :
    c.outcome loads next = c.applied ++ updates loads (c.buf ++ next) := if_pos h

theorem outcome_of_ended (h : c.phase ≠ .reading) (next : Bytes) :
    c.outcome loads next = c.applied := if_neg h

theorem updates_of_not_mem {stream : Bytes} (h : newline ∉ stream) : updates loads stream = [] := by
  rw [updates, Lines.terminated_of_not_mem h, leadingObjects]

/-- A line that is no object ends the updates. -/
theorem updates_of_none {stream line rest : Bytes}
    (hs : Lines.splitLine newline stream = some (line, rest)) (h : objectOf loads line = none) :
    updates loads stream = [] := by
  rw [updates, Lines.terminated_of_splitLine hs, leadingObjects, h]

theorem updates_of_some {stream line rest : Bytes} {data : List (String × Json)}
    (hs : Lines.splitLine newline stream = some (line, rest)) (h : objectOf loads line = some data) :
    updates loads stream = data :: updates loads rest := by
  rw [updates, Lines.terminated_of_splitLine hs, leadingObjects, h, updates]

/-! ### The loop -/

theorem applyLines_none (hs : Lines.splitLine newline c.buf = none) : applyLines loads c = c := by
  rw [applyLines, hs]

/-- At a line that is no object the loop is left. -/
theorem applyLines_stop {line rest : Bytes}
    (hs : Lines.splitLine newline c.buf = some (line, rest)) (h : objectOf loads line = none) :
    ∃ phase, phase ≠ .reading ∧ applyLines loads c = { c with buf := rest, phase := phase } := by
  rw [applyLines, hs]
  unfold objectOf at h
  cases hl : loads line with
  | error e =>
    cases e with
    | jsonDecodeError => exact ⟨.closed, by decide, by simp only [hl]⟩
    | other => exact ⟨.raised, by decide, by simp only [hl]⟩
  | ok value =>
    rw [hl, Except.toOption, Option.bind_some] at h
    exact ⟨.raised, by decide, by simp only [hl, h]⟩

theorem applyLines_some {line rest : Bytes} {data : List (String × Json)}
    (hs : Lines.splitLine newline c.buf = some (line, rest)) (h : objectOf loads line = some data) :
    applyLines loads c = applyLines loads ({ c with buf := rest }.applyMetrics data) := by
  rw [applyLines, hs]
  unfold objectOf at h
  cases hl : loads line with
  | error e =>
    rw [hl] at h
    cases h
  | ok value =>
    rw [hl, Except.toOption, Option.bind_some] at h
    simp only [hl, h]

/-- Induction along the lines of the buffer. -/
theorem lines_induction (loads : Bytes → Except LoadsError Json) {P : Collector → Prop}
    (partialLine : ∀ c, newline ∉ c.buf → P c)
    (stop : ∀ (c : Collector) (line rest : Bytes),
      Lines.splitLine newline c.buf = some (line, rest) → objectOf loads line = none → P c)
    (object : ∀ (c : Collector) (line rest : Bytes) (data : List (String × Json)),
      Lines.splitLine newline c.buf = some (line, rest) → objectOf loads line = some data →
      P ({ c with buf := rest }.applyMetrics data) → P c) : ∀ c, P c := by
  intro c
  induction hn : c.buf.length using Nat.strong_induction_on generalizing c with
  | _ n ih =>
    cases hs : Lines.splitLine newline c.buf with
    | none => exact partialLine c (Lines.splitLine_eq_none.mp hs)
    | some p =>
      cases ho : objectOf loads p.1 with
      | none => exact stop c p.1 p.2 hs ho
      | some data =>
        have hlt : p.2.length < n := hn ▸ Lines.splitLine_length hs
        exact object c p.1 p.2 data hs ho (ih _ hlt _ rfl)

/-- The buffer's lines are applied, whatever is received after them. -/
theorem applyLines_outcome (h : c.phase = .reading) (next : Bytes) :
    (applyLines loads c).outcome loads next = c.outcome loads next := by
  induction c using lines_induction loads with
  | partialLine c hbuf => rw [applyLines_none (Lines.splitLine_eq_none.mpr hbuf)]
  | stop c line rest hs ho =>
    obtain ⟨phase, hphase, heq⟩ := applyLines_stop hs ho
    rw [heq, outcome_of_ended hphase, outcome_of_reading h,
      updates_of_none (Lines.splitLine_append hs next) ho, List.append_nil]
  | object c line rest data hs ho ih =>
    have hnext : ({ c with buf := rest }.applyMetrics data).phase = .reading := h
    rw [applyLines_some hs ho, ih h, outcome_of_reading hnext, outcome_of_reading h,
      updates_of_some (Lines.splitLine_append hs next) ho, applyMetrics, List.append_assoc,
      List.singleton_append]

/-- No whole line stays in the buffer of a loop that goes on. -/
theorem applyLines_buf (h : (applyLines loads c).phase = .reading) :
    newline ∉ (applyLines loads c).buf := by
  induction c using lines_induction loads with
  | partialLine c hbuf =>
    rw [applyLines_none (Lines.splitLine_eq_none.mpr hbuf)]
    exact hbuf
  | stop c line rest hs ho =>
    obtain ⟨phase, hphase, heq⟩ := applyLines_stop hs ho
    rw [heq] at h
    exact (hphase h).elim
  | object c line rest data hs ho ih =>
    rw [applyLines_some hs ho] at h ⊢
    exact ih h

/-- The window holds the fold of what it applied. -/
def Folded (window : AgentWindow) (c : Collector) : Prop :=
  c.window = c.applied.foldl AgentWindow.applyMetrics window

theorem applyLines_folded {window : AgentWindow} (h : c.Folded window) :
    (applyLines loads c).Folded window := by
  induction c using lines_induction loads with
  | partialLine c hbuf =>
    rw [applyLines_none (Lines.splitLine_eq_none.mpr hbuf)]
    exact h
  | stop c line rest hs ho =>
    obtain ⟨phase, -, heq⟩ := applyLines_stop hs ho
    rw [heq]
    exact h
  | object c line rest data hs ho ih =>
    rw [applyLines_some hs ho]
    refine ih ?_
    rw [Folded, applyMetrics, List.foldl_append, ← h]
    rfl

/-! ### Runs -/

/-- What holds between two receives. -/
structure Sound (window : AgentWindow) (c : Collector) : Prop where
  buf : c.phase = .reading → newline ∉ c.buf
  folded : c.Folded window

theorem receive_sound {window : AgentWindow} (h : c.Sound window) (r : Receipt) :
    (c.receive loads r).Sound window := by
  cases r with
  | chunk data =>
    rw [receive]
    split
    · exact h
    · split
      · exact ⟨fun hphase => CollectPhase.noConfusion hphase, h.folded⟩
      · exact ⟨applyLines_buf, applyLines_folded h.folded⟩
  | timeout => exact h
  | connectionReset =>
    rw [receive]
    split
    · exact h
    · exact ⟨fun hphase => CollectPhase.noConfusion hphase, h.folded⟩

theorem collect_sound {window : AgentWindow} (receipts : List Receipt) (h : c.Sound window) :
    (c.collect loads receipts).Sound window := by
  induction receipts generalizing c with
  | nil => exact h
  | cons r receipts ih => exact ih (receive_sound h r)

/-- **A receive only moves bytes into the buffer.**  What the window will have
applied in the end is the same before and after it. -/
theorem receive_outcome {window : AgentWindow} (h : c.Sound window) (r : Receipt)
    (receipts : List Receipt) :
    (c.receive loads r).outcome loads (received receipts) =
      c.outcome loads (received (r :: receipts)) := by
  by_cases hphase : c.phase = .reading
  · -- At the end of the stream what is left in the buffer is no line.
    have hend : c.outcome loads [] = c.applied := by
      rw [outcome_of_reading hphase, List.append_nil, updates_of_not_mem (h.buf hphase),
        List.append_nil]
    cases r with
    | chunk data =>
      rw [receive, if_neg (not_not.mpr hphase), received]
      split
      · rw [outcome_of_ended (by simp), hend]
      · have hmore : { c with buf := c.buf ++ data }.phase = .reading := hphase
        rw [applyLines_outcome hmore, outcome_of_reading hmore, outcome_of_reading hphase,
          List.append_assoc]
    | timeout => rfl
    | connectionReset =>
      rw [receive, if_neg (not_not.mpr hphase), received, outcome_of_ended (by simp), hend]
  · have heq : c.receive loads r = c := by
      cases r with
      | chunk data => rw [receive, if_pos hphase]
      | timeout => rfl
      | connectionReset => rw [receive, if_pos hphase]
    rw [heq, outcome_of_ended hphase, outcome_of_ended hphase]

theorem collect_outcome {window : AgentWindow} (h : c.Sound window) (receipts : List Receipt) :
    (c.collect loads receipts).applied = c.outcome loads (received receipts) := by
  induction receipts generalizing c with
  | nil =>
    rw [received]
    by_cases hphase : c.phase = .reading
    · rw [outcome_of_reading hphase, List.append_nil, updates_of_not_mem (h.buf hphase),
        List.append_nil]
      rfl
    · rw [outcome_of_ended hphase]
      rfl
  | cons r receipts ih =>
    rw [← receive_outcome h, ← ih (receive_sound h r)]
    rfl

/-- What the last update that has the key says of it. -/
def lastOf (key : String) (applied : List (List (String × Json))) : Option Json :=
  applied.reverse.findSome? fun data => Json.lookup data key

theorem lastOf_concat (key : String) (applied : List (List (String × Json)))
    (data : List (String × Json)) :
    lastOf key (applied ++ [data]) = (Json.lookup data key).or (lastOf key applied) := by
  rw [lastOf, List.reverse_append, List.reverse_singleton, List.singleton_append,
    List.findSome?_cons]
  cases Json.lookup data key <;> rfl

/-- **A fold of updates keeps the last value of each field**, and the old one of a field
that no update has. -/
theorem foldl_applyMetrics (window : AgentWindow) (applied : List (List (String × Json))) :
    applied.foldl AgentWindow.applyMetrics window =
      { idleSeconds := (lastOf "idle_seconds" applied).getD window.idleSeconds
        tokensUsed := (lastOf "tokens_used" applied).getD window.tokensUsed } := by
  induction applied using List.reverseRecOn with
  | nil => rfl
  | append_singleton applied data ih =>
    rw [List.foldl_append, ih, List.foldl_cons, List.foldl_nil, lastOf_concat, lastOf_concat,
      AgentWindow.applyMetrics, Json.getD, Json.getD]
    cases Json.lookup data "idle_seconds" <;> cases Json.lookup data "tokens_used" <;> rfl

theorem received_append (receipts later : List Receipt) :
    received (receipts ++ later) = received receipts ∨
      received (receipts ++ later) = received receipts ++ received later := by
  induction receipts with
  | nil => exact .inr rfl
  | cons r receipts ih =>
    cases r with
    | chunk data =>
      rw [List.cons_append, received, received]
      split
      · exact .inl rfl
      · exact ih.imp (congrArg (data ++ ·)) fun h => by rw [h, List.append_assoc]
    | timeout => exact ih
    | connectionReset => exact .inl rfl

/-- **What the window applies depends on the bytes alone.**  However they were
cut and wherever a receive timed out, the updates are those of the terminated
lines before the first that is no JSON object, the window holds their fold, which
for each field is the value of the last line that has it, and bytes without a
newline add nothing. -/
theorem collect_received (loads : Bytes → Except LoadsError Json) (window : AgentWindow)
    (receipts : List Receipt) :
    (collect loads { window := window } receipts).applied = updates loads (received receipts) ∧
      (collect loads { window := window } receipts).window =
        (updates loads (received receipts)).foldl AgentWindow.applyMetrics window ∧
      (collect loads { window := window } receipts).window.idleSeconds =
        (lastOf "idle_seconds" (updates loads (received receipts))).getD window.idleSeconds ∧
      (collect loads { window := window } receipts).window.tokensUsed =
        (lastOf "tokens_used" (updates loads (received receipts))).getD window.tokensUsed ∧
      ∀ later, newline ∉ received later →
        (collect loads { window := window } (receipts ++ later)).applied =
            (collect loads { window := window } receipts).applied ∧
          (collect loads { window := window } (receipts ++ later)).window =
            (collect loads { window := window } receipts).window := by
  have h0 : Sound window { window := window } := ⟨fun _ => List.not_mem_nil, rfl⟩
  have happlied : ∀ receipts, (collect loads { window := window } receipts).applied =
      updates loads (received receipts) := by
    intro receipts
    rw [collect_outcome h0, outcome_of_reading rfl]
    rfl
  have hwindow : ∀ receipts, (collect loads { window := window } receipts).window =
      (updates loads (received receipts)).foldl AgentWindow.applyMetrics window := by
    intro receipts
    rw [← happlied receipts]
    exact (collect_sound receipts h0).folded
  refine ⟨happlied receipts, hwindow receipts, ?_, ?_, fun later hlater => ?_⟩
  · rw [hwindow, foldl_applyMetrics]
  · rw [hwindow, foldl_applyMetrics]
  · have hupdates : updates loads (received (receipts ++ later)) =
        updates loads (received receipts) := by
      obtain heq | heq := received_append receipts later
      · rw [heq]
      · rw [heq, updates, Lines.terminated_append_of_not_mem hlater, updates]
    rw [happlied, happlied, hwindow, hwindow, hupdates]
    exact ⟨rfl, rfl⟩

/-- A line cut in two by a timeout, and the beginning of another; the idle time is the
old one. -/
theorem collect_received_cut :
    let loads : Bytes → Except LoadsError Json := fun line =>
      if line = [123, 125] then .ok (.obj [("tokens_used", .int 3)]) else .error .jsonDecodeError
    let window : AgentWindow := { idleSeconds := .float (.fin 2) }
    let receipts : List Receipt := [.chunk [123], .timeout, .chunk [125, 10]]
    (collect loads { window := window } (receipts ++ [.chunk [123, 125]])).window =
      { idleSeconds := .float (.fin 2), tokensUsed := .int 3 } := by
  intro loads window receipts
  obtain ⟨-, hwindow, -, -, hlater⟩ := collect_received loads window receipts
  rw [(hlater [.chunk [123, 125]] (by decide)).2, hwindow]
  rfl

end Collector
