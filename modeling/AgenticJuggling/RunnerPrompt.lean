/-
How a prompt travels from the window to its runner
(`_deliver_prompt_and_collect` of `node/window.py`, `receive_prompt` of
`node/agent_runner.py`).

The window sends the prompt as one line of JSON; the runner receives chunks until
one of them has brought a newline and takes the first line.

* `AgentRunner.run_receiveRound_iff` — the loop is left with the first line of the
  stream, however the stream was cut, and not at all without a newline in it;
* `AgentRunner.receivePrompt_promptMessage` — the runner receives the prompt that
  was sent;
* `AgentRunner.answers_iff` — when the runner makes something of a stream that
  ends;
* `AgentRunner.receivePrompt_truncated` — of a line that was cut off it waits for
  the rest for ever.
-/
import AgenticJuggling.JsonRoundTrip
import AgenticJuggling.WhileLoop
import AgenticJuggling.WindowCollect

open Collector (newline)

namespace AgentWindow

/-- `"prompt"`. -/
def promptKey : PyStr := [0x70, 0x72, 0x6F, 0x6D, 0x70, 0x74]

/-- `json.dumps({"prompt": prompt}).encode() + b"\n"`; `none` where `encode` raises. -/
def promptMessage (prompt : PyStr) : Option Bytes :=
  (PyStr.encode (JsonText.dumps (.obj [(promptKey, .str prompt)]))).map (· ++ [newline])

/-- A prompt is sent as a line, and `json.loads` of the line gives it back. -/
theorem promptMessage_eq {prompt : PyStr} (h : prompt.Unpaired) :
    ∃ line, newline ∉ line ∧ promptMessage prompt = some (line ++ [newline]) ∧
      (PyStr.decodeBytes line).bind JsonText.loadsText =
        some (.obj [(promptKey, .str prompt)]) := by
  have hkey : promptKey.Unpaired :=
    ⟨by simp [promptKey], PyStr.joinSurrogates_of_not_high (by simp [promptKey, PyStr.isHigh])⟩
  have hdump : JsonText.Dumpable (.obj [(promptKey, .str prompt)]) := by
    refine .obj (by simpa using hkey) ?_
    rintro p hp
    rw [List.mem_singleton.mp hp]
    exact .str h
  have hprint := JsonText.printable_dumps hdump
  refine ⟨PyStr.asciiBytes (JsonText.dumps (.obj [(promptKey, .str prompt)])), ?_, ?_, ?_⟩
  · -- A printable character is no newline.
    intro hmem
    obtain ⟨c, hc, heq⟩ := List.mem_map.mp hmem
    have hnat := PyStr.ofNat_toNat (hprint.ascii c hc).2
    rw [heq] at hnat
    have hle := (hprint c hc).1
    have hten : newline.toNat = 10 := rfl
    omega
  · rw [promptMessage, PyStr.encode_ascii hprint.ascii, Option.map_some]
  · rw [PyStr.decodeBytes_ascii hprint.ascii, Option.bind_some, JsonText.loadsText_dumps hdump]

end AgentWindow

namespace AgentRunner

/-! ### The loop -/

/-- The buffer and the chunks that the socket has still to deliver. -/
structure Receiver where
  buf : Bytes := []
  chunks : List Bytes

/-- `buf += conn.recv(4096)`; at the end of the stream `recv` returns `b""` at once,
whenever it is called. -/
def Receiver.recv (r : Receiver) : Receiver :=
  match r.chunks with
  | [] => r
  | chunk :: chunks => { buf := r.buf ++ chunk, chunks := chunks }

/-- `while b"\n" not in buf`; behind the loop `buf.split(b"\n")[0]` is taken. -/
def receiveRound (r : Receiver) : Receiver ⊕ Bytes :=
  match Lines.splitLine newline r.buf with
  | none => .inl r.recv
  | some (line, _) => .inr line

/-- What has arrived and what will. -/
def Receiver.stream (r : Receiver) : Bytes := r.buf ++ r.chunks.flatten

theorem recv_stream (r : Receiver) : r.recv.stream = r.stream := by
  obtain ⟨buf, chunks⟩ := r
  cases chunks with
  | nil => rfl
  | cons chunk chunks => simp [Receiver.recv, Receiver.stream]

theorem receiveRound_goesOn {r r' : Receiver} (h : receiveRound r = .inl r') :
    newline ∉ r.buf ∧ r' = r.recv := by
  rw [receiveRound] at h
  cases hs : Lines.splitLine newline r.buf with
  | none =>
    rw [hs] at h
    exact ⟨Lines.splitLine_eq_none.mp hs, (Sum.inl.inj h).symm⟩
  | some p =>
    rw [hs] at h
    cases h

theorem receiveRound_leaves {r : Receiver} {line : Bytes} (h : receiveRound r = .inr line) :
    ∃ rest, Lines.splitLine newline r.buf = some (line, rest) := by
  rw [receiveRound] at h
  cases hs : Lines.splitLine newline r.buf with
  | none =>
    rw [hs] at h
    cases h
  | some p =>
    rw [hs] at h
    exact ⟨p.2, by rw [← Sum.inr.inj h]⟩

/-- The loop is left once a newline has arrived. -/
theorem receive_ends {r : Receiver} (h : newline ∈ r.stream) : WhileLoop.Ends receiveRound r := by
  refine WhileLoop.ends_of_variant (fun r => newline ∈ r.stream) (fun r => r.chunks.length) ?_ h
  intro r r' hr hround
  obtain ⟨hbuf, rfl⟩ := receiveRound_goesOn hround
  refine ⟨(recv_stream r).symm ▸ hr, ?_⟩
  -- The newline is in a chunk that has not been received.
  have hmem : newline ∈ r.chunks.flatten := (List.mem_append.mp hr).resolve_left hbuf
  unfold Receiver.recv
  cases hchunks : r.chunks with
  | nil =>
    rw [hchunks] at hmem
    cases hmem
  | cons chunk chunks => exact Nat.lt_succ_self _

theorem receive_leaves {r : Receiver} {fuel : ℕ} {line : Bytes}
    (h : WhileLoop.run receiveRound fuel r = some line) :
    ∃ rest, Lines.splitLine newline r.stream = some (line, rest) := by
  refine WhileLoop.exit_of_run (fun r' => r'.stream = r.stream)
    (fun line => ∃ rest, Lines.splitLine newline r.stream = some (line, rest)) ?_ ?_ rfl h
  · intro r' r'' hr' hround
    obtain ⟨-, rfl⟩ := receiveRound_goesOn hround
    rw [recv_stream, hr']
  · intro r' line hr' hround
    obtain ⟨rest, hline⟩ := receiveRound_leaves hround
    exact ⟨rest ++ r'.chunks.flatten, hr' ▸ Lines.splitLine_append hline _⟩

/-- **The loop takes the first line of the stream**, however the stream was cut, and
is never left if there is none. -/
theorem run_receiveRound_iff {chunks : List Bytes} {line : Bytes} :
    (∃ fuel, WhileLoop.run receiveRound fuel { chunks := chunks } = some line) ↔
      ∃ rest, Lines.splitLine newline chunks.flatten = some (line, rest) := by
  constructor
  · rintro ⟨fuel, h⟩
    exact receive_leaves h
  · rintro ⟨rest, h⟩
    have hmem : newline ∈ chunks.flatten := by
      rw [(Lines.splitLine_eq_some h).2]
      simp
    obtain ⟨fuel, line', hrun⟩ := receive_ends (r := { chunks := chunks }) hmem
    obtain ⟨rest', h'⟩ := receive_leaves hrun
    have heq : some (line, rest) = some (line', rest') := h.symm.trans h'
    obtain ⟨rfl, -⟩ := Prod.mk.inj (Option.some.inj heq)
    exact ⟨fuel, hrun⟩

/-! ### The prompt -/

inductive PromptError
  /-- `json.loads` fails. -/
  | loads (e : LoadsError)
  /-- `data["prompt"]` fails. -/
  | noPrompt

/-- How `receive_prompt` ends. -/
inductive PromptOutcome (V : Type)
  | returned (prompt : V)
  | raised (e : PromptError)

section Prompt

variable {V : Type} (loads : Bytes → Except LoadsError V) (item : V → Option V)

/-- `json.loads(line)["prompt"]`; `item` is the subscript. -/
def promptOf (line : Bytes) : PromptOutcome V :=
  match loads line with
  | .error e => .raised (.loads e)
  | .ok data =>
    match item data with
    | none => .raised .noPrompt
    | some prompt => .returned prompt

/-- `receive_prompt`, on a socket that delivers the chunks and then the end of the
stream. -/
def receivePrompt (chunks : List Bytes) (fuel : ℕ) : Option (PromptOutcome V) :=
  (WhileLoop.run receiveRound fuel { chunks := chunks }).map (promptOf loads item)

variable {loads item}

/-- What the runner makes of a stream is what it makes of its first line. -/
theorem receivePrompt_iff {chunks : List Bytes} {outcome : PromptOutcome V} :
    (∃ fuel, receivePrompt loads item chunks fuel = some outcome) ↔
      ∃ line rest, Lines.splitLine newline chunks.flatten = some (line, rest) ∧
        promptOf loads item line = outcome := by
  constructor
  · rintro ⟨fuel, h⟩
    obtain ⟨line, hrun, heq⟩ := Option.map_eq_some_iff.mp h
    obtain ⟨rest, hline⟩ := run_receiveRound_iff.mp ⟨fuel, hrun⟩
    exact ⟨line, rest, hline, heq⟩
  · rintro ⟨line, rest, hline, heq⟩
    obtain ⟨fuel, hrun⟩ := run_receiveRound_iff.mpr ⟨rest, hline⟩
    exact ⟨fuel, by rw [receivePrompt, hrun, Option.map_some, heq]⟩

/-- How `receive_prompt` ends does not depend on the fuel. -/
theorem receivePrompt_unique {chunks : List Bytes} {fuel fuel' : ℕ} {o o' : PromptOutcome V}
    (h : receivePrompt loads item chunks fuel = some o)
    (h' : receivePrompt loads item chunks fuel' = some o') : o = o' := by
  obtain ⟨line, hrun, rfl⟩ := Option.map_eq_some_iff.mp h
  obtain ⟨line', hrun', rfl⟩ := Option.map_eq_some_iff.mp h'
  rw [WhileLoop.run_unique hrun hrun']

/-- **Without a newline the loop is never left.** -/
theorem receivePrompt_eq_none {chunks : List Bytes} (h : newline ∉ chunks.flatten) (fuel : ℕ) :
    receivePrompt loads item chunks fuel = none := by
  have hrun : WhileLoop.run receiveRound fuel { chunks := chunks } = none := by
    refine WhileLoop.run_eq_none_of_invariant (fun r => newline ∉ r.stream) ?_ fuel h
    intro r hr
    -- What has arrived is part of the stream, and `recv` leaves the stream as it is.
    have hbuf : newline ∉ r.buf := fun hmem => hr (List.mem_append_left _ hmem)
    refine ⟨r.recv, ?_, (recv_stream r).symm ▸ hr⟩
    rw [receiveRound, Lines.splitLine_eq_none.mpr hbuf]
  rw [receivePrompt, hrun, Option.map_none]

variable (loads item)

/-- The line holds a prompt. -/
def Holds (line : Bytes) : Prop := ∃ prompt, promptOf loads item line = .returned prompt

/-- One of the lines that have ended holds a prompt. -/
def HasPrompt (stream : Bytes) : Prop :=
  ∃ line ∈ Lines.terminated newline stream, Holds loads item line

/-- A prompt is returned if a line holds one, and an error is raised otherwise. -/
structure Answers (chunks : List Bytes) : Prop where
  returns : HasPrompt loads item chunks.flatten →
    ∃ fuel prompt, receivePrompt loads item chunks fuel = some (.returned prompt)
  raises : ¬HasPrompt loads item chunks.flatten →
    ∃ fuel e, receivePrompt loads item chunks fuel = some (.raised e)

variable {loads item}

theorem not_holds {line : Bytes} (h : ¬Holds loads item line) :
    ∃ e, promptOf loads item line = .raised e := by
  cases hp : promptOf loads item line with
  | returned prompt => exact absurd ⟨prompt, hp⟩ h
  | raised e => exact ⟨e, rfl⟩

/-- **When the runner answers.**  A line must arrive whole, and if any line holds a
prompt the first one must. -/
theorem answers_iff (loads : Bytes → Except LoadsError V) (item : V → Option V)
    (chunks : List Bytes) :
    Answers loads item chunks ↔
      ∃ line rest, Lines.splitLine newline chunks.flatten = some (line, rest) ∧
        (HasPrompt loads item chunks.flatten → Holds loads item line) := by
  constructor
  · intro h
    by_cases hprompt : HasPrompt loads item chunks.flatten
    · obtain ⟨fuel, prompt, hr⟩ := h.returns hprompt
      obtain ⟨line, rest, hline, heq⟩ := receivePrompt_iff.mp ⟨fuel, hr⟩
      exact ⟨line, rest, hline, fun _ => ⟨prompt, heq⟩⟩
    · obtain ⟨fuel, e, hr⟩ := h.raises hprompt
      obtain ⟨line, rest, hline, -⟩ := receivePrompt_iff.mp ⟨fuel, hr⟩
      exact ⟨line, rest, hline, fun hsome => absurd hsome hprompt⟩
  · rintro ⟨line, rest, hline, hfirst⟩
    refine ⟨fun hprompt => ?_, fun hprompt => ?_⟩
    · obtain ⟨prompt, heq⟩ := hfirst hprompt
      obtain ⟨fuel, hr⟩ := receivePrompt_iff.mpr ⟨line, rest, hline, heq⟩
      exact ⟨fuel, prompt, hr⟩
    · -- The first line is one of the lines that hold no prompt.
      have hmem : line ∈ Lines.terminated newline chunks.flatten := by
        rw [Lines.terminated_of_splitLine hline]
        exact List.mem_cons_self
      obtain ⟨e, heq⟩ := not_holds fun hholds => hprompt ⟨line, hmem, hholds⟩
      obtain ⟨fuel, hr⟩ := receivePrompt_iff.mpr ⟨line, rest, hline, heq⟩
      exact ⟨fuel, e, hr⟩

end Prompt

/-! ### The line that the window sends -/

/-- `json.loads` of a line. -/
def loads (line : Bytes) : Except LoadsError JsonText.Value :=
  match PyStr.decodeBytes line with
  | none => .error .other
  | some text =>
    match JsonText.loadsText text with
    | none => .error .jsonDecodeError
    | some data => .ok data

/-- `data["prompt"]`. -/
def promptItem (data : JsonText.Value) : Option JsonText.Value := data.item? AgentWindow.promptKey

/-- A window that closes the connection before it has sent a whole line. -/
theorem not_answers_cut : ¬Answers loads promptItem [[0x7B, 0x22]] := by
  intro h
  have hcut : newline ∉ [[0x7B, 0x22]].flatten := by decide
  have hno : ¬HasPrompt loads promptItem [[0x7B, 0x22]].flatten := by
    rintro ⟨line, hline, -⟩
    rw [Lines.terminated_of_not_mem hcut] at hline
    cases hline
  obtain ⟨fuel, e, hr⟩ := h.raises hno
  rw [receivePrompt_eq_none hcut fuel] at hr
  cases hr

theorem promptOf_line {prompt : PyStr} {line : Bytes}
    (h : (PyStr.decodeBytes line).bind JsonText.loadsText =
      some (.obj [(AgentWindow.promptKey, .str prompt)])) :
    promptOf loads promptItem line = .returned (.str prompt) := by
  obtain ⟨text, htext, hdata⟩ := Option.bind_eq_some_iff.mp h
  have hloads : loads line = .ok (.obj [(AgentWindow.promptKey, .str prompt)]) := by
    rw [loads, htext]
    dsimp only
    rw [hdata]
  rw [promptOf, hloads]
  rfl

theorem receivePrompt_unpaired {prompt : PyStr} (h : prompt.Unpaired) :
    ∃ message, AgentWindow.promptMessage prompt = some message ∧
      ∀ chunks : List Bytes, chunks.flatten = message →
        ∃ fuel, receivePrompt loads promptItem chunks fuel = some (.returned (.str prompt)) := by
  obtain ⟨line, hline, hmessage, hloads⟩ := AgentWindow.promptMessage_eq h
  refine ⟨line ++ [newline], hmessage, fun chunks hchunks => ?_⟩
  have hsplit := Lines.splitLine_of_not_mem hline []
  rw [← hchunks] at hsplit
  exact receivePrompt_iff.mpr ⟨line, [], hsplit, promptOf_line hloads⟩

/-- **The prompt arrives.**  Whatever the prompt, the window's message can be sent,
and however the socket cuts it, `receive_prompt` returns, and returns the prompt. -/
theorem receivePrompt_promptMessage (prompt : String) :
    ∃ message, AgentWindow.promptMessage (PyStr.ofString prompt) = some message ∧
      ∀ chunks : List Bytes, chunks.flatten = message →
        (∃ fuel, receivePrompt loads promptItem chunks fuel =
            some (.returned (.str (PyStr.ofString prompt)))) ∧
          ∀ fuel outcome, receivePrompt loads promptItem chunks fuel = some outcome →
            outcome = .returned (.str (PyStr.ofString prompt)) := by
  obtain ⟨message, hmessage, h⟩ := receivePrompt_unpaired (PyStr.unpaired_ofString prompt)
  refine ⟨message, hmessage, fun chunks hchunks => ⟨h chunks hchunks, ?_⟩⟩
  intro fuel outcome hr
  obtain ⟨fuel', hr'⟩ := h chunks hchunks
  exact receivePrompt_unique hr hr'

/-- Quotes, a line break and a character beyond the BMP, byte by byte. -/
theorem receivePrompt_promptMessage_bytewise : ∃ chunks : List Bytes,
    (∀ chunk ∈ chunks, chunk.length = 1) ∧
      ∃ fuel, receivePrompt loads promptItem chunks fuel =
        some (.returned (.str (PyStr.ofString "say \"hé\"\n😀"))) := by
  obtain ⟨message, -, h⟩ := receivePrompt_promptMessage "say \"hé\"\n😀"
  have hflatten : (message.map fun b => [b]).flatten = message := by
    rw [← List.flatMap_def, List.flatMap_singleton']
  refine ⟨message.map fun b => [b], ?_, (h _ hflatten).1⟩
  intro chunk hchunk
  obtain ⟨b, -, rfl⟩ := List.mem_map.mp hchunk
  rfl

/-- **A message that was cut off.**  Of every part of the message but the whole the
runner waits for the rest for ever. -/
theorem receivePrompt_truncated {prompt : PyStr} (h : prompt.Unpaired) {message : Bytes}
    (hmessage : AgentWindow.promptMessage prompt = some message) {chunks : List Bytes}
    (hcut : chunks.flatten <+: message) (hne : chunks.flatten ≠ message) (fuel : ℕ) :
    receivePrompt loads promptItem chunks fuel = none := by
  obtain ⟨line, hline, heq, -⟩ := AgentWindow.promptMessage_eq h
  obtain rfl := Option.some.inj (hmessage.symm.trans heq)
  refine receivePrompt_eq_none (fun hmem => ?_) fuel
  -- The newline is the last byte, so that only the whole message has it.
  obtain hprefix | hwhole := List.prefix_concat_iff.mp hcut
  · exact hne hprefix
  · exact hline (hwhole.subset hmem)

end AgentRunner
