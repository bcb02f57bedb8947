/-
What goes through sockets and into text columns as the text of a value.

A `Deployment` hands values on where the program writes them with `json.dumps` and reads
them with `json.loads`.  Nothing is lost by that.

* `Sys.spells_step` — every payload that the server writes is plain;
* `Deployment.messages_survive` — in every run the messages of both sides come out of their
  bytes as they went in;
* `MatchStore.config_survives` — so do the assignments of a match out of `config_json`.
-/
import AgenticJuggling.Deployment
import AgenticJuggling.MatchTable
import AgenticJuggling.Reconnect
import AgenticJuggling.Wire

open Transition JsonText

variable {N : Numerals}

/-! ### The payloads -/

theorem plain_startPayload (m : MatchId) (agentname : String) (t0 : ℚ) (key : String)
    {schedule : List Json} (h : ∀ j ∈ schedule, j.Plain N) :
    (MatchManager.startPayload m agentname t0 key schedule).Plain N := by
  simpa [MatchManager.startPayload] using h

theorem plain_stopPayload (m : MatchId) : (MatchManager.stopPayload m).Plain N := by
  simp [MatchManager.stopPayload]

theorem plain_registerOk (isReconnect wasRunning : Bool) (b64 : String) :
    (Server.registerOk isReconnect wasRunning b64).Plain N := by
  simp [Server.registerOk]

theorem plain_registerPayload (n : NodeId) (token hostname ip pubkeyB64 : String) :
    (registerPayload n token hostname ip pubkeyB64).Plain N := by
  simp [registerPayload]

theorem plain_metricsPayload (n : NodeId) (terminalId : String) (idleSeconds : PyFloat)
    {tokensUsed : ℤ} (h : (natText tokensUsed.natAbs).length ≤ N.maxDigits) (now : ℚ) :
    (Json.obj (Report.metricsPayload n terminalId (.float idleSeconds) (.int tokensUsed) now)).Plain
      N := by
  simpa [Report.metricsPayload] using h

theorem plain_configJson (config : MatchConfig) :
    (MatchStore.recordOf config).configJson.Plain N := by
  simp [MatchStore.recordOf, MatchStore.assignmentJson, MatchStore.entryJson]

theorem plain_encryptSchedule {P : Primitives} {c : CryptoManager} {m : MatchId}
    {schedule : List PromptEntry} : ∀ {nonces : ℕ → Nonce} {encrypted : List Json},
      c.encryptSchedule P m nonces schedule = some encrypted → ∀ j ∈ encrypted, j.Plain N := by
  induction schedule with
  | nil =>
    intro nonces encrypted h j hj
    obtain rfl := Option.some.inj h
    cases hj
  | cons entry schedule ih =>
    intro nonces encrypted h
    obtain ⟨encryptedPrompt, -, h⟩ := Option.bind_eq_some_iff.mp h
    obtain ⟨rest, hrest, h⟩ := Option.bind_eq_some_iff.mp h
    obtain rfl := Option.some.inj h
    refine List.forall_mem_cons.mpr ⟨?_, ih hrest⟩
    simp

/-! ### The server's messages -/

/-- What the server calls `json.dumps` with; a `REGISTER_FAIL` is written as a constant. -/
def Event.payload : Event → Option Json
  | .sent _ _ _ payload => some payload
  | .registered _ _ _ reply => some reply
  | _ => none

/-- The event writes nothing but plain values. -/
def Event.Spells (N : Numerals) (e : Event) : Prop := ∀ j ∈ e.payload, j.Plain N

theorem Event.spells_of_isRow {e : Event} (h : e.isRow = true) : e.Spells N := by
  intro j hj
  cases e with
  | rowWritten tid matchId state t0 => cases hj
  | _ => cases h

namespace MatchManager

variable {P : Platform}

/-- The trace grows by events that write plain values. -/
def SpellsOn (N : Numerals) (s s' : Server) : Prop :=
  ∃ es, s'.trace = s.trace ++ es ∧ ∀ e ∈ es, Event.Spells N e

theorem Quiet.spellsOn {s : Server} {r : Stretch} (h : Quiet s r) : SpellsOn N s r.server := by
  obtain ⟨es, htrace, hes⟩ := h.trace
  exact ⟨es, htrace, fun e he => Event.spells_of_isRow (hes e he)⟩

theorem spellsOn_of_mark {s s' : Server} {n : NodeId} {state : NodeState}
    (h : SpellsOn N (s.mark n state) s') : SpellsOn N s s' := by
  obtain ⟨es, htrace, hes⟩ := h
  refine ⟨.marked n state :: es, ?_, List.forall_mem_cons.mpr ⟨fun j hj => (by cases hj), hes⟩⟩
  rw [htrace, Server.mark_trace, List.append_assoc]
  rfl

theorem DispatchStretch.spellsOn {fresh : TaskId} {w : World} {m : MatchId} {t0 : ℚ}
    {record : MatchRecord} {s : Server} {as : List NodeAssignment} {r : Stretch}
    (h : DispatchStretch P fresh w m t0 record s as r) : SpellsOn N s r.server := by
  cases h with
  | ended hskip => exact ⟨[], (List.append_nil _).symm, by simp⟩
  | sent skipped na rest identity payload has hskip hsent =>
    refine ⟨_, rfl, List.forall_mem_singleton.mpr fun j hj => ?_⟩
    obtain rfl := Option.some.inj hj
    obtain ⟨session, -, matchKey, nonce, nonces, encrypted, c, -, hschedule, rfl⟩ := hsent.wraps
    exact plain_startPayload _ _ _ _ (plain_encryptSchedule hschedule)
  | failed e => exact ⟨[], (List.append_nil _).symm, by simp⟩

theorem StopStretch.spellsOn {tid : TaskId} {w : World} {m : MatchId} {s : Server}
    {as : List NodeAssignment} {r : Stretch} (h : StopStretch tid w m s as r) :
    SpellsOn N s r.server := by
  obtain ⟨es, htrace, hes⟩ := h.events
  refine ⟨es, htrace, fun e he => ?_⟩
  obtain hrow | ⟨n, identity, rfl⟩ := hes e he
  · exact Event.spells_of_isRow hrow
  · intro j hj
    obtain rfl := Option.some.inj hj
    exact plain_stopPayload m

theorem handleRegister_spellsOn {P : Primitives} (s : Server) (identity : Bytes) (payload : Json)
    (priv : Bytes) : SpellsOn N s (s.handleRegister P identity payload priv).1 := by
  have hnone : SpellsOn N s s := ⟨[], (List.append_nil _).symm, by simp⟩
  rcases s.handleRegister_cases identity payload priv (P := P) with
    ⟨outcome, h⟩ | ⟨reason, h⟩ | ⟨kvs, n, -, -, -, -, h⟩
  · rw [h]
    exact hnone
  · rw [h]
    exact ⟨_, rfl, List.forall_mem_singleton.mpr fun j hj => (by cases hj)⟩
  · rw [h]
    rcases s.acceptRegister_cases identity n (Json.getD kvs "hostname" (.str ""))
      (Json.getD kvs "ip" (.str "")) (Json.getD kvs "ecdh_pubkey" (.str "")) priv (P := P) with
      ⟨-, h⟩ | ⟨b64, -, h⟩
    · rw [h]
      exact hnone
    · rw [h]
      refine ⟨_, rfl, List.forall_mem_singleton.mpr fun j hj => ?_⟩
      obtain rfl := Option.some.inj hj
      exact plain_registerOk ..

theorem NodeStretch.spellsOn {tid fresh : TaskId} {s : Server} {t : ServerTask} {w : World}
    {r : Stretch} (h : NodeStretch P tid fresh s t w r) : SpellsOn N s r.server := by
  cases h with
  | quiet _ hquiet hduty hkind => exact hquiet.spellsOn
  | register frames identity payload hpc hframes => exact handleRegister_spellsOn ..
  | launch _ t0 record as hpc hready hquiet hr => exact hquiet.spellsOn
  | begin _ t0 record as hpc hkey hr => exact hr.spellsOn
  | next _ t0 record na rest hpc hr => exact spellsOn_of_mark hr.spellsOn
  | stopBegin r record as hpc hstate has hr => exact hr.spellsOn
  | stopMalformed record hpc => exact ⟨[], (List.append_nil _).symm, by simp⟩
  | stopNext _ na rest hpc hr => exact spellsOn_of_mark hr.spellsOn

end MatchManager

namespace Sys

variable {P : Platform}

/-- **The server writes plain values only.** -/
theorem spells_step {s s' : Sys} {a : Act} (hs : ∀ e ∈ s.server.trace, e.Spells N)
    (h : step P s a = some s') : ∀ e ∈ s'.server.trace, e.Spells N := by
  rcases step_cases h with ⟨c, -, rfl⟩ | ⟨tid, w, t, -, -, -, rfl⟩
  · exact hs
  · rw [apply_server]
    obtain ⟨es, htrace, hes⟩ :=
      (MatchManager.resume_stretch (P := P) tid s.next s.server t w).spellsOn (N := N)
    rw [htrace]
    exact List.forall_mem_append.mpr ⟨hs, hes⟩

end Sys

/-! ### Deployments -/

namespace Deployment

variable {P : Platform}

/-- What a process writes, if it can write the readings of its windows. -/
theorem FromPeer.plain {identity : Bytes} {p : Peer} {frames : List Frame}
    (h : FromPeer P.toPrimitives identity p frames) {j : Json}
    (hj : ∃ frame ∈ frames, frame.json = some j)
    (htokens : ∀ i, j.get? "tokens_used" = some (.int i) →
      (natText i.natAbs).length ≤ N.maxDigits) : j.Plain N := by
  obtain ⟨frame, hframe, hjson⟩ := hj
  cases h with
  | register =>
    simp only [Peer.registerFrames, List.mem_cons, List.not_mem_nil, or_false] at hframe
    rcases hframe with rfl | rfl | rfl
    · cases hjson
    · cases hjson
    · obtain rfl := Option.some.inj hjson
      exact plain_registerPayload ..
  | report terminalId idleSeconds tokensUsed now =>
    simp only [Report.frames, List.mem_cons, List.not_mem_nil, or_false] at hframe
    rcases hframe with rfl | rfl | rfl
    · cases hjson
    · cases hjson
    · obtain rfl := Option.some.inj hjson
      exact plain_metricsPayload _ _ _ (htokens _ rfl) _

variable {tokens : Dict NodeId String} {rows : Dict MatchId MatchRecord} {metrics : MetricsStore}

/-- **The messages of both sides survive the wire.**  In every run what the server has
written, and what a process is about to send, is read back from its bytes as it was, if no
token count has more digits than `int` can handle. -/
theorem messages_survive (hN : N.Lawful) {loads : Bytes → Except LoadsError Json}
    (hloads : Json.Reads N loads) {moves : List Move} {d : Deployment}
    (hrun : run (step P) (boot tokens rows metrics) moves = some d) :
    (∀ e ∈ d.sys.server.trace, ∀ j ∈ e.payload,
        ∃ raw, PyStr.encode (dumps (toValue N j)) = some raw ∧ loads raw = .ok j) ∧
      ∀ identity p, d.peers identity = some p → ∀ frames ∈ p.outbox, ∀ frame ∈ frames,
        ∀ j, frame.json = some j →
          (∀ i, j.get? "tokens_used" = some (.int i) →
            (natText i.natAbs).length ≤ N.maxDigits) →
          ∃ raw, PyStr.encode (dumps (toValue N j)) = some raw ∧ loads raw = .ok j := by
  have hwired := run_wired hrun
  obtain ⟨acts, hacts⟩ := hwired.reachable
  have hspells : ∀ e ∈ d.sys.server.trace, e.Spells N :=
    invariant_of_run (I := fun s => ∀ e ∈ s.server.trace, Event.Spells N e)
      (fun _ _ _ hs h => Sys.spells_step hs h) (fun e he => (List.not_mem_nil he).elim) hacts
  refine ⟨fun e he j hj => Json.survives hN hloads (hspells e he j hj), ?_⟩
  intro identity p hp frames hframes frame hframe j hj htokens
  exact Json.survives hN hloads
    ((hwired.outbox identity p hp frames hframes).plain ⟨frame, hframe, hj⟩ htokens)

/-- The `START` of the sample and what its process reports. -/
theorem messages_survive_sample : ∃ d,
    run (step Sample.framed) Sample.deployment Sample.prompted = some d ∧
      (d.sys.server.trace.filterMap Event.payload).length = 2 ∧
      ∀ e ∈ d.sys.server.trace, ∀ j ∈ e.payload, ∃ raw,
        PyStr.encode (dumps (toValue Sample.numerals j)) = some raw ∧
          Sample.loads raw = .ok j := by
  have hruns : (run (step Sample.framed) Sample.deployment Sample.prompted).map
      (fun d => (d.sys.server.trace.filterMap Event.payload).length) = some 2 := by decide +kernel
  obtain ⟨d, hd, hlength⟩ := Option.map_eq_some_iff.mp hruns
  exact ⟨d, hd, hlength, (messages_survive Sample.numerals_lawful Sample.reads_loads hd).1⟩

end Deployment

/-! ### The configuration column -/

/-- **The assignments of a match survive its row.**  What `create` writes into
`config_json`, `parse_assignments` reads back, for delays that are finite numbers. -/
theorem MatchStore.config_survives (hN : N.Lawful) (config : MatchConfig) :
    ((loadsText (dumps (toValue N (recordOf config).configJson))).bind (ofValue N)).bind
      parseAssignments = some config.nodes := by
  have hplain := plain_configJson (N := N) config
  rw [loadsText_dumps (dumpable_toValue hN hplain), Option.bind_some, ofValue_toValue hN hplain,
    Option.bind_some]
  exact parseAssignments_assignmentsJson config.nodes

theorem MatchStore.config_survives_sample :
    ((loadsText (dumps (toValue Sample.numerals
      (recordOf (Sample.config "m" ["n", "n'"])).configJson))).bind (ofValue Sample.numerals)).bind
        parseAssignments = some (Sample.config "m" ["n", "n'"]).nodes :=
  config_survives Sample.numerals_lawful (Sample.config "m" ["n", "n'"])
