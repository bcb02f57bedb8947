/-
From the `START` on the server to the prompts on the node.

* `Sys.start_delivered` — every `START` is addressed and wrapped under one
  registration of its node, and the node that made that registration accepts it
  and decrypts exactly the schedule it was assigned.
-/
import AgenticJuggling.NodeProcess
import AgenticJuggling.Sessions

open Transition

/-! ### What a `START` is made of -/

/-- The payload is that of a `START` for assignment `na` of match `m`, with the
match key wrapped under `sessionKey`. -/
def Wraps (P : Primitives) (sessionKey : Bytes) (m : MatchId) (t0 : ℚ) (na : NodeAssignment)
    (payload : Json) : Prop :=
  ∃ matchKey nonce nonces encryptedSchedule, ∃ c : CryptoManager,
    c.matchKeys m = some matchKey ∧
    c.encryptSchedule P m nonces na.schedule = some encryptedSchedule ∧
    payload = MatchManager.startPayload m na.agentname t0 (P.sealBlob sessionKey nonce matchKey none)
      encryptedSchedule

namespace MatchManager

variable {P : Platform}

theorem Dispatches.wraps {w : World} {m : MatchId} {t0 : ℚ} {s : Server} {na : NodeAssignment}
    {identity : Bytes} {payload : Json} (h : Dispatches P w m t0 s na identity payload) :
    ∃ session, s.crypto.sessions na.nodeId = some session ∧
      Wraps P.toPrimitives session.sessionKey m t0 na payload := by
  obtain ⟨k, encryptedSchedule, encryptedMatchKey, hschedule, hkey, rfl⟩ := h.payload
  obtain ⟨matchKey, hmatchKey, hkey⟩ := Option.bind_eq_some_iff.mp hkey
  obtain ⟨session, hsession, hkey⟩ := Option.bind_eq_some_iff.mp hkey
  rw [← Option.some.inj hkey]
  exact ⟨session, hsession, matchKey, _, _, encryptedSchedule, s.crypto, hmatchKey, hschedule, rfl⟩

/-- A `START` under the session and the identity that its node has now. -/
def Starts (P : Platform) (s : Server) (t : ServerTask) (n : NodeId) (identity : Bytes)
    (payload : Json) : Prop :=
  ∃ session t0 na, s.crypto.sessions n = some session ∧ s.registry.identityFor n = some identity ∧
    (∃ as, t.pc.plan = some as ∧ na ∈ as) ∧ na.nodeId = n ∧
    Wraps P.toPrimitives session.sessionKey t.matchId t0 na payload

/-- What a stretch of the dispatch loop adds to the trace. -/
theorem DispatchStretch.starts {fresh : TaskId} {w : World} {m : MatchId} {t0 : ℚ}
    {record : MatchRecord} {s : Server} {as : List NodeAssignment} {r : Stretch}
    (h : DispatchStretch P fresh w m t0 record s as r) :
    ∃ es, r.server.trace = s.trace ++ es ∧ ∀ n identity payload,
      .sent n identity .start payload ∈ es →
        ∃ session na, s.crypto.sessions n = some session ∧
          s.registry.identityFor n = some identity ∧ na ∈ as ∧ na.nodeId = n ∧
          Wraps P.toPrimitives session.sessionKey m t0 na payload := by
  cases h with
  | ended hskip =>
    exact ⟨[], (List.append_nil _).symm, fun _ _ _ h => (List.not_mem_nil h).elim⟩
  | sent skipped na rest identity payload has hskip hsent =>
    refine ⟨_, rfl, fun n identity' payload' hmem => ?_⟩
    rw [List.mem_singleton, Event.sent.injEq] at hmem
    obtain ⟨rfl, rfl, -, rfl⟩ := hmem
    obtain ⟨session, hsession, hwraps⟩ := hsent.wraps
    refine ⟨session, na, hsession, hsent.identity, ?_, rfl, hwraps⟩
    rw [has]
    exact List.mem_append_right _ List.mem_cons_self
  | failed e =>
    exact ⟨[], (List.append_nil _).symm, fun _ _ _ h => (List.not_mem_nil h).elim⟩

theorem StopStretch.starts {tid : TaskId} {w : World} {m : MatchId} {s : Server}
    {as : List NodeAssignment} {r : Stretch} (h : StopStretch tid w m s as r) :
    ∃ es, r.server.trace = s.trace ++ es ∧ ∀ n identity payload,
      .sent n identity .start payload ∉ es := by
  cases h with
  | ended hskip =>
    obtain ⟨es, htrace, hes⟩ := (quiet_updateState tid w
      { s with crypto := s.crypto.revokeMatchKey m } m .finished none (.wrote .matchDb .returned)).trace
    exact ⟨es, htrace, fun n identity payload hmem => by cases hes _ hmem⟩
  | sent skipped na rest identity has hskip hidentity => exact ⟨_, rfl, by simp⟩
  | failed hreach hok => exact ⟨[], (List.append_nil _).symm, by simp⟩

/-- **Every `START` of a stretch** is made from the session, the identity and
an assignment that are there when the stretch begins. -/
theorem NodeStretch.starts {tid fresh : TaskId} {s : Server} {t : ServerTask} {w : World}
    {r : Stretch} (h : NodeStretch P tid fresh s t w r) :
    ∃ es, r.server.trace = s.trace ++ es ∧ ∀ n identity payload,
      .sent n identity .start payload ∈ es → Starts P s t n identity payload := by
  have hquiet : ∀ {r : Stretch}, Quiet s r → ∃ es, r.server.trace = s.trace ++ es ∧
      ∀ n identity payload, .sent n identity .start payload ∈ es →
        Starts P s t n identity payload := by
    intro r hquiet
    obtain ⟨es, htrace, hes⟩ := hquiet.trace
    exact ⟨es, htrace, fun n identity payload hmem => by cases hes _ hmem⟩
  -- A stretch that sends no `START` has nothing to show.
  have hstop : ∀ {r : Stretch}, (∃ es, r.server.trace = s.trace ++ es ∧ ∀ n identity payload,
      .sent n identity .start payload ∉ es) → ∃ es, r.server.trace = s.trace ++ es ∧
      ∀ n identity payload, .sent n identity .start payload ∈ es →
        Starts P s t n identity payload := by
    rintro r ⟨es, htrace, hes⟩
    exact ⟨es, htrace, fun n identity payload hmem => absurd hmem (hes n identity payload)⟩
  cases h with
  | quiet _ hq hduty hkind => exact hquiet hq
  | register frames identity payload hpc hframes =>
    obtain ⟨es, htrace, hes⟩ := (s.handleRegister_frame identity payload w.priv
      (P := P.toPrimitives)).trace
    exact hstop ⟨es, htrace, fun n identity payload hmem => by cases hes _ hmem⟩
  | launch _ t0 record as hpc hready hq hr => exact hquiet hq
  | begin _ t0 record as hpc hkey hr =>
    obtain ⟨es, htrace, hes⟩ := hr.starts
    refine ⟨es, htrace, fun n identity payload hmem => ?_⟩
    obtain ⟨session, na, hsession, hid, hna, hn, hwraps⟩ := hes n identity payload hmem
    exact ⟨session, t0, na, hsession, hid, ⟨as, by rw [hpc]; rfl, hna⟩, hn, hwraps⟩
  | next _ t0 record na rest hpc hr =>
    obtain ⟨es, htrace, hes⟩ := hr.starts
    refine ⟨.marked na.nodeId .running :: es, ?_, fun n identity payload hmem => ?_⟩
    · rw [htrace, Server.mark_trace, List.append_assoc]
      rfl
    · rcases List.mem_cons.mp hmem with hmem | hmem
      · cases hmem
      · obtain ⟨session, na', hsession, hid, hna, hn, hwraps⟩ := hes n identity payload hmem
        rw [Server.mark_registry, NodeRegistry.updateState_identityFor] at hid
        exact ⟨session, t0, na', hsession, hid,
          ⟨na :: rest, by rw [hpc]; rfl, List.mem_cons_of_mem _ hna⟩, hn, hwraps⟩
  | stopBegin r record as hpc hstate has hr => exact hstop hr.starts
  | stopMalformed record hpc => exact hstop ⟨[], (List.append_nil _).symm, by simp⟩
  | stopNext _ na rest hpc hr =>
    obtain ⟨es, htrace, hes⟩ := hr.starts
    refine hstop ⟨.marked na.nodeId .ready :: es, ?_, fun n identity payload hmem => ?_⟩
    · rw [htrace, Server.mark_trace, List.append_assoc]
      rfl
    · rcases List.mem_cons.mp hmem with hmem | hmem
      · cases hmem
      · exact hes n identity payload hmem

end MatchManager

namespace Sys

variable {P : Platform}

/-- A `START` to node `n` goes back to a registration among the earlier events,
and to an assignment of its match. -/
def Backed (P : Platform) (s : Server) (pre : List Event) (n : NodeId) (identity : Bytes)
    (payload : Json) : Prop :=
  ∃ pk reply sessionKey m t0 na, .registered n identity pk reply ∈ pre ∧
    Agreed P.toPrimitives pk reply sessionKey ∧ na ∈ s.assignments m ∧ na.nodeId = n ∧
    Wraps P.toPrimitives sessionKey m t0 na payload

/-- Every `START` in the trace is backed. -/
def AllBacked (P : Platform) (s : Server) : Prop :=
  Past (fun pre e => ∀ n identity payload, e = .sent n identity .start payload →
    Backed P s pre n identity payload) s.trace

theorem AllBacked.step {s s' : Sys} {a : Act} (hs : AllBacked P s.server) (hplanned : s.Planned)
    (hkeyed : s.server.Keyed P.toPrimitives) (h : step P s a = some s') :
    AllBacked P s'.server := by
  have hkeeps := step_keeps h
  have hmono : Past (fun pre e => ∀ n identity payload, e = .sent n identity .start payload →
      Backed P s'.server pre n identity payload) s.server.trace := by
    refine hs.mono fun pre e hold n identity payload he => ?_
    obtain ⟨pk, reply, sessionKey, m, t0, na, hmem, hagreed, hna, hn, hwraps⟩ :=
      hold n identity payload he
    exact ⟨pk, reply, sessionKey, m, t0, na, hmem, hagreed,
      Server.mem_assignments_of_keeps hkeeps hna, hn, hwraps⟩
  rcases step_cases h with ⟨c, -, rfl⟩ | ⟨tid, w, t, -, ht, -, rfl⟩
  · exact hs
  · obtain ⟨es, htrace, hes⟩ :=
      (MatchManager.resume_stretch (P := P) tid s.next s.server t w).starts
    rw [AllBacked, apply_server, htrace, ← apply_server s tid t]
    refine past_append.mpr ⟨hmono, fun pre e post heq n identity payload he => ?_⟩
    subst he
    obtain ⟨session, t0, na, hsession, hid, ⟨as, has, hna⟩, hn, hwraps⟩ :=
      hes n identity payload (by rw [heq]; simp)
    obtain ⟨all, hall, hsuffix, -⟩ := hplanned tid t ht as has
    have hassigned : na ∈ s.server.assignments t.matchId := by
      rw [Server.assignments_of_planOf hall]
      exact hsuffix.subset hna
    -- The session and the identity are those of one registration.
    obtain ⟨identity', pk, reply, hmem, hid', hagreed⟩ := hkeyed n session hsession
    obtain rfl : identity = identity' := Option.some.inj (hid.symm.trans hid')
    exact ⟨pk, reply, session.sessionKey, t.matchId, t0, na, List.mem_append_left _ hmem, hagreed,
      Server.mem_assignments_of_keeps hkeeps hassigned, hn, hwraps⟩

theorem backed_run {tokens : Dict NodeId String} {rows : Dict MatchId MatchRecord}
    {metrics : MetricsStore} {acts : List Act} {s : Sys}
    (hrun : run (step P) (boot tokens rows metrics) acts = some s) : AllBacked P s.server := by
  have h : (s.Sound ∧ s.Planned) ∧ s.server.Keyed P.toPrimitives ∧ AllBacked P s.server := by
    refine invariant_of_run
      (I := fun s => (s.Sound ∧ s.Planned) ∧ s.server.Keyed P.toPrimitives ∧ AllBacked P s.server)
      (fun _ _ _ hs h => ⟨⟨hs.1.1.step h, hs.1.2.step hs.1.1 h⟩, keyed_step hs.2.1 h,
        hs.2.2.step hs.1.2 hs.2.1 h⟩) ⟨⟨sound_boot .., ?_⟩, keyed_run (run_nil _), ?_⟩ hrun
    · exact planned_run (P := P) (run_nil _)
    · exact past_nil
  exact h.2.2

end Sys

/-! ### The node's end -/

/-- The node that made a registration derives the session key from the reply. -/
theorem NodeProcess.registered_of_agreed {P : Primitives} (hP : P.Lawful) {p : NodeProcess}
    {reply : Json} {sessionKey : Bytes}
    (h : Agreed P (.str (p.crypto.pubkeyB64 P)) reply sessionKey) :
    ∃ p', p.registered P reply = some p' ∧ p'.crypto.sessionKey = some sessionKey := by
  obtain ⟨b64, raw, peer, priv, isReconnect, wasRunning, hpk, hraw, hpeer, hkey, rfl⟩ := h
  obtain rfl : p.crypto.pubkeyB64 P = b64 := Json.str.inj hpk
  rw [NodeCrypto.pubkeyB64, Base64.b64decode_b64encode, Option.some_inj] at hraw
  obtain rfl : P.publicKey p.crypto.privateKey = peer := by
    rw [← hraw, hP.fromPublicBytes_publicKey] at hpeer
    exact Option.some.inj hpeer
  have hderive : p.crypto.deriveSessionKey P (.str (Base64.b64encode (P.publicKey priv)))
      = some { p.crypto with sessionKey := some sessionKey } := by
    rw [Primitives.sessionKey_comm hP] at hkey
    simp [NodeCrypto.deriveSessionKey, Json.asStr, Base64.b64decode_b64encode,
      hP.fromPublicBytes_publicKey, hkey]
  refine ⟨{ p with crypto := { p.crypto with sessionKey := some sessionKey } }, ?_, rfl⟩
  simp [NodeProcess.registered, Server.registerOk, Json.lookup, hderive]

theorem NodeCrypto.decryptPrompt_sealBlob {P : Primitives} (hP : P.Lawful) {c : NodeCrypto}
    {m : MatchId} {matchKey : Bytes} (hkey : c.matchKeys m = some matchKey) (nonce : Nonce)
    (prompt : String) : c.decryptPrompt P m
      (.str (P.sealBlob matchKey nonce (utf8 prompt) (some (utf8 m)))) = some prompt := by
  simp [NodeCrypto.decryptPrompt, hkey, Json.asStr, Primitives.openBlob_sealBlob hP]

/-- Task `task` of the scheduler of match `m` fires `entry`: it waits for what is
left of the delay and then feeds the prompt to the agent. -/
structure Fires (P : Primitives) (crypto : NodeCrypto) (m : MatchId) (elapsed : ℚ)
    (task : FireTask) (entry : PromptEntry) : Prop where
  delay : task.delay = .fin entry.delay
  wait : task.wait = .fin (max 0 (entry.delay - elapsed))
  prompt : task.fire P crypto m = some entry.prompt

/-- The loop of the scheduler over a schedule that the server encrypted. -/
theorem MatchScheduler.fireTasks_encryptSchedule {P : Primitives} (hP : P.Lawful)
    {c : CryptoManager} {m : MatchId} {matchKey : Bytes} (hkey : c.matchKeys m = some matchKey)
    {crypto : NodeCrypto} (hcrypto : crypto.matchKeys m = some matchKey) (elapsed : ℚ)
    {schedule : List PromptEntry} : ∀ {nonces : ℕ → Nonce} {encrypted : List Json} (i : ℕ),
      c.encryptSchedule P m nonces schedule = some encrypted →
        ∃ tasks, fireTasks m (.fin elapsed) i encrypted = some tasks ∧
          List.Forall₂ (Fires P crypto m elapsed) tasks schedule := by
  induction schedule with
  | nil =>
    intro nonces encrypted i h
    rw [← Option.some.inj h]
    exact ⟨[], rfl, .nil⟩
  | cons entry schedule ih =>
    intro nonces encrypted i h
    obtain ⟨blob, hblob, h⟩ := Option.bind_eq_some_iff.mp h
    obtain ⟨rest, hrest, h⟩ := Option.bind_eq_some_iff.mp h
    obtain ⟨tasks, htasks, hfires⟩ := ih (i + 1) hrest
    rw [CryptoManager.encryptPrompt, hkey] at hblob
    obtain rfl := Option.some.inj hblob
    obtain rfl := Option.some.inj h
    refine ⟨_, by simp [fireTasks, Json.lookup, Json.asNumber, htasks]; rfl, .cons ?_ hfires⟩
    exact ⟨rfl, by simp [max0], NodeCrypto.decryptPrompt_sealBlob hP hcrypto _ _⟩

/-- **A node with the session key accepts the `START`** and fires exactly the
schedule it was made from. -/
theorem NodeProcess.onStart_wraps {P : Primitives} (hP : P.Lawful) {p : NodeProcess}
    {sessionKey : Bytes} (hkey : p.crypto.sessionKey = some sessionKey) {m : MatchId} {t0 : ℚ}
    {na : NodeAssignment} {payload : Json} (h : Wraps P sessionKey m t0 na payload)
    (agent : String) (now : ℚ) :
    ∃ p' scheduler, p.onStart P agent payload now = some p' ∧ p'.scheduler = some scheduler ∧
      scheduler.matchId = m ∧
      List.Forall₂ (Fires P p'.crypto m (now - t0)) scheduler.tasks na.schedule := by
  obtain ⟨matchKey, nonce, nonces, encrypted, c, hmatchKey, hencrypted, rfl⟩ := h
  have hunwrap : p.crypto.unwrapMatchKey P m (.str (P.sealBlob sessionKey nonce matchKey none))
      = some { p.crypto with matchKeys := p.crypto.matchKeys.set m matchKey } := by
    simp [NodeCrypto.unwrapMatchKey, Json.asStr, hkey, Primitives.openBlob_sealBlob hP]
  have hcrypto : ({ p.crypto with matchKeys := p.crypto.matchKeys.set m matchKey } :
      NodeCrypto).matchKeys m = some matchKey := Dict.set_self ..
  obtain ⟨tasks, htasks, hfires⟩ :=
    MatchScheduler.fireTasks_encryptSchedule hP hmatchKey hcrypto (now - t0) 0 hencrypted
  refine ⟨{ crypto := { p.crypto with matchKeys := p.crypto.matchKeys.set m matchKey }
            saved := some (.obj [("match_id", .str m), ("t0", .float (.fin t0)),
              ("agentname", .str na.agentname), ("schedule", .arr encrypted)])
            scheduler := some { agentname := .str na.agentname, matchId := m, t0 := .fin t0,
                                tasks := tasks } }, _, ?_, rfl, rfl, hfires⟩
  simp [NodeProcess.onStart, MatchManager.startPayload, Json.lookup, Json.asStr, hunwrap,
    MatchScheduler.start, Json.asNumber, Json.items, htasks]

namespace Sys

variable {P : Platform}

/-- The `START` reaches the node it was made for.  It went out under the
identity of one registration of the node, wrapped under the session key of the
same registration; the process that made that registration and has handled the
reply accepts it, whatever it did with its keys in between, and its scheduler
fires the schedule of the assignment, entry by entry. -/
structure Delivered (P : Platform) (s : Server) (pre : List Event) (n : NodeId) (identity : Bytes)
    (payload pk reply : Json) (sessionKey : Bytes) (m : MatchId) (t0 : ℚ) (na : NodeAssignment) :
    Prop where
  registered : .registered n identity pk reply ∈ pre
  agreed : Agreed P.toPrimitives pk reply sessionKey
  wraps : Wraps P.toPrimitives sessionKey m t0 na payload
  assigned : na ∈ s.assignments m ∧ na.nodeId = n
  fires : ∀ (p : NodeProcess) (token hostname ip : String),
    (registerPayload n token hostname ip (p.crypto.pubkeyB64 P.toPrimitives)).get? "ecdh_pubkey"
        = some pk →
    ∃ p₁, p.registered P.toPrimitives reply = some p₁ ∧
      ∀ p₂ : NodeProcess, p₂.crypto.sessionKey = p₁.crypto.sessionKey → ∀ agent now,
        ∃ p₃ scheduler, p₂.onStart P.toPrimitives agent payload now = some p₃ ∧
          p₃.scheduler = some scheduler ∧ scheduler.matchId = m ∧
          List.Forall₂ (Fires P.toPrimitives p₃.crypto m (now - t0)) scheduler.tasks na.schedule

/-- **Every `START` reaches the node it was made for.** -/
theorem start_delivered (hP : P.toPrimitives.Lawful) {tokens : Dict NodeId String}
    {rows : Dict MatchId MatchRecord} {metrics : MetricsStore} {acts : List Act} {s : Sys}
    (hrun : run (step P) (boot tokens rows metrics) acts = some s) {pre post : List Event}
    {n : NodeId} {identity : Bytes} {payload : Json}
    (htrace : s.server.trace = pre ++ .sent n identity .start payload :: post) :
    ∃ pk reply sessionKey m t0 na,
      Delivered P s.server pre n identity payload pk reply sessionKey m t0 na := by
  obtain ⟨pk, reply, sessionKey, m, t0, na, hmem, hagreed, hna, hn, hwraps⟩ :=
    backed_run hrun pre _ post htrace n identity payload rfl
  refine ⟨pk, reply, sessionKey, m, t0, na, hmem, hagreed, hwraps, ⟨hna, hn⟩, ?_⟩
  intro p token hostname ip hpk
  rw [registerPayload_ecdhPubkey, Option.some_inj] at hpk
  subst hpk
  obtain ⟨p₁, hp₁, hkey⟩ := p.registered_of_agreed hP hagreed
  refine ⟨p₁, hp₁, fun p₂ hp₂ agent now => ?_⟩
  exact p₂.onStart_wraps hP (hp₂.trans hkey) hwraps agent now

theorem start_delivered_started : ∃ s pre identity payload post,
    run (step Sample.platform) (Sample.boot [("m", ["n"])]) Sample.started = some s ∧
      s.server.trace = pre ++ .sent "n" identity .start payload :: post ∧
      ∃ pk reply sessionKey m t0 na,
        Delivered Sample.platform s.server pre "n" identity payload pk reply sessionKey m t0 na := by
  obtain ⟨s, hs, h⟩ := Option.map_eq_some_iff.mp
    (show (run (step Sample.platform) (Sample.boot [("m", ["n"])]) Sample.started).map
      (fun s => s.server.trace.any fun e => e.isSent .start "n" "m") = some true by decide +kernel)
  obtain ⟨e, hmem, he⟩ := List.any_eq_true.mp h
  obtain ⟨pre, post, htrace⟩ := List.append_of_mem hmem
  cases e with
  | sent n identity msgType payload =>
    obtain ⟨rfl, rfl, -⟩ := of_decide_eq_true he
    exact ⟨s, pre, identity, payload, post, hs, htrace,
      start_delivered Primitives.transparent_lawful hs htrace⟩
  | _ => cases he

end Sys
