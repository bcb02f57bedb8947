/-
Two servers that agree on a match and its nodes do the same for it.

* `Alike` — the servers agree on match `m` and the nodes `N`, and have since
  produced the same messages; their task ids differ by a renaming `ρ`;
* `alike_resume` — a stretch of an operation on `m`, with the same answers of the
  outside, leaves them alike and ends at the same `await`;
* `alike_register` — and so does a `REGISTER` of a node of `N`.
-/
import AgenticJuggling.Footprint

/-- What the server puts on the wire. -/
def Event.isMessage (e : Event) : Bool := e.recipient.isSome || e.isReply

namespace CryptoManager

variable {P : Primitives}

/-- Only the match key goes into an encrypted schedule. -/
theorem encryptSchedule_congr {c c' : CryptoManager} {m : MatchId}
    (h : c'.matchKeys m = c.matchKeys m) (schedule : List PromptEntry) : ∀ nonces,
    c'.encryptSchedule P m nonces schedule = c.encryptSchedule P m nonces schedule := by
  induction schedule with
  | nil => exact fun nonces => rfl
  | cons entry rest ih =>
    intro nonces
    rw [encryptSchedule, encryptSchedule, ih, encryptPrompt, encryptPrompt, h]

theorem encryptMatchKeyForNode_congr {c c' : CryptoManager} {m : MatchId} {n : NodeId}
    (hkey : c'.matchKeys m = c.matchKeys m) (hsession : c'.sessions n = c.sessions n)
    (nonce : Nonce) :
    c'.encryptMatchKeyForNode P m n nonce = c.encryptMatchKeyForNode P m n nonce := by
  rw [encryptMatchKeyForNode, encryptMatchKeyForNode, hkey, hsession]

/-- The outcome of a key exchange does not depend on earlier ones. -/
theorem establishSession_congr (c c' : CryptoManager) (n : NodeId) (pk : Json) (priv : Bytes) :
    (c'.establishSession P n pk priv).2 = (c.establishSession P n pk priv).2 ∧
      (c'.establishSession P n pk priv).1.sessions n
        = (c.establishSession P n pk priv).1.sessions n := by
  rw [establishSession, establishSession]
  cases (pk.asStr.bind Base64.b64decode).bind P.fromPublicBytes with
  | none => exact ⟨rfl, (Dict.pop_self ..).trans (Dict.pop_self ..).symm⟩
  | some peer =>
    dsimp only
    cases P.sessionKey priv peer with
    | none => exact ⟨rfl, (Dict.pop_self ..).trans (Dict.pop_self ..).symm⟩
    | some key => exact ⟨rfl, (Dict.set_self ..).trans (Dict.set_self ..).symm⟩

end CryptoManager

namespace NodeRegistry

theorem identityFor_congr {r r' : NodeRegistry} {n : NodeId} (h : r'.nodes n = r.nodes n) :
    r'.identityFor n = r.identityFor n := by
  rw [identityFor, identityFor, h]

theorem inState_congr {r r' : NodeRegistry} {n : NodeId} (h : r'.nodes n = r.nodes n)
    (state : NodeState) : r'.inState state n = r.inState state n := by
  rw [inState, inState, h]

theorem authenticate_congr {r r' : NodeRegistry} (h : r'.allowedTokens = r.allowedTokens)
    (n : NodeId) (token : Json) : r'.authenticate n token = r.authenticate n token := by
  rw [authenticate, authenticate, h]

/-- A registration overwrites the node's own record and depends on no other. -/
theorem register_congr {r r' : NodeRegistry} {n : NodeId} (h : r'.nodes n = r.nodes n)
    (hostname ip : Json) (identity : Bytes) :
    (r'.register n hostname ip identity).2 = (r.register n hostname ip identity).2 ∧
      (r'.register n hostname ip identity).1.nodes n
        = (r.register n hostname ip identity).1.nodes n := by
  rw [register, register, h]
  cases r.nodes n with
  | none => exact ⟨rfl, (Dict.set_self ..).trans (Dict.set_self ..).symm⟩
  | some node => exact ⟨rfl, (Dict.set_self ..).trans (Dict.set_self ..).symm⟩

theorem updateState_congr {r r' : NodeRegistry} {n : NodeId} (h : r'.nodes n = r.nodes n)
    (n' : NodeId) (state : NodeState) :
    (r'.updateState n' state).nodes n = (r.updateState n' state).nodes n := by
  simp only [updateState, Dict.modify_apply]
  by_cases hn : n = n'
  · rw [if_pos hn, if_pos hn, ← hn, h]
  · rw [if_neg hn, if_neg hn, h]

end NodeRegistry

section

variable (ρ : TaskId → TaskId) (m : MatchId) (N : List NodeId) (before before' : List Event)

/-- The servers agree on match `m` and on the nodes `N`, and have produced the same
messages since their histories were `before` and `before'`. -/
structure Server.Alike (s s' : Server) : Prop extends Server.SameNodes N s s' where
  row : s'.store.rows m = s.store.rows m
  key : s'.crypto.matchKeys m = s.crypto.matchKeys m
  timer : s'.timers m = (s.timers m).map ρ
  said : ∃ es es', s.trace = before ++ es ∧ s'.trace = before' ++ es' ∧
    es'.filter Event.isMessage = es.filter Event.isMessage

/-- The stretches leave alike servers behind and do the same to their tasks. -/
structure Stretch.Alike (r r' : Stretch) : Prop where
  server : r.server.Alike ρ m N before before' r'.server
  pc : r'.pc = r.pc
  suspends : r'.suspends = r.suspends
  cancels : r'.cancels = r.cancels.map ρ
  spawns : r'.spawns = r.spawns

end

section

variable {ρ : TaskId → TaskId} {m : MatchId} {N : List NodeId} {before before' : List Event}
  {s s' : Server}

namespace Server

/-- The servers go on with the same messages. -/
theorem Alike.said_append (hs : s.Alike ρ m N before before' s') {es es' : List Event}
    (h : es'.filter Event.isMessage = es.filter Event.isMessage) :
    ∃ es₁ es₁', s.trace ++ es = before ++ es₁ ∧ s'.trace ++ es' = before' ++ es₁' ∧
      es₁'.filter Event.isMessage = es₁.filter Event.isMessage := by
  obtain ⟨es₀, es₀', h₀, h₀', hsame⟩ := hs.said
  refine ⟨es₀ ++ es, es₀' ++ es', by rw [h₀, List.append_assoc], by rw [h₀', List.append_assoc], ?_⟩
  rw [List.filter_append, List.filter_append, hsame, h]

/-- The servers stay alike whatever happens elsewhere on the first, and the
comparison of their messages may start over. -/
theorem Alike.of_sameSlice (hs : s.Alike ρ m N before before' s') {u : Server}
    (h : s.SameSlice m N u) : u.Alike ρ m N u.trace s'.trace s' where
  tokens := hs.tokens.trans h.tokens.symm
  nodes n hn := (hs.nodes n hn).trans (h.nodes n hn).symm
  sessions n hn := (hs.sessions n hn).trans (h.sessions n hn).symm
  row := hs.row.trans h.row.symm
  key := hs.key.trans h.key.symm
  timer := by rw [hs.timer, h.timer]
  said := ⟨[], [], (List.append_nil _).symm, (List.append_nil _).symm, rfl⟩

theorem Alike.log (hs : s.Alike ρ m N before before' s') (e : Event) :
    (s.log e).Alike ρ m N before before' (s'.log e) :=
  ⟨⟨hs.tokens, hs.nodes, hs.sessions⟩, hs.row, hs.key, hs.timer, hs.said_append rfl⟩

theorem Alike.updateState (hs : s.Alike ρ m N before before' s') (n : NodeId)
    (state : NodeState) : Alike ρ m N before before'
      { s with registry := s.registry.updateState n state }
      { s' with registry := s'.registry.updateState n state } :=
  ⟨⟨hs.tokens, fun n' hn' => NodeRegistry.updateState_congr (hs.nodes n' hn') n state,
    hs.sessions⟩, hs.row, hs.key, hs.timer, hs.said⟩

theorem Alike.mark (hs : s.Alike ρ m N before before' s') (n : NodeId) (state : NodeState) :
    (s.mark n state).Alike ρ m N before before' (s'.mark n state) :=
  (hs.updateState n state).log (.marked n state)

theorem Alike.setKey (hs : s.Alike ρ m N before before' s') (key : Bytes) :
    Alike ρ m N before before'
      { s with crypto := { s.crypto with matchKeys := s.crypto.matchKeys.set m key } }
      { s' with crypto := { s'.crypto with matchKeys := s'.crypto.matchKeys.set m key } } :=
  ⟨⟨hs.tokens, hs.nodes, hs.sessions⟩, hs.row,
    (Dict.set_self ..).trans (Dict.set_self ..).symm, hs.timer, hs.said⟩

theorem Alike.revokeKey (hs : s.Alike ρ m N before before' s') : Alike ρ m N before before'
    { s with crypto := s.crypto.revokeMatchKey m }
    { s' with crypto := s'.crypto.revokeMatchKey m } :=
  ⟨⟨hs.tokens, hs.nodes, hs.sessions⟩, hs.row,
    (Dict.pop_self ..).trans (Dict.pop_self ..).symm, hs.timer, hs.said⟩

theorem Alike.setTimer (hs : s.Alike ρ m N before before' s') (fresh : TaskId) :
    Alike ρ m N before before' { s with timers := s.timers.set m fresh }
      { s' with timers := s'.timers.set m (ρ fresh) } :=
  ⟨⟨hs.tokens, hs.nodes, hs.sessions⟩, hs.row, hs.key,
    (Dict.set_self ..).trans (congrArg (Option.map ρ) (Dict.set_self ..)).symm, hs.said⟩

theorem Alike.popTimer (hs : s.Alike ρ m N before before' s') : Alike ρ m N before before'
    { s with timers := s.timers.pop m } { s' with timers := s'.timers.pop m } :=
  ⟨⟨hs.tokens, hs.nodes, hs.sessions⟩, hs.row, hs.key,
    (Dict.pop_self ..).trans (congrArg (Option.map ρ) (Dict.pop_self ..)).symm, hs.said⟩

theorem Alike.send (hs : s.Alike ρ m N before before' s') {n : NodeId} (hn : n ∈ N)
    (msgType : MsgType) (payload : Json) :
    (s.send n msgType payload = none ∧ s'.send n msgType payload = none) ∨
      ∃ identity, s.send n msgType payload = some (s.log (.sent n identity msgType payload)) ∧
        s'.send n msgType payload = some (s'.log (.sent n identity msgType payload)) := by
  rw [Server.send, Server.send, NodeRegistry.identityFor_congr (hs.nodes n hn)]
  cases s.registry.identityFor n with
  | none => exact .inl ⟨rfl, rfl⟩
  | some identity => exact .inr ⟨identity, rfl, rfl⟩

end Server

/-- Stretches that branch on the same condition are alike if their branches are. -/
theorem Stretch.Alike.branch {c : Prop} [Decidable c] {r₁ r₂ r₁' r₂' : Stretch}
    (h₁ : r₁.Alike ρ m N before before' r₁') (h₂ : r₂.Alike ρ m N before before' r₂') :
    (if c then r₁ else r₂).Alike ρ m N before before' (if c then r₁' else r₂') := by
  by_cases hc : c
  · rw [if_pos hc, if_pos hc]
    exact h₁
  · rw [if_neg hc, if_neg hc]
    exact h₂

namespace MatchManager

theorem alike_finish (hs : s.Alike ρ m N before before' s') (outcome : Outcome) :
    (finish s outcome).Alike ρ m N before before' (finish s' outcome) :=
  ⟨hs, rfl, rfl, rfl, rfl⟩

theorem alike_dbError (hs : s.Alike ρ m N before before' s') :
    (dbError s).Alike ρ m N before before' (dbError s') :=
  ⟨hs, rfl, rfl, rfl, rfl⟩

theorem alike_updateState (hs : s.Alike ρ m N before before' s') (tid tid' : TaskId) (w : World)
    (state : MatchState) (t0 : Option ℚ) (next : Pc) :
    (updateState tid w s m state t0 next).Alike ρ m N before before'
      (updateState tid' w s' m state t0 next) := by
  rw [updateState, updateState]
  refine .branch ⟨⟨⟨hs.tokens, hs.nodes, hs.sessions⟩, ?_, hs.key, hs.timer,
    hs.said_append ?_⟩, rfl, rfl, rfl, rfl⟩ (alike_dbError hs)
  · dsimp only
    rw [MatchStore.updateState_rows, MatchStore.updateState_rows, if_pos rfl, if_pos rfl, hs.row]
  · -- The writes differ in the task that issued them, but a write is no message.
    rw [hs.row]
    split <;> rfl

theorem alike_commit (hs : s.Alike ρ m N before before' s') (w : World) (db : Connection)
    (next : Pc) :
    (commit w s db next).Alike ρ m N before before' (commit w s' db next) := by
  unfold commit
  refine .branch ?_ (alike_dbError hs)
  cases db with
  | matchDb =>
    exact ⟨⟨⟨hs.tokens, hs.nodes, hs.sessions⟩, hs.row, hs.key, hs.timer, hs.said⟩,
      rfl, rfl, rfl, rfl⟩
  | metricsDb => exact ⟨hs, rfl, rfl, rfl, rfl⟩

theorem alike_beginStart (hs : s.Alike ρ m N before before' s') (w : World) (readyTimeout : ℚ) :
    (beginStart w s m readyTimeout).Alike ρ m N before before' (beginStart w s' m readyTimeout) := by
  rw [beginStart, beginStart, MatchStore.get, MatchStore.get, hs.row]
  exact .branch ⟨hs, rfl, rfl, rfl, rfl⟩ (alike_dbError hs)

theorem alike_beginStop (hs : s.Alike ρ m N before before' s') (w : World) :
    (beginStop w s m).Alike ρ m N before before' (beginStop w s' m) := by
  rw [beginStop, beginStop, MatchStore.get, MatchStore.get, hs.row]
  exact .branch ⟨hs, rfl, rfl, rfl, rfl⟩ (alike_dbError hs)

/-! ### start -/

theorem alike_startGate (hs : s.Alike ρ m N before before' s') (tid tid' : TaskId) (w : World)
    (readyTimeout : ℚ) (record : Option MatchRecord) :
    (startGate tid w s m readyTimeout record).Alike ρ m N before before'
      (startGate tid' w s' m readyTimeout record) := by
  cases record with
  | none => exact alike_finish hs _
  | some record =>
    rw [startGate, startGate]
    refine .branch ?_ (alike_finish hs _)
    cases MatchStore.parseAssignments record.configJson with
    | none => exact alike_finish hs _
    | some as => exact alike_updateState hs ..

/-- The poll looks at the registry states of the expected nodes only. -/
theorem alike_missing (hs : s.Alike ρ m N before before' s') {as : List NodeAssignment}
    (has : ∀ na ∈ as, na.nodeId ∈ N) : missing s' as = missing s as := by
  rw [missing, missing]
  refine List.filter_congr fun n hn => ?_
  obtain ⟨na, hna, rfl⟩ := List.mem_map.mp (List.mem_dedup.mp hn)
  rw [NodeRegistry.inState_congr (hs.nodes _ (has na hna))]

theorem alike_poll (hs : s.Alike ρ m N before before' s') (tid tid' : TaskId) (w : World)
    (deadline : ℚ) (record : MatchRecord) {as : List NodeAssignment}
    (has : ∀ na ∈ as, na.nodeId ∈ N) :
    (poll tid w s m deadline record as).Alike ρ m N before before'
      (poll tid' w s' m deadline record as) := by
  rw [poll, poll, alike_missing hs has]
  split
  · exact alike_updateState hs ..
  · split
    · exact alike_updateState hs ..
    · exact ⟨hs, rfl, rfl, rfl, rfl⟩

variable {P : Platform}

/-- **The loop of `_dispatch_start`**, by induction on the assignments that are left. -/
theorem alike_dispatchLoop (hs : s.Alike ρ m N before before' s') (fresh : TaskId) (w : World)
    (t0 : ℚ) (record : MatchRecord) (as : List NodeAssignment) (has : ∀ na ∈ as, na.nodeId ∈ N) :
    ∀ i, (dispatchLoop P fresh w m t0 record i s as).Alike ρ m N before before'
      (dispatchLoop P (ρ fresh) w m t0 record i s' as) := by
  induction as with
  | nil => exact fun i => ⟨hs.setTimer fresh, rfl, rfl, rfl, rfl⟩
  | cons na rest ih =>
    intro i
    have hna := has na List.mem_cons_self
    have ih := ih fun na' hna' => has na' (List.mem_cons_of_mem _ hna')
    have hsession := hs.sessions _ hna
    rw [dispatchLoop, dispatchLoop, CryptoManager.hasSession, CryptoManager.hasSession, hsession]
    by_cases hsome : (s.crypto.sessions na.nodeId).isSome
    · rw [if_pos hsome, if_pos hsome]
      dsimp only
      rw [CryptoManager.encryptSchedule_congr hs.key,
        CryptoManager.encryptMatchKeyForNode_congr hs.key hsession]
      split
      · rename_i encryptedSchedule encryptedMatchKey _ _
        rcases hs.send hna .start
            (startPayload m na.agentname t0 encryptedMatchKey encryptedSchedule) with
          ⟨h, h'⟩ | ⟨identity, h, h'⟩
        · rw [h, h']
          exact ih _
        · rw [h, h']
          exact .branch ⟨hs.log _, rfl, rfl, rfl, rfl⟩ (alike_finish hs _)
      · exact alike_finish hs _
    · rw [if_neg hsome, if_neg hsome]
      exact ih i

theorem alike_dispatchStart (hs : s.Alike ρ m N before before' s') (fresh : TaskId) (w : World)
    (t0 : ℚ) (record : MatchRecord) {as : List NodeAssignment} (has : ∀ na ∈ as, na.nodeId ∈ N) :
    (dispatchStart P fresh w s m t0 record as).Alike ρ m N before before'
      (dispatchStart P (ρ fresh) w s' m t0 record as) := by
  rw [dispatchStart, dispatchStart, CryptoManager.generateMatchKey, CryptoManager.generateMatchKey,
    hs.key]
  cases s.crypto.matchKeys m with
  | some key => exact alike_finish hs _
  | none => exact alike_dispatchLoop (hs.setKey w.key) fresh w t0 record as has 0

/-! ### stop -/

/-- **The loop of `stop`**, by induction on the assignments that are left. -/
theorem alike_stopLoop (hs : s.Alike ρ m N before before' s') (tid tid' : TaskId) (w : World)
    (as : List NodeAssignment) (has : ∀ na ∈ as, na.nodeId ∈ N) :
    (stopLoop tid w m s as).Alike ρ m N before before' (stopLoop tid' w m s' as) := by
  induction as with
  | nil => exact alike_updateState hs.revokeKey tid tid' w .finished none _
  | cons na rest ih =>
    rw [stopLoop, stopLoop]
    rcases hs.send (has na List.mem_cons_self) .stop (stopPayload m) with
      ⟨h, h'⟩ | ⟨identity, h, h'⟩
    · rw [h, h']
      exact ih fun na' hna' => has na' (List.mem_cons_of_mem _ hna')
    · rw [h, h']
      exact .branch ⟨hs.log _, rfl, rfl, rfl, rfl⟩ (alike_finish hs _)

theorem alike_stopGate (hs : s.Alike ρ m N before before' s') (tid tid' : TaskId)
    (kind : TaskKind) (w : World) (record : Option MatchRecord)
    (has : ∀ na ∈ (Pc.stopGet record).targets, na.nodeId ∈ N) :
    (stopGate tid kind w s m record).Alike ρ m N before before'
      (stopGate tid' kind w s' m record) := by
  cases record with
  | none => exact alike_finish hs _
  | some record =>
    rw [stopGate, stopGate]
    refine .branch (alike_finish hs _) ?_
    dsimp only
    cases hparse : MatchStore.parseAssignments record.configJson with
    | none => exact ⟨hs.popTimer, rfl, rfl, hs.timer, rfl⟩
    | some as =>
      have hloop := alike_stopLoop hs.popTimer tid tid' w as (by simpa [Pc.targets, hparse] using has)
      exact ⟨hloop.server, hloop.pc, hloop.suspends, hs.timer, hloop.spawns⟩

/-- **A stretch of an operation on `m`** does the same on servers that agree on `m`. -/
theorem alike_resume (hs : s.Alike ρ m N before before' s') (tid tid' fresh : TaskId)
    {t : ServerTask} (w : World) (hm : t.matchId = m) (hkind : t.pc.OfKind t.kind)
    (hcreate : t.kind ≠ .create) (hdispatch : t.kind ≠ .dispatch)
    (htargets : ∀ na ∈ t.pc.targets, na.nodeId ∈ N) :
    (resume P tid fresh s t w).Alike ρ m N before before'
      (resume P tid' (ρ fresh) s' t w) := by
  obtain ⟨kind, mt, pc, mustCancel⟩ := t
  obtain rfl : mt = m := hm
  cases pc with
  | startCall readyTimeout => exact alike_beginStart hs w readyTimeout
  | stopCall => exact alike_beginStop hs w
  | sleeping delay => exact alike_beginStop hs w
  | startGet readyTimeout record => exact alike_startGate hs tid tid' w readyTimeout record
  | startingWrote readyTimeout record as =>
    exact alike_commit hs w .matchDb (.startingCommit readyTimeout record as)
  | startingCommit readyTimeout record as => exact alike_poll hs tid tid' w _ record htargets
  | polling deadline record as => exact alike_poll hs tid tid' w deadline record htargets
  | runningWrote t0 record as =>
    exact alike_commit hs w .matchDb (.runningCommit t0 record as)
  | runningCommit t0 record as => exact alike_dispatchStart hs fresh w t0 record htargets
  | startSent t0 record na rest =>
    exact alike_dispatchLoop (hs.mark na.nodeId .running) fresh w t0 record rest
      (fun na' hna' => htargets na' (List.mem_cons_of_mem _ hna')) 0
  | stopGet record => exact alike_stopGate hs tid tid' kind w record htargets
  | stopSent na rest =>
    exact alike_stopLoop (hs.mark na.nodeId .ready) tid tid' w rest
      fun na' hna' => htargets na' (List.mem_cons_of_mem _ hna')
  | wrote db outcome => exact alike_commit hs w db _
  | committing outcome => exact alike_finish hs outcome
  | done outcome => exact alike_finish hs outcome
  | createCall config => exact absurd hkind hcreate
  | received frames => exact absurd hkind hdispatch
  | metricsGet n kvs record => exact absurd hkind hdispatch
  | hookGet n kvs record => exact absurd hkind hdispatch

end MatchManager

/-! ### REGISTER -/

namespace Server

variable {P : Primitives}

/-- The registry and session writes of a `REGISTER` of a node of `N`. -/
theorem Alike.register (hs : s.Alike ρ m N before before' s') {n : NodeId} (hn : n ∈ N)
    (identity : Bytes) (hostname ip pk : Json) (priv : Bytes) : Alike ρ m N before before'
      { s with
        registry := (s.registry.register n hostname ip identity).1
        crypto := (s.crypto.establishSession P n pk priv).1 }
      { s' with
        registry := (s'.registry.register n hostname ip identity).1
        crypto := (s'.crypto.establishSession P n pk priv).1 } := by
  refine ⟨⟨?_, fun n' hn' => ?_, fun n' hn' => ?_⟩, hs.row, ?_, hs.timer, hs.said⟩
  · dsimp only
    rw [NodeRegistry.register_allowedTokens, NodeRegistry.register_allowedTokens, hs.tokens]
  · dsimp only
    by_cases h : n' = n
    · rw [h]
      exact (NodeRegistry.register_congr (hs.nodes n hn) hostname ip identity).2
    · rw [NodeRegistry.register_nodes_of_ne _ h, NodeRegistry.register_nodes_of_ne _ h,
        hs.nodes n' hn']
  · dsimp only
    by_cases h : n' = n
    · rw [h]
      exact (CryptoManager.establishSession_congr _ _ n pk priv).2
    · rw [CryptoManager.establishSession_sessions_of_ne _ h,
        CryptoManager.establishSession_sessions_of_ne _ h, hs.sessions n' hn']
  · dsimp only
    rw [CryptoManager.establishSession_matchKeys, CryptoManager.establishSession_matchKeys, hs.key]

theorem Alike.acceptRegister (hs : s.Alike ρ m N before before' s') {n : NodeId} (hn : n ∈ N)
    (identity : Bytes) (hostname ip pk : Json) (priv : Bytes) :
    (s.acceptRegister P identity n hostname ip pk priv).1.Alike ρ m N before before'
        (s'.acceptRegister P identity n hostname ip pk priv).1 ∧
      (s'.acceptRegister P identity n hostname ip pk priv).2
        = (s.acceptRegister P identity n hostname ip pk priv).2 := by
  have hentered := hs.register (P := P) hn identity hostname ip pk priv
  rw [Server.acceptRegister, Server.acceptRegister]
  dsimp only
  rw [NodeRegistry.inState_congr (hs.nodes n hn),
    (NodeRegistry.register_congr (hs.nodes n hn) hostname ip identity).1,
    (CryptoManager.establishSession_congr s.crypto s'.crypto n pk priv).1]
  cases (s.crypto.establishSession P n pk priv).2 with
  | none => exact ⟨hentered, rfl⟩
  | some serverPubkeyB64 =>
    refine ⟨?_, rfl⟩
    dsimp only
    by_cases hrunning : s.registry.inState .running n
    · rw [if_pos hrunning, if_pos hrunning]
      exact hentered.log _
    · rw [if_neg hrunning, if_neg hrunning]
      exact (hentered.updateState n .ready).log _

theorem Alike.handleRegister (hs : s.Alike ρ m N before before' s') {n : NodeId} (hn : n ∈ N)
    {kvs : List (String × Json)} (hname : Json.getD kvs "node_id" (.str "") = .str n)
    (identity : Bytes) (priv : Bytes) :
    (s.handleRegister P identity (.obj kvs) priv).1.Alike ρ m N before before'
        (s'.handleRegister P identity (.obj kvs) priv).1 ∧
      (s'.handleRegister P identity (.obj kvs) priv).2
        = (s.handleRegister P identity (.obj kvs) priv).2 := by
  rw [Server.handleRegister, Server.handleRegister]
  simp only [Json.asObj, hname, NodeRegistry.authenticate_congr hs.tokens]
  by_cases hauth : s.registry.authenticate n (Json.getD kvs "token" (.str ""))
  · rw [if_pos hauth, if_pos hauth]
    split
    · exact hs.acceptRegister hn ..
    · exact ⟨hs.log _, rfl⟩
  · rw [if_neg hauth, if_neg hauth]
    exact ⟨hs.log _, rfl⟩

end Server

namespace MatchManager

variable {P : Platform}

/-- **A `REGISTER` of a node of `N`** does the same on servers that agree on `N`. -/
theorem alike_register (hs : s.Alike ρ m N before before' s') (tid tid' fresh fresh' : TaskId)
    {t : ServerTask} (w : World) {frames : List Frame} {n : NodeId}
    (hpc : t.pc = .received frames) (hframes : registerNode frames = some n) (hn : n ∈ N) :
    (resume P tid fresh s t w).Alike ρ m N before before' (resume P tid' fresh' s' t w) := by
  obtain ⟨⟨identity, payload⟩, hregister, hnode⟩ := Option.bind_eq_some_iff.mp hframes
  obtain ⟨kvs, hpayload, hname⟩ := Option.bind_eq_some_iff.mp hnode
  have hpayload : payload = .obj kvs := by
    cases payload with
    | obj kvs' => rw [Option.some.inj hpayload]
    | _ => cases hpayload
  have hname : Json.getD kvs "node_id" (.str "") = .str n := by
    cases hv : Json.getD kvs "node_id" (.str "") with
    | str n' =>
      rw [hv] at hname
      rw [Option.some.inj hname]
    | _ =>
      rw [hv] at hname
      cases hname
  rw [resume_register tid fresh s w hpc hregister, resume_register tid' fresh' s' w hpc hregister,
    hpayload]
  obtain ⟨hserver, houtcome⟩ := hs.handleRegister (P := P.toPrimitives) hn hname identity w.priv
  rw [houtcome]
  exact alike_finish hserver _

end MatchManager

end
