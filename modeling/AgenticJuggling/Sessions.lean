/-
What the server knows of its nodes and matches, in every run.

* `Sys.keyed_run` — the session of a node and the identity it is addressed
  under come from one registration;
* `Sys.planned_run` — the assignments a `start` works through are those of its
  match's row, which no run changes.
-/
import AgenticJuggling.SoloStop

open Transition

/-! ### The configuration of a match -/

namespace MatchStore

/-- No configuration is lost. -/
structure Keeps (db db' : MatchStore) : Prop where
  config : ∀ m config, db.configOf m = some config → db'.configOf m = some config

theorem keeps_refl (db : MatchStore) : Keeps db db := ⟨fun _ _ h => h⟩

theorem keeps_updateState (db : MatchStore) (m : MatchId) (state : MatchState) (t0 : Option ℚ) :
    Keeps db (db.updateState m state t0) := by
  refine ⟨fun m' config h => ?_⟩
  rw [updateState_configOf]
  exact h

theorem keeps_insert {db db' : MatchStore} {config : MatchConfig}
    (h : db.insert config = some db') : Keeps db db' := by
  obtain ⟨hnone, rfl⟩ := insert_eq_some.mp h
  refine ⟨fun m c hc => ?_⟩
  have hm : m ≠ config.matchId := by
    rintro rfl
    rw [configOf, hnone] at hc
    cases hc
  show ((db.rows.set config.matchId (recordOf config)) m).map (·.configJson) = some c
  rw [Dict.set_of_ne _ hm]
  exact hc

end MatchStore

namespace MatchManager

variable {P : Platform}

open MatchStore

/-- What a stretch that starts at `pc`, of a task of match `m`, can do to the table. -/
inductive RowWrite (m : MatchId) (pc : Pc) (db : MatchStore) : MatchStore → Prop
  | same : RowWrite m pc db db
  | committed : RowWrite m pc db db.commit
  | updated (state : MatchState) (t0 : Option ℚ) (hpc : ¬pc.OfKind .dispatch) :
      RowWrite m pc db (db.updateState m state t0)
  | inserted (config : MatchConfig) (db' : MatchStore) (hpc : pc = .createCall config)
      (hinsert : db.insert config = some db') : RowWrite m pc db db'

theorem rowWrite_update {pc : Pc} (hpc : ¬pc.OfKind .dispatch) (tid : TaskId) (w : World)
    (s : Server) (m : MatchId) (state : MatchState) (t0 : Option ℚ) (next : Pc) :
    RowWrite m pc s.store (updateState tid w s m state t0 next).server.store := by
  unfold updateState
  split
  · exact .updated state t0 hpc
  · exact .same

theorem rowWrite_commit (m : MatchId) (pc : Pc) (w : World) (s : Server) (db : Connection)
    (next : Pc) : RowWrite m pc s.store (commit w s db next).server.store := by
  unfold commit
  split
  · cases db with
    | matchDb => exact .committed
    | metricsDb => exact .same
  · exact .same

theorem rowWrite_startGate {pc : Pc} (tid : TaskId) (w : World) (s : Server) (m : MatchId)
    (readyTimeout : ℚ) (record : Option MatchRecord) (hpc : ¬pc.OfKind .dispatch) :
    RowWrite m pc s.store (startGate tid w s m readyTimeout record).server.store := by
  unfold startGate
  split
  · exact .same
  · split
    · split
      · exact .same
      · exact rowWrite_update hpc ..
    · exact .same

theorem rowWrite_poll {pc : Pc} (tid : TaskId) (w : World) (s : Server) (m : MatchId)
    (deadline : ℚ) (record : MatchRecord) (as : List NodeAssignment)
    (hpc : ¬pc.OfKind .dispatch) :
    RowWrite m pc s.store (poll tid w s m deadline record as).server.store := by
  unfold poll
  split
  · exact rowWrite_update hpc ..
  · split
    · exact rowWrite_update hpc ..
    · exact .same

/-- The loop of `_dispatch_start` writes no row. -/
theorem DispatchStretch.store {fresh : TaskId} {w : World} {m : MatchId} {t0 : ℚ}
    {record : MatchRecord} {s : Server} {as : List NodeAssignment} {r : Stretch}
    (h : DispatchStretch P fresh w m t0 record s as r) : r.server.store = s.store := by
  cases h with
  | ended hskip => rfl
  | sent skipped na rest identity payload has hskip hsent => rfl
  | failed e => rfl

theorem StopStretch.rowWrite {tid : TaskId} {w : World} {m : MatchId} {pc : Pc} {s : Server}
    {as : List NodeAssignment} {r : Stretch} (h : StopStretch tid w m s as r)
    (hpc : ¬pc.OfKind .dispatch) : RowWrite m pc s.store r.server.store := by
  cases h with
  | ended hskip =>
    exact rowWrite_update hpc tid w { s with crypto := s.crypto.revokeMatchKey m } m .finished none _
  | sent skipped na rest identity has hskip hidentity => exact .same
  | failed hreach hok => exact .same

/-- **What one stretch does to the table of matches.** -/
theorem resume_rowWrite (tid fresh : TaskId) (s : Server) (t : ServerTask) (w : World) :
    RowWrite t.matchId t.pc s.store (resume P tid fresh s t w).server.store := by
  have hsame : ∀ {r : Stretch}, r.server.store = s.store →
      RowWrite t.matchId t.pc s.store r.server.store := fun h => h ▸ .same
  obtain ⟨kind, m, pc, mustCancel⟩ := t
  cases pc with
  | createCall config =>
    show RowWrite m _ s.store (beginCreate tid w s config).server.store
    unfold beginCreate
    split
    · split
      · exact .same
      · rename_i hinsert
        exact .inserted config _ rfl hinsert
    · exact .same
  | startCall readyTimeout =>
    exact hsame (congrArg Server.store (beginStart_server w s m readyTimeout))
  | stopCall =>
    exact hsame (congrArg Server.store (beginStop_server w s m))
  | sleeping delay =>
    exact hsame (congrArg Server.store (beginStop_server w s m))
  | received frames => exact hsame (r := dispatch P w s frames) (dispatch_message frames).store
  | startGet readyTimeout record =>
    exact rowWrite_startGate tid w s m readyTimeout record fun h => by cases h
  | startingWrote readyTimeout record as => exact rowWrite_commit ..
  | startingCommit readyTimeout record as =>
    exact rowWrite_poll tid w s m _ record as fun h => by cases h
  | polling deadline record as =>
    exact rowWrite_poll tid w s m deadline record as fun h => by cases h
  | runningWrote t0 record as => exact rowWrite_commit ..
  | runningCommit t0 record as =>
    refine hsame (r := dispatchStart P fresh w s m t0 record as) ?_
    rcases dispatchStart_cases (P := P) fresh w s m t0 record as with h | ⟨-, hloop⟩
    · rw [h]
      rfl
    · exact hloop.store
  | startSent t0 record na rest =>
    exact hsame (r := dispatchLoop P fresh w m t0 record 0 (s.mark na.nodeId .running) rest)
      (dispatchLoop_stretch ..).store
  | stopGet record =>
    show RowWrite m _ s.store (stopGate tid kind w s m record).server.store
    unfold stopGate
    split
    · exact .same
    · split
      · exact .same
      · split
        · exact .same
        · exact (stopLoop_stretch tid w m { s with timers := s.timers.pop m } _).rowWrite
            fun h => by rcases h with h | h <;> cases h
  | stopSent na rest =>
    exact (stopLoop_stretch tid w m (s.mark na.nodeId .ready) rest).rowWrite
      fun h => by rcases h with h | h <;> cases h
  | metricsGet n kvs record =>
    exact hsame (r := ingestMetric P w s n kvs record) (ingestMetric_message n kvs record).store
  | hookGet n kvs record =>
    exact hsame (r := ingestHook P w s n kvs record) (ingestHook_message n kvs record).store
  | wrote db outcome => exact rowWrite_commit ..
  | committing outcome => exact .same
  | done outcome => exact .same

/-- A row is written by the tasks of its match only, unless it is created. -/
theorem RowWrite.row {mt m : MatchId} {pc : Pc} {db db' : MatchStore}
    (h : RowWrite mt pc db db') (hrow : db.rows m ≠ none ∨ ∀ config, pc ≠ .createCall config)
    (hother : mt ≠ m ∨ pc.OfKind .dispatch) : db'.rows m = db.rows m := by
  cases h with
  | same => rfl
  | committed => rfl
  | updated state t0 hpc =>
    rw [updateState_rows, if_neg (hother.resolve_right hpc).symm]
  | inserted config _ hpc hinsert =>
    obtain ⟨hnone, rfl⟩ := insert_eq_some.mp hinsert
    refine Dict.set_of_ne _ ?_ _
    rintro rfl
    rcases hrow with hrow | hcreate
    · exact hrow hnone
    · exact hcreate config hpc

/-- **No stretch changes the configuration of a match.** -/
theorem resume_keeps (tid fresh : TaskId) (s : Server) (t : ServerTask) (w : World) :
    Keeps s.store (resume P tid fresh s t w).server.store := by
  have hwrite := resume_rowWrite (P := P) tid fresh s t w
  generalize (resume P tid fresh s t w).server.store = db at hwrite
  cases hwrite with
  | same => exact keeps_refl _
  | committed => exact ⟨fun _ _ h => h⟩
  | updated state t0 hpc => exact keeps_updateState ..
  | inserted config _ hpc hinsert => exact keeps_insert hinsert

end MatchManager

/-! ### The assignments a `start` works through -/

/-- The assignments of a match, `none` where its row has none. -/
def Server.planOf (s : Server) (m : MatchId) : Option (List NodeAssignment) :=
  (s.store.configOf m).bind MatchStore.parseAssignments

theorem Server.assignments_of_planOf {s : Server} {m : MatchId} {as : List NodeAssignment}
    (h : s.planOf m = some as) : s.assignments m = as := by
  rw [assignments, ← planOf, h]
  rfl

theorem Server.planOf_of_keeps {s s' : Server} (h : s.store.Keeps s'.store) {m : MatchId}
    {as : List NodeAssignment} (has : s.planOf m = some as) : s'.planOf m = some as := by
  obtain ⟨config, hconfig, has⟩ := Option.bind_eq_some_iff.mp has
  rw [planOf, h.config m config hconfig]
  exact has

theorem Server.mem_assignments_of_keeps {s s' : Server} (h : s.store.Keeps s'.store) {m : MatchId}
    {na : NodeAssignment} (hna : na ∈ s.assignments m) : na ∈ s'.assignments m := by
  cases hplan : s.planOf m with
  | none =>
    rw [assignments, ← planOf, hplan] at hna
    exact (List.not_mem_nil hna).elim
  | some as =>
    rw [assignments_of_planOf (planOf_of_keeps h hplan)]
    rwa [assignments_of_planOf hplan] at hna

/-- What a `start` has read of its match's assignments and still needs. -/
def Pc.plan : Pc → Option (List NodeAssignment)
  | .startGet _ record => record.bind fun record => MatchStore.parseAssignments record.configJson
  | .startingWrote _ _ as => some as
  | .startingCommit _ _ as => some as
  | .polling _ _ as => some as
  | .runningWrote _ _ as => some as
  | .runningCommit _ _ as => some as
  | .startSent _ _ na rest => some (na :: rest)
  | _ => none

/-- Whether the task is in the send of a `START`. -/
def Pc.sending : Pc → Bool
  | .startSent _ _ _ _ => true
  | _ => false

namespace MatchManager

variable {P : Platform}

theorem plan_updateState {tid : TaskId} {w : World} {s : Server} {m : MatchId} {state : MatchState}
    {t0 : Option ℚ} {next : Pc} {as : List NodeAssignment}
    (h : (updateState tid w s m state t0 next).pc.plan = some as) : next.plan = some as := by
  rcases updateState_pc tid w s m state t0 next with hpc | hpc
  · rwa [hpc] at h
  · rw [hpc] at h
    cases h

theorem plan_commit {w : World} {s : Server} {db : Connection} {next : Pc}
    {as : List NodeAssignment} (h : (commit w s db next).pc.plan = some as) :
    next.plan = some as := by
  rcases commit_pc w s db next with hpc | hpc
  · rwa [hpc] at h
  · rw [hpc] at h
    cases h

theorem plan_poll {tid : TaskId} {w : World} {s : Server} {m : MatchId} {deadline : ℚ}
    {record : MatchRecord} {as as' : List NodeAssignment}
    (h : (poll tid w s m deadline record as).pc.plan = some as') : as = as' := by
  unfold poll at h
  split at h
  · exact Option.some.inj (plan_updateState h)
  · split at h
    · cases plan_updateState h
    · exact Option.some.inj h

/-- The dispatch loop goes on with what it has not sent yet. -/
theorem DispatchStretch.plan {fresh : TaskId} {w : World} {m : MatchId} {t0 : ℚ}
    {record : MatchRecord} {s : Server} {as as' : List NodeAssignment} {r : Stretch}
    (h : DispatchStretch P fresh w m t0 record s as r) (has' : r.pc.plan = some as') :
    as' <:+ as ∧ r.pc.sending = true := by
  cases h with
  | ended hskip => cases has'
  | sent skipped na rest identity payload has hskip hsent =>
    rw [has, ← Option.some.inj has']
    exact ⟨List.suffix_append _ _, rfl⟩
  | failed e => cases has'

theorem plan_of_kind {k : TaskKind} {pc : Pc} (h : pc.OfKind k) (hk : k ≠ .start) :
    pc.plan = none := by
  cases pc with
  | startGet readyTimeout record => exact absurd h hk
  | startingWrote readyTimeout record as => exact absurd h hk
  | startingCommit readyTimeout record as => exact absurd h hk
  | polling deadline record as => exact absurd h hk
  | runningWrote t0 record as => exact absurd h hk
  | runningCommit t0 record as => exact absurd h hk
  | startSent t0 record na rest => exact absurd h hk
  | _ => rfl

/-- What a stretch of a task goes on with is what it read off the row of its
match, or what it had before; only sends make it less. -/
theorem resume_plan (tid fresh : TaskId) (s : Server) (t : ServerTask) (w : World)
    (hkind : t.pc.OfKind t.kind) {as' : List NodeAssignment}
    (h : (resume P tid fresh s t w).pc.plan = some as') :
    s.planOf t.matchId = some as' ∨ ∃ as, t.pc.plan = some as ∧ as' <:+ as ∧
      ((as' = as ∧ t.pc.sending = false) ∨ (resume P tid fresh s t w).pc.sending = true) := by
  by_cases hk : t.kind = .start
  · obtain ⟨kind, m, pc, mustCancel⟩ := t
    obtain rfl : kind = .start := hk
    -- A plan is read from the row once; from then on it is kept until the loop shortens it.
    have hsame : ∀ {as : List NodeAssignment}, pc.plan = some as → pc.sending = false → as = as' →
        s.planOf m = some as' ∨ ∃ as, pc.plan = some as ∧ as' <:+ as ∧
          ((as' = as ∧ pc.sending = false) ∨
            (resume P tid fresh s ⟨.start, m, pc, mustCancel⟩ w).pc.sending = true) := by
      rintro as has hsending rfl
      exact .inr ⟨as, has, List.suffix_rfl, .inl ⟨rfl, hsending⟩⟩
    cases pc with
    | startCall readyTimeout =>
      have h : (beginStart w s m readyTimeout).pc.plan = some as' := h
      unfold beginStart at h
      split at h
      · refine .inl ?_
        rw [Server.planOf, MatchStore.configOf, Option.bind_map]
        exact h
      · cases h
    | startGet readyTimeout record =>
      have h : (startGate tid w s m readyTimeout record).pc.plan = some as' := h
      cases record with
      | none => cases h
      | some record =>
        rw [startGate] at h
        split at h
        · split at h
          · cases h
          · rename_i as has
            exact hsame has rfl (Option.some.inj (plan_updateState h))
        · cases h
    | startingWrote readyTimeout record as =>
      have h : (commit w s .matchDb (.startingCommit readyTimeout record as)).pc.plan = some as' := h
      exact hsame rfl rfl (Option.some.inj (plan_commit h))
    | startingCommit readyTimeout record as => exact hsame rfl rfl (plan_poll h)
    | polling deadline record as => exact hsame rfl rfl (plan_poll h)
    | runningWrote t0 record as =>
      have h : (commit w s .matchDb (.runningCommit t0 record as)).pc.plan = some as' := h
      exact hsame rfl rfl (Option.some.inj (plan_commit h))
    | runningCommit t0 record as =>
      have hloop : (dispatchStart P fresh w s m t0 record as).pc.plan = some as' → as' <:+ as ∧
          (dispatchStart P fresh w s m t0 record as).pc.sending = true := by
        rcases dispatchStart_cases (P := P) fresh w s m t0 record as with heq | ⟨-, hloop⟩
        · rw [heq]
          exact fun h => by cases h
        · exact hloop.plan
      obtain ⟨hsuffix, hsending⟩ := hloop h
      exact .inr ⟨as, rfl, hsuffix, .inr hsending⟩
    | startSent t0 record na rest =>
      obtain ⟨hsuffix, hsending⟩ :=
        (dispatchLoop_stretch (P := P) fresh w m t0 record _ rest 0).plan h
      exact .inr ⟨na :: rest, rfl, hsuffix.trans (List.suffix_cons na rest), .inr hsending⟩
    | wrote db outcome =>
      have h : (commit w s db (.committing outcome)).pc.plan = some as' := h
      cases plan_commit h
    | committing outcome => cases h
    | done outcome => cases h
    | stopGet record => rcases hkind with h | h <;> cases h
    | stopSent na' rest => rcases hkind with h | h <;> cases h
    | _ => cases hkind
  · rw [plan_of_kind (resume_ofKind tid fresh s t w hkind) hk] at h
    cases h

end MatchManager

namespace Sys

variable {P : Platform}

theorem step_keeps {s s' : Sys} {a : Act} (h : step P s a = some s') :
    s.server.store.Keeps s'.server.store := by
  rcases step_cases h with ⟨c, -, rfl⟩ | ⟨tid, w, t, -, ht, -, rfl⟩
  · exact MatchStore.keeps_refl _
  · rw [apply_server]
    exact MatchManager.resume_keeps ..

/-- The task works on the assignments in the row of its match: on all of them
until it sends, and on a rest of them then. -/
def PlannedTask (s : Server) (t : ServerTask) : Prop :=
  ∀ as, t.pc.plan = some as → ∃ all, s.planOf t.matchId = some all ∧ as <:+ all ∧
    (as = all ∨ t.pc.sending = true)

/-- **Every task works on what the rows say.** -/
def Planned (s : Sys) : Prop := ∀ tid t, s.tasks tid = some t → PlannedTask s.server t

theorem plannedTask_of_pc {s : Server} {t : ServerTask} (h : t.pc.plan = none) :
    PlannedTask s t := by
  intro as has
  rw [h] at has
  cases has

theorem cancelTask_matchId (t : ServerTask) : (cancelTask t).matchId = t.matchId := by
  rw [cancelTask]
  split <;> rfl

theorem Planned.step {s s' : Sys} {a : Act} (hs : s.Planned) (hsound : s.Sound)
    (h : step P s a = some s') : s'.Planned := by
  have hkeeps := step_keeps h
  refine forall_tasks_of_step h (fun c => plannedTask_of_pc (by cases c <;> rfl))
    (fun m delay => plannedTask_of_pc rfl) (fun t ht => ?_) (fun tid t ht as has => ?_)
    fun tid w t _ ht => ?_
  · rcases cancelTask_pc t with hpc | hpc
    · intro as has
      rw [hpc] at has ⊢
      rw [cancelTask_matchId]
      exact ht as has
    · exact plannedTask_of_pc (by rw [hpc]; rfl)
  · obtain ⟨all, hall, hsuffix, hsame⟩ := hs tid t ht as has
    exact ⟨all, Server.planOf_of_keeps hkeeps hall, hsuffix, hsame⟩
  · rcases settle_pc tid t (MatchManager.resume P tid s.next s.server t w) with hpc | hpc
    · intro as' has'
      rw [hpc] at has' ⊢
      rw [settle_matchId]
      rcases MatchManager.resume_plan tid s.next s.server t w (hsound.kind tid t ht) has' with
        hplan | ⟨as, has, hsuffix, hsame⟩
      · exact ⟨as', Server.planOf_of_keeps hkeeps hplan, List.suffix_rfl, .inl rfl⟩
      · obtain ⟨all, hall, hsuffix', hsame'⟩ := hs tid t ht as has
        refine ⟨all, Server.planOf_of_keeps hkeeps hall, hsuffix.trans hsuffix', ?_⟩
        rcases hsame with ⟨rfl, hsending⟩ | hsending
        · rcases hsame' with rfl | hsending'
          · exact .inl rfl
          · rw [hsending'] at hsending
            cases hsending
        · exact .inr hsending
    · exact plannedTask_of_pc (by rw [hpc]; rfl)

theorem planned_run {tokens : Dict NodeId String} {rows : Dict MatchId MatchRecord}
    {metrics : MetricsStore} {acts : List Act} {s : Sys}
    (hrun : run (step P) (boot tokens rows metrics) acts = some s) : s.Planned := by
  have h : s.Sound ∧ s.Planned := by
    refine invariant_of_run (I := fun s => s.Sound ∧ s.Planned)
      (fun _ _ _ hs h => ⟨hs.1.step h, hs.2.step hs.1 h⟩) ⟨sound_boot .., ?_⟩ hrun
    exact fun tid t ht => (by cases ht)
  exact h.2

end Sys

/-! ### Sessions and identities -/

/-- The two ends of a registration agree on `sessionKey`: the node's public key
came in the `REGISTER`, the server's went out in the reply. -/
def Agreed (P : Primitives) (ecdhPubkey reply : Json) (sessionKey : Bytes) : Prop :=
  ∃ b64 raw peer priv isReconnect wasRunning, ecdhPubkey = .str b64 ∧
    Base64.b64decode b64 = some raw ∧ P.fromPublicBytes raw = some peer ∧
    P.sessionKey priv peer = some sessionKey ∧
    reply = Server.registerOk isReconnect wasRunning (Base64.b64encode (P.publicKey priv))

/-- **Every session is that of one registration**, whose identity is the one the
node is addressed under. -/
def Server.Keyed (P : Primitives) (s : Server) : Prop :=
  ∀ n session, s.crypto.sessions n = some session → ∃ identity ecdhPubkey reply,
    .registered n identity ecdhPubkey reply ∈ s.trace ∧
      s.registry.identityFor n = some identity ∧ Agreed P ecdhPubkey reply session.sessionKey

namespace Server

variable {P : Primitives}

/-- Sessions and identities that stay as they are stay accounted for. -/
theorem Keyed.of_kept {s s' : Server} (hs : s.Keyed P)
    (hsessions : s'.crypto.sessions = s.crypto.sessions)
    (hid : ∀ n, s'.registry.identityFor n = s.registry.identityFor n)
    (htrace : ∀ e ∈ s.trace, e ∈ s'.trace) : s'.Keyed P := by
  intro n session h
  rw [hsessions] at h
  obtain ⟨identity, pk, reply, hmem, hidentity, hagreed⟩ := hs n session h
  exact ⟨identity, pk, reply, htrace _ hmem, (hid n).trans hidentity, hagreed⟩

theorem Keyed.acceptRegister {s : Server} (hs : s.Keyed P) (identity : Bytes) (n : NodeId)
    (hostname ip pk : Json) (priv : Bytes) :
    (s.acceptRegister P identity n hostname ip pk priv).1.Keyed P := by
  intro n' session h
  by_cases hn : n' = n
  · subst hn
    rcases s.crypto.establishSession_cases n' pk priv (P := P) with
      ⟨hnone, hsession⟩ | ⟨b64, raw, peer, key, hpk, hraw, hpeer, hkey, hsome, hsession⟩
    · -- A failed exchange leaves the node without a session.
      rcases s.acceptRegister_cases identity n' hostname ip pk priv (P := P) with
        ⟨-, heq⟩ | ⟨b64, hsome, -⟩
      · rw [heq] at h
        exact absurd (h.symm.trans hsession) (Option.some_ne_none _)
      · rw [hnone] at hsome
        cases hsome
    · rcases s.acceptRegister_cases identity n' hostname ip pk priv (P := P) with
        ⟨hnone, -⟩ | ⟨b64', hsome', heq⟩
      · rw [hnone] at hsome
        cases hsome
      · obtain rfl : _ = b64' := Option.some.inj (hsome.symm.trans hsome')
        have hidentity :=
          (s.acceptRegister_frame identity n' hostname ip pk priv (P := P)).2.1
        rw [heq] at h hidentity ⊢
        obtain rfl : (⟨n', key⟩ : NodeSession) = session := Option.some.inj (hsession.symm.trans h)
        have hagreed : ∀ isReconnect wasRunning, Agreed P pk (registerOk isReconnect wasRunning
            (Base64.b64encode (P.publicKey priv))) key := fun isReconnect wasRunning =>
          ⟨b64, raw, peer, priv, isReconnect, wasRunning, hpk, hraw, hpeer, hkey, rfl⟩
        refine ⟨identity, pk, _, ?_, hidentity,
          hagreed (s.registry.register n' hostname ip identity).2 (s.registry.inState .running n')⟩
        rw [log_trace]
        exact List.mem_append_right _ (List.mem_singleton_self _)
  · -- Another node keeps its session and its identity.
    obtain ⟨-, -, hother⟩ := s.acceptRegister_frame identity n hostname ip pk priv (P := P)
    obtain ⟨hnodes, hsessions⟩ := hother n' hn
    obtain ⟨identity', pk', reply, hmem, hid, hagreed⟩ := hs n' session (hsessions.symm.trans h)
    refine ⟨identity', pk', reply, mem_trace_acceptRegister hmem .., ?_, hagreed⟩
    rw [NodeRegistry.identityFor, hnodes]
    exact hid

theorem Keyed.handleRegister {s : Server} (hs : s.Keyed P) (identity : Bytes) (payload : Json)
    (priv : Bytes) : (s.handleRegister P identity payload priv).1.Keyed P := by
  rcases s.handleRegister_cases identity payload priv (P := P) with
    ⟨outcome, h⟩ | ⟨reason, h⟩ | ⟨kvs, n, -, -, -, -, h⟩
  · rw [h]
    exact hs
  · rw [h]
    exact hs.of_kept rfl (fun n => rfl) fun e he => List.mem_append_left _ he
  · rw [h]
    exact hs.acceptRegister identity n _ _ _ priv

end Server

namespace MatchManager

variable {P : Platform}

/-- A stretch handles a registration, or leaves the sessions alone and sets the
state of at most one node. -/
theorem NodeStretch.registry {tid fresh : TaskId} {s : Server} {t : ServerTask} {w : World}
    {r : Stretch} (h : NodeStretch P tid fresh s t w r) :
    (∃ frames identity payload, t.pc = .received frames ∧
        registerOf frames = some (identity, payload) ∧
        r = finish (s.handleRegister P.toPrimitives identity payload w.priv).1
          (s.handleRegister P.toPrimitives identity payload w.priv).2) ∨
      (r.server.crypto.sessions = s.crypto.sessions ∧
        (r.server.registry = s.registry ∨
          ∃ n state, r.server.registry = s.registry.updateState n state)) := by
  cases h with
  | quiet _ hquiet hduty hkind => exact .inr ⟨by rw [hquiet.crypto], .inl hquiet.registry⟩
  | register frames identity payload hpc hframes =>
    exact .inl ⟨frames, identity, payload, hpc, hframes, rfl⟩
  | launch _ t0 record as hpc hready hquiet hr =>
    exact .inr ⟨by rw [hquiet.crypto], .inl hquiet.registry⟩
  | begin _ t0 record as hpc hkey hr =>
    obtain ⟨hreg, hcrypto, -, -⟩ := hr.frame
    exact .inr ⟨by rw [hcrypto], .inl hreg⟩
  | next _ t0 record na rest hpc hr =>
    obtain ⟨hreg, hcrypto, -, -⟩ := hr.frame
    exact .inr ⟨by rw [hcrypto]; rfl, .inr ⟨na.nodeId, .running, hreg⟩⟩
  | stopBegin r record as hpc hstate has hr =>
    obtain ⟨hreg, hsessions, -, -, -⟩ := hr.frame
    exact .inr ⟨hsessions, .inl hreg⟩
  | stopMalformed record hpc => exact .inr ⟨rfl, .inl rfl⟩
  | stopNext _ na rest hpc hr =>
    obtain ⟨hreg, hsessions, -, -, -⟩ := hr.frame
    exact .inr ⟨hsessions, .inr ⟨na.nodeId, .ready, hreg⟩⟩

/-- A stretch handles a registration, or leaves sessions and identities alone. -/
theorem NodeStretch.sessions {tid fresh : TaskId} {s : Server} {t : ServerTask} {w : World}
    {r : Stretch} (h : NodeStretch P tid fresh s t w r) :
    (∃ frames identity payload, t.pc = .received frames ∧
        registerOf frames = some (identity, payload) ∧
        r = finish (s.handleRegister P.toPrimitives identity payload w.priv).1
          (s.handleRegister P.toPrimitives identity payload w.priv).2) ∨
      (r.server.crypto.sessions = s.crypto.sessions ∧
        ∀ n, r.server.registry.identityFor n = s.registry.identityFor n) := by
  refine h.registry.imp_right ?_
  rintro ⟨hsessions, hreg | ⟨n, state, hreg⟩⟩
  · exact ⟨hsessions, fun n' => by rw [hreg]⟩
  · exact ⟨hsessions, fun n' => by rw [hreg, NodeRegistry.updateState_identityFor]⟩

end MatchManager

namespace Sys

variable {P : Platform}

theorem keyed_step {s s' : Sys} {a : Act} (hs : s.server.Keyed P.toPrimitives)
    (h : step P s a = some s') : s'.server.Keyed P.toPrimitives := by
  obtain ⟨⟨es, htrace, -⟩, -⟩ := step_addresses h
  rcases step_cases h with ⟨c, -, rfl⟩ | ⟨tid, w, t, -, ht, -, rfl⟩
  · exact hs
  · rw [apply_server] at htrace ⊢
    rcases (MatchManager.resume_stretch (P := P) tid s.next s.server t w).sessions with
      ⟨frames, identity, payload, -, -, hr⟩ | ⟨hsessions, hid⟩
    · rw [hr]
      exact hs.handleRegister identity payload w.priv
    · refine hs.of_kept hsessions hid fun e he => ?_
      rw [htrace]
      exact List.mem_append_left _ he

theorem keyed_run {tokens : Dict NodeId String} {rows : Dict MatchId MatchRecord}
    {metrics : MetricsStore} {acts : List Act} {s : Sys}
    (hrun : run (step P) (boot tokens rows metrics) acts = some s) :
    s.server.Keyed P.toPrimitives :=
  invariant_of_run (I := fun s => s.server.Keyed P.toPrimitives)
    (fun _ _ _ hs h => keyed_step hs h)
    (fun _ session h => (by cases h)) hrun

end Sys
