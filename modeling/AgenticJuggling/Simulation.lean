/-
The server refines the life of each of its matches.

`Sys.view s m` is what `s` looks like from match `m`: the shared state of the
match and the phase of each `start` of it.  Every step of the server is a
`Lifecycle.Step` of every view (`step_view`).  The two labels that matter are
tied to the code: a `gate` is the step in which a `start` of `m` reads `LOBBY`
(`readsLobby`), a `close` the one in which a `stop` of `m` issues its update
to `FINISHED` (`aboutToFinish`).
-/
import AgenticJuggling.Lifecycle
import AgenticJuggling.Loops
import AgenticJuggling.MessageSteps

open Lifecycle

/-- What an event is to the match `m`. -/
def Event.happening (m : MatchId) : Event → Option Happening
  | .rowWritten _ matchId state t0 => if matchId = m then some (.wrote state t0) else none
  | .sent nodeId _ .start payload =>
    match payload.get? "match_id", payload.get? "t0" with
    | some (.str matchId), some (.float (.fin t0)) =>
      if matchId = m then some (.started nodeId t0) else none
    | _, _ => none
  | _ => none

/-- What the starts and stops of match `m` share. -/
def Server.shared (s : Server) (m : MatchId) : Shared where
  row := s.store.stateOf m
  t0 := s.store.t0Of m
  key := (s.crypto.matchKeys m).isSome
  history := s.trace.filterMap (Event.happening m)

def Pc.phase : Pc → Phase
  | .startGet _ (some record) => if record.state = .lobby then .gated else .idle
  | .startingWrote _ _ _ => .starting
  | .startingCommit _ _ _ => .starting
  | .polling _ _ _ => .starting
  | .runningWrote t0 _ _ => .launching t0
  | .runningCommit t0 _ _ => .launching t0
  | .startSent t0 _ _ _ => .dispatching t0
  | _ => .idle

/-- How far a task has come with a `start` of match `m`. -/
def ServerTask.phase (t : ServerTask) (m : MatchId) : Phase :=
  if t.matchId = m then t.pc.phase else .idle

def Sys.view (s : Sys) (m : MatchId) : View where
  toShared := s.server.shared m
  phase tid := match s.tasks tid with
    | none => .idle
    | some t => t.phase m

/-- The assignments a `stop` has still to go through. -/
def Pc.stopsLeft : Pc → Option (List NodeAssignment)
  | .stopGet (some record) =>
    if record.state = .finished then none else MatchStore.parseAssignments record.configJson
  | .stopSent _ rest => some rest
  | _ => none

namespace Sys

/-- A `start` of `m` takes its `SELECT` and the row says `LOBBY`. -/
def readsLobby (m : MatchId) (s : Sys) : Act → Bool
  | .call _ => false
  | .run tid _ =>
    match s.tasks tid with
    | none => false
    | some t =>
      match t.pc with
      | .startCall _ => decide (t.matchId = m ∧ s.server.store.stateOf m = some .lobby)
      | _ => false

/-- A `stop` of `m` runs that has no reachable node left to stop. -/
def aboutToFinish (m : MatchId) (s : Sys) : Act → Bool
  | .call _ => false
  | .run tid _ =>
    match s.tasks tid with
    | none => false
    | some t =>
      match t.pc.stopsLeft with
      | none => false
      | some as => decide (t.matchId = m) &&
          as.all fun na => (s.server.registry.identityFor na.nodeId).isNone

end Sys

namespace Server

theorem shared_log (s : Server) (e : Event) (m : MatchId) :
    (s.log e).shared m
      = { s.shared m with history := (s.shared m).history ++ (e.happening m).toList } := by
  rw [shared, log_trace, List.filterMap_append]
  cases h : e.happening m with
  | none => simp [shared, h]
  | some x => simp [shared, h]

@[simp] theorem shared_mark (s : Server) (n : NodeId) (st : NodeState) (m : MatchId) :
    (s.mark n st).shared m = s.shared m := by
  simp [shared, Event.happening]

theorem happening_of_isReply (m : MatchId) {e : Event} (he : e.isReply = true) :
    e.happening m = none := by
  cases e with
  | sent n identity type payload => simp [Event.isReply] at he
  | rowWritten tid matchId state t0 => simp [Event.isReply] at he
  | _ => rfl

/-- A server with the same tables, keys and history has the same shared state. -/
theorem shared_congr {s s' : Server} {m : MatchId} (hrows : s'.store.rows m = s.store.rows m)
    (hkeys : s'.crypto.matchKeys m = s.crypto.matchKeys m)
    (htrace : s'.trace.filterMap (Event.happening m) = s.trace.filterMap (Event.happening m)) :
    s'.shared m = s.shared m := by
  simp only [shared, MatchStore.stateOf, MatchStore.t0Of, hrows, hkeys, htrace]

theorem handleRegister_shared (P : Primitives) (s : Server) (identity : Bytes) (payload : Json)
    (serverPrivate : Bytes) (m : MatchId) :
    (s.handleRegister P identity payload serverPrivate).1.shared m = s.shared m := by
  have hframe := s.handleRegister_frame identity payload serverPrivate (P := P)
  obtain ⟨es, htrace, hes⟩ := hframe.trace
  refine shared_congr (congrFun (congrArg MatchStore.rows hframe.store) m)
    (congrFun hframe.matchKeys m) ?_
  -- a reply is no happening of any match
  have hreply : es.filterMap (Event.happening m) = [] := by
    rw [List.filterMap_eq_nil_iff]
    intro e he
    exact happening_of_isReply m (hes e he)
  rw [htrace, List.filterMap_append, hreply, List.append_nil]

end Server

namespace MatchManager

variable {P : Platform}

/-! ### What the requests and loops change -/

theorem updateState_cases (tid : TaskId) (w : World) (s : Server) (m : MatchId)
    (state : MatchState) (t0 : Option ℚ) (next : Pc) :
    (updateState tid w s m state t0 next = dbError s) ∨
      (w.dbOk = true ∧ (updateState tid w s m state t0 next).pc = next ∧
        ∀ m', (updateState tid w s m state t0 next).server.shared m'
          = if m' = m then (s.shared m).write state t0 else s.shared m') := by
  rw [updateState]
  by_cases hok : w.dbOk
  · refine .inr ⟨hok, by rw [if_pos hok], fun m' => ?_⟩
    rw [if_pos hok]
    dsimp only
    by_cases hm : m' = m
    · subst hm
      rw [if_pos rfl]
      cases hrow : s.store.rows m' with
      | none =>
        have hnone : (s.shared m').row = none := by
          simp [Server.shared, MatchStore.stateOf, hrow]
        rw [Shared.write_of_none hnone]
        exact Server.shared_congr
          (by simp [MatchStore.updateState_rows, hrow]) rfl (by simp)
      | some row =>
        have hsome : (s.shared m').row = some row.state := by
          simp [Server.shared, MatchStore.stateOf, hrow]
        rw [Shared.write_of_row hsome]
        simp [Server.shared, MatchStore.stateOf, MatchStore.t0Of, MatchStore.updateState_rows,
          hrow, Event.happening]
    · rw [if_neg hm]
      refine Server.shared_congr ?_ rfl ?_
      · rw [MatchStore.updateState_rows, if_neg hm]
      · split
        · simp [Event.happening, Ne.symm hm]
        · simp
  · exact .inl (if_neg hok)

theorem commit_cases (w : World) (s : Server) (db : Connection) (next : Pc) :
    commit w s db next = dbError s ∨
      ((commit w s db next).pc = next ∧
        ∀ m, (commit w s db next).server.shared m = s.shared m) := by
  unfold commit
  by_cases hok : w.dbOk
  · rw [if_pos hok]
    cases db with
    | matchDb => exact .inr ⟨rfl, fun m => rfl⟩
    | metricsDb => exact .inr ⟨rfl, fun m => rfl⟩
  · exact .inl (if_neg hok)

/-- The shared state of a match whose own `stop` is at work. -/
inductive Stopping (c : Shared) : Shared → Prop
  | same : Stopping c c
  | revoked : Stopping c { c with key := false }
  | closed : Stopping c c.close

theorem stopPayload_shared (s : Server) (n : NodeId) (identity : Bytes) (m m' : MatchId) :
    (s.log (.sent n identity .stop (stopPayload m))).shared m' = s.shared m' := by
  rw [Server.shared_log]
  exact congrArg (fun h => { s.shared m' with history := h }) (List.append_nil _)

theorem stopLoop_shared (tid : TaskId) (w : World) (m : MatchId) (s : Server)
    (as : List NodeAssignment) :
    (stopLoop tid w m s as).pc.phase = .idle ∧
      (∀ m', m' ≠ m → (stopLoop tid w m s as).server.shared m' = s.shared m') ∧
      Stopping (s.shared m) ((stopLoop tid w m s as).server.shared m) ∧
      ((∃ na ∈ as, s.registry.identityFor na.nodeId ≠ none) →
        (stopLoop tid w m s as).server.shared m = s.shared m) := by
  have hstretch := stopLoop_stretch tid w m s as
  generalize stopLoop tid w m s as = r at hstretch
  cases hstretch with
  | ended hskip =>
    have hno : ¬ ∃ na ∈ as, s.registry.identityFor na.nodeId ≠ none :=
      fun ⟨na, hna, hid⟩ => hid (hskip na hna)
    set s0 : Server := { s with crypto := s.crypto.revokeMatchKey m } with hs0
    have hother : ∀ m', m' ≠ m → s0.shared m' = s.shared m' := fun m' hm =>
      Server.shared_congr rfl (by rw [hs0]; exact Dict.pop_of_ne _ hm) rfl
    have hself : s0.shared m = { s.shared m with key := false } := by
      simp [hs0, Server.shared]
    rcases updateState_cases tid w s0 m .finished none (.wrote .matchDb .returned) with h | h
    · rw [h]
      refine ⟨rfl, hother, ?_, fun h => absurd h hno⟩
      show Stopping _ (s0.shared m)
      rw [hself]
      exact .revoked
    · obtain ⟨-, hpc, hshared⟩ := h
      refine ⟨by rw [hpc]; rfl, fun m' hm => ?_, ?_, fun h => absurd h hno⟩
      · rw [hshared, if_neg hm]
        exact hother m' hm
      · rw [hshared, if_pos rfl, hself]
        exact .closed
  | sent skipped na rest identity has hskip hidentity =>
    have hlog := stopPayload_shared s na.nodeId identity m
    refine ⟨rfl, fun m' _ => hlog m', ?_, fun _ => hlog m⟩
    show Stopping _ (Server.shared _ m)
    rw [hlog]
    exact .same
  | failed hreach hok => exact ⟨rfl, fun _ _ => rfl, .same, fun _ => rfl⟩

theorem startPayload_happening (m m' : MatchId) (n : NodeId) (identity : Bytes) (agentname : String)
    (t0 : ℚ) (key : String) (schedule : List Json) :
    (Event.sent n identity .start (startPayload m agentname t0 key schedule)).happening m'
      = if m = m' then some (.started n t0) else none := by
  simp [Event.happening, startPayload, Json.lookup]

theorem Dispatches.happening {w : World} {m : MatchId} {t0 : ℚ} {s : Server}
    {na : NodeAssignment} {identity : Bytes} {payload : Json}
    (h : Dispatches P w m t0 s na identity payload) (m' : MatchId) :
    (Event.sent na.nodeId identity .start payload).happening m'
      = if m = m' then some (.started na.nodeId t0) else none := by
  obtain ⟨k, encryptedSchedule, encryptedMatchKey, -, -, rfl⟩ := h.payload
  exact startPayload_happening ..

/-- `_dispatch_start` sends at most one `START` before it suspends or ends, and
none without a key. -/
theorem dispatchLoop_shared (fresh : TaskId) (w : World) (m : MatchId) (t0 : ℚ)
    (record : MatchRecord) (as : List NodeAssignment) (i : ℕ) (s : Server) :
    ((dispatchLoop P fresh w m t0 record i s as).pc.phase = .idle ∨
        (dispatchLoop P fresh w m t0 record i s as).pc.phase = .dispatching t0) ∧
      (∀ m', m' ≠ m → (dispatchLoop P fresh w m t0 record i s as).server.shared m' = s.shared m') ∧
      ∃ hs, AtMostOne t0 hs ∧ (hs ≠ [] → (s.shared m).key = true) ∧
        (dispatchLoop P fresh w m t0 record i s as).server.shared m
          = { s.shared m with history := (s.shared m).history ++ hs } := by
  have hstretch := dispatchLoop_stretch (P := P) fresh w m t0 record s as i
  generalize dispatchLoop P fresh w m t0 record i s as = r at hstretch
  have hsame : ∀ {c : Shared}, c = s.shared m →
      ∃ hs, AtMostOne t0 hs ∧ (hs ≠ [] → (s.shared m).key = true) ∧
        c = { s.shared m with history := (s.shared m).history ++ hs } :=
    fun hc => ⟨[], .inl rfl, fun h => absurd rfl h, by rw [hc, List.append_nil]⟩
  cases hstretch with
  | ended hskip => exact ⟨.inl rfl, fun _ _ => rfl, hsame rfl⟩
  | sent skipped na rest identity payload has hskip hsent =>
    refine ⟨.inr rfl, fun m' hm => ?_, [.started na.nodeId t0], .inr ⟨_, rfl⟩, fun _ => ?_, ?_⟩
    · rw [Server.shared_log, hsent.happening, if_neg (Ne.symm hm)]
      exact congrArg (fun h => { s.shared m' with history := h }) (List.append_nil _)
    · exact Option.isSome_iff_ne_none.mpr hsent.key.1
    · rw [Server.shared_log, hsent.happening, if_pos rfl]
      rfl
  | failed e => exact ⟨.inl rfl, fun _ _ => rfl, hsame rfl⟩

/-! ### One stretch is one abstract step -/

/-- What a stretch of a task on match `mt` does to the view of `m`. -/
def Effect (m mt : MatchId) (tid : TaskId) (v : View) (r : Stretch) (l : Label) : Prop :=
  ∃ u, Core v l u ∧ Drops u
    ((v.put (r.server.shared m)).enter tid (if mt = m then r.pc.phase else .idle))

/-- A stretch that leaves the shared state alone, and its task where it was or
out of the race. -/
theorem effect_stay {m mt : MatchId} {tid : TaskId} {v : View} {r : Stretch}
    (hshared : r.server.shared m = v.toShared)
    (hphase : mt = m → r.pc.phase = .idle ∨ r.pc.phase = v.phase tid) :
    Effect m mt tid v r .stay := by
  refine ⟨v, .stay, hshared, fun tid' => ?_⟩
  rw [View.enter_phase, View.put_phase]
  by_cases ht : tid' = tid
  · rw [if_pos ht, ht]
    by_cases hm : mt = m
    · rw [if_pos hm]
      exact (hphase hm).symm
    · rw [if_neg hm]
      exact .inr rfl
  · rw [if_neg ht]
    exact .inl rfl

/-- A stretch that moves its task from phase to phase. -/
theorem effect_enter {m : MatchId} {tid : TaskId} {v : View} {r : Stretch} {l : Label}
    {c : Shared} {p : Phase} (hcore : Core v l ((v.put c).enter tid p))
    (hshared : r.server.shared m = c) (hphase : r.pc.phase = p) : Effect m m tid v r l := by
  refine ⟨_, hcore, ?_⟩
  rw [hshared, hphase, if_pos rfl]
  exact Drops.refl _

/-- A stretch that changes the shared state and ends out of the race. -/
theorem effect_put {m mt : MatchId} {tid : TaskId} {v : View} {r : Stretch} {l : Label}
    {c : Shared} (hcore : Core v l (v.put c)) (hshared : r.server.shared m = c)
    (hphase : mt = m → r.pc.phase = .idle) : Effect m mt tid v r l := by
  refine ⟨_, hcore, ?_⟩
  have hidle : (if mt = m then r.pc.phase else Phase.idle) = .idle := by
    by_cases hm : mt = m
    · rw [if_pos hm, hphase hm]
    · rw [if_neg hm]
  rw [hshared, hidle]
  exact Drops.enter_idle _ _

section Effects

variable {m mt : MatchId} {tid : TaskId} {v : View} {s : Server}

theorem effect_finish (hv : v.toShared = s.shared m) (outcome : Outcome) :
    Effect m mt tid v (finish s outcome) .stay :=
  effect_stay hv.symm fun _ => .inl rfl

theorem effect_dbError (hv : v.toShared = s.shared m) : Effect m mt tid v (dbError s) .stay :=
  effect_stay hv.symm fun _ => .inl rfl

/-- A commit ends no phase. -/
theorem effect_commit (hv : v.toShared = s.shared m) (w : World) (db : Connection) {next : Pc}
    (hphase : mt = m → next.phase = .idle ∨ next.phase = v.phase tid) :
    Effect m mt tid v (commit w s db next) .stay := by
  rcases commit_cases w s db next with h | ⟨hpc, hshared⟩
  · rw [h]
    exact effect_dbError hv
  · refine effect_stay ((hshared m).trans hv.symm) fun hm => ?_
    rw [hpc]
    exact hphase hm

/-- An update of the row by a `start` on its way. -/
theorem effect_update (hv : v.toShared = s.shared m) (w : World) {state : MatchState}
    {t0 : Option ℚ} {next : Pc} {l : Label} (hl : l ≠ .gate ∧ l ≠ .close)
    (hcore : mt = m → Core v l ((v.put (v.write state t0)).enter tid next.phase)) :
    ∃ l, Effect m mt tid v (updateState tid w s mt state t0 next) l ∧ l ≠ .gate ∧ l ≠ .close := by
  rcases updateState_cases tid w s mt state t0 next with h | ⟨-, hpc, hshared⟩
  · rw [h]
    exact ⟨.stay, effect_dbError hv, by simp⟩
  · by_cases hm : mt = m
    · subst hm
      refine ⟨l, effect_enter (hcore rfl) ?_ (congrArg Pc.phase hpc), hl⟩
      rw [hshared, if_pos rfl, hv]
    · refine ⟨.stay, effect_stay ?_ fun h => absurd h hm, by simp⟩
      rw [hshared, if_neg (Ne.symm hm), hv]

theorem effect_startGate (hv : v.toShared = s.shared m) (w : World) (readyTimeout : ℚ)
    (record : Option MatchRecord)
    (hp : mt = m → v.phase tid = (Pc.startGet readyTimeout record).phase) :
    ∃ l, Effect m mt tid v (startGate tid w s mt readyTimeout record) l ∧
      l ≠ .gate ∧ l ≠ .close := by
  cases record with
  | none => exact ⟨.stay, effect_finish hv _, by simp⟩
  | some record =>
    rw [startGate]
    by_cases hlobby : record.state = .lobby
    · rw [if_pos hlobby]
      cases MatchStore.parseAssignments record.configJson with
      | none => exact ⟨.stay, effect_finish hv _, by simp⟩
      | some as =>
        refine effect_update (l := .claim) hv w (by simp) fun hm => Core.claim tid ?_
        rw [hp hm, Pc.phase, if_pos hlobby]
    · rw [if_neg hlobby]
      exact ⟨.stay, effect_finish hv _, by simp⟩

theorem effect_poll (hv : v.toShared = s.shared m) (w : World) (deadline : ℚ)
    (record : MatchRecord) (as : List NodeAssignment) (hp : mt = m → v.phase tid = .starting) :
    ∃ l, Effect m mt tid v (poll tid w s mt deadline record as) l ∧ l ≠ .gate ∧ l ≠ .close := by
  rw [poll]
  split
  · exact effect_update (l := .launch) hv w (by simp) fun hm => Core.launch tid w.wall (hp hm)
  · split
    · exact effect_update (l := .rollback) hv w (by simp) fun hm => Core.rollback tid (hp hm)
    · exact ⟨.stay, effect_stay hv.symm fun hm => .inr (hp hm).symm, by simp⟩

theorem effect_dispatchLoop (hv : v.toShared = s.shared m) (fresh : TaskId) (w : World) (t0 : ℚ)
    (record : MatchRecord) (as : List NodeAssignment) (i : ℕ)
    (hp : mt = m → v.phase tid = .dispatching t0) :
    ∃ l, Effect m mt tid v (dispatchLoop P fresh w mt t0 record i s as) l ∧
      l ≠ .gate ∧ l ≠ .close := by
  obtain ⟨hphase, hother, hs, hone, hkey, hself⟩ :=
    dispatchLoop_shared (P := P) fresh w mt t0 record as i s
  by_cases hm : mt = m
  · subst hm
    refine ⟨.send, ⟨_, Core.send tid t0 hs (hp rfl) hone (by rw [hv]; exact hkey), ?_, ?_⟩,
      by simp⟩
    · rw [View.enter_toShared, View.put_toShared, hself, hv]
      rfl
    · intro tid'
      rw [View.enter_phase]
      by_cases ht : tid' = tid
      · rw [if_pos ht, if_pos rfl, ht]
        rcases hphase with h | h
        · exact .inr h
        · exact .inl (h.trans (hp rfl).symm)
      · exact .inl (if_neg ht)
  · exact ⟨.stay, effect_stay ((hother m (Ne.symm hm)).trans hv.symm) fun h => absurd h hm,
      by simp⟩

theorem effect_dispatchStart (hv : v.toShared = s.shared m) (fresh : TaskId) (w : World) (t0 : ℚ)
    (record : MatchRecord) (as : List NodeAssignment)
    (hp : mt = m → v.phase tid = .launching t0) :
    ∃ l, Effect m mt tid v (dispatchStart P fresh w s mt t0 record as) l ∧
      l ≠ .gate ∧ l ≠ .close := by
  rw [dispatchStart]
  cases hgen : s.crypto.generateMatchKey mt w.key with
  | none => exact ⟨.stay, effect_finish hv _, by simp⟩
  | some crypto =>
    obtain ⟨hnone, rfl⟩ := CryptoManager.generateMatchKey_eq_some.mp hgen
    obtain ⟨hphase, hother, hs, hone, -, hself⟩ := dispatchLoop_shared (P := P) fresh w mt t0
      record as 0 { s with crypto := { s.crypto with matchKeys := s.crypto.matchKeys.set mt w.key } }
    by_cases hm : mt = m
    · subst hm
      refine ⟨.dispatch, ⟨_, Core.dispatch tid t0 hs (hp rfl) ?_ hone, ?_, ?_⟩, by simp⟩
      · rw [hv, Server.shared, hnone]
        rfl
      · dsimp only
        rw [View.enter_toShared, View.put_toShared, hself, hv]
        simp [Server.shared]
      · intro tid'
        rw [View.enter_phase, View.enter_phase]
        by_cases ht : tid' = tid
        · rw [if_pos ht, if_pos rfl, if_pos ht]
          exact hphase.symm
        · rw [if_neg ht, if_neg ht]
          exact .inl rfl
    · refine ⟨.stay, effect_stay ?_ fun h => absurd h hm, by simp⟩
      dsimp only
      rw [hother m (Ne.symm hm), hv]
      exact Server.shared_congr rfl (Dict.set_of_ne _ (Ne.symm hm) _) rfl

variable (mt tid) in
/-- A `stop` closes the match only when it has no reachable node left. -/
theorem effect_stopLoop (hv : v.toShared = s.shared m) (w : World) (as : List NodeAssignment) :
    ∃ l, Effect m mt tid v (stopLoop tid w mt s as) l ∧ l ≠ .gate ∧
      (l = .close → mt = m ∧ ∀ na ∈ as, s.registry.identityFor na.nodeId = none) := by
  obtain ⟨hphase, hother, hself, hreach⟩ := stopLoop_shared tid w mt s as
  by_cases hm : mt = m
  · subst hm
    by_cases hid : ∃ na ∈ as, s.registry.identityFor na.nodeId ≠ none
    · exact ⟨.stay, effect_stay ((hreach hid).trans hv.symm) fun _ => .inl hphase, by simp⟩
    · push Not at hid
      rw [← hv] at hself
      generalize hc : (stopLoop tid w mt s as).server.shared mt = c at hself
      cases hself with
      | same => exact ⟨.stay, effect_stay hc fun _ => .inl hphase, by simp⟩
      | revoked => exact ⟨.revoke, effect_put .revoke hc fun _ => hphase, by simp⟩
      | closed => exact ⟨.close, effect_put .close hc fun _ => hphase, by simp, fun _ => ⟨rfl, hid⟩⟩
  · exact ⟨.stay, effect_stay ((hother m (Ne.symm hm)).trans hv.symm) fun h => absurd h hm,
      by simp⟩

variable (mt tid) in
theorem effect_stopGate (hv : v.toShared = s.shared m) (kind : TaskKind) (w : World)
    (record : Option MatchRecord) :
    ∃ l, Effect m mt tid v (stopGate tid kind w s mt record) l ∧ l ≠ .gate ∧
      (l = .close → mt = m ∧ ∃ as, (Pc.stopGet record).stopsLeft = some as ∧
        ∀ na ∈ as, s.registry.identityFor na.nodeId = none) := by
  cases record with
  | none => exact ⟨.stay, effect_finish hv _, by simp⟩
  | some record =>
    rw [stopGate]
    by_cases hfin : record.state = .finished
    · rw [if_pos hfin]
      exact ⟨.stay, effect_finish hv _, by simp⟩
    · rw [if_neg hfin, Pc.stopsLeft, if_neg hfin]
      have hpop : v.toShared = Server.shared { s with timers := s.timers.pop mt } m := hv
      cases MatchStore.parseAssignments record.configJson with
      | none => exact ⟨.stay, effect_stay hv.symm fun _ => .inl rfl, by simp⟩
      | some as =>
        obtain ⟨l, heff, hgate, hclose⟩ := effect_stopLoop mt tid hpop w as
        exact ⟨l, heff, hgate, fun h => ⟨(hclose h).1, as, rfl, (hclose h).2⟩⟩

/-- A message changes nothing that the starts and stops share. -/
theorem effect_message (hv : v.toShared = s.shared m) {w : World} {pc : Pc} {r : Stretch}
    (h : MessageStretch P s w pc r) : Effect m mt tid v r .stay := by
  cases h with
  | ended outcome => exact effect_finish hv outcome
  | failed => exact effect_dbError hv
  | register frames identity payload hframes =>
    exact effect_stay ((s.handleRegister_shared _ _ _ _ m).trans hv.symm) fun _ => .inl rfl
  | readMetrics frames n kvs hreport hn hnode => exact effect_stay hv.symm fun _ => .inl rfl
  | readHook frames n kvs hreport hn hnode => exact effect_stay hv.symm fun _ => .inl rfl
  | metric n kvs record row ht0 hrow => exact effect_stay hv.symm fun _ => .inl rfl
  | hook n kvs record event ht0 hevent => exact effect_stay hv.symm fun _ => .inl rfl

theorem effect_beginCreate (hv : v.toShared = s.shared m) (w : World) (config : MatchConfig) :
    ∃ l, Effect m mt tid v (beginCreate tid w s config) l ∧ l ≠ .gate ∧ l ≠ .close := by
  unfold beginCreate
  split
  · split
    · exact ⟨.stay, effect_stay hv.symm fun _ => .inl rfl, by simp⟩
    · rename_i store hins
      obtain ⟨hnone, rfl⟩ := MatchStore.insert_eq_some.mp hins
      by_cases hm : config.matchId = m
      · subst hm
        have hrow : v.row = none := by
          rw [hv, Server.shared, MatchStore.stateOf, hnone]
          rfl
        refine ⟨.insert, effect_put (.insert hrow) ?_ fun _ => rfl, by simp⟩
        rw [hv]
        simp [Server.shared, MatchStore.stateOf, MatchStore.t0Of, MatchStore.recordOf,
          Event.happening]
      · refine ⟨.stay, effect_stay ?_ fun _ => .inl rfl, by simp⟩
        rw [hv]
        refine Server.shared_congr (Dict.set_of_ne _ (Ne.symm hm) _) rfl ?_
        simp [Event.happening, hm]
  · exact ⟨.stay, effect_dbError hv, by simp⟩

end Effects

theorem effect_beginStart {m : MatchId} {v : View} {s : Server} (mt : MatchId) (tid : TaskId)
    (hv : v.toShared = s.shared m) (w : World) (readyTimeout : ℚ) :
    ∃ l, Effect m mt tid v (beginStart w s mt readyTimeout) l ∧ l ≠ .close ∧
      (l = .gate → mt = m ∧ s.store.stateOf m = some .lobby) := by
  rw [beginStart]
  by_cases hok : w.dbOk
  · rw [if_pos hok]
    by_cases hm : mt = m
    · subst hm
      cases hrow : s.store.get mt with
      | none => exact ⟨.stay, effect_stay hv.symm fun _ => .inl rfl, by simp⟩
      | some record =>
        by_cases hlobby : record.state = .lobby
        · have hstate : s.store.stateOf mt = some .lobby := by
            rw [MatchStore.stateOf, show s.store.rows mt = some record from hrow, ← hlobby]
            rfl
          have hrow : v.row = some .lobby := by
            rw [hv]
            exact hstate
          exact ⟨.gate, effect_enter (c := v.toShared) (.gate tid hrow) hv.symm (if_pos hlobby),
            by simp, fun _ => ⟨rfl, hstate⟩⟩
        · exact ⟨.stay, effect_stay hv.symm fun _ => .inl (if_neg hlobby), by simp⟩
    · exact ⟨.stay, effect_stay hv.symm fun h => absurd h hm, by simp⟩
  · rw [if_neg hok]
    exact ⟨.stay, effect_dbError hv, by simp⟩

theorem effect_beginStop {m mt : MatchId} {tid : TaskId} {v : View} {s : Server}
    (hv : v.toShared = s.shared m) (w : World) : Effect m mt tid v (beginStop w s mt) .stay := by
  rw [beginStop]
  by_cases hok : w.dbOk
  · rw [if_pos hok]
    exact effect_stay hv.symm fun _ => .inl rfl
  · rw [if_neg hok]
    exact effect_dbError hv

/-- A stretch passes the gate only where the `SELECT` of a `start` reads
`LOBBY`, and closes only where a `stop` has no reachable node left. -/
theorem effect_resume {m : MatchId} {tid : TaskId} {v : View} {s : Server}
    (hv : v.toShared = s.shared m) (fresh : TaskId) (t : ServerTask) (w : World)
    (hphase : v.phase tid = t.phase m) :
    ∃ l, Effect m t.matchId tid v (resume P tid fresh s t w) l ∧
      (l = .gate → t.matchId = m ∧ (∃ readyTimeout, t.pc = .startCall readyTimeout) ∧
        s.store.stateOf m = some .lobby) ∧
      (l = .close → t.matchId = m ∧ ∃ as, t.pc.stopsLeft = some as ∧
        ∀ na ∈ as, s.registry.identityFor na.nodeId = none) := by
  have hp : t.matchId = m → v.phase tid = t.pc.phase := fun hm => by
    rw [hphase, ServerTask.phase, if_pos hm]
  -- Only at the gate and at the close is there something to say of the state before.
  have hquiet : ∀ {r : Stretch}, (∃ l, Effect m t.matchId tid v r l ∧ l ≠ .gate ∧ l ≠ .close) →
      ∃ l, Effect m t.matchId tid v r l ∧
        (l = .gate → t.matchId = m ∧ (∃ readyTimeout, t.pc = .startCall readyTimeout) ∧
          s.store.stateOf m = some .lobby) ∧
        (l = .close → t.matchId = m ∧ ∃ as, t.pc.stopsLeft = some as ∧
          ∀ na ∈ as, s.registry.identityFor na.nodeId = none) :=
    fun ⟨l, heff, hgate, hclose⟩ => ⟨l, heff, fun h => absurd h hgate, fun h => absurd h hclose⟩
  have hstay : ∀ {r : Stretch}, Effect m t.matchId tid v r .stay →
      ∃ l, Effect m t.matchId tid v r l ∧ l ≠ .gate ∧ l ≠ .close :=
    fun heff => ⟨.stay, heff, by simp⟩
  obtain ⟨kind, mt, pc, mustCancel⟩ := t
  cases pc with
  | createCall config => exact hquiet (effect_beginCreate hv w config)
  | startCall readyTimeout =>
    obtain ⟨l, heff, hclose, hgate⟩ := effect_beginStart mt tid hv w readyTimeout
    exact ⟨l, heff, fun h => ⟨(hgate h).1, ⟨_, rfl⟩, (hgate h).2⟩, fun h => absurd h hclose⟩
  | stopCall => exact hquiet (hstay (effect_beginStop hv w))
  | received frames => exact hquiet (hstay (effect_message hv (dispatch_message frames)))
  | startGet readyTimeout record => exact hquiet (effect_startGate hv w readyTimeout record hp)
  | startingWrote readyTimeout record as =>
    exact hquiet (hstay (effect_commit hv w _ fun hm => .inr (hp hm).symm))
  | startingCommit readyTimeout record as => exact hquiet (effect_poll hv w _ record as hp)
  | polling deadline record as => exact hquiet (effect_poll hv w deadline record as hp)
  | runningWrote t0 record as =>
    exact hquiet (hstay (effect_commit hv w _ fun hm => .inr (hp hm).symm))
  | runningCommit t0 record as => exact hquiet (effect_dispatchStart hv fresh w t0 record as hp)
  | startSent t0 record na rest =>
    exact hquiet (effect_dispatchLoop (hv.trans (s.shared_mark _ _ m).symm) fresh w t0 record rest
      0 hp)
  | sleeping delay => exact hquiet (hstay (effect_beginStop hv w))
  | stopGet record =>
    obtain ⟨l, heff, hgate, hclose⟩ := effect_stopGate mt tid hv kind w record
    exact ⟨l, heff, fun h => absurd h hgate, hclose⟩
  | stopSent na rest =>
    obtain ⟨l, heff, hgate, hclose⟩ := effect_stopLoop mt tid
      (hv.trans (s.shared_mark na.nodeId .ready m).symm) w rest
    refine ⟨l, heff, fun h => absurd h hgate, fun h => ⟨(hclose h).1, rest, rfl, ?_⟩⟩
    simpa using (hclose h).2
  | metricsGet nodeId kvs record =>
    exact hquiet (hstay (effect_message hv (ingestMetric_message nodeId kvs record)))
  | hookGet nodeId kvs record =>
    exact hquiet (hstay (effect_message hv (ingestHook_message nodeId kvs record)))
  | wrote db outcome => exact hquiet (hstay (effect_commit hv w db fun _ => .inl rfl))
  | committing outcome => exact hquiet (hstay (effect_finish hv outcome))
  | done outcome => exact hquiet (hstay (effect_finish hv outcome))

end MatchManager

namespace Sys

variable {P : Platform}

theorem settle_phase (tid : TaskId) (t : ServerTask) (r : Stretch) (m : MatchId) :
    (settle tid t r).phase m = (if t.matchId = m then r.pc.phase else .idle) ∨
      (settle tid t r).phase m = .idle := by
  rw [settle]
  split
  · refine .inr ?_
    rw [ServerTask.phase]
    split <;> rfl
  · exact .inl rfl

theorem cancelTask_phase (t : ServerTask) (m : MatchId) :
    (cancelTask t).phase m = t.phase m ∨ (cancelTask t).phase m = .idle := by
  rw [cancelTask]
  split
  · exact .inl rfl
  · refine .inr ?_
    rw [ServerTask.phase]
    split <;> rfl

theorem autoStopTask_phase (m m' : MatchId) (delay : ℚ) :
    (autoStopTask m delay).phase m' = .idle := by
  rw [ServerTask.phase]
  split <;> rfl

theorem view_apply (s : Sys) (m : MatchId) (tid : TaskId) (t : ServerTask) (r : Stretch) :
    Drops (((s.view m).put (r.server.shared m)).enter tid
      (if t.matchId = m then r.pc.phase else .idle)) ((s.apply tid t r).view m) := by
  refine ⟨?_, fun tid' => ?_⟩
  · rw [view, apply_server]
    rfl
  · rw [View.enter_phase, View.put_phase]
    cases h : (s.apply tid t r).tasks tid' with
    | none => exact .inr (by simp only [view, h])
    | some t' =>
      have hview : ((s.apply tid t r).view m).phase tid' = t'.phase m := by
        simp only [view, h]
      rw [hview]
      rcases apply_tasks h with ⟨rfl, rfl⟩ | ⟨-, delay, -, rfl⟩ | ⟨hne, u, hu, h⟩
      · rw [if_pos rfl]
        exact settle_phase _ _ _ _
      · exact .inr (autoStopTask_phase _ _ _)
      · have hold : (s.view m).phase tid' = u.phase m := by
          simp only [view, hu]
        rw [if_neg hne, hold]
        rcases h with rfl | ⟨-, rfl⟩
        · exact .inl rfl
        · exact cancelTask_phase u m

theorem call_phase (c : Call) (m : MatchId) : c.task.phase m = .idle := by
  rw [ServerTask.phase]
  cases c <;> · split <;> rfl

/-- **Every step of the server is a step of every match.** -/
theorem step_view {s s' : Sys} {a : Act} (m : MatchId) (h : step P s a = some s') :
    ∃ l, Lifecycle.Step l (s.view m) (s'.view m) ∧ (l = .gate → s.readsLobby m a = true) ∧
      (l = .close → s.aboutToFinish m a = true) := by
  rcases step_cases h with ⟨c, rfl, rfl⟩ | ⟨tid, w, t, rfl, ht, -, rfl⟩
  · refine ⟨.stay, ⟨s.view m, .stay, rfl, fun tid' => ?_⟩, by simp, by simp⟩
    by_cases hn : tid' = s.next
    · refine .inr ?_
      rw [hn]
      simp only [view, Dict.set_self]
      exact call_phase c m
    · refine .inl ?_
      simp only [view, Dict.set_of_ne _ hn]
  · have hphase : (s.view m).phase tid = t.phase m := by
      simp only [view, ht]
    obtain ⟨l, ⟨u, hcore, hdrops⟩, hgate, hclose⟩ := MatchManager.effect_resume (P := P)
      (v := s.view m) (s := s.server) rfl s.next t w hphase
    refine ⟨l, ⟨u, hcore, hdrops.trans (view_apply s m tid t _)⟩, fun h => ?_, fun h => ?_⟩
    · obtain ⟨hm, ⟨readyTimeout, hpc⟩, hlobby⟩ := hgate h
      simp [readsLobby, ht, hpc, hm, hlobby]
    · obtain ⟨hm, as, hleft, hnone⟩ := hclose h
      simpa [aboutToFinish, ht, hleft, hm] using hnone

end Sys
