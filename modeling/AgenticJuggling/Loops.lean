/-
What one stretch of a send loop does.

A loop that sends to one node after another skips the nodes it cannot reach,
up to the first send that it hands to the socket, and is suspended there.

* `dispatchLoop_stretch` — `_dispatch_start` ends, fails, or sends one `START`;
* `dispatchStart_cases` — it fails at the key, or its loop runs with the key set;
* `stopLoop_stretch` — `stop` goes on to finish the match, fails, or sends one
  `STOP`.
-/
import AgenticJuggling.System

namespace Server

theorem send_eq_some {s s' : Server} {n : NodeId} {msgType : MsgType} {payload : Json} :
    s.send n msgType payload = some s' ↔ ∃ identity, s.registry.identityFor n = some identity ∧
      s' = s.log (.sent n identity msgType payload) := by
  rw [send, Option.map_eq_some_iff]
  simp only [eq_comm]

theorem send_eq_none {s : Server} {n : NodeId} {msgType : MsgType} {payload : Json} :
    s.send n msgType payload = none ↔ s.registry.identityFor n = none := by
  rw [send, Option.map_eq_none_iff]

/-- `_dispatch_start` skips a node without a session or an identity. -/
def Skips (s : Server) (n : NodeId) : Prop :=
  s.crypto.sessions n = none ∨ s.registry.identityFor n = none

end Server

namespace MatchManager

variable {P : Platform}

/-- A commit goes on, or the request fails. -/
theorem commit_pc (w : World) (s : Server) (db : Connection) (next : Pc) :
    (commit w s db next).pc = next ∨ (commit w s db next).pc = .done (.raised .database) := by
  unfold commit
  split
  · cases db with
    | matchDb => exact .inl rfl
    | metricsDb => exact .inl rfl
  · exact .inr rfl

theorem updateState_pc (tid : TaskId) (w : World) (s : Server) (m : MatchId)
    (state : MatchState) (t0 : Option ℚ) (next : Pc) :
    (updateState tid w s m state t0 next).pc = next ∨
      (updateState tid w s m state t0 next).pc = .done (.raised .database) := by
  unfold updateState
  split
  · exact .inl rfl
  · exact .inr rfl

/-- The `SELECT` of a `start` changes nothing. -/
theorem beginStart_server (w : World) (s : Server) (m : MatchId) (readyTimeout : ℚ) :
    (beginStart w s m readyTimeout).server = s := by
  unfold beginStart
  split
  · rfl
  · rfl

theorem beginStop_server (w : World) (s : Server) (m : MatchId) :
    (beginStop w s m).server = s := by
  unfold beginStop
  split
  · rfl
  · rfl

/-- The `START` for assignment `na`, sealed with draws of `w` from `k` on, is
what `_dispatch_start` sends from server `s`. -/
structure Dispatches (P : Platform) (w : World) (m : MatchId) (t0 : ℚ) (s : Server)
    (na : NodeAssignment) (identity : Bytes) (payload : Json) : Prop where
  identity : s.registry.identityFor na.nodeId = some identity
  payload : ∃ k encryptedSchedule encryptedMatchKey,
    s.crypto.encryptSchedule P.toPrimitives m (fun i => w.nonce (k + i)) na.schedule
        = some encryptedSchedule ∧
      s.crypto.encryptMatchKeyForNode P.toPrimitives m na.nodeId
        (w.nonce (k + na.schedule.length)) = some encryptedMatchKey ∧
      payload = startPayload m na.agentname t0 encryptedMatchKey encryptedSchedule

theorem Dispatches.key {w : World} {m : MatchId} {t0 : ℚ} {s : Server} {na : NodeAssignment}
    {identity : Bytes} {payload : Json} (h : Dispatches P w m t0 s na identity payload) :
    s.crypto.matchKeys m ≠ none ∧ s.crypto.sessions na.nodeId ≠ none := by
  obtain ⟨k, -, encryptedMatchKey, -, hkey, -⟩ := h.payload
  obtain ⟨matchKey, hm, hrest⟩ := Option.bind_eq_some_iff.mp hkey
  obtain ⟨session, hs, -⟩ := Option.bind_eq_some_iff.mp hrest
  rw [hm, hs]
  exact ⟨Option.some_ne_none _, Option.some_ne_none _⟩

/-- What a stretch of the loop of `_dispatch_start` over `as` can be. -/
inductive DispatchStretch (P : Platform) (fresh : TaskId) (w : World) (m : MatchId) (t0 : ℚ)
    (record : MatchRecord) (s : Server) (as : List NodeAssignment) : Stretch → Prop
  | ended (hskip : ∀ na ∈ as, s.Skips na.nodeId) :
      DispatchStretch P fresh w m t0 record s as
        { server := { s with timers := s.timers.set m fresh }
          pc := .done .returned, suspends := false, spawns := some record.durationS }
  | sent (skipped : List NodeAssignment) (na : NodeAssignment) (rest : List NodeAssignment)
      (identity : Bytes) (payload : Json) (has : as = skipped ++ na :: rest)
      (hskip : ∀ na' ∈ skipped, s.Skips na'.nodeId)
      (hsent : Dispatches P w m t0 s na identity payload) :
      DispatchStretch P fresh w m t0 record s as
        { server := s.log (.sent na.nodeId identity .start payload)
          pc := .startSent t0 record na rest, suspends := w.suspends }
  | failed (e : Raised) : DispatchStretch P fresh w m t0 record s as (finish s (.raised e))

theorem DispatchStretch.skip {fresh : TaskId} {w : World} {m : MatchId} {t0 : ℚ}
    {record : MatchRecord} {s : Server} {na : NodeAssignment} {as : List NodeAssignment}
    {r : Stretch} (hna : s.Skips na.nodeId) (h : DispatchStretch P fresh w m t0 record s as r) :
    DispatchStretch P fresh w m t0 record s (na :: as) r := by
  cases h with
  | ended hskip => exact .ended (List.forall_mem_cons.mpr ⟨hna, hskip⟩)
  | sent skipped na' rest identity payload has hskip hsent =>
    exact .sent (na :: skipped) na' rest identity payload (by rw [has, List.cons_append])
      (List.forall_mem_cons.mpr ⟨hna, hskip⟩) hsent
  | failed e => exact .failed e

theorem dispatchLoop_stretch (fresh : TaskId) (w : World) (m : MatchId) (t0 : ℚ)
    (record : MatchRecord) (s : Server) (as : List NodeAssignment) : ∀ i : ℕ,
    DispatchStretch P fresh w m t0 record s as (dispatchLoop P fresh w m t0 record i s as) := by
  induction as with
  | nil => exact fun i => .ended fun na h => (List.not_mem_nil h).elim
  | cons na as ih =>
    intro i
    rw [dispatchLoop]
    by_cases hsession : s.crypto.hasSession na.nodeId
    · rw [if_pos hsession]
      dsimp only
      split
      · rename_i encryptedSchedule encryptedMatchKey hschedule hkey
        cases hsend : s.send na.nodeId .start
            (startPayload m na.agentname t0 encryptedMatchKey encryptedSchedule) with
        | none => exact (ih _).skip (.inr (Server.send_eq_none.mp hsend))
        | some s' =>
          obtain ⟨identity, hidentity, rfl⟩ := Server.send_eq_some.mp hsend
          dsimp only
          by_cases hok : w.sendOk
          · rw [if_pos hok]
            exact .sent [] na as identity _ rfl (fun na' h => (List.not_mem_nil h).elim)
              ⟨hidentity, i, encryptedSchedule, encryptedMatchKey, hschedule, hkey, rfl⟩
          · rw [if_neg hok]
            exact .failed .send
      · exact .failed .valueError
    · rw [if_neg hsession]
      refine (ih i).skip (.inl ?_)
      rwa [CryptoManager.hasSession, Option.not_isSome_iff_eq_none] at hsession

/-- `_dispatch_start` finds a key and fails, or sets one and enters its loop. -/
theorem dispatchStart_cases (fresh : TaskId) (w : World) (s : Server) (m : MatchId) (t0 : ℚ)
    (record : MatchRecord) (as : List NodeAssignment) :
    dispatchStart P fresh w s m t0 record as = finish s (.raised .valueError) ∨
      (s.crypto.matchKeys m = none ∧ DispatchStretch P fresh w m t0 record
        { s with crypto := { s.crypto with matchKeys := s.crypto.matchKeys.set m w.key } } as
        (dispatchStart P fresh w s m t0 record as)) := by
  rw [dispatchStart]
  cases hgen : s.crypto.generateMatchKey m w.key with
  | none => exact .inl rfl
  | some crypto =>
    obtain ⟨hnone, rfl⟩ := CryptoManager.generateMatchKey_eq_some.mp hgen
    exact .inr ⟨hnone, dispatchLoop_stretch ..⟩

/-- What a stretch of the loop of `stop` over `as` can be. -/
inductive StopStretch (tid : TaskId) (w : World) (m : MatchId) (s : Server)
    (as : List NodeAssignment) : Stretch → Prop
  | ended (hskip : ∀ na ∈ as, s.registry.identityFor na.nodeId = none) :
      StopStretch tid w m s as
        (updateState tid w { s with crypto := s.crypto.revokeMatchKey m } m .finished none
          (.wrote .matchDb .returned))
  | sent (skipped : List NodeAssignment) (na : NodeAssignment) (rest : List NodeAssignment)
      (identity : Bytes) (has : as = skipped ++ na :: rest)
      (hskip : ∀ na' ∈ skipped, s.registry.identityFor na'.nodeId = none)
      (hidentity : s.registry.identityFor na.nodeId = some identity) :
      StopStretch tid w m s as
        { server := s.log (.sent na.nodeId identity .stop (stopPayload m))
          pc := .stopSent na rest, suspends := w.suspends }
  | failed (hreach : ∃ na ∈ as, s.registry.identityFor na.nodeId ≠ none) (hok : w.sendOk = false) :
      StopStretch tid w m s as (finish s (.raised .send))

theorem StopStretch.skip {tid : TaskId} {w : World} {m : MatchId} {s : Server}
    {na : NodeAssignment} {as : List NodeAssignment} {r : Stretch}
    (hna : s.registry.identityFor na.nodeId = none) (h : StopStretch tid w m s as r) :
    StopStretch tid w m s (na :: as) r := by
  cases h with
  | ended hskip => exact .ended (List.forall_mem_cons.mpr ⟨hna, hskip⟩)
  | sent skipped na' rest identity has hskip hidentity =>
    exact .sent (na :: skipped) na' rest identity (by rw [has, List.cons_append])
      (List.forall_mem_cons.mpr ⟨hna, hskip⟩) hidentity
  | failed hreach hok =>
    obtain ⟨na', hmem, hreach⟩ := hreach
    exact .failed ⟨na', List.mem_cons_of_mem _ hmem, hreach⟩ hok

theorem stopLoop_stretch (tid : TaskId) (w : World) (m : MatchId) (s : Server)
    (as : List NodeAssignment) : StopStretch tid w m s as (stopLoop tid w m s as) := by
  induction as with
  | nil => exact .ended fun na h => (List.not_mem_nil h).elim
  | cons na as ih =>
    rw [stopLoop]
    cases hsend : s.send na.nodeId .stop (stopPayload m) with
    | none => exact ih.skip (Server.send_eq_none.mp hsend)
    | some s' =>
      obtain ⟨identity, hidentity, rfl⟩ := Server.send_eq_some.mp hsend
      dsimp only
      by_cases hok : w.sendOk
      · rw [if_pos hok]
        exact .sent [] na as identity rfl (fun na' h => (List.not_mem_nil h).elim) hidentity
      · rw [if_neg hok]
        refine .failed ⟨na, List.mem_cons_self, ?_⟩ (by simpa using hok)
        rw [hidentity]
        exact Option.some_ne_none _

/-- Where the loop of `stop` leaves its task. -/
theorem StopStretch.pc_cases {tid : TaskId} {w : World} {m : MatchId} {s : Server}
    {as : List NodeAssignment} {r : Stretch} (h : StopStretch tid w m s as r) :
    r.pc = .wrote .matchDb .returned ∨ (∃ e, r.pc = .done (.raised e)) ∨
      ∃ skipped na rest, as = skipped ++ na :: rest ∧ r.pc = .stopSent na rest := by
  cases h with
  | ended hskip =>
    rcases updateState_pc tid w { s with crypto := s.crypto.revokeMatchKey m } m .finished none
      (.wrote .matchDb .returned) with hpc | hpc
    · exact .inl hpc
    · exact .inr (.inl ⟨_, hpc⟩)
  | sent skipped na rest identity has hskip hidentity =>
    exact .inr (.inr ⟨skipped, na, rest, has, rfl⟩)
  | failed hreach hok => exact .inr (.inl ⟨_, rfl⟩)

end MatchManager
