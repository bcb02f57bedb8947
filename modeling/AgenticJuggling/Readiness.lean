/-
Which nodes a `start` that returns has reached.

* `Sys.start_serves_all` — every `READY` node has a session and an identity, and
  a `start` that returns has sent every assignment of its match and marked its
  node `RUNNING`, if a `STOP` makes no node `READY` that has no session, and no
  key exchange fails for a node that a `start` past its readiness check has
  still to send to;
* `Sys.start_serves_nobody` — a malformed `REGISTER` in the middle of a match
  leaves a node that is `READY` after it and that no `start` reaches.
-/
import AgenticJuggling.Delivery
import AgenticJuggling.NodeExclusion

open Transition

/-! ### Sessions and readiness -/

namespace Server

variable {P : Primitives}

/-- Every `READY` node has a session. -/
def ReadyKeyed (s : Server) : Prop :=
  ∀ n, s.registry.stateOf n = some .ready → s.crypto.sessions n ≠ none

/-- The node whose session a `REGISTER` drops: it gets past the checks and fails
in the key exchange. -/
def droppedBy (P : Primitives) (s : Server) (frames : List Frame) (priv : Bytes) :
    Option NodeId := do
  let (_, payload) ← MatchManager.registerOf frames
  let kvs ← payload.asObj
  let n ← (Json.getD kvs "node_id" (.str "")).asStr
  if s.registry.authenticate n (Json.getD kvs "token" (.str "")) ∧
      (Json.getD kvs "ecdh_pubkey" (.str "")).truthy ∧
      (s.crypto.establishSession P n (Json.getD kvs "ecdh_pubkey" (.str "")) priv).2 = none
    then some n else none

/-- A `REGISTER` leaves a node as it is, gives it a session, or drops its
session and leaves it `CONNECTED`. -/
theorem handleRegister_session {s : Server} {frames : List Frame} {identity : Bytes}
    {payload : Json} {priv : Bytes}
    (hframes : MatchManager.registerOf frames = some (identity, payload)) (k : NodeId) :
    ((s.handleRegister P identity payload priv).1.registry.stateOf k = s.registry.stateOf k ∧
        (s.handleRegister P identity payload priv).1.crypto.sessions k = s.crypto.sessions k) ∨
      (s.handleRegister P identity payload priv).1.crypto.sessions k ≠ none ∨
      ((s.handleRegister P identity payload priv).1.registry.stateOf k = some .connected ∧
        s.droppedBy P frames priv = some k) := by
  rcases s.handleRegister_cases identity payload priv (P := P) with
    ⟨outcome, heq⟩ | ⟨reason, heq⟩ | ⟨kvs, n, rfl, hn, hauth, htruthy, heq⟩
  · rw [heq]
    exact .inl ⟨rfl, rfl⟩
  · rw [heq]
    exact .inl ⟨rfl, rfl⟩
  · rw [heq]
    rcases s.acceptRegister_cases identity n (Json.getD kvs "hostname" (.str ""))
      (Json.getD kvs "ip" (.str "")) (Json.getD kvs "ecdh_pubkey" (.str "")) priv (P := P) with
      ⟨hnone, heq⟩ | ⟨b64, hsome, heq⟩
    · rw [heq]
      -- The exchange has failed: the node is `CONNECTED` and its session is gone.
      by_cases hk : k = n
      · refine .inr (.inr ⟨?_, ?_⟩)
        · rw [hk]
          exact NodeRegistry.register_stateOf_self ..
        · simp [droppedBy, hframes, Json.asObj, hn, Json.asStr, hauth, htruthy, hnone, hk]
      · exact .inl ⟨NodeRegistry.register_stateOf_of_ne _ hk _ _ _,
          CryptoManager.establishSession_sessions_of_ne _ hk _ _⟩
    · rw [heq]
      -- The exchange has succeeded, so the node has a session.
      by_cases hk : k = n
      · refine .inr (.inl ?_)
        rcases s.crypto.establishSession_cases n (Json.getD kvs "ecdh_pubkey" (.str "")) priv
          (P := P) with ⟨hnone, -⟩ | ⟨-, -, -, key, -, -, -, -, -, hsession⟩
        · rw [hnone] at hsome
          cases hsome
        · rw [hk, log_crypto, hsession]
          exact Option.some_ne_none _
      · refine .inl ⟨?_, CryptoManager.establishSession_sessions_of_ne _ hk _ _⟩
        rw [log_registry]
        dsimp only
        split
        · exact NodeRegistry.register_stateOf_of_ne _ hk _ _ _
        · rw [NodeRegistry.updateState_stateOf_of_ne _ hk]
          exact NodeRegistry.register_stateOf_of_ne _ hk _ _ _

theorem ReadyKeyed.handleRegister {s : Server} (hs : s.ReadyKeyed) {frames : List Frame}
    {identity : Bytes} {payload : Json}
    (hframes : MatchManager.registerOf frames = some (identity, payload)) (priv : Bytes) :
    (s.handleRegister P identity payload priv).1.ReadyKeyed := by
  intro n hn
  rcases s.handleRegister_session hframes n with ⟨hstate, hsession⟩ | hsession | ⟨hstate, -⟩
  · rw [hsession]
    exact hs n (hstate.symm.trans hn)
  · exact hsession
  · rw [hstate] at hn
    cases hn

/-- A session that is there before a `REGISTER` and not after it was dropped. -/
theorem handleRegister_sessions_ne {s : Server} {frames : List Frame} {identity : Bytes}
    {payload : Json} {priv : Bytes}
    (hframes : MatchManager.registerOf frames = some (identity, payload)) {n : NodeId}
    (hn : s.crypto.sessions n ≠ none) (hdrop : s.droppedBy P frames priv ≠ some n) :
    (s.handleRegister P identity payload priv).1.crypto.sessions n ≠ none := by
  rcases s.handleRegister_session hframes n with ⟨-, hsession⟩ | hsession | ⟨-, h⟩
  · rwa [hsession]
  · exact hsession
  · exact absurd h hdrop

end Server

theorem Pc.outcome_eq_some {pc : Pc} {outcome : Outcome} :
    pc.outcome = some outcome ↔ pc = .done outcome := by
  cases pc <;> simp [Pc.outcome]

/-- Whether a task past its readiness check has the `START` of node `n` still to
send. -/
def ServerTask.owes (t : ServerTask) (n : NodeId) : Bool :=
  match t.pc.duty with
  | none => false
  | some d => d.rest.any fun na => na.nodeId = n

theorem ServerTask.owes_of_mem {t : ServerTask} {d : Duty} (hd : t.pc.duty = some d)
    {na : NodeAssignment} (hna : na ∈ d.rest) : t.owes na.nodeId = true := by
  rw [owes, hd]
  exact List.any_eq_true.mpr ⟨na, hna, decide_eq_true rfl⟩

namespace Sys

variable {P : Platform}

open MatchManager

/-- The node that a step marks `READY` after a `STOP`. -/
def stopMarks (s : Sys) : Act → Option NodeId
  | .call _ => none
  | .run tid _ => do
    let t ← s.tasks tid
    match t.pc with
    | .stopSent na _ => some na.nodeId
    | _ => none

/-- The node whose session a step drops. -/
def drops (P : Platform) (s : Sys) : Act → Option NodeId
  | .call _ => none
  | .run tid w => do
    let t ← s.tasks tid
    match t.pc with
    | .received frames => s.server.droppedBy P.toPrimitives frames w.priv
    | _ => none

/-- A `STOP` makes no node `READY` that has no session. -/
def MarkGuard (s : Sys) (a : Act) : Prop :=
  ∀ n ∈ s.stopMarks a, s.server.crypto.hasSession n = true

/-- No key exchange fails for a node that a `start` past its readiness check has
still to send to. -/
def ExchangeGuard (P : Platform) (s : Sys) (a : Act) : Prop :=
  ∀ n ∈ s.drops P a, ∀ tid < s.next, ∀ t ∈ s.tasks tid, t.owes n = false

instance (s : Sys) (a : Act) : Decidable (MarkGuard s a) := by
  unfold MarkGuard
  infer_instance

instance (s : Sys) (a : Act) : Decidable (ExchangeGuard P s a) := by
  unfold ExchangeGuard
  infer_instance

/-- **A step keeps the sessions of the `READY` nodes.** -/
theorem readyKeyed_step {s s' : Sys} {a : Act} (hs : s.server.ReadyKeyed)
    (hmark : MarkGuard s a) (h : step P s a = some s') : s'.server.ReadyKeyed := by
  rcases step_cases h with ⟨c, -, rfl⟩ | ⟨tid, w, t, rfl, ht, -, rfl⟩
  · exact hs
  rw [apply_server]
  have hstretch := resume_stretch (P := P) tid s.next s.server t w
  generalize resume P tid s.next s.server t w = r at hstretch
  have hkept : ∀ {r : Stretch}, r.server.crypto.sessions = s.server.crypto.sessions →
      (∀ n, r.server.registry.stateOf n = some .ready →
        s.server.registry.stateOf n = some .ready ∨ s.server.crypto.sessions n ≠ none) →
      r.server.ReadyKeyed := by
    intro r hsessions hstate n hn
    rw [hsessions]
    rcases hstate n hn with hready | hsession
    · exact hs n hready
    · exact hsession
  cases hstretch with
  | quiet _ hquiet hduty hkind =>
    exact hkept (by rw [hquiet.crypto]) fun n hn => .inl (by rwa [hquiet.registry] at hn)
  | register frames identity payload hpc hframes => exact hs.handleRegister hframes w.priv
  | launch _ t0 record as hpc hready hquiet hr =>
    exact hkept (by rw [hquiet.crypto]) fun n hn => .inl (by rwa [hquiet.registry] at hn)
  | begin _ t0 record as hpc hkey hr =>
    obtain ⟨hreg, hcrypto, -, -⟩ := hr.frame
    exact hkept (by rw [hcrypto]) fun n hn => .inl (by rwa [hreg] at hn)
  | next _ t0 record na rest hpc hr =>
    obtain ⟨hreg, hcrypto, -, -⟩ := hr.frame
    refine hkept (by rw [hcrypto]; rfl) fun n hn => .inl ?_
    rw [hreg] at hn
    exact (stateOf_mark_running hn).2
  | stopBegin r record as hpc hstate has hr =>
    obtain ⟨hreg, hsessions, -, -, -⟩ := hr.frame
    refine hkept hsessions fun n hn => .inl ?_
    have hn : r.server.registry.stateOf n = some .ready := hn
    rwa [hreg] at hn
  | stopMalformed record hpc => exact hkept rfl fun n hn => .inl hn
  | stopNext _ na rest hpc hr =>
    obtain ⟨hreg, hsessions, -, -, -⟩ := hr.frame
    refine hkept hsessions fun n hn => ?_
    rw [hreg, Server.mark_registry] at hn
    by_cases hk : n = na.nodeId
    · -- The mark after the `STOP`.
      have hsession := hmark na.nodeId (by simp [stopMarks, ht, hpc])
      rw [CryptoManager.hasSession, Option.isSome_iff_ne_none] at hsession
      exact .inr (hk ▸ hsession)
    · rw [NodeRegistry.updateState_stateOf_of_ne _ hk] at hn
      exact .inl hn

/-- A step that does not drop the session of a node keeps it. -/
theorem sessions_step {s s' : Sys} {a : Act} (h : step P s a = some s') {n : NodeId}
    (hn : s.server.crypto.sessions n ≠ none) (hdrop : s.drops P a ≠ some n) :
    s'.server.crypto.sessions n ≠ none := by
  rcases step_cases h with ⟨c, -, rfl⟩ | ⟨tid, w, t, rfl, ht, -, rfl⟩
  · exact hn
  · rw [apply_server]
    rcases (resume_stretch (P := P) tid s.next s.server t w).sessions with
      ⟨frames, identity, payload, hpc, hframes, hr⟩ | ⟨hsessions, -⟩
    · rw [hr]
      refine Server.handleRegister_sessions_ne hframes hn ?_
      simpa [drops, ht, hpc] using hdrop
    · rwa [hsessions]

end Sys

/-! ### Where a `start` comes from when it sends or returns -/

/-- Whether a `start` stands behind the loop of `_dispatch_start`: in a send, or
at its regular end. -/
def Pc.pastLoop : Pc → Bool
  | .startSent _ _ _ _ => true
  | .done .returned => true
  | _ => false

namespace MatchManager

variable {P : Platform}

theorem pastLoop_updateState {tid : TaskId} {w : World} {s : Server} {m : MatchId}
    {state : MatchState} {t0 : Option ℚ} {next : Pc}
    (h : (updateState tid w s m state t0 next).pc.pastLoop = true) : next.pastLoop = true := by
  rcases updateState_pc tid w s m state t0 next with hpc | hpc
  · rwa [hpc] at h
  · rw [hpc] at h
    cases h

theorem pastLoop_commit {w : World} {s : Server} {db : Connection} {next : Pc}
    (h : (commit w s db next).pc.pastLoop = true) : next.pastLoop = true := by
  rcases commit_pc w s db next with hpc | hpc
  · rwa [hpc] at h
  · rw [hpc] at h
    cases h

theorem pastLoop_poll {tid : TaskId} {w : World} {s : Server} {m : MatchId} {deadline : ℚ}
    {record : MatchRecord} {as : List NodeAssignment} :
    (poll tid w s m deadline record as).pc.pastLoop ≠ true := by
  unfold poll
  split
  · exact fun h => by cases pastLoop_updateState h
  · split
    · exact fun h => by cases pastLoop_updateState h
    · exact fun h => by cases h

/-- The two stretches that run the loop of `_dispatch_start`, with the server and
the assignments it goes over. -/
inductive Loops (s : Server) (t : ServerTask) (w : World) :
    ℚ → MatchRecord → Server → List NodeAssignment → Prop
  | begin (t0 : ℚ) (record : MatchRecord) (as : List NodeAssignment)
      (hpc : t.pc = .runningCommit t0 record as) :
      Loops s t w t0 record { s with crypto := { s.crypto with
        matchKeys := s.crypto.matchKeys.set t.matchId w.key } } as
  | next (t0 : ℚ) (record : MatchRecord) (na : NodeAssignment) (rest : List NodeAssignment)
      (hpc : t.pc = .startSent t0 record na rest) :
      Loops s t w t0 record (s.mark na.nodeId .running) rest

/-- **A `start` sends, and returns, from the loop of `_dispatch_start` only.** -/
theorem resume_pastLoop (tid fresh : TaskId) (s : Server) (t : ServerTask) (w : World)
    (hkind : t.pc.OfKind .start) (hlive : t.pc.isDone = false)
    (h : (resume P tid fresh s t w).pc.pastLoop = true) :
    ∃ t0 record s₁ as, Loops s t w t0 record s₁ as ∧
      DispatchStretch P fresh w t.matchId t0 record s₁ as (resume P tid fresh s t w) := by
  obtain ⟨kind, m, pc, mustCancel⟩ := t
  cases pc with
  | startCall readyTimeout =>
    have h : (beginStart w s m readyTimeout).pc.pastLoop = true := h
    unfold beginStart at h
    split at h <;> cases h
  | startGet readyTimeout record =>
    have h : (startGate tid w s m readyTimeout record).pc.pastLoop = true := h
    unfold startGate at h
    split at h
    · cases h
    · split at h
      · split at h
        · cases h
        · cases pastLoop_updateState h
      · cases h
  | startingWrote readyTimeout record as =>
    have h : (commit w s .matchDb (.startingCommit readyTimeout record as)).pc.pastLoop = true := h
    cases pastLoop_commit h
  | startingCommit readyTimeout record as => exact absurd h pastLoop_poll
  | polling deadline record as => exact absurd h pastLoop_poll
  | runningWrote t0 record as =>
    have h : (commit w s .matchDb (.runningCommit t0 record as)).pc.pastLoop = true := h
    cases pastLoop_commit h
  | runningCommit t0 record as =>
    refine ⟨t0, record, _, as, .begin t0 record as rfl, ?_⟩
    have h : (dispatchStart P fresh w s m t0 record as).pc.pastLoop = true := h
    show DispatchStretch P fresh w m t0 record _ as (dispatchStart P fresh w s m t0 record as)
    rcases dispatchStart_cases (P := P) fresh w s m t0 record as with heq | ⟨-, hloop⟩
    · rw [heq] at h
      cases h
    · exact hloop
  | startSent t0 record na rest =>
    exact ⟨t0, record, _, rest, .next t0 record na rest rfl, dispatchLoop_stretch ..⟩
  | wrote db outcome =>
    have h : (commit w s db (.committing outcome)).pc.pastLoop = true := h
    cases pastLoop_commit h
  | committing outcome =>
    -- No `start` ends by a commit.
    have hne : outcome ≠ .returned := hkind rfl
    have h : (Pc.done outcome).pastLoop = true := h
    cases outcome with
    | returned => exact absurd rfl hne
    | _ => cases h
  | done outcome => cases hlive
  | stopGet record => rcases hkind with h | h <;> cases h
  | stopSent na rest => rcases hkind with h | h <;> cases h
  | _ => cases hkind

end MatchManager

/-! ### Starts on course -/

/-- The `START` of assignment `na` of match `m` was sent. -/
def StartSent (P : Primitives) (trace : List Event) (m : MatchId) (t0 : ℚ) (na : NodeAssignment) :
    Prop :=
  ∃ identity payload sessionKey, .sent na.nodeId identity .start payload ∈ trace ∧
    Wraps P sessionKey m t0 na payload

/-- The `START` of assignment `na` of match `m` was sent, and its node marked
`RUNNING` behind it. -/
def Served (P : Primitives) (trace : List Event) (m : MatchId) (t0 : ℚ) (na : NodeAssignment) :
    Prop :=
  ∃ pre post, trace = pre ++ post ∧ StartSent P pre m t0 na ∧
    .marked na.nodeId .running ∈ post

theorem StartSent.append {P : Primitives} {trace : List Event} {m : MatchId} {t0 : ℚ}
    {na : NodeAssignment} (h : StartSent P trace m t0 na) (es : List Event) :
    StartSent P (trace ++ es) m t0 na := by
  obtain ⟨identity, payload, sessionKey, hmem, hwraps⟩ := h
  exact ⟨identity, payload, sessionKey, List.mem_append_left _ hmem, hwraps⟩

theorem Served.append {P : Primitives} {trace : List Event} {m : MatchId} {t0 : ℚ}
    {na : NodeAssignment} (h : Served P trace m t0 na) (es : List Event) :
    Served P (trace ++ es) m t0 na := by
  obtain ⟨pre, post, rfl, hsent, hmark⟩ := h
  exact ⟨pre, post ++ es, List.append_assoc .., hsent, List.mem_append_left _ hmark⟩

namespace MatchManager

variable {P : Platform}

/-- The loop of `_dispatch_start` over nodes that have a session and an identity
skips none. -/
theorem DispatchStretch.sends {fresh : TaskId} {w : World} {m : MatchId} {t0 : ℚ}
    {record : MatchRecord} {s : Server} {as : List NodeAssignment} {r : Stretch}
    (h : DispatchStretch P fresh w m t0 record s as r) (hreach : ∀ na ∈ as, ¬ s.Skips na.nodeId) :
    (as = [] ∧ r.pc = .done .returned ∧ r.server.trace = s.trace) ∨
      (∃ na rest, as = na :: rest ∧ r.pc = .startSent t0 record na rest ∧
        StartSent P.toPrimitives r.server.trace m t0 na) ∨
      r.pc.pastLoop = false := by
  cases h with
  | ended hskip =>
    refine .inl ⟨?_, rfl, rfl⟩
    rw [List.eq_nil_iff_forall_not_mem]
    exact fun na hna => hreach na hna (hskip na hna)
  | sent skipped na rest identity payload has hskip hsent =>
    obtain rfl : skipped = [] := by
      rw [List.eq_nil_iff_forall_not_mem]
      exact fun na' hna' => hreach na' (by rw [has]; simp [hna']) (hskip na' hna')
    obtain ⟨session, -, hwraps⟩ := hsent.wraps
    exact .inr (.inl ⟨na, rest, has, rfl, identity, payload, session.sessionKey,
      List.mem_append_right _ (List.mem_singleton_self _), hwraps⟩)
  | failed e => exact .inr (.inr rfl)

/-- What a stretch leaves of a duty is part of what it was, unless the task has
just found all its nodes `READY`. -/
theorem NodeStretch.duty {tid fresh : TaskId} {s : Server} {t : ServerTask} {w : World}
    {r : Stretch} (h : NodeStretch P tid fresh s t w r) {d' : Duty} (hd' : r.pc.duty = some d') :
    (∃ d, t.pc.duty = some d ∧ d'.rest ⊆ d.rest) ∨ missing s d'.rest = [] := by
  have hloop : ∀ {s₁ : Server} {t0 : ℚ} {record : MatchRecord} {as : List NodeAssignment},
      DispatchStretch P fresh w t.matchId t0 record s₁ as r → d'.rest ⊆ as := by
    intro s₁ t0 record as hr
    cases hr with
    | ended hskip => cases hd'
    | sent skipped na rest identity payload has hskip hsent =>
      rw [has, ← Option.some.inj hd']
      exact fun na' hna' => List.mem_append_right _ (List.mem_cons_of_mem _ hna')
    | failed e => cases hd'
  have hstop : ∀ {s₁ : Server} {as : List NodeAssignment} {r : Stretch},
      StopStretch tid w t.matchId s₁ as r → r.pc.duty = none := by
    intro s₁ as r hr
    rcases hr.pc_cases with h | ⟨e, h⟩ | ⟨skipped, na, rest, -, h⟩
    · rw [h]
      rfl
    · rw [h]
      rfl
    · rw [h]
      rfl
  cases h with
  | quiet _ hquiet hduty hkind =>
    rcases hduty with hnone | hsame
    · rw [hnone] at hd'
      cases hd'
    · exact .inl ⟨d', hsame.symm.trans hd', List.Subset.refl _⟩
  | register frames identity payload hpc hframes => cases hd'
  | launch _ t0 record as hpc hready hquiet hr =>
    rw [hr] at hd'
    rw [← Option.some.inj hd']
    exact .inr hready
  | begin _ t0 record as hpc hkey hr => exact .inl ⟨⟨none, as⟩, by rw [hpc]; rfl, hloop hr⟩
  | next _ t0 record na rest hpc hr => exact .inl ⟨⟨some na, rest⟩, by rw [hpc]; rfl, hloop hr⟩
  | stopBegin r record as hpc hstate has hr => cases (hstop hr).symm.trans hd'
  | stopMalformed record hpc => cases hd'
  | stopNext _ na rest hpc hr => cases (hstop hr).symm.trans hd'

end MatchManager

namespace Sys

variable {P : Platform}

open MatchManager

/-- A `start` is on course: the nodes it has still to send to have a session,
the assignments before the send it is in have been served, and all have been
when it returns. -/
structure OnCourse (P : Platform) (s : Server) (t : ServerTask) : Prop where
  keyed : ∀ d, t.pc.duty = some d → ∀ na ∈ d.rest, s.crypto.sessions na.nodeId ≠ none
  sent : ∀ t0 record na rest, t.pc = .startSent t0 record na rest →
    ∃ served, s.planOf t.matchId = some (served ++ na :: rest) ∧
      (∀ na' ∈ served, Served P.toPrimitives s.trace t.matchId t0 na') ∧
      StartSent P.toPrimitives s.trace t.matchId t0 na
  returned : t.kind = .start → t.pc = .done .returned →
    ∃ t0 as, s.planOf t.matchId = some as ∧
      ∀ na ∈ as, Served P.toPrimitives s.trace t.matchId t0 na

/-- A task that neither sends, nor is about to, nor has returned. -/
theorem onCourse_of_pc {s : Server} {t : ServerTask} (hduty : t.pc.duty = none)
    (hloop : t.pc.pastLoop = false) : OnCourse P s t where
  keyed d hd := by
    rw [hduty] at hd
    cases hd
  sent t0 record na rest hpc := by
    rw [hpc] at hloop
    cases hloop
  returned _ hpc := by
    rw [hpc] at hloop
    cases hloop

/-- A task stays on course while others move. -/
theorem OnCourse.kept {s s' : Server} {t : ServerTask} (h : OnCourse P s t)
    (hkeeps : s.store.Keeps s'.store) {es : List Event} (htrace : s'.trace = s.trace ++ es)
    (hsessions : ∀ d, t.pc.duty = some d → ∀ na ∈ d.rest, s.crypto.sessions na.nodeId ≠ none →
      s'.crypto.sessions na.nodeId ≠ none) : OnCourse P s' t where
  keyed d hd na hna := hsessions d hd na hna (h.keyed d hd na hna)
  sent t0 record na rest hpc := by
    obtain ⟨served, hplan, hserved, hsent⟩ := h.sent t0 record na rest hpc
    rw [htrace]
    exact ⟨served, Server.planOf_of_keeps hkeeps hplan, fun na' hna' => (hserved na' hna').append es,
      hsent.append es⟩
  returned hk hpc := by
    obtain ⟨t0, as, hplan, hserved⟩ := h.returned hk hpc
    rw [htrace]
    exact ⟨t0, as, Server.planOf_of_keeps hkeeps hplan, fun na hna => (hserved na hna).append es⟩

/-- Where a loop of `_dispatch_start` goes on, the assignments before it have
been served. -/
theorem OnCourse.loops {s : Server} {t : ServerTask} {w : World} (h : OnCourse P s t)
    (hplanned : PlannedTask s t) {t0 : ℚ} {record : MatchRecord} {s₁ : Server}
    {as : List NodeAssignment} (hl : Loops s t w t0 record s₁ as) :
    s₁.crypto.sessions = s.crypto.sessions ∧
      (∀ n, s₁.registry.identityFor n = s.registry.identityFor n) ∧
      (∀ na ∈ as, s.crypto.sessions na.nodeId ≠ none) ∧
      ∃ served, s.planOf t.matchId = some (served ++ as) ∧
        ∀ na ∈ served, Served P.toPrimitives s₁.trace t.matchId t0 na := by
  cases hl with
  | begin _ hpc =>
    refine ⟨rfl, fun n => rfl, h.keyed ⟨none, as⟩ (by rw [hpc]; rfl), [], ?_,
      fun na hna => (List.not_mem_nil hna).elim⟩
    obtain ⟨all, hall, -, rfl | hsending⟩ := hplanned as (by rw [hpc]; rfl)
    · exact hall
    · rw [hpc] at hsending
      cases hsending
  | next na _ hpc =>
    refine ⟨rfl, fun n => NodeRegistry.updateState_identityFor .., ?_, ?_⟩
    · exact h.keyed ⟨some na, as⟩ (by rw [hpc]; rfl)
    · obtain ⟨served, hplan, hserved, hsent⟩ := h.sent t0 record na as hpc
      refine ⟨served ++ [na], by rw [hplan, List.append_assoc]; rfl, fun na' hna' => ?_⟩
      rw [Server.mark_trace]
      rcases List.mem_append.mp hna' with hold | hnew
      · exact (hserved na' hold).append _
      · rw [List.mem_singleton.mp hnew]
        exact ⟨s.trace, _, rfl, hsent, List.mem_singleton_self _⟩

/-- **A stretch keeps its own task on course.** -/
theorem OnCourse.resume {tid fresh : TaskId} {s : Server} {t : ServerTask} {w : World}
    (h : OnCourse P s t) (hkind : t.pc.OfKind t.kind) (hlive : t.pc.isDone = false)
    (hplanned : PlannedTask s t) (hready : s.ReadyKeyed) (hkeyed : s.Keyed P.toPrimitives) :
    OnCourse P (resume P tid fresh s t w).server
      { t with pc := (resume P tid fresh s t w).pc } := by
  have hkeeps := resume_keeps (P := P) tid fresh s t w
  have hstretch := resume_stretch (P := P) tid fresh s t w
  -- The stretch of a task with a duty is no registration.
  have hsessions : ∀ d, (MatchManager.resume P tid fresh s t w).pc.duty = some d →
      (MatchManager.resume P tid fresh s t w).server.crypto.sessions = s.crypto.sessions := by
    intro d hd
    rcases hstretch.sessions with ⟨frames, identity, payload, -, -, hr⟩ | ⟨hsessions, -⟩
    · rw [hr] at hd
      cases hd
    · exact hsessions
  -- A `start` that is in or behind its loop has served the nodes it has gone through.
  have hloop : t.kind = .start → (MatchManager.resume P tid fresh s t w).pc.pastLoop = true →
      ∃ t0 record as served, s.planOf t.matchId = some (served ++ as) ∧
        (∀ na ∈ served, Served P.toPrimitives
          (MatchManager.resume P tid fresh s t w).server.trace t.matchId t0 na) ∧
        ((as = [] ∧ (MatchManager.resume P tid fresh s t w).pc = .done .returned) ∨
          ∃ na rest, as = na :: rest ∧
            (MatchManager.resume P tid fresh s t w).pc = .startSent t0 record na rest ∧
            StartSent P.toPrimitives (MatchManager.resume P tid fresh s t w).server.trace
              t.matchId t0 na) := by
    intro hk hpast
    obtain ⟨t0, record, s₁, as, hl, hr⟩ := resume_pastLoop tid fresh s t w (hk ▸ hkind) hlive hpast
    obtain ⟨hsess, hid, hall, served, hplan, hserved⟩ := h.loops hplanned hl
    -- Every node has a session, and with it an identity: none is skipped.
    have hreach : ∀ na ∈ as, ¬ s₁.Skips na.nodeId := by
      rintro na hna (hnone | hnone)
      · rw [hsess] at hnone
        exact hall na hna hnone
      · obtain ⟨session, hsession⟩ := Option.ne_none_iff_exists'.mp (hall na hna)
        obtain ⟨identity, -, -, -, hidentity, -⟩ := hkeyed na.nodeId session hsession
        rw [hid, hidentity] at hnone
        cases hnone
    obtain ⟨es, htrace, -⟩ := hr.starts
    refine ⟨t0, record, as, served, hplan, fun na hna => ?_, ?_⟩
    · rw [htrace]
      exact (hserved na hna).append es
    · rcases hr.sends hreach with ⟨has, hpc, -⟩ | hsent | hnot
      · exact .inl ⟨has, hpc⟩
      · exact .inr hsent
      · rw [hnot] at hpast
        cases hpast
  constructor
  · intro d hd na hna
    rw [hsessions d hd]
    rcases hstretch.duty hd with ⟨d₀, hd₀, hsub⟩ | hmissing
    · exact h.keyed d₀ hd₀ na (hsub hna)
    · exact hready _ (ready_of_missing hmissing hna)
  · intro t0 record na rest hpc
    have hpc : (MatchManager.resume P tid fresh s t w).pc = .startSent t0 record na rest := hpc
    have hk : t.kind = .start := by
      have hkind' := resume_ofKind (P := P) tid fresh s t w hkind
      rwa [hpc] at hkind'
    obtain ⟨t0', record', as, served, hplan, hserved, ⟨-, hreturned⟩ | ⟨na', rest', has, hpc', hsent⟩⟩
      := hloop hk (by rw [hpc]; rfl)
    · rw [hpc] at hreturned
      cases hreturned
    · obtain ⟨rfl, -, rfl, rfl⟩ := Pc.startSent.inj (hpc.symm.trans hpc')
      rw [has] at hplan
      exact ⟨served, Server.planOf_of_keeps hkeeps hplan, hserved, hsent⟩
  · intro hk hpc
    have hpc : (MatchManager.resume P tid fresh s t w).pc = .done .returned := hpc
    obtain ⟨t0, record, as, served, hplan, hserved, ⟨rfl, -⟩ | ⟨na, rest, -, hpc', -⟩⟩ :=
      hloop hk (by rw [hpc]; rfl)
    · rw [List.append_nil] at hplan
      exact ⟨t0, served, Server.planOf_of_keeps hkeeps hplan, hserved⟩
    · rw [hpc] at hpc'
      cases hpc'

/-- What a task is on course for is said by its match, its kind and where it
stands; a cancelled task is on course for nothing. -/
theorem OnCourse.of_pc {s : Server} {t u : ServerTask} (h : OnCourse P s t)
    (hkind : u.kind = t.kind) (hmatch : u.matchId = t.matchId)
    (hpc : u.pc = t.pc ∨ u.pc = .done .cancelled) : OnCourse P s u := by
  rcases hpc with hpc | hpc
  · constructor
    · rw [hpc]
      exact h.keyed
    · rw [hpc, hmatch]
      exact h.sent
    · rw [hpc, hmatch, hkind]
      exact h.returned
  · exact onCourse_of_pc (by rw [hpc]; rfl) (by rw [hpc]; rfl)

/-- **A step under the guard keeps every task on course.** -/
theorem onCourse_step {s s' : Sys} {a : Act} (hs : ∀ tid t, s.tasks tid = some t →
      OnCourse P s.server t) (hsound : s.Sound) (hplanned : s.Planned)
    (hready : s.server.ReadyKeyed) (hkeyed : s.server.Keyed P.toPrimitives)
    (hexchange : ExchangeGuard P s a) (h : step P s a = some s') :
    ∀ tid t, s'.tasks tid = some t → OnCourse P s'.server t := by
  obtain ⟨⟨es, htrace, -⟩, -⟩ := step_addresses h
  refine forall_tasks_of_step h (fun c => onCourse_of_pc ?_ ?_)
    (fun m delay => onCourse_of_pc rfl rfl)
    (fun t ht => ht.of_pc (cancelTask_kind t) (cancelTask_matchId t) (cancelTask_pc t))
    (fun tid t ht => ?_) (fun tid w t ha ht => ?_)
  · cases c <;> rfl
  · cases c <;> rfl
  · refine (hs tid t ht).kept (step_keeps h) htrace fun d hd na hna hsession => ?_
    refine sessions_step h hsession fun hdrop => ?_
    have howes := hexchange na.nodeId hdrop tid (hsound.lt_next ht) t ht
    rw [ServerTask.owes_of_mem hd hna] at howes
    cases howes
  · subst ha
    rcases step_cases h with ⟨c, hc, -⟩ | ⟨tid', w', t', ha, ht', hlive, rfl⟩
    · cases hc
    · obtain ⟨rfl, rfl⟩ := Act.run.inj ha
      obtain rfl : t = t' := Option.some.inj (ht.symm.trans ht')
      rw [apply_server]
      exact ((hs tid t ht).resume (hsound.kind tid t ht) hlive (hplanned tid t ht) hready
        hkeyed).of_pc (settle_kind ..) (settle_matchId ..) (settle_pc ..)

/-- **Every `READY` node has a session and an identity, and a `start` that
returns has served every assignment of its match**, in every run in which a
`STOP` makes no node `READY` that has no session and no key exchange fails for a
node that a `start` past its readiness check has still to send to. -/
theorem start_serves_all {tokens : Dict NodeId String} {rows : Dict MatchId MatchRecord}
    {metrics : MetricsStore} {acts : List Act} {s : Sys}
    (hrun : run (step P) (boot tokens rows metrics) acts = some s)
    (hguard : Guarded (step P) (fun s a => MarkGuard s a ∧ ExchangeGuard P s a)
      (boot tokens rows metrics) acts) :
    (∀ n, s.server.registry.stateOf n = some .ready →
      s.server.crypto.sessions n ≠ none ∧ s.server.registry.identityFor n ≠ none) ∧
    ∀ tid t, s.tasks tid = some t → t.kind = .start → t.pc = .done .returned →
      ∃ t0 as, s.server.planOf t.matchId = some as ∧
        ∀ na ∈ as, Served P.toPrimitives s.server.trace t.matchId t0 na := by
  have hkeyed := keyed_run hrun
  have hinv : (s.Sound ∧ s.Planned ∧ s.server.Keyed P.toPrimitives) ∧ s.server.ReadyKeyed ∧
      ∀ tid t, s.tasks tid = some t → OnCourse P s.server t := by
    -- The course of a `start` rests on the keys of the ready nodes, so both go in one induction.
    refine invariant_of_guarded
      (I := fun s => (s.Sound ∧ s.Planned ∧ s.server.Keyed P.toPrimitives) ∧ s.server.ReadyKeyed ∧
        ∀ tid t, s.tasks tid = some t → OnCourse P s.server t) ?_ ?_ hguard hrun
    · rintro s a s' ⟨⟨hsound, hplanned, hkeyed⟩, hready, hcourse⟩ ⟨hmark, hexchange⟩ hstep
      exact ⟨⟨hsound.step hstep, hplanned.step hsound hstep, keyed_step hkeyed hstep⟩,
        readyKeyed_step hready hmark hstep,
        onCourse_step hcourse hsound hplanned hready hkeyed hexchange hstep⟩
    · refine ⟨⟨sound_boot .., planned_run (P := P) (run_nil _), keyed_run (run_nil _)⟩,
        fun n hn => ?_, fun tid t ht => ?_⟩
      · cases hn
      · cases ht
  refine ⟨fun n hn => ⟨hinv.2.1 n hn, ?_⟩, fun tid t ht => (hinv.2.2 tid t ht).returned⟩
  obtain ⟨session, hsession⟩ := Option.ne_none_iff_exists'.mp (hinv.2.1 n hn)
  obtain ⟨identity, -, -, -, hidentity, -⟩ := hkeyed n session hsession
  rw [hidentity]
  exact Option.some_ne_none _

/-- After `Sample.started` the `start` of `m` has returned. -/
theorem start_serves_all_started : ∃ s t t0 as,
    run (step Sample.platform) (Sample.boot [("m", ["n"])]) Sample.started = some s ∧
      s.tasks 1 = some t ∧ t.matchId = "m" ∧ s.server.planOf t.matchId = some as ∧ as ≠ [] ∧
      ∀ na ∈ as, Served Sample.platform.toPrimitives s.server.trace t.matchId t0 na := by
  obtain ⟨s, hs, h⟩ := Option.map_eq_some_iff.mp
    (show (run (step Sample.platform) (Sample.boot [("m", ["n"])]) Sample.started).map
        (fun s => ((s.tasks 1).map fun t => (t.kind, t.matchId, t.pc.outcome),
          (s.server.planOf "m").map List.length))
      = some (some (.start, "m", some .returned), some 1) by decide +kernel)
  obtain ⟨htask, hplan⟩ := Prod.mk.inj h
  obtain ⟨t, ht, htask⟩ := Option.map_eq_some_iff.mp htask
  obtain ⟨hk, htask⟩ := Prod.mk.inj htask
  obtain ⟨hm, hout⟩ := Prod.mk.inj htask
  obtain ⟨t0, as, has, hserved⟩ :=
    (start_serves_all hs (by decide +kernel)).2 1 t ht hk (Pc.outcome_eq_some.mp hout)
  refine ⟨s, t, t0, as, hs, ht, hm, has, ?_, hserved⟩
  rintro rfl
  rw [hm] at has
  rw [has] at hplan
  cases hplan

open Sample in
/-- In the middle of match `m` node `n` registers anew, with a key that is too
short; then `m` is stopped. -/
def sessionLost : List Act :=
  [register "n" [1]] ++ runs 0 1 0 ++ [.call (.start "m" 30)] ++ runs 1 7 5 ++
    [.call (.receive (registerFrames "n" [2] (.str "AAAA")))] ++ runs 3 1 6 ++
    [.call (.stop "m")] ++ runs 4 5 6

open Sample in
/-- Without any two match operations overlapping, node `n` ends up `READY` and
without a session, and the `start` of `m'` returns having sent it nothing. -/
theorem start_serves_nobody : ∃ acts acts' s s',
    run (step Sample.platform) (Sample.boot [("m", ["n"]), ("m'", ["n"])]) acts = some s ∧
      s.server.registry.stateOf "n" = some .ready ∧ s.server.crypto.hasSession "n" = false ∧
      run (step Sample.platform) s acts' = some s' ∧
      (∃ t, s'.tasks 5 = some t ∧ t.kind = .start ∧ t.matchId = "m'" ∧ t.pc = .done .returned) ∧
      "n" ∈ (s'.server.assignments "m'").map (·.nodeId) ∧
      ∀ e ∈ s'.server.trace, e.isSent .start "n" "m'" = false := by
  obtain ⟨s, hs, h⟩ := Option.map_eq_some_iff.mp
    (show (run (step Sample.platform) (Sample.boot [("m", ["n"]), ("m'", ["n"])]) sessionLost).map
        (fun s => (s.server.registry.stateOf "n", s.server.crypto.hasSession "n"))
      = some (some .ready, false) by decide +kernel)
  obtain ⟨s', hs', h'⟩ := Option.map_eq_some_iff.mp
    (show (run (step Sample.platform) (Sample.boot [("m", ["n"]), ("m'", ["n"])])
        (sessionLost ++ ([.call (.start "m'" 30)] ++ runs 5 6 8))).map
        (fun s => ((s.tasks 5).map fun t => (t.kind, t.matchId, t.pc.outcome),
          decide ("n" ∈ (s.server.assignments "m'").map (·.nodeId)),
          s.server.trace.all fun e => !e.isSent .start "n" "m'"))
      = some (some (.start, "m'", some .returned), true, true) by decide +kernel)
  obtain ⟨u, hu, hs'⟩ := run_append_eq_some.mp hs'
  obtain rfl : s = u := Option.some.inj (hs.symm.trans hu)
  obtain ⟨hstate, hsession⟩ := Prod.mk.inj h
  obtain ⟨htask, h'⟩ := Prod.mk.inj h'
  obtain ⟨hassigned, hsilent⟩ := Prod.mk.inj h'
  obtain ⟨t, ht, htask⟩ := Option.map_eq_some_iff.mp htask
  obtain ⟨hk, htask⟩ := Prod.mk.inj htask
  obtain ⟨hm, hout⟩ := Prod.mk.inj htask
  refine ⟨sessionLost, _, s, s', hs, hstate, hsession, hs',
    ⟨t, ht, hk, hm, Pc.outcome_eq_some.mp hout⟩, of_decide_eq_true hassigned, fun e he => ?_⟩
  simpa using List.all_eq_true.mp hsilent e he

end Sys
