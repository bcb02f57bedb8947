/-
What the tasks of other matches and nodes leave alone.

A task of a match works on the nodes that its match's row assigns to it, and a
`REGISTER` on the node it names.  So the steps of matches with other nodes, and
of other nodes' `REGISTER`s, change nothing of a match and of its nodes.

* `Confined.step` — every task works on nodes of its match, and the timer of a
  match is a task of that match;
* `resume_sameSlice` — a stretch on other nodes, of another match or of a
  message, leaves the match and its nodes alone.
-/
import AgenticJuggling.MatchFrame
import AgenticJuggling.Reconnect

open Transition

/-- The nodes that match `m` is assigned. -/
def Server.nodesOf (s : Server) (m : MatchId) : List NodeId :=
  (s.assignments m).map (·.nodeId)

/-- The node a `REGISTER` names. -/
def registerNode (frames : List Frame) : Option NodeId :=
  (MatchManager.registerOf frames).bind fun register =>
    register.2.asObj.bind fun kvs => (Json.getD kvs "node_id" (.str "")).asStr

/-- The node a match operation's message is sent to. -/
def Event.recipient : Event → Option NodeId
  | .sent n _ _ _ => some n
  | _ => none

/-! ### The nodes a task works on -/

/-- The assignments a `start` or `stop` still works through. -/
def Pc.targets : Pc → List NodeAssignment
  | .stopGet record =>
    (record.bind fun record => MatchStore.parseAssignments record.configJson).getD []
  | .stopSent na rest => na :: rest
  | pc => pc.plan.getD []

theorem Pc.targets_of_start {pc : Pc} (h : pc.OfKind .start) : pc.targets = pc.plan.getD [] := by
  cases pc with
  | stopGet record => rcases h with h | h <;> cases h
  | stopSent na rest => rcases h with h | h <;> cases h
  | _ => rfl

/-- A task that is no `start` and no `stop` works on no assignments. -/
theorem Pc.targets_eq_nil {k : TaskKind} {pc : Pc} (h : pc.OfKind k) (hstart : k ≠ .start)
    (hstop : k ≠ .stop) (hauto : k ≠ .autoStop) : pc.targets = [] := by
  cases pc with
  | stopGet record => rcases h with h | h <;> contradiction
  | stopSent na rest => rcases h with h | h <;> contradiction
  | startGet readyTimeout record => exact absurd h hstart
  | startingWrote readyTimeout record as => exact absurd h hstart
  | startingCommit readyTimeout record as => exact absurd h hstart
  | polling deadline record as => exact absurd h hstart
  | runningWrote t0 record as => exact absurd h hstart
  | runningCommit t0 record as => exact absurd h hstart
  | startSent t0 record na rest => exact absurd h hstart
  | _ => rfl

namespace MatchManager

variable {P : Platform}

theorem targets_commit (w : World) (s : Server) (db : Connection) (outcome : Outcome) :
    (commit w s db (.committing outcome)).pc.targets = [] := by
  rcases commit_pc w s db (.committing outcome) with h | h
  · rw [h]
    rfl
  · rw [h]
    rfl

theorem mem_targets_beginStop {w : World} {s : Server} {m : MatchId} {na : NodeAssignment}
    (h : na ∈ (beginStop w s m).pc.targets) : na ∈ s.assignments m := by
  unfold beginStop at h
  split at h
  · rw [Server.assignments, MatchStore.configOf, Option.bind_map]
    exact h
  · exact (List.not_mem_nil h).elim

theorem StopStretch.mem_targets {tid : TaskId} {w : World} {m : MatchId} {s : Server}
    {as : List NodeAssignment} {r : Stretch} (hr : StopStretch tid w m s as r)
    {na : NodeAssignment} (h : na ∈ r.pc.targets) : na ∈ as := by
  rcases hr.pc_cases with hpc | ⟨e, hpc⟩ | ⟨skipped, na', rest, has, hpc⟩
  · rw [hpc] at h
    exact (List.not_mem_nil h).elim
  · rw [hpc] at h
    exact (List.not_mem_nil h).elim
  · rw [hpc] at h
    rw [has]
    exact List.mem_append_right _ h

/-- **A task goes on with nodes it had before, or that its match's row assigns.** -/
theorem resume_mem_targets (tid fresh : TaskId) (s : Server) (t : ServerTask) (w : World)
    (hkind : t.pc.OfKind t.kind) {na : NodeAssignment}
    (h : na ∈ (resume P tid fresh s t w).pc.targets) :
    na ∈ s.assignments t.matchId ∨ na ∈ t.pc.targets := by
  have hkind' := resume_ofKind (P := P) tid fresh s t w hkind
  by_cases hstart : t.kind = .start
  · rw [hstart] at hkind hkind'
    rw [Pc.targets_of_start hkind'] at h
    rw [Pc.targets_of_start hkind]
    cases hplan : (resume P tid fresh s t w).pc.plan with
    | none =>
      rw [hplan] at h
      exact (List.not_mem_nil h).elim
    | some as' =>
      rw [hplan] at h
      rcases resume_plan tid fresh s t w (hstart ▸ hkind) hplan with hrow | ⟨as, has, hsuffix, -⟩
      · exact .inl (Server.assignments_of_planOf hrow ▸ h)
      · rw [has]
        exact .inr (hsuffix.subset h)
  · by_cases hother : t.kind ≠ .stop ∧ t.kind ≠ .autoStop
    · rw [Pc.targets_eq_nil hkind' hstart hother.1 hother.2] at h
      exact (List.not_mem_nil h).elim
    · -- The coroutine of a `stop`, which an auto-stop task enters after its sleep.
      obtain ⟨kind, m, pc, mustCancel⟩ := t
      have hne : ∀ k, k ≠ TaskKind.stop → k ≠ .autoStop → kind ≠ k := by
        rintro k hs ha rfl
        exact hother ⟨hs, ha⟩
      cases pc with
      | stopCall => exact .inl (mem_targets_beginStop h)
      | sleeping delay => exact .inl (mem_targets_beginStop h)
      | stopGet record =>
        have h : na ∈ (stopGate tid kind w s m record).pc.targets := h
        refine .inr ?_
        cases record with
        | none => exact (List.not_mem_nil h).elim
        | some record =>
          rw [stopGate] at h
          split at h
          · exact (List.not_mem_nil h).elim
          · cases has : MatchStore.parseAssignments record.configJson with
            | none =>
              rw [has] at h
              exact (List.not_mem_nil h).elim
            | some as =>
              rw [has] at h
              have hmem := (stopLoop_stretch tid w m { s with timers := s.timers.pop m }
                as).mem_targets h
              simpa [Pc.targets, has] using hmem
      | stopSent na' rest =>
        exact .inr (List.mem_cons_of_mem _ ((stopLoop_stretch tid w m _ rest).mem_targets h))
      | wrote db outcome =>
        have h : na ∈ (commit w s db (.committing outcome)).pc.targets := h
        rw [targets_commit] at h
        exact (List.not_mem_nil h).elim
      | committing outcome => exact (List.not_mem_nil h).elim
      | done outcome => exact (List.not_mem_nil h).elim
      | createCall config => exact absurd hkind (hne _ (by decide) (by decide))
      | received frames => exact absurd hkind (hne _ (by decide) (by decide))
      | metricsGet n kvs record => exact absurd hkind (hne _ (by decide) (by decide))
      | hookGet n kvs record => exact absurd hkind (hne _ (by decide) (by decide))
      | _ => exact absurd hkind hstart

end MatchManager

/-! ### Stretches on other nodes -/

/-- The registry and the sessions of the nodes `N` are the same, and so is the
allowlist. -/
structure Server.SameNodes (N : List NodeId) (s s' : Server) : Prop where
  tokens : s'.registry.allowedTokens = s.registry.allowedTokens
  nodes : ∀ n ∈ N, s'.registry.nodes n = s.registry.nodes n
  sessions : ∀ n ∈ N, s'.crypto.sessions n = s.crypto.sessions n

theorem Server.SameNodes.of_eq {N : List NodeId} {s s' : Server}
    (hregistry : s'.registry = s.registry) (hsessions : s'.crypto.sessions = s.crypto.sessions) :
    s.SameNodes N s' :=
  ⟨by rw [hregistry], fun n _ => by rw [hregistry], fun n _ => by rw [hsessions]⟩

theorem Server.SameNodes.of_updateState {N : List NodeId} {s s' : Server} {n : NodeId}
    {state : NodeState} (hn : n ∉ N) (hregistry : s'.registry = s.registry.updateState n state)
    (hsessions : s'.crypto.sessions = s.crypto.sessions) : s.SameNodes N s' := by
  refine ⟨by rw [hregistry, NodeRegistry.updateState_allowedTokens], fun n' hn' => ?_,
    fun n' _ => by rw [hsessions]⟩
  rw [hregistry]
  refine Dict.modify_of_ne _ ?_ _
  rintro rfl
  exact hn hn'

/-- A `REGISTER` touches the node that it names. -/
theorem Server.handleRegister_sameNodes {P : Primitives} {N : List NodeId} (s : Server)
    {frames : List Frame} {identity : Bytes} {payload : Json} (priv : Bytes)
    (hframes : MatchManager.registerOf frames = some (identity, payload))
    (hother : ∀ n ∈ N, registerNode frames ≠ some n) :
    s.SameNodes N (s.handleRegister P identity payload priv).1 := by
  rcases s.handleRegister_cases identity payload priv (P := P) with
    ⟨outcome, h⟩ | ⟨reason, h⟩ | ⟨kvs, n, hpayload, hn, -, -, h⟩
  · rw [h]
    exact .of_eq rfl rfl
  · rw [h]
    exact .of_eq rfl rfl
  · have hnode : registerNode frames = some n := by
      rw [registerNode, hframes, hpayload, Option.bind_some, Json.asObj, Option.bind_some, hn]
      rfl
    have hne : ∀ n' ∈ N, n' ≠ n := fun n' hn' he => hother n' hn' (he ▸ hnode)
    obtain ⟨htokens, -, hnodes⟩ := s.acceptRegister_frame identity n
      (Json.getD kvs "hostname" (.str "")) (Json.getD kvs "ip" (.str ""))
      (Json.getD kvs "ecdh_pubkey" (.str "")) priv (P := P)
    rw [h]
    exact ⟨htokens, fun n' hn' => (hnodes n' (hne n' hn')).1,
      fun n' hn' => (hnodes n' (hne n' hn')).2⟩

namespace MatchManager

variable {P : Platform}

/-- No match operation and no message of the stretch is for the nodes `N`. -/
structure Avoids (N : List NodeId) (t : ServerTask) : Prop where
  targets : ∀ na ∈ t.pc.targets, na.nodeId ∉ N
  register : ∀ frames, t.pc = .received frames → ∀ n ∈ N, registerNode frames ≠ some n

/-- **A stretch on other nodes leaves the nodes alone.** -/
theorem NodeStretch.sameNodes {tid fresh : TaskId} {s : Server} {t : ServerTask} {w : World}
    {r : Stretch} (h : NodeStretch P tid fresh s t w r) {N : List NodeId} (ht : Avoids N t) :
    s.SameNodes N r.server := by
  have htargets := ht.targets
  cases h with
  | quiet _ hquiet hduty hkind => exact .of_eq hquiet.registry (by rw [hquiet.crypto])
  | register frames identity payload hpc hframes =>
    exact s.handleRegister_sameNodes w.priv hframes (ht.register frames hpc)
  | launch _ t0 record as hpc hready hquiet hr =>
    exact .of_eq hquiet.registry (by rw [hquiet.crypto])
  | begin _ t0 record as hpc hkey hr =>
    obtain ⟨hregistry, hcrypto, -, -⟩ := hr.frame
    exact .of_eq hregistry (by rw [hcrypto])
  | next _ t0 record na rest hpc hr =>
    obtain ⟨hregistry, hcrypto, -, -⟩ := hr.frame
    refine .of_updateState (htargets na ?_) hregistry (by rw [hcrypto]; rfl)
    rw [hpc]
    exact List.mem_cons_self
  | stopBegin r record as hpc hstate has hr =>
    obtain ⟨hregistry, hsessions, -, -, -⟩ := hr.frame
    exact .of_eq hregistry hsessions
  | stopMalformed record hpc => exact .of_eq rfl rfl
  | stopNext _ na rest hpc hr =>
    obtain ⟨hregistry, hsessions, -, -, -⟩ := hr.frame
    refine .of_updateState (htargets na ?_) hregistry hsessions
    rw [hpc]
    exact List.mem_cons_self

theorem DispatchStretch.recipients {fresh : TaskId} {w : World} {m : MatchId} {t0 : ℚ}
    {record : MatchRecord} {s : Server} {as : List NodeAssignment} {r : Stretch}
    (h : DispatchStretch P fresh w m t0 record s as r) : ∃ es, r.server.trace = s.trace ++ es ∧
      ∀ e ∈ es, ∀ n ∈ e.recipient, ∃ na ∈ as, na.nodeId = n := by
  cases h with
  | ended hskip => exact ⟨[], (List.append_nil _).symm, by simp⟩
  | sent skipped na rest identity payload has hskip hsent =>
    refine ⟨_, rfl, fun e he n hn => ⟨na, ?_, ?_⟩⟩
    · rw [has]
      exact List.mem_append_right _ List.mem_cons_self
    · rw [List.mem_singleton.mp he] at hn
      exact Option.mem_some_iff.mp hn
  | failed e => exact ⟨[], (List.append_nil _).symm, by simp⟩

theorem recipient_of_isRow {e : Event} (h : e.isRow = true) : e.recipient = none := by
  cases e with
  | sent n identity msgType payload => cases h
  | _ => rfl

theorem StopStretch.recipients {tid : TaskId} {w : World} {m : MatchId} {s : Server}
    {as : List NodeAssignment} {r : Stretch} (h : StopStretch tid w m s as r) :
    ∃ es, r.server.trace = s.trace ++ es ∧
      ∀ e ∈ es, ∀ n ∈ e.recipient, ∃ na ∈ as, na.nodeId = n := by
  cases h with
  | ended hskip =>
    obtain ⟨es, htrace, hes⟩ := (quiet_updateState tid w
      { s with crypto := s.crypto.revokeMatchKey m } m .finished none
      (.wrote .matchDb .returned)).trace
    refine ⟨es, htrace, fun e he n hn => ?_⟩
    rw [recipient_of_isRow (hes e he)] at hn
    cases hn
  | sent skipped na rest identity has hskip hidentity =>
    refine ⟨_, rfl, fun e he n hn => ⟨na, ?_, ?_⟩⟩
    · rw [has]
      exact List.mem_append_right _ List.mem_cons_self
    · rw [List.mem_singleton.mp he] at hn
      exact Option.mem_some_iff.mp hn
  | failed hreach hok => exact ⟨[], (List.append_nil _).symm, by simp⟩

/-- **A match operation sends to the nodes it works on only.** -/
theorem NodeStretch.recipients {tid fresh : TaskId} {s : Server} {t : ServerTask} {w : World}
    {r : Stretch} (h : NodeStretch P tid fresh s t w r) :
    ∃ es, r.server.trace = s.trace ++ es ∧
      ∀ e ∈ es, ∀ n ∈ e.recipient, ∃ na ∈ t.pc.targets, na.nodeId = n := by
  have hquiet : ∀ {r : Stretch}, Quiet s r → ∃ es, r.server.trace = s.trace ++ es ∧
      ∀ e ∈ es, ∀ n ∈ e.recipient, ∃ na ∈ t.pc.targets, na.nodeId = n := by
    intro r hquiet
    obtain ⟨es, htrace, hes⟩ := hquiet.trace
    refine ⟨es, htrace, fun e he n hn => ?_⟩
    rw [recipient_of_isRow (hes e he)] at hn
    cases hn
  -- A loop sends to its own assignments, and the mark before it goes to nobody.
  have hloop : ∀ {r : Stretch} {as : List NodeAssignment} (trace : List Event),
      (∀ na ∈ as, na ∈ t.pc.targets) → (∀ e ∈ trace, e.recipient = none) →
      (∃ es, r.server.trace = s.trace ++ trace ++ es ∧
        ∀ e ∈ es, ∀ n ∈ e.recipient, ∃ na ∈ as, na.nodeId = n) →
      ∃ es, r.server.trace = s.trace ++ es ∧
        ∀ e ∈ es, ∀ n ∈ e.recipient, ∃ na ∈ t.pc.targets, na.nodeId = n := by
    rintro r as trace has hnone ⟨es, htrace, hes⟩
    refine ⟨trace ++ es, by rw [htrace, List.append_assoc], fun e he n hn => ?_⟩
    rcases List.mem_append.mp he with he | he
    · rw [hnone e he] at hn
      cases hn
    · obtain ⟨na, hna, heq⟩ := hes e he n hn
      exact ⟨na, has na hna, heq⟩
  cases h with
  | quiet _ hq hduty hkind => exact hquiet hq
  | register frames identity payload hpc hframes =>
    obtain ⟨es, htrace, hes⟩ := (s.handleRegister_frame identity payload w.priv
      (P := P.toPrimitives)).trace
    refine ⟨es, htrace, fun e he n hn => ?_⟩
    cases e with
    | sent n' identity' msgType payload' => cases hes _ he
    | _ => cases hn
  | launch _ t0 record as hpc hready hq hr => exact hquiet hq
  | begin _ t0 record as hpc hkey hr =>
    refine hloop [] (fun na hna => ?_) (by simp) (by simpa using hr.recipients)
    rw [hpc]
    exact hna
  | next _ t0 record na rest hpc hr =>
    refine hloop [.marked na.nodeId .running] (fun na' hna' => ?_) (by simp [Event.recipient])
      hr.recipients
    rw [hpc]
    exact List.mem_cons_of_mem _ hna'
  | stopBegin r record as hpc hstate has hr =>
    refine hloop [] (fun na hna => ?_) (by simp) (by simpa using hr.recipients)
    rw [hpc]
    simpa [Pc.targets, has] using hna
  | stopMalformed record hpc => exact ⟨[], (List.append_nil _).symm, by simp⟩
  | stopNext _ na rest hpc hr =>
    refine hloop [.marked na.nodeId .ready] (fun na' hna' => ?_) (by simp [Event.recipient])
      hr.recipients
    rw [hpc]
    exact List.mem_cons_of_mem _ hna'

end MatchManager

/-! ### One match and its nodes -/

/-- Match `m` and the nodes `N` are the same, and no match operation has sent
anything to these nodes. -/
structure Server.SameSlice (m : MatchId) (N : List NodeId) (s s' : Server) : Prop extends
    Server.SameMatch m s s', Server.SameNodes N s s' where
  silent : ∃ es, s'.trace = s.trace ++ es ∧ ∀ e ∈ es, ∀ n ∈ e.recipient, n ∉ N

theorem Server.SameSlice.refl (m : MatchId) (N : List NodeId) (s : Server) : s.SameSlice m N s :=
  ⟨.refl m s, .of_eq rfl rfl, [], (List.append_nil _).symm, by simp⟩

namespace MatchManager

variable {P : Platform}

/-- **A stretch of another match on other nodes leaves the slice alone.** -/
theorem resume_sameSlice {m : MatchId} {N : List NodeId} (tid fresh : TaskId) (s : Server)
    (t : ServerTask) (w : World) (hcreate : ∀ config, t.pc ≠ .createCall config)
    (hother : t.matchId ≠ m ∨ t.pc.OfKind .dispatch) (ht : Avoids N t) :
    s.SameSlice m N (resume P tid fresh s t w).server := by
  have hstretch := resume_stretch (P := P) tid fresh s t w
  obtain ⟨es, htrace, hes⟩ := hstretch.recipients
  refine ⟨resume_sameMatch tid fresh s t w (.inr hcreate) hother, hstretch.sameNodes ht, es,
    htrace, fun e he n hn => ?_⟩
  obtain ⟨na, hna, rfl⟩ := hes e he n hn
  exact ht.targets na hna

end MatchManager

/-! ### Runs on one match and on matches with other nodes -/

/-- The call is for `m`, for a match that is assigned other nodes, or hands over a
message; no match is created. -/
def Call.Within (s0 : Server) (m : MatchId) : Call → Prop
  | .create _ => False
  | .start m' _ => m' = m ∨ (s0.nodesOf m).Disjoint (s0.nodesOf m')
  | .stop m' => m' = m ∨ (s0.nodesOf m).Disjoint (s0.nodesOf m')
  | .receive _ => True

def Act.Within (s0 : Server) (m : MatchId) : Act → Prop
  | .call c => c.Within s0 m
  | .run _ _ => True

instance (s0 : Server) (m : MatchId) (c : Call) : Decidable (c.Within s0 m) := by
  have hdisjoint : ∀ ns ns' : List NodeId, Decidable (ns.Disjoint ns') := fun ns ns' =>
    decidable_of_iff (∀ n ∈ ns, n ∉ ns') (by simp [List.Disjoint])
  cases c with
  | create config => exact .isFalse id
  | start m' readyTimeout =>
    exact inferInstanceAs (Decidable (m' = m ∨ (s0.nodesOf m).Disjoint (s0.nodesOf m')))
  | stop m' =>
    exact inferInstanceAs (Decidable (m' = m ∨ (s0.nodesOf m).Disjoint (s0.nodesOf m')))
  | receive frames => exact .isTrue trivial

instance (s0 : Server) (m : MatchId) (a : Act) : Decidable (a.Within s0 m) :=
  a.casesOn (fun c => inferInstanceAs (Decidable (c.Within s0 m))) fun _ _ => .isTrue trivial

namespace Sys

variable {P : Platform}

open MatchManager

/-- A task of `m`, of a match with other nodes, or of a message, that works on
nodes of its match. -/
structure ConfinedTask (m : MatchId) (s0 : Server) (t : ServerTask) : Prop where
  kind : t.kind ≠ .create
  apart : t.kind ≠ .dispatch → t.matchId = m ∨ (s0.nodesOf m).Disjoint (s0.nodesOf t.matchId)
  targets : ∀ na ∈ t.pc.targets, na ∈ s0.assignments t.matchId

/-- **Every task is confined to its match**, and so are the timers; what the rows
assign is what they did in `s0`. -/
structure Confined (m : MatchId) (s0 : Server) (s : Sys) : Prop where
  sound : s.Sound
  config : ∀ m', s.server.store.configOf m' = s0.store.configOf m'
  task : ∀ tid t, s.tasks tid = some t → ConfinedTask m s0 t
  timer : ∀ m' c t, s.server.timers m' = some c → s.tasks c = some t → t.matchId = m'

theorem confined_boot (m : MatchId) (tokens : Dict NodeId String)
    (rows : Dict MatchId MatchRecord) (metrics : MetricsStore) :
    Confined m (boot tokens rows metrics).server (boot tokens rows metrics) where
  sound := sound_boot tokens rows metrics
  config _ := rfl
  task _ _ h := by cases h
  timer _ _ _ h := by cases h

theorem confinedTask_call {m : MatchId} {s0 : Server} {c : Call} (hc : c.Within s0 m) :
    ConfinedTask m s0 c.task := by
  cases c with
  | create config => exact hc.elim
  | start m' readyTimeout =>
    exact ⟨fun h => (by cases h), fun _ => hc, fun na h => (List.not_mem_nil h).elim⟩
  | stop m' => exact ⟨fun h => (by cases h), fun _ => hc, fun na h => (List.not_mem_nil h).elim⟩
  | receive frames =>
    exact ⟨fun h => (by cases h), fun h => absurd rfl h, fun na h => (List.not_mem_nil h).elim⟩

/-- A task that stops is confined still. -/
theorem ConfinedTask.of_done {m : MatchId} {s0 : Server} {t t' : ServerTask} {outcome : Outcome}
    (h : ConfinedTask m s0 t) (hkind : t'.kind = t.kind) (hmatch : t'.matchId = t.matchId)
    (hpc : t'.pc = .done outcome) : ConfinedTask m s0 t' := by
  refine ⟨hkind ▸ h.kind, fun hd => ?_, fun na hna => ?_⟩
  · rw [hmatch]
    exact h.apart (hkind ▸ hd)
  · rw [hpc] at hna
    exact (List.not_mem_nil hna).elim

theorem ConfinedTask.cancelTask {m : MatchId} {s0 : Server} {t : ServerTask}
    (h : ConfinedTask m s0 t) : ConfinedTask m s0 (cancelTask t) := by
  rw [Sys.cancelTask]
  split
  · exact h
  · exact h.of_done rfl rfl rfl

/-- A task that creates another is a `start`. -/
theorem Sound.kind_of_spawns {s : Sys} (hs : s.Sound) {tid : TaskId} {t : ServerTask} {w : World}
    {delay : ℚ} (ht : s.tasks tid = some t)
    (h : (resume P tid s.next s.server t w).spawns = some delay) : t.kind = .start := by
  have hkind := hs.kind tid t ht
  have hstretch := resume_stretch (P := P) tid s.next s.server t w
  generalize resume P tid s.next s.server t w = r at hstretch h
  cases hstretch with
  | quiet _ hquiet hduty hk =>
    rw [hquiet.spawns] at h
    cases h
  | register frames identity payload hpc hframes => cases h
  | launch _ t0 record as hpc hready hquiet hr =>
    rw [hquiet.spawns] at h
    cases h
  | begin _ t0 record as hpc hkey hr =>
    rw [hpc] at hkind
    exact hkind
  | next _ t0 record na rest hpc hr =>
    rw [hpc] at hkind
    exact hkind
  | stopBegin r record as hpc hstate has hr =>
    rw [show r.spawns = none from hr.frame.2.2.2.2] at h
    cases h
  | stopMalformed record hpc => cases h
  | stopNext _ na rest hpc hr =>
    rw [hr.frame.2.2.2.2] at h
    cases h

theorem Confined.configOf_step {m : MatchId} {s0 : Server} {s s' : Sys} {a : Act}
    (hs : Confined m s0 s) (h : step P s a = some s') (m' : MatchId) :
    s'.server.store.configOf m' = s0.store.configOf m' := by
  rw [← hs.config m']
  rcases step_cases h with ⟨c, -, rfl⟩ | ⟨tid, w, t, -, ht, -, rfl⟩
  · rfl
  · rw [apply_server]
    have hwrite := resume_rowWrite (P := P) tid s.next s.server t w
    generalize (resume P tid s.next s.server t w).server.store = db at hwrite
    cases hwrite with
    | same => rfl
    | committed => rfl
    | updated state t0 hpc => exact MatchStore.updateState_configOf ..
    | inserted config _ hpc hinsert =>
      have hkind := hs.sound.kind tid t ht
      rw [hpc] at hkind
      exact absurd hkind (hs.task tid t ht).kind

theorem Confined.task_step {m : MatchId} {s0 : Server} {s s' : Sys} {a : Act}
    (hs : Confined m s0 s) (ha : a.Within s0 m) (h : step P s a = some s') :
    ∀ tid t, s'.tasks tid = some t → ConfinedTask m s0 t := by
  intro tid u hu
  rcases step_cases h with ⟨c, rfl, rfl⟩ | ⟨tid', w, t, -, ht, -, rfl⟩
  · have hu : s.tasks.set s.next c.task tid = some u := hu
    by_cases hn : tid = s.next
    · rw [hn, Dict.set_self, Option.some_inj] at hu
      exact hu ▸ confinedTask_call ha
    · rw [Dict.set_of_ne _ hn] at hu
      exact hs.task tid u hu
  · have htask := hs.task tid' t ht
    rcases apply_tasks hu with ⟨-, rfl⟩ | ⟨-, delay, hspawns, rfl⟩ | ⟨-, u', hu', rfl | ⟨-, rfl⟩⟩
    · refine ⟨(settle_kind tid' t _).symm ▸ htask.kind, fun hd => ?_, fun na hna => ?_⟩
      · rw [settle_matchId]
        exact htask.apart (settle_kind tid' t _ ▸ hd)
      · rw [settle_matchId]
        rcases settle_pc tid' t (resume P tid' s.next s.server t w) with hpc | hpc
        · rw [hpc] at hna
          rcases resume_mem_targets tid' s.next s.server t w (hs.sound.kind tid' t ht) hna with
            hrow | hold
          · rw [Server.assignments, hs.config] at hrow
            exact hrow
          · exact htask.targets na hold
        · rw [hpc] at hna
          exact (List.not_mem_nil hna).elim
    · -- The auto-stop task belongs to the match of the `start` that created it.
      have hstart := hs.sound.kind_of_spawns ht hspawns
      refine ⟨fun h => (by cases h), fun _ => htask.apart fun hd => ?_, fun na hna => ?_⟩
      · cases hstart.symm.trans hd
      · exact (List.not_mem_nil hna).elim
    · exact hs.task tid u hu'
    · exact (hs.task tid u' hu').cancelTask

/-- A task stays the task of its match. -/
theorem Sound.matchId_step {s s' : Sys} {a : Act} (hs : s.Sound) (h : Sys.step P s a = some s')
    {tid : TaskId} {t t' : ServerTask} (ht : s.tasks tid = some t)
    (ht' : s'.tasks tid = some t') : t'.matchId = t.matchId := by
  have hne : tid ≠ s.next := Nat.ne_of_lt (hs.lt_next ht)
  rcases step_cases h with ⟨c, -, rfl⟩ | ⟨tid', w, u, -, hu, -, rfl⟩
  · have ht' : s.tasks.set s.next c.task tid = some t' := ht'
    rw [Dict.set_of_ne _ hne, ht, Option.some_inj] at ht'
    rw [ht']
  · rcases apply_tasks ht' with ⟨rfl, rfl⟩ | ⟨hnext, -⟩ | ⟨-, u', hu', rfl | ⟨-, rfl⟩⟩
    · rw [settle_matchId, Option.some.inj (ht.symm.trans hu)]
    · exact absurd hnext hne
    · rw [Option.some.inj (ht.symm.trans hu')]
    · rw [cancelTask_matchId, Option.some.inj (ht.symm.trans hu')]

theorem Confined.timer_step {m : MatchId} {s0 : Server} {s s' : Sys} {a : Act}
    (hs : Confined m s0 s) (h : step P s a = some s') :
    ∀ m' c t, s'.server.timers m' = some c → s'.tasks c = some t → t.matchId = m' := by
  intro m' c u hc hu
  have hold : s.server.timers m' = some c → u.matchId = m' := by
    intro hc
    obtain ⟨u', hu', -⟩ := hs.sound.timer m' c hc
    rw [hs.sound.matchId_step h hu' hu]
    exact hs.timer m' c u' hc hu'
  rcases step_cases h with ⟨call, -, rfl⟩ | ⟨tid, w, t, -, ht, -, rfl⟩
  · exact hold hc
  · rw [apply_server] at hc
    by_cases hm : t.matchId = m'
    · rcases resume_timers (P := P) tid s.next s.server t w m' with h | h | ⟨h, hspawns⟩
      · rw [h] at hc
        exact hold hc
      · rw [h] at hc
        cases hc
      · obtain rfl : s.next = c := Option.some.inj (h.symm.trans hc)
        rcases apply_tasks hu with ⟨hnext, -⟩ | ⟨-, delay, -, rfl⟩ | ⟨-, u', hu', -⟩
        · exact absurd hnext.symm (Nat.ne_of_lt (hs.sound.lt_next ht))
        · exact hm
        · rw [hs.sound.fresh s.next (Nat.le_refl _)] at hu'
          cases hu'
    · obtain ⟨-, htimer⟩ := (resume_stretch (P := P) tid s.next s.server t w).keys_timers (.inl hm)
      rw [htimer] at hc
      exact hold hc

/-- **A step on `m` or on matches with other nodes keeps every task confined.** -/
theorem Confined.step {m : MatchId} {s0 : Server} {s s' : Sys} {a : Act} (hs : Confined m s0 s)
    (ha : a.Within s0 m) (h : Sys.step P s a = some s') : Confined m s0 s' :=
  ⟨hs.sound.step h, hs.configOf_step h, hs.task_step ha h, hs.timer_step h⟩

end Sys
