/-
A deployment whose server dies and boots again.

A process registers when it is launched, and never again.  A server that has booted
again does not know the processes that live on: it sends them nothing, drops what
they report, and starts no match with a node in it.

* `Sys.running_of_step` — a match becomes `RUNNING` only when its nodes are registered;
* `Sys.Forgets.step` — a server that nobody registers with knows nobody;
* `Deployment.unreachable` — so it is from the reboot to the next launch of a process.
-/
import AgenticJuggling.Incarnations
import AgenticJuggling.Parts
import AgenticJuggling.StartFailure

open Transition

/-! ### How a match comes to run -/

theorem Pc.startRow_of_duty {pc : Pc} {d : Duty} (h : pc.duty = some d) :
    pc.startRow = some .running := by
  cases pc with
  | runningWrote t0 record as => rfl
  | runningCommit t0 record as => rfl
  | startSent t0 record na rest => rfl
  | _ => cases h

theorem Pc.duty_of_startRow {pc : Pc} (h : pc.startRow = some .running) : pc.duty ≠ none := by
  cases pc with
  | runningWrote t0 record as => exact Option.some_ne_none _
  | runningCommit t0 record as => exact Option.some_ne_none _
  | startSent t0 record na rest => exact Option.some_ne_none _
  | _ => cases h

/-- A task that waits for nodes sends nothing yet. -/
theorem Pc.plan_of_awaited {pc : Pc} {as : List NodeAssignment} (h : pc.awaited = some as) :
    pc.plan = some as ∧ pc.sending = false := by
  cases pc with
  | startingCommit readyTimeout record as => exact ⟨h, rfl⟩
  | polling deadline record as => exact ⟨h, rfl⟩
  | _ => cases h

namespace MatchStore

theorem stateOf_set (db : MatchStore) (config : MatchConfig) (m : MatchId) :
    { db with rows := db.rows.set config.matchId (recordOf config) }.stateOf m =
      if m = config.matchId then some .lobby else db.stateOf m := by
  show (db.rows.set config.matchId (recordOf config) m).map (·.state) = _
  by_cases hm : m = config.matchId
  · rw [if_pos hm, hm, Dict.set_self]
    rfl
  · rw [if_neg hm, Dict.set_of_ne _ hm, stateOf]

end MatchStore

namespace MatchManager

variable {P : Platform}

/-- A `start` writes `RUNNING` when it finds every node ready. -/
theorem launch_of_startRow {tid fresh : TaskId} {s : Server} {t : ServerTask} {w : World}
    {r : Stretch} (h : NodeStretch P tid fresh s t w r) (hkind : t.pc.OfKind .start)
    (hfrom : t.pc.startRow ≠ some .running) (hto : r.pc.startRow = some .running) :
    ∃ as, t.pc.awaited = some as ∧ missing s as = [] := by
  cases h with
  | quiet _ hquiet hduty hkind' =>
    obtain hnone | hsame := hduty
    · exact absurd hnone (Pc.duty_of_startRow hto)
    · obtain ⟨d, hd⟩ := Option.ne_none_iff_exists'.mp (Pc.duty_of_startRow hto)
      exact absurd (Pc.startRow_of_duty (hsame.symm.trans hd)) hfrom
  | register frames identity payload hpc hframes => cases hto
  | launch _ t0 record as hpc hready hquiet hr => exact ⟨as, hpc, hready⟩
  | begin _ t0 record as hpc hkey hr => exact absurd (hpc ▸ rfl) hfrom
  | next _ t0 record na rest hpc hr => exact absurd (hpc ▸ rfl) hfrom
  | stopBegin r record as hpc hstate has hr =>
    rw [hpc] at hkind
    rcases hkind with hk | hk <;> cases hk
  | stopMalformed record hpc => cases hto
  | stopNext _ na rest hpc hr =>
    rw [hpc] at hkind
    rcases hkind with hk | hk <;> cases hk

/-- **A row becomes `RUNNING` in the stretch of a `start` that finds every node ready.** -/
theorem resume_running (tid fresh : TaskId) (s : Server) {t : ServerTask} (w : World)
    (hkind : t.pc.OfKind t.kind) {m : MatchId}
    (h : (resume P tid fresh s t w).server.store.stateOf m = some .running) :
    s.store.stateOf m = some .running ∨
      t.matchId = m ∧ ∃ as, t.pc.awaited = some as ∧ missing s as = [] := by
  by_cases hstart : t.kind = .start
  · by_cases hm : m = t.matchId
    · have hstretch := resume_stretch (P := P) tid fresh s t w
      have hwrite := resume_startStretch (P := P) tid fresh s t w (hstart ▸ hkind)
      generalize resume P tid fresh s t w = r at h hstretch hwrite
      cases hwrite with
      | stays hrow hkept hpc =>
        rw [hm, MatchStore.stateOf, hrow] at h
        exact .inl (hm ▸ h)
      | writes state t0 hfrom hpc ht0 hstore hcrypto htimers =>
        rw [hstore, MatchStore.updateState_stateOf, if_pos hm] at h
        obtain ⟨-, -, rfl⟩ := Option.map_eq_some_iff.mp h
        exact .inr ⟨hm.symm, launch_of_startRow hstretch (hstart ▸ hkind) hfrom hpc⟩
    · refine .inl ?_
      have hwrite := resume_rowWrite (P := P) tid fresh s t w
      generalize (resume P tid fresh s t w).server.store = db at h hwrite
      cases hwrite with
      | same => exact h
      | committed => exact h
      | updated state t0 hpc =>
        rw [MatchStore.updateState_stateOf, if_neg hm] at h
        exact h
      | inserted config _ hpc hinsert =>
        rw [hpc, hstart] at hkind
        cases hkind
  · refine .inl ?_
    have hwrite := resume_plainWrite (P := P) tid fresh s w hkind hstart
    generalize (resume P tid fresh s t w).server.store = db at h hwrite
    cases hwrite with
    | same => exact h
    | committed => exact h
    | inserted config _ hinsert =>
      obtain ⟨-, rfl⟩ := MatchStore.insert_eq_some.mp hinsert
      rw [MatchStore.stateOf_set] at h
      split at h
      · cases h
      · exact h
    | finished hk =>
      rw [MatchStore.updateState_stateOf] at h
      split at h
      · obtain ⟨-, -, h⟩ := Option.map_eq_some_iff.mp h
        cases h
      · exact h

theorem eq_nil_of_missing {s : Server} {as : List NodeAssignment}
    (hnodes : ∀ n, s.registry.nodes n = none) (h : missing s as = []) : as = [] := by
  refine List.eq_nil_iff_forall_not_mem.mpr fun na hna => ?_
  have hready : s.registry.inState .ready na.nodeId = false := by
    rw [NodeRegistry.inState, hnodes]
  have hmem : na.nodeId ∈ missing s as := by
    rw [missing, List.mem_filter, List.mem_dedup, hready]
    exact ⟨List.mem_map_of_mem hna, rfl⟩
  rw [h] at hmem
  cases hmem

end MatchManager

namespace Sys

variable {P : Platform} {tokens : Dict NodeId String} {rows : Dict MatchId MatchRecord}
  {metrics : MetricsStore} {s s' : Sys} {a : Act}

/-- **With nobody registered, only a match without nodes comes to run.** -/
theorem running_of_step (hsound : s.Sound) (hplanned : s.Planned)
    (hnodes : ∀ n, s.server.registry.nodes n = none) (h : step P s a = some s') {m : MatchId}
    (hrunning : s'.server.store.stateOf m = some .running) :
    s.server.store.stateOf m = some .running ∨ s.server.planOf m = some [] := by
  rcases step_cases h with ⟨c, -, rfl⟩ | ⟨tid, w, t, -, ht, -, rfl⟩
  · exact .inl hrunning
  · rw [apply_server] at hrunning
    obtain hold | ⟨rfl, as, hawaited, hready⟩ :=
      MatchManager.resume_running tid s.next s.server w (hsound.kind tid t ht) hrunning
    · exact .inl hold
    · obtain ⟨hplan, hsending⟩ := Pc.plan_of_awaited hawaited
      obtain ⟨all, hall, -, rfl | hsends⟩ := hplanned tid t ht as hplan
      · rw [MatchManager.eq_nil_of_missing hnodes hready] at hall
        exact .inr hall
      · rw [hsending] at hsends
        cases hsends

/-! ### A server that nobody registers with -/

/-- A message that does not authenticate registers nobody. -/
theorem nodes_of_step (hnodes : ∀ n, s.server.registry.nodes n = none)
    (hframes : ∀ tid frames, s.queued tid = some frames → s.server.authenticates frames = false)
    (h : step P s a = some s') (n : NodeId) : s'.server.registry.nodes n = none := by
  have hnone : ∀ {r : NodeRegistry}, (∀ n, (r.nodes n).isSome = (s.server.registry.nodes n).isSome) →
      r.nodes n = none := by
    intro r hr
    rw [← Option.not_isSome_iff_eq_none, hr n, hnodes n]
    exact Bool.false_ne_true
  rcases step_cases h with ⟨c, -, rfl⟩ | ⟨tid, w, t, -, ht, -, rfl⟩
  · exact hnodes n
  · rw [apply_server]
    obtain ⟨frames, identity, payload, hpc, hregister, hr⟩ | ⟨-, hreg | ⟨n', state, hreg⟩⟩ :=
      (MatchManager.resume_stretch (P := P) tid s.next s.server t w).registry
    · have hauth := hframes tid frames (by rw [queued, ht, Option.bind_some, hpc]; rfl)
      rw [hr]
      rcases s.server.handleRegister_cases identity payload w.priv (P := P.toPrimitives) with
        ⟨outcome, heq⟩ | ⟨reason, heq⟩ | ⟨kvs, n', rfl, hn, hauthenticated, -, -⟩
      · rw [heq]
        exact hnodes n
      · rw [heq]
        exact hnodes n
      · have htrue : s.server.authenticates frames = true := by
          rw [Server.authenticates, hregister]
          simp only [hn, hauthenticated]
        rw [hauth] at htrue
        cases htrue
    · rw [hreg]
      exact hnodes n
    · rw [hreg]
      exact hnone fun n => NodeRegistry.updateState_nodes_isSome ..

/-- The server has booted with `rows` and `metrics` and has no node. -/
structure Forgets (P : Platform) (tokens : Dict NodeId String) (rows : Dict MatchId MatchRecord)
    (metrics : MetricsStore) (s : Sys) : Prop where
  reachable : ∃ acts, run (step P) (boot tokens rows metrics) acts = some s
  nodes : ∀ n, s.server.registry.nodes n = none
  queued : ∀ tid frames, s.queued tid = some frames → s.server.authenticates frames = false
  running : ∀ m, s.server.store.stateOf m = some .running →
    (rows m).map (·.state) = some .running ∨ s.server.planOf m = some []
  metrics : s.server.metrics = metrics

theorem forgets_boot : (boot tokens rows metrics).Forgets P tokens rows metrics where
  reachable := ⟨[], rfl⟩
  nodes n := rfl
  queued tid frames hq := by cases hq
  running m h := .inl h
  metrics := rfl

/-- **A server that nobody registers with knows nobody**, whatever it is sent. -/
theorem Forgets.step (hs : s.Forgets P tokens rows metrics)
    (ha : ∀ frames, a = .call (.receive frames) → s.server.authenticates frames = false)
    (h : Sys.step P s a = some s') : s'.Forgets P tokens rows metrics := by
  obtain ⟨acts, hacts⟩ := hs.reachable
  have hreachable : run (Sys.step P) (boot tokens rows metrics) (acts ++ [a]) = some s' :=
    run_append_eq_some.mpr ⟨s, hacts, run_cons_eq_some.mpr ⟨s', h, rfl⟩⟩
  have hattributed := attributed_run hacts
  refine ⟨⟨_, hreachable⟩, nodes_of_step hs.nodes hs.queued h, ?_, ?_, ?_⟩
  · intro tid frames hq
    have htokens : s'.server.registry.allowedTokens = s.server.registry.allowedTokens :=
      (allowedTokens_run hreachable).trans (allowedTokens_run hacts).symm
    rw [Deployment.authenticates_congr htokens]
    obtain hold | hnew := queued_cases hattributed.sound h hq
    · exact hs.queued tid frames hold
    · exact ha frames hnew
  · intro m hrunning
    have hkeeps := step_keeps h
    obtain hold | hempty :=
      running_of_step hattributed.sound (planned_run hacts) hs.nodes h hrunning
    · exact (hs.running m hold).imp_right (Server.planOf_of_keeps hkeeps)
    · exact .inr (Server.planOf_of_keeps hkeeps hempty)
  · obtain heq | ⟨tid, w, -, ⟨row, -, -, hnode, -⟩ | ⟨event, -, -, hnode⟩⟩ := hattributed.stores h
    · exact heq.trans hs.metrics
    · rw [hs.nodes] at hnode
      cases hnode
    · rw [hs.nodes] at hnode
      cases hnode

/-- Such a server has sent nothing. -/
theorem Forgets.silent (hs : s.Forgets P tokens rows metrics) {n : NodeId} {identity : Bytes}
    {msgType : MsgType} {payload : Json} :
    .sent n identity msgType payload ∉ s.server.trace := by
  obtain ⟨acts, hacts⟩ := hs.reachable
  intro hmem
  refine addressed_run hacts n identity msgType payload hmem ?_
  rw [NodeRegistry.identityFor, hs.nodes]
  rfl

end Sys

/-! ### The deployment -/

/-- The message under the identity that the router gives its sender now. -/
def readdress (identity : Bytes) (frames : List Frame) : List Frame :=
  ⟨identity, none⟩ :: frames.tail

theorem registerOf_readdress (identity : Bytes) (frames : List Frame) :
    MatchManager.registerOf (readdress identity frames) =
      (MatchManager.registerOf frames).map fun x => (identity, x.2) := by
  rcases frames with _ | ⟨first, _ | ⟨msgType, _ | ⟨raw, rest⟩⟩⟩
  · rfl
  · rfl
  · rfl
  · rw [readdress, List.tail_cons, MatchManager.registerOf, MatchManager.registerOf]
    split
    · rw [Option.map_map]
      rfl
    · rfl

namespace Deployment

/-- The server has died and has booted again from what it had committed; the processes
live on.  Their sockets have connected anew, each under the identity that the new router
has given it, and may have lost some of what they had been handed.  A message of the old
server's that still reaches a process is one that it takes before. -/
structure Reboots (tokens : Dict NodeId String) (metrics : MetricsStore) (d d' : Deployment) :
    Prop where
  sys : d'.sys = Sys.boot tokens d.sys.server.store.committed metrics
  used : ∀ identity p', d'.peers identity = some p' → identity ∈ d'.used
  peers : ∀ identity p', d'.peers identity = some p' →
    ∃ old p, ∃ kept : List (List Frame), d.peers old = some p ∧ kept.Sublist p.outbox ∧
      p' = { p with received := 0, outbox := kept.map (readdress identity) }

/-- No `REGISTER` is on its way. -/
def Settled (d : Deployment) : Prop :=
  ∀ identity p, d.peers identity = some p → ∀ frames ∈ p.outbox,
    MatchManager.registerOf frames = none

def Move.isLaunch : Move → Bool
  | .launch _ _ _ _ => true
  | _ => false

variable {P : Platform} {tokens tokens' : Dict NodeId String} {rows : Dict MatchId MatchRecord}
  {metrics metrics' : MetricsStore} {d d' : Deployment}

theorem FromPeer.readdressed {identity : Bytes} {p : Peer} {frames : List Frame}
    (h : FromPeer P.toPrimitives identity p frames) {identity' : Bytes} {p' : Peer}
    (hconf : p'.conf = p.conf) (hkey : p'.privateKey = p.privateKey) :
    FromPeer P.toPrimitives identity' p' (readdress identity' frames) := by
  cases h with
  | register =>
    have hregister : FromPeer P.toPrimitives identity' p'
      (Peer.registerFrames P.toPrimitives identity' p'.conf p'.privateKey) := .register
    rw [hconf, hkey] at hregister
    exact hregister
  | report terminalId idleSeconds tokensUsed now =>
    have hreport : FromPeer P.toPrimitives identity' p'
      ((Report.metrics terminalId idleSeconds tokensUsed).frames identity' p'.conf.nodeId now []) :=
      .report terminalId idleSeconds tokensUsed now
    rw [hconf] at hreport
    exact hreport

theorem Reboots.wired (h : Reboots tokens' metrics' d d') (hd : Wired P tokens rows metrics d) :
    Wired P tokens' d.sys.server.store.committed metrics' d' where
  reachable := ⟨[], by rw [h.sys]; rfl⟩
  used := h.used
  sound identity p' hp' := by
    obtain ⟨old, p, kept, hp, -, rfl⟩ := h.peers identity p' hp'
    exact ⟨(hd.sound old p hp).stateFile, (hd.sound old p hp).main⟩
  outbox identity p' hp' frames hframes := by
    obtain ⟨old, p, kept, hp, hkept, rfl⟩ := h.peers identity p' hp'
    obtain ⟨frames', hmem, rfl⟩ := List.mem_map.mp hframes
    exact (hd.outbox old p hp frames' (hkept.subset hmem)).readdressed rfl rfl
  queued tid frames hq := by
    rw [h.sys] at hq
    cases hq
  replies n identity pk reply hmem := by
    rw [h.sys] at hmem
    cases hmem

theorem Reboots.settled (h : Reboots tokens' metrics' d d') (hd : d.Settled) : d'.Settled := by
  intro identity p' hp' frames hframes
  obtain ⟨old, p, kept, hp, hkept, rfl⟩ := h.peers identity p' hp'
  obtain ⟨frames', hmem, rfl⟩ := List.mem_map.mp hframes
  rw [registerOf_readdress, hd old p hp frames' (hkept.subset hmem)]
  rfl

/-- The server knows none of the processes, and none of them is about to register. -/
structure Unreached (P : Platform) (tokens : Dict NodeId String)
    (rows : Dict MatchId MatchRecord) (metrics : MetricsStore) (d : Deployment) : Prop where
  wired : Wired P tokens rows metrics d
  settled : d.Settled
  forgets : d.sys.Forgets P tokens rows metrics

/-- A process that was there before does not register. -/
theorem Settled.step {a : Move} (hd : d.Settled) (hsplits : Splits P d a d')
    (ha : a.isLaunch = false) : d'.Settled := by
  intro identity p' hp' frames hframes
  obtain ⟨-, -, -, conf, privateKey, home, rfl⟩ | ⟨p, hp, hgoes⟩ := hsplits.peers identity p' hp'
  · cases ha
  · have hold := hd identity p hp
    obtain heq | heq | ⟨frames', hnone, heq⟩ := hgoes.outbox
    · exact hold frames (heq ▸ hframes)
    · exact hold frames (List.mem_of_mem_tail (heq ▸ hframes))
    · rw [heq] at hframes
      obtain hmem | hmem := List.mem_append.mp hframes
      · exact hold frames hmem
      · rw [List.mem_singleton.mp hmem]
        exact hnone

/-- **Only a launch makes the server know a node.** -/
theorem Unreached.step {a : Move} (hd : Unreached P tokens rows metrics d)
    (ha : a.isLaunch = false) (h : d.step P a = some d') :
    Unreached P tokens rows metrics d' := by
  refine ⟨hd.wired.step h, hd.settled.step (splits_of_step hd.wired h) ha, ?_⟩
  have harrives : ∀ frames, d.sys.server.authenticates frames = false →
      Sys.step P d.sys (.call (.receive frames)) = some d'.sys →
      d'.sys.Forgets P tokens rows metrics := by
    intro frames hauth hstep
    refine hd.forgets.step (fun frames' heq => ?_) hstep
    obtain rfl := Call.receive.inj (Act.call.inj heq)
    exact hauth
  obtain heq | ⟨b, -, hb, hstep⟩ | ⟨frames, -, hauth, hstep⟩ |
    ⟨identity, p, frames, hp, hmem, hstep⟩ := sys_of_step hd.wired h
  · rw [heq]
    exact hd.forgets
  · refine hd.forgets.step (fun frames heq => ?_) hstep
    rw [heq] at hb
    cases hb
  · exact harrives frames hauth hstep
  · refine harrives frames ?_ hstep
    rw [Server.authenticates, hd.settled identity p hp frames hmem]

/-- **After a reboot the server is cut off.**  When no `REGISTER` is on its way as the
server dies, then from its next boot to the next launch of a process no node is registered,
nothing is sent to one, no report is stored, and no match with a node in it comes to run. -/
theorem unreachable {moves : List Move}
    (hrun : run (step P) (boot tokens rows metrics) moves = some d) (hsettled : d.Settled)
    {d₁ : Deployment} (hreboots : Reboots tokens' metrics' d d₁) {later : List Move}
    (hlater : ∀ a ∈ later, a.isLaunch = false) {d₂ : Deployment}
    (hrun' : run (step P) d₁ later = some d₂) :
    (∀ n, d₂.sys.server.registry.nodes n = none) ∧
      (∀ n identity msgType payload,
        .sent n identity msgType payload ∉ d₂.sys.server.trace) ∧
      d₂.sys.server.metrics = metrics' ∧
      ∀ m, d₂.sys.server.store.stateOf m = some .running →
        (d.sys.server.store.committed m).map (·.state) = some .running ∨
          d₂.sys.server.planOf m = some [] := by
  have hboot : Unreached P tokens' d.sys.server.store.committed metrics' d₁ := by
    refine ⟨hreboots.wired (run_wired hrun), hreboots.settled hsettled, ?_⟩
    rw [hreboots.sys]
    exact Sys.forgets_boot
  have hforgets := (invariant_of_guarded
    (I := Unreached P tokens' d.sys.server.store.committed metrics')
    (fun _ _ _ hd ha h => hd.step ha h) hboot (guarded_of_forall hlater _) hrun').forgets
  exact ⟨hforgets.nodes, fun n identity msgType payload => hforgets.silent, hforgets.metrics,
    hforgets.running⟩

/-- The processes are found again under the identities they had. -/
def reboot (tokens : Dict NodeId String) (metrics : MetricsStore) (d : Deployment) :
    Deployment where
  sys := Sys.boot tokens d.sys.server.store.committed metrics
  peers identity := (d.peers identity).map fun p => { p with received := 0 }
  used := d.used

theorem reboots_reboot (hd : Wired P tokens rows metrics d) :
    Reboots tokens' metrics' d (d.reboot tokens' metrics') where
  sys := rfl
  used identity p' hp' := by
    obtain ⟨p, hp, -⟩ := Option.map_eq_some_iff.mp hp'
    exact hd.used identity p hp
  peers identity p' hp' := by
    obtain ⟨p, hp, rfl⟩ := Option.map_eq_some_iff.mp hp'
    refine ⟨identity, p, p.outbox, hp, List.Sublist.refl _, ?_⟩
    have hsame : p.outbox.map (readdress identity) = p.outbox := by
      refine (List.map_congr_left fun frames hframes => ?_).trans (List.map_id _)
      cases hd.outbox identity p hp frames hframes with
      | register => rfl
      | report terminalId idleSeconds tokensUsed now => rfl
    rw [hsame]

end Deployment

/-- The window of a prompt opens, and its readings are sent. -/
def Sample.reports : List Deployment.Move :=
  [.node [1] (.task (.spawned 0 0 true)), .node [1] (.task (.resume 0 0 true)),
    .report [1] "m-t0" (.fin 1) 5 10, .arrive [1], .server (.run 0 {})]

namespace Deployment

/-- The process of the sample goes on reporting to the server that has booted again. -/
theorem unreachable_sample : ∃ d d₂,
    run (step Sample.framed) Sample.deployment Sample.prompted = some d ∧
      run (step Sample.framed) (d.reboot (fun _ => some "token") ⟨[], []⟩) Sample.reports =
        some d₂ ∧
      (d₂.sys.tasks 0).map (·.pc.isDone) = some true ∧
      d₂.sys.server.registry.nodes "n" = none ∧ d₂.sys.server.metrics = ⟨[], []⟩ := by
  have hruns : ((run (step Sample.framed) Sample.deployment Sample.prompted).bind fun d =>
      (run (step Sample.framed) (d.reboot (fun _ => some "token") ⟨[], []⟩) Sample.reports).map
        fun d₂ => (d.used, (d.peers [1]).map (·.outbox.length),
          (d₂.sys.tasks 0).map (·.pc.isDone))) = some ({[1]}, some 0, some true) := by
    decide +kernel
  obtain ⟨d, hd, h⟩ := Option.bind_eq_some_iff.mp hruns
  obtain ⟨d₂, hd₂, hobserved⟩ := Option.map_eq_some_iff.mp h
  obtain ⟨hused, houtbox, hdone⟩ := Prod.mk.inj hobserved |>.imp_right Prod.mk.inj
  have hsettled : d.Settled := by
    intro identity p hp frames hframes
    have hmem := (run_wired hd).used identity p hp
    rw [hused] at hmem
    obtain rfl := Finset.mem_singleton.mp hmem
    rw [hp, Option.map_some, Option.some_inj, List.length_eq_zero_iff] at houtbox
    rw [houtbox] at hframes
    cases hframes
  obtain ⟨hnodes, -, hmetrics, -⟩ :=
    unreachable hd hsettled (reboots_reboot (run_wired hd)) (by decide) hd₂
  exact ⟨d, d₂, hd, hd₂, hdone, hnodes "n", hmetrics⟩

end Deployment
