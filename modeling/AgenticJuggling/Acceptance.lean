/-
A process and the server agree, whatever happens on the network.

A process sends one `REGISTER`, so the server accepts at most one under its identity;
the session key that the process derives from the reply is the one under which the
server wraps everything it sends there.

* `Deployment.run_once` — where the one `REGISTER` of a process can be;
* `Deployment.sessions_agree` — the process that a node's messages are addressed to
  has the session key that the server has for the node;
* `Deployment.starts_accepted` — a process that serves accepts every `START` it
  takes from its socket, and schedules exactly its assignment.
-/
import AgenticJuggling.Provenance

open Transition

namespace Deployment

variable {P : Platform} {tokens : Dict NodeId String} {rows : Dict MatchId MatchRecord}
  {metrics : MetricsStore}

/-- The message is a `REGISTER` from `identity`. -/
def Offers (identity : Bytes) (frames : List Frame) : Prop :=
  ∃ payload, MatchManager.registerOf frames = some (identity, payload)

/-- No message that the server has received is a `REGISTER` from `identity`. -/
def Unheard (d : Deployment) (identity : Bytes) : Prop :=
  ∀ tid frames, d.sys.queued tid = some frames → ¬ Offers identity frames

/-- The server has accepted no `REGISTER` from `identity`. -/
def Unanswered (d : Deployment) (identity : Bytes) : Prop :=
  ∀ n pk reply, .registered n identity pk reply ∉ d.sys.server.trace

/-- Where the `REGISTER` of process `p` is: ahead of everything in its outbox, with
the server, or answered or lost. -/
inductive Once (d : Deployment) (identity : Bytes) (p : Peer) : Prop
  | unsent (houtbox : ∀ frames ∈ p.outbox.tail, MatchManager.registerOf frames = none)
      (hqueued : d.Unheard identity) (hreplies : d.Unanswered identity) : Once d identity p
  | queued (tid : TaskId) (houtbox : ∀ frames ∈ p.outbox, MatchManager.registerOf frames = none)
      (hqueued : ∀ tid' frames, d.sys.queued tid' = some frames → Offers identity frames →
        tid' = tid)
      (hreplies : d.Unanswered identity) : Once d identity p
  | settled (houtbox : ∀ frames ∈ p.outbox, MatchManager.registerOf frames = none)
      (hqueued : d.Unheard identity)
      (hreplies : ∀ n pk reply n' pk' reply', .registered n identity pk reply ∈ d.sys.server.trace →
        .registered n' identity pk' reply' ∈ d.sys.server.trace → reply' = reply) :
      Once d identity p

/-- Of every process, and nothing has been heard from an identity that has not been
given out. -/
structure AllOnce (d : Deployment) : Prop where
  peers : ∀ identity p, d.peers identity = some p → Once d identity p
  used : ∀ identity, identity ∉ d.used → d.Unheard identity

/-- The server has heard and accepted no new `REGISTER` from `identity`. -/
structure Calmer (d d' : Deployment) (identity : Bytes) : Prop where
  queued : ∀ tid frames, d'.sys.queued tid = some frames → Offers identity frames →
    d.sys.queued tid = some frames
  replies : ∀ n pk reply, .registered n identity pk reply ∈ d'.sys.server.trace →
    .registered n identity pk reply ∈ d.sys.server.trace

theorem Calmer.unheard {d d' : Deployment} {identity : Bytes} (h : Calmer d d' identity)
    (hd : d.Unheard identity) : d'.Unheard identity :=
  fun tid frames hq hoffers => hd tid frames (h.queued tid frames hq hoffers) hoffers

theorem Once.of_calmer {d d' : Deployment} {identity : Bytes} (hcalm : Calmer d d' identity)
    {p p' : Peer} (h : Once d identity p)
    (houtbox : p'.outbox = p.outbox ∨ p'.outbox = p.outbox.tail ∨
      ∃ frames, MatchManager.registerOf frames = none ∧ p'.outbox = p.outbox ++ [frames]) :
    Once d' identity p' := by
  -- Whatever is no `REGISTER` stays so in the outbox.
  have hplain : (∀ frames ∈ p.outbox, MatchManager.registerOf frames = none) →
      ∀ frames ∈ p'.outbox, MatchManager.registerOf frames = none := by
    intro hnone frames hframes
    obtain heq | heq | ⟨new, hnew, heq⟩ := houtbox
    · exact hnone frames (heq ▸ hframes)
    · rw [heq] at hframes
      exact hnone frames (List.mem_of_mem_tail hframes)
    · rw [heq] at hframes
      obtain hold | hframes := List.mem_append.mp hframes
      · exact hnone frames hold
      · exact List.mem_singleton.mp hframes ▸ hnew
  have hunanswered : d.Unanswered identity → d'.Unanswered identity :=
    fun hnone n pk reply hmem => hnone n pk reply (hcalm.replies n pk reply hmem)
  cases h with
  | unsent hnone hqueued hreplies =>
    refine .unsent (fun frames hframes => ?_) (hcalm.unheard hqueued) (hunanswered hreplies)
    obtain heq | heq | ⟨new, hnew, heq⟩ := houtbox
    · exact hnone frames (heq ▸ hframes)
    · rw [heq] at hframes
      exact hnone frames (List.mem_of_mem_tail hframes)
    · rw [heq] at hframes
      cases hp : p.outbox with
      | nil =>
        rw [hp] at hframes
        exact absurd hframes List.not_mem_nil
      | cons first rest =>
        rw [hp] at hframes hnone
        obtain hold | hframes := List.mem_append.mp hframes
        · exact hnone frames hold
        · exact List.mem_singleton.mp hframes ▸ hnew
  | queued tid hnone hqueued hreplies =>
    exact .queued tid (hplain hnone) (fun tid' frames hq hoffers =>
      hqueued tid' frames (hcalm.queued tid' frames hq hoffers) hoffers) (hunanswered hreplies)
  | settled hnone hqueued hreplies =>
    exact .settled (hplain hnone) (hcalm.unheard hqueued) fun n pk reply n' pk' reply' h h' =>
      hreplies n pk reply n' pk' reply' (hcalm.replies n pk reply h) (hcalm.replies n' pk' reply' h')

theorem Once.unchanged {d d' : Deployment} {identity : Bytes} (hcalm : Calmer d d' identity)
    {p : Peer} (h : Once d identity p) : Once d' identity p := h.of_calmer hcalm (.inl rfl)

/-- A message arrives that is no `REGISTER` from `identity`. -/
theorem calmer_routed {d : Deployment} {frames : List Frame} {identity : Bytes}
    (h : ¬ Offers identity frames) : Calmer d (d.routed frames) identity := by
  refine ⟨fun tid frames' hq hoffers => ?_, fun n pk reply hmem => hmem⟩
  obtain rfl | hold := queued_routed hq
  · exact absurd hoffers h
  · exact hold

theorem offers_cons {identity : Bytes} {first : Frame} {rest : List Frame}
    (h : Offers identity (first :: rest)) : identity = first.bytes := by
  obtain ⟨payload, h⟩ := h
  cases rest with
  | nil => cases h
  | cons type rest =>
    cases rest with
    | nil => cases h
    | cons raw rest =>
      rw [MatchManager.registerOf] at h
      split at h
      · obtain ⟨payload', -, heq⟩ := Option.map_eq_some_iff.mp h
        exact (Prod.mk.inj heq).1.symm
      · cases h

/-- The `REGISTER` of a process arrives, or another message of it. -/
theorem Once.arrive {d : Deployment} {identity : Bytes} {p : Peer} {frames : List Frame}
    {rest : List (List Frame)} (h : Once d identity p) (houtbox : p.outbox = frames :: rest) :
    Once ((d.put identity { p with outbox := rest }).routed frames) identity
      { p with outbox := rest } := by
  have htail : rest = p.outbox.tail := by rw [houtbox, List.tail_cons]
  by_cases hoffers : Offers identity frames
  · -- It was the first message of all.
    have hplain : ¬ ∀ frames ∈ p.outbox, MatchManager.registerOf frames = none := by
      intro hnone
      obtain ⟨payload, hregister⟩ := hoffers
      rw [hnone frames (by rw [houtbox]; exact List.mem_cons_self)] at hregister
      cases hregister
    cases h with
    | unsent hnone hqueued hreplies =>
      refine .queued d.sys.next (htail ▸ hnone) (fun tid frames' hq hoffers' => ?_) hreplies
      by_contra hne
      have hq : (d.sys.tasks.set d.sys.next (Call.receive frames).task tid).bind (·.pc.frames)
          = some frames' := hq
      rw [Dict.set_of_ne _ hne] at hq
      exact hqueued tid frames' hq hoffers'
    | queued tid hnone hqueued hreplies => exact absurd hnone hplain
    | settled hnone hqueued hreplies => exact absurd hnone hplain
  · have hcalm : Calmer d ((d.put identity { p with outbox := rest }).routed frames) identity :=
      ⟨(calmer_routed (d := d) hoffers).queued, fun n pk reply hmem => hmem⟩
    refine h.of_calmer hcalm ?_
    exact .inr (.inl htail)

/-- The server handles one of its messages, or does something else. -/
theorem Once.serve {d : Deployment} (hd : Wired P tokens rows metrics d) {a : Act} {sys : Sys}
    (ha : a.receives = false) (hstep : Sys.step P d.sys a = some sys) {identity : Bytes} {p : Peer}
    (h : Once d identity p) : Once { d with sys := sys } identity p := by
  have hqueued : ∀ tid frames, sys.queued tid = some frames →
      d.sys.queued tid = some frames ∧ ∀ w, a ≠ .run tid w :=
    fun tid frames hq => Sys.queued_of_step hd.sysSound hstep ha hq
  obtain ⟨es, htrace, hes⟩ := Sys.registers_of_step hstep
  have hreplies : ∀ {n pk reply}, .registered n identity pk reply ∈ sys.server.trace →
      .registered n identity pk reply ∈ d.sys.server.trace ∨
        .registered n identity pk reply ∈ es := by
    intro n pk reply hmem
    rw [htrace] at hmem
    exact List.mem_append.mp hmem
  -- Unless the `REGISTER` of this process is accepted, there is nothing new to it.
  have hcalm : (∀ n pk reply, .registered n identity pk reply ∉ es) →
      Once { d with sys := sys } identity p := by
    intro hnone
    exact h.unchanged ⟨fun tid frames hq _ => (hqueued tid frames hq).1,
      fun n pk reply hmem => (hreplies hmem).resolve_right (hnone n pk reply)⟩
  obtain hnone | ⟨tid, frames, identity', n, pk, reply, hregisters, rfl⟩ := hes
  · refine hcalm fun n pk reply hmem => ?_
    have hreg := hnone _ hmem
    cases hreg
  · by_cases hid : identity = identity'
    · subst hid
      obtain ⟨kvs, hregister, -⟩ := hregisters.payload
      have hoffers : Offers identity frames := ⟨_, hregister⟩
      cases h with
      | unsent hnone hunheard hunanswered =>
        exact absurd hoffers (hunheard tid frames hregisters.queued)
      | settled hnone hunheard hunique =>
        exact absurd hoffers (hunheard tid frames hregisters.queued)
      | queued tid₀ hnone honly hunanswered =>
        obtain rfl := honly tid frames hregisters.queued hoffers
        refine .settled hnone (fun tid' frames' hq hoffers' => ?_) ?_
        · obtain ⟨w, hw⟩ := hregisters.runs
          obtain ⟨hold, hrun⟩ := hqueued tid' frames' hq
          obtain rfl := honly tid' frames' hold hoffers'
          exact hrun w hw
        · have hnew : ∀ {n' pk' reply'}, .registered n' identity pk' reply' ∈ sys.server.trace →
              reply' = reply := by
            intro n' pk' reply' hmem
            have hmem := List.mem_singleton.mp
              ((hreplies hmem).resolve_left (hunanswered n' pk' reply'))
            exact (Event.registered.inj hmem).2.2.2
          intro n₁ pk₁ reply₁ n₂ pk₂ reply₂ h₁ h₂
          rw [hnew h₁, hnew h₂]
    · refine hcalm fun n' pk' reply' hmem => hid ?_
      exact (Event.registered.inj (List.mem_singleton.mp hmem)).2.1

theorem AllOnce.used_step {d d' : Deployment} (hd : Wired P tokens rows metrics d)
    (hs : AllOnce d) (h : Effect P d d') : ∀ identity, identity ∉ d'.used → d'.Unheard identity := by
  intro identity hnew
  cases h with
  | launches identity' conf privateKey home stateFile hnew' hfile =>
    exact hs.used identity fun hmem => hnew (Finset.mem_insert_of_mem hmem)
  | moves identity' p p' hp hstep => exact hs.used identity hnew
  | arrives identity' p frames rest hp houtbox =>
    refine (calmer_routed (fun hoffers => hnew ?_)).unheard (hs.used identity hnew)
    obtain ⟨payload, hregister⟩ := hoffers
    have hmem : frames ∈ p.outbox := by
      rw [houtbox]
      exact List.mem_cons_self
    obtain ⟨rfl, -⟩ := (hd.outbox identity' p hp frames hmem).registerOf hregister
    exact hd.used identity p hp
  | intrudes first rest hp hauth =>
    have hold : identity ∉ d.used := fun hmem => hnew (Finset.mem_insert_of_mem hmem)
    refine (calmer_routed (fun hoffers => hnew ?_)).unheard (hs.used identity hold)
    rw [offers_cons hoffers]
    exact Finset.mem_insert_self ..
  | serves a sys ha hstep =>
    intro tid frames hq
    exact hs.used identity hnew tid frames (Sys.queued_of_step hd.sysSound hstep ha hq).1

theorem AllOnce.peers_step {d d' : Deployment} (hd : Wired P tokens rows metrics d)
    (hs : AllOnce d) (h : Effect P d d') : ∀ identity p, d'.peers identity = some p →
      Once d' identity p := by
  have hput : ∀ {identity p}, Once d' identity p →
      (∀ identity' q, identity' ≠ identity → d.peers identity' = some q → Once d' identity' q) →
      ∀ identity' q, d.peers.set identity p identity' = some q → Once d' identity' q := by
    intro identity p honce hothers identity' q hq
    by_cases hid : identity' = identity
    · subst hid
      rw [Dict.set_self, Option.some_inj] at hq
      exact hq ▸ honce
    · rw [Dict.set_of_ne _ hid] at hq
      exact hothers identity' q hid hq
  cases h with
  | launches identity conf privateKey home stateFile hnew hfile =>
    refine hput (.unsent (fun frames hframes => absurd hframes List.not_mem_nil)
      (hs.used identity hnew) fun n pk reply hmem => ?_) fun identity' q _ hq => ?_
    · obtain ⟨q, hq, -⟩ := hd.replies n identity pk reply hmem
      exact hnew (hd.used identity q hq)
    · refine Once.unchanged ?_ (hs.peers identity' q hq)
      exact ⟨fun tid frames hq _ => hq, fun n pk reply hmem => hmem⟩
  | moves identity p p' hp hstep =>
    refine hput ?_ fun identity' q _ hq => ?_
    · refine Once.of_calmer ?_ (hs.peers identity p hp) ?_
      · exact ⟨fun tid frames hq _ => hq, fun n pk reply hmem => hmem⟩
      · obtain heq | heq | ⟨frames, -, hplain, heq⟩ := hstep.outbox (hd.sound identity p hp)
        · exact .inl heq
        · exact .inr (.inl heq)
        · exact .inr (.inr ⟨frames, hplain, heq⟩)
    · refine Once.unchanged ?_ (hs.peers identity' q hq)
      exact ⟨fun tid frames hq _ => hq, fun n pk reply hmem => hmem⟩
  | arrives identity p frames rest hp houtbox =>
    refine hput ((hs.peers identity p hp).arrive houtbox) fun identity' q hid hq => ?_
    have hother : ¬ Offers identity' frames := by
      rintro ⟨payload, hregister⟩
      have hmem : frames ∈ p.outbox := by
        rw [houtbox]
        exact List.mem_cons_self
      exact hid ((hd.outbox identity p hp frames hmem).registerOf hregister).1
    refine Once.unchanged ?_ (hs.peers identity' q hq)
    exact ⟨(calmer_routed (d := d) hother).queued, fun n pk reply hmem => hmem⟩
  | intrudes first rest hp hauth =>
    intro identity p hp'
    have hp' : d.peers identity = some p := hp'
    have hother : ¬ Offers identity (first :: rest) := by
      intro hoffers
      rw [offers_cons hoffers, hp] at hp'
      cases hp'
    refine Once.unchanged ?_ (hs.peers identity p hp')
    exact ⟨(calmer_routed (d := d) hother).queued, fun n pk reply hmem => hmem⟩
  | serves a sys ha hstep =>
    exact fun identity p hp => (hs.peers identity p hp).serve hd ha hstep

theorem run_once {moves : List Move} {d : Deployment}
    (hrun : run (step P) (boot tokens rows metrics) moves = some d) : AllOnce d := by
  refine (invariant_of_run (I := fun d => Wired P tokens rows metrics d ∧ AllOnce d)
    (fun _ _ _ hd h => ⟨hd.1.step h, hd.2.peers_step hd.1 (step_cases h),
      hd.2.used_step hd.1 (step_cases h)⟩) ⟨wired_boot, ?_, ?_⟩ hrun).2
  · intro identity p hp
    cases hp
  · intro identity _ tid frames hq
    cases hq

/-! ### The two ends of a connection -/

/-- The key under which the server wraps what it sends to a process is the one that
the process has. -/
theorem key_agrees (hP : P.toPrimitives.Lawful) {d : Deployment}
    (hd : Wired P tokens rows metrics d) (hserve : AllServe P d) (honce : AllOnce d)
    {identity : Bytes} {p : Peer} {main : NodeMain} (hp : d.peers identity = some p)
    (hphase : p.phase = .serving main) {n : NodeId} {pk reply : Json} {sessionKey : Bytes}
    (hmem : .registered n identity pk reply ∈ d.sys.server.trace)
    (hagreed : Agreed P.toPrimitives pk reply sessionKey) :
    p.conf.nodeId = n ∧ main.scheduling.crypto.sessionKey = some sessionKey := by
  obtain ⟨q, hq, hn, -, rfl⟩ := hd.replies n identity pk reply hmem
  obtain rfl := Option.some.inj (hp.symm.trans hq)
  obtain ⟨⟨pk', reply', key, hmem', hderives, hkey⟩, -, -⟩ := hserve identity p hp main hphase
  -- There is one reply only.
  obtain rfl : reply = reply' := by
    cases honce.peers identity p hp with
    | unsent houtbox hunheard hunanswered => exact absurd hmem (hunanswered _ _ _)
    | queued tid houtbox honly hunanswered => exact absurd hmem (hunanswered _ _ _)
    | settled houtbox hunheard hunique => exact hunique _ _ _ _ _ _ hmem' hmem
  obtain ⟨p', hp', hsession⟩ := NodeProcess.registered_of_agreed hP
    (p := ({ crypto := { privateKey := p.privateKey } } : NodeProcess)) hagreed
  obtain rfl := Option.some.inj (hderives.symm.trans hp')
  exact ⟨hn, hkey.trans hsession⟩

/-- **Both ends have the same session key**: the process that the messages to a node
are addressed to is a process of that node, and has the key that the server has for
the node, as soon as it serves. -/
theorem sessions_agree (hP : P.toPrimitives.Lawful) {moves : List Move} {d : Deployment}
    (hrun : run (step P) (boot tokens rows metrics) moves = some d) {n : NodeId}
    {session : NodeSession} (hsession : d.sys.server.crypto.sessions n = some session)
    {identity : Bytes} (hid : d.sys.server.registry.identityFor n = some identity) :
    ∃ p, d.peers identity = some p ∧ p.conf.nodeId = n ∧ tokens n = some p.conf.token ∧
      ∀ main, p.phase = .serving main →
        main.scheduling.crypto.sessionKey = some session.sessionKey := by
  have hd := run_wired hrun
  obtain ⟨acts, hacts⟩ := hd.reachable
  obtain ⟨identity', pk, reply, hmem, hid', hagreed⟩ := Sys.keyed_run hacts n session hsession
  obtain rfl := Option.some.inj (hid.symm.trans hid')
  obtain ⟨p, hp, hn, htoken, -⟩ := hd.replies n identity pk reply hmem
  exact ⟨p, hp, hn, htoken, fun main hphase =>
    (key_agrees hP hd (run_serves hrun) (run_once hrun) hp hphase hmem hagreed).2⟩

theorem sessions_agree_sample : ∃ d p main session,
    run (step Sample.platform) Sample.deployment Sample.prompted = some d ∧
      d.serving [1] = some (p, main) ∧ d.sys.server.crypto.sessions "n" = some session ∧
      main.scheduling.crypto.sessionKey = some session.sessionKey := by
  have hruns : ((run (step Sample.platform) Sample.deployment Sample.prompted).bind fun d =>
      (d.serving [1]).bind fun x => (d.sys.server.crypto.sessions "n").map fun session =>
        (d.sys.server.registry.identityFor "n")) = some (some [1]) := by decide +kernel
  obtain ⟨d, hd, h⟩ := Option.bind_eq_some_iff.mp hruns
  obtain ⟨⟨p, main⟩, hserving, h⟩ := Option.bind_eq_some_iff.mp h
  obtain ⟨session, hsession, hid⟩ := Option.map_eq_some_iff.mp h
  obtain ⟨hp, hphase⟩ := serving_eq_some.mp hserving
  obtain ⟨q, hq, -, -, hkey⟩ :=
    sessions_agree Primitives.transparent_lawful hd hsession hid
  obtain rfl := Option.some.inj (hp.symm.trans hq)
  exact ⟨d, p, main, session, hd, hserving, hsession, hkey main hphase⟩

/-- At time `now` the process has handled a `START` for assignment `na` of match `m`:
it has a scheduler for all entries, none of them fired yet, and a reporter. -/
structure Started (P : Primitives) (main main' : NodeMain) (m : MatchId) (t0 : ℚ)
    (na : NodeAssignment) (now : ℚ) : Prop where
  scheduler : main'.scheduler = some main.starts
  schedules : ∃ tasks, main'.scheduling.schedulers main.starts =
      some (.ofTasks (.str na.agentname) m tasks) ∧
    List.Forall₂ (Fires P main'.scheduling.crypto m (now - t0)) tasks na.schedule
  others : ∀ id, id ≠ main.starts →
    main'.scheduling.schedulers id = main.scheduling.schedulers id
  reporter : main'.reporter = some main.starts ∧ main.starts ∈ main'.reporters

theorem started_of_wraps {P : Primitives} (hP : P.Lawful) {main : NodeMain} {sessionKey : Bytes}
    (hkey : main.scheduling.crypto.sessionKey = some sessionKey) {m : MatchId} {t0 : ℚ}
    {na : NodeAssignment} {payload : Json} (h : Wraps P sessionKey m t0 na payload)
    (agent : String) (now : ℚ) : ∃ main',
      main.step P agent (.start payload now true) = some main' ∧
        Started P main main' m t0 na now := by
  obtain ⟨p', scheduler, hp', hscheduler, hm, hfires⟩ := NodeProcess.onStart_wraps hP
    (p := ({ crypto := main.scheduling.crypto } : NodeProcess)) hkey h agent now
  obtain ⟨scheduler', hscheduler', hmain⟩ := NodeMain.onStart_accepted (s := main) rfl hp'
  obtain rfl := Option.some.inj (hscheduler.symm.trans hscheduler')
  -- The agent is the one of the assignment.
  have hagent : scheduler.agentname = .str na.agentname := by
    obtain ⟨matchId, t0', key, schedule, crypto, scheduler', -, -, -, -, -, hstart, heq⟩ :=
      NodeProcess.onStart_eq_some hp'
    rw [heq] at hscheduler
    obtain rfl := Option.some.inj hscheduler
    obtain ⟨-, -, hagentname⟩ := SchedulerState.start_eq_of_start hstart
    rw [hagentname]
    obtain ⟨matchKey, nonce, nonces, encrypted, c, -, -, rfl⟩ := h
    simp [MatchManager.startPayload, Json.lookup]
  have hstring : NodeMain.stringId payload := by
    obtain ⟨matchKey, nonce, nonces, encrypted, c, -, -, rfl⟩ := h
    simp [NodeMain.stringId, MatchManager.startPayload, Json.lookup, Json.asStr]
  refine ⟨main.onStart P agent payload now true, if_pos hstring, ?_⟩
  rw [hmain, hagent, hm]
  refine ⟨rfl, ⟨scheduler.tasks, Dict.set_self .., hfires⟩, fun id hid => Dict.set_of_ne _ hid _,
    rfl, Finset.mem_insert_self ..⟩

/-- What a process that serves makes of the `START` it takes next. -/
theorem start_taken (hP : P.toPrimitives.Lawful) {moves : List Move} {d : Deployment}
    (hrun : run (step P) (boot tokens rows metrics) moves = some d) {identity : Bytes} {p : Peer}
    {main : NodeMain} (hp : d.peers identity = some p) (hphase : p.phase = .serving main)
    {payload : Json}
    (hnext : (d.sys.server.inbox identity)[p.received]? = some (Peer.msgStart, payload))
    (now : ℚ) : ∃ main' m t0 na,
      d.step P (.deliver identity now true) = some (d.put identity (p.taken.serve main')) ∧
      na ∈ d.sys.server.assignments m ∧ na.nodeId = p.conf.nodeId ∧
      Started P.toPrimitives main main' m t0 na now := by
  have hd := run_wired hrun
  obtain ⟨pk, reply, sessionKey, m, t0, na, hmem, -, hagreed, hna, hn, hwraps⟩ :=
    hd.backed hp (List.mem_of_getElem? hnext)
  obtain ⟨-, hkey⟩ :=
    key_agrees hP hd (run_serves hrun) (run_once hrun) hp hphase hmem hagreed
  obtain ⟨main', hstep, hstarted⟩ := started_of_wraps hP hkey hwraps p.conf.agent now
  have hreceive : p.taken.receive P.toPrimitives Peer.msgStart payload now true =
      some (p.taken.serve main') := by
    have hphase : p.taken.phase = .serving main := hphase
    rw [Peer.receive, hphase]
    dsimp only
    rw [Peer.handler, if_pos rfl]
    dsimp only
    have hstep : main.step P.toPrimitives p.taken.conf.agent (.start payload now true)
        = some main' := hstep
    rw [hstep, Option.map_some]
  refine ⟨main', m, t0, na, ?_, hna, hn, hstarted⟩
  simp only [step, hp, hnext, hreceive, Option.bind_eq_bind, Option.bind_some]

/-- **A process that serves accepts every `START` it takes from its socket**, if it
can write its state file: it was made for an assignment of the process's node, and
the process schedules exactly that. -/
theorem starts_accepted (hP : P.toPrimitives.Lawful) {moves : List Move} {d : Deployment}
    (hrun : run (step P) (boot tokens rows metrics) moves = some d) {identity : Bytes} {p : Peer}
    {main : NodeMain} (hp : d.peers identity = some p) (hphase : p.phase = .serving main)
    {payload : Json}
    (hnext : (d.sys.server.inbox identity)[p.received]? = some (Peer.msgStart, payload))
    (now : ℚ) : ∃ d' p' main' m t0 na, d.step P (.deliver identity now true) = some d' ∧
      d'.peers identity = some p' ∧ p'.phase = .serving main' ∧
      na ∈ d.sys.server.assignments m ∧ na.nodeId = p.conf.nodeId ∧
      Started P.toPrimitives main main' m t0 na now := by
  obtain ⟨main', m, t0, na, hstep, hna, hn, hstarted⟩ := start_taken hP hrun hp hphase hnext now
  exact ⟨_, _, main', m, t0, na, hstep, Dict.set_self .., rfl, hna, hn, hstarted⟩

theorem starts_accepted_sample : ∃ d p main d' p' main' m t0 na,
    run (step Sample.platform) Sample.deployment Sample.registers = some d ∧
      d.serving [1] = some (p, main) ∧
      d.step Sample.platform (.deliver [1] 5 true) = some d' ∧ d'.peers [1] = some p' ∧
      p'.phase = .serving main' ∧ na ∈ d.sys.server.assignments m ∧
      na.nodeId = p.conf.nodeId ∧ Started Primitives.transparent main main' m t0 na 5 := by
  have hruns : ((run (step Sample.platform) Sample.deployment Sample.registers).bind fun d =>
      (d.serving [1]).bind fun x => ((d.sys.server.inbox [1])[x.1.received]?).map Prod.fst)
      = some Peer.msgStart := by decide +kernel
  obtain ⟨d, hd, h⟩ := Option.bind_eq_some_iff.mp hruns
  obtain ⟨⟨p, main⟩, hserving, h⟩ := Option.bind_eq_some_iff.mp h
  obtain ⟨⟨msgType, payload⟩, hnext, htype⟩ := Option.map_eq_some_iff.mp h
  obtain rfl : msgType = Peer.msgStart := htype
  obtain ⟨hp, hphase⟩ := serving_eq_some.mp hserving
  obtain ⟨d', p', main', m, t0, na, hstep, hp', hphase', hna, hn, hstarted⟩ :=
    starts_accepted Primitives.transparent_lawful hd hp hphase hnext 5
  exact ⟨d, p, main, d', p', main', m, t0, na, hd, hserving, hstep, hp', hphase', hna, hn,
    hstarted⟩

end Deployment
