/-
Where the prompts of a node come from.

The schedulers of a process are made of the `START`s that its socket has handed it,
and these the server has made of the assignments of its matches.

* `Scheduling.Effect.plan` — what a scheduler was made of never changes;
* `Deployment.prompts_assigned` — in every run of a deployment, a prompt that a
  process feeds to an agent is the entry of an assignment to its own node;
* `Deployment.keys_confined` — a process holds keys of the matches of its node only,
  and has its node's token.
-/
import AgenticJuggling.Deployment

open Transition

namespace SchedulerState

/-- What a scheduler was made of: its match and its entries. -/
def plan (o : SchedulerState) : MatchId × List FireTask := (o.matchId, o.jobs.map FireJob.task)

@[simp] theorem plan_setPhase (o : SchedulerState) (i : ℕ) (phase : JobPhase) :
    (o.setPhase i phase).plan = o.plan := by
  refine Prod.ext rfl ?_
  show (o.jobs.modify i _).map FireJob.task = o.jobs.map FireJob.task
  refine List.ext_getElem? fun j => ?_
  rw [List.getElem?_map, List.getElem?_map, List.getElem?_modify, Option.map_eq_map,
    Option.map_map]
  congr 1
  funext job
  by_cases hij : i = j
  · simp [hij]
  · simp [hij]

@[simp] theorem plan_appendWindow (o : SchedulerState) (window : WindowId) :
    (o.appendWindow window).plan = o.plan := rfl

@[simp] theorem plan_stopped (o : SchedulerState) : o.stopped.plan = o.plan := by
  refine Prod.ext rfl ?_
  show (o.jobs.mapIdx _).map FireJob.task = o.jobs.map FireJob.task
  refine List.ext_getElem? fun j => ?_
  rw [List.getElem?_map, List.getElem?_map, List.getElem?_mapIdx, Option.map_map]
  congr 1
  funext job
  dsimp only [Function.comp]
  split
  · rfl
  · rfl

@[simp] theorem plan_ofTasks (agentname : Json) (matchId : MatchId) (tasks : List FireTask) :
    (ofTasks agentname matchId tasks).plan = (matchId, tasks) := by
  refine Prod.ext rfl ?_
  show (tasks.map _).map FireJob.task = tasks
  rw [List.map_map]
  exact List.map_id tasks

end SchedulerState

namespace Scheduling

/-- The scheduler `id` of `s'` is one of `s`, with what it was made of. -/
def Inherits (s : Scheduling) (id : SchedulerId) (o' : SchedulerState) : Prop :=
  ∃ o, s.schedulers id = some o ∧ o'.plan = o.plan

theorem Inherits.of_put {s : Scheduling} {id id' : SchedulerId} {o o' : SchedulerState}
    (hs : ∃ o₀, s.schedulers id = some o₀ ∧ o.plan = o₀.plan)
    (h : (s.put id o).schedulers id' = some o') : s.Inherits id' o' := by
  rw [schedulers_put] at h
  split at h
  · next hid =>
    obtain rfl := Option.some.inj h
    exact hid ▸ hs
  · exact ⟨o', h, rfl⟩

/-- **What a scheduler was made of never changes.** -/
theorem Effect.plan {s s' : Scheduling} (h : Effect s s') {id : SchedulerId}
    {o' : SchedulerState} (ho : s'.schedulers id = some o') :
    s.Inherits id o' ∨ s.schedulers id = none := by
  cases h with
  | unwraps crypto => exact .inl ⟨o', ho, rfl⟩
  | @starts id' agentname matchId tasks hnew =>
    rw [schedulers_put] at ho
    split at ho
    · next hid => exact .inr (hid ▸ hnew)
    · exact .inl ⟨o', ho, rfl⟩
  | @stops id' o hold =>
    rw [schedulers_stop] at ho
    split at ho
    · next hid =>
      obtain rfl := Option.some.inj ho
      exact .inl ⟨o, hid ▸ hold, SchedulerState.plan_stopped o⟩
    · exact .inl ⟨o', ho, rfl⟩
  | @proceeds id' i o job hjob hphase phase hopening =>
    exact .inl (Inherits.of_put ⟨o, (job_eq_some.mp hjob).1, SchedulerState.plan_setPhase ..⟩ ho)
  | @opens id' i o job hjob hlive phase =>
    have hplan := SchedulerState.plan_setPhase
      (o.appendWindow ⟨id', i, job.task.terminalId⟩) i phase
    exact .inl (Inherits.of_put ⟨o, (job_eq_some.mp hjob).1, hplan⟩ ho)
  | @registers id' i o job hjob hlive hopening =>
    exact .inl (Inherits.of_put ⟨o, (job_eq_some.mp hjob).1, SchedulerState.plan_setPhase ..⟩ ho)

/-- A step of a task makes no scheduler. -/
theorem inherits_of_task {P : Primitives} {s s' : Scheduling} {a : Act} (ha : a.IsTask)
    (h : s.step P a = some s') {id : SchedulerId} {o' : SchedulerState}
    (ho : s'.schedulers id = some o') : s.Inherits id o' := by
  obtain hinherits | hnone := (step_effect h).plan ho
  · exact hinherits
  · have hsame := (step_task ha h).2 id
    rw [ho, hnone] at hsame
    cases hsame

end Scheduling

namespace NodeMain

variable {P : Primitives}

/-- The `START` that a step handles, as far as `on_start` can read it. -/
def Handles (agent : String) (a : Act) (f : StartFields) (now : ℚ) : Prop :=
  ∃ payload saves, a = .start payload now saves ∧ StartFields.ofPayload agent payload = some f

/-- **Where the schedulers of a process come from.** -/
theorem schedulers_of_step {agent : String} {s s' : NodeMain} {a : Act}
    (h : s.step P agent a = some s') {id : SchedulerId} {o' : SchedulerState}
    (ho : s'.scheduling.schedulers id = some o') : s.scheduling.Inherits id o' ∨
      ∃ f now, Handles agent a f now ∧
        o' = (SchedulerState.start f.agentname f.matchId f.t0 f.schedule now).1 := by
  cases a with
  | start payload now saves =>
    obtain rfl := step_start h
    obtain heq | ⟨f, crypto, hf, -, ⟨-, heq⟩ | ⟨-, heq⟩⟩ :=
      onStart_cases (P := P) agent s payload now saves
    · rw [heq] at ho
      exact .inl ⟨o', ho, rfl⟩
    · rw [heq] at ho
      exact .inl ⟨o', ho, rfl⟩
    · rw [heq, schedulers_schedule] at ho
      split at ho
      · exact .inr ⟨f, now, ⟨payload, saves, rfl, hf⟩, (Option.some.inj ho).symm⟩
      · exact .inl ⟨o', ho, rfl⟩
  | stop =>
    obtain rfl := Option.some.inj h
    obtain ⟨heq, -⟩ | ⟨id', o, -, hold, heq⟩ := s.onStop_scheduling
    · rw [heq] at ho
      exact .inl ⟨o', ho, rfl⟩
    · rw [heq, Scheduling.schedulers_stop] at ho
      split at ho
      · next hid =>
        obtain rfl := Option.some.inj ho
        exact .inl ⟨o, hid ▸ hold, SchedulerState.plan_stopped o⟩
      · exact .inl ⟨o', ho, rfl⟩
  | task a =>
    obtain ⟨scheduling, htask, hstep, rfl⟩ := step_task h
    exact .inl (Scheduling.inherits_of_task htask hstep ho)
  | raised id' =>
    obtain rfl := Option.some.inj h
    exact .inl ⟨o', ho, rfl⟩

theorem unwrapMatchKey_eq_some {c crypto : NodeCrypto} {matchId : MatchId}
    {encryptedMatchKey : Json} (h : c.unwrapMatchKey P matchId encryptedMatchKey = some crypto) :
    ∃ text sessionKey matchKey, encryptedMatchKey = .str text ∧ c.sessionKey = some sessionKey ∧
      P.openBlob sessionKey text none = some matchKey ∧
      crypto = { c with matchKeys := c.matchKeys.set matchId matchKey } := by
  simp only [NodeCrypto.unwrapMatchKey, Option.bind_eq_bind, Option.bind_eq_some_iff] at h
  obtain ⟨text, htext, sessionKey, hsession, matchKey, hopen, heq⟩ := h
  refine ⟨text, sessionKey, matchKey, ?_, hsession, hopen, (Option.some.inj heq).symm⟩
  cases encryptedMatchKey with
  | str s => rw [Option.some.inj htext]
  | _ => cases htext

/-- **Where the keys of a process come from.** -/
theorem crypto_of_step {agent : String} {s s' : NodeMain} {a : Act}
    (h : s.step P agent a = some s') :
    s'.scheduling.crypto.sessionKey = s.scheduling.crypto.sessionKey ∧
      ∀ m key, s'.scheduling.crypto.matchKeys m = some key →
        s.scheduling.crypto.matchKeys m = some key ∨
          ∃ f now, Handles agent a f now ∧ f.matchId = m := by
  cases a with
  | start payload now saves =>
    obtain rfl := step_start h
    have hunwrapped : ∀ {f crypto}, StartFields.ofPayload agent payload = some f →
        s.scheduling.crypto.unwrapMatchKey P f.matchId f.encryptedMatchKey = some crypto →
        crypto.sessionKey = s.scheduling.crypto.sessionKey ∧
          ∀ m key, crypto.matchKeys m = some key → s.scheduling.crypto.matchKeys m = some key ∨
            ∃ f' now', Handles agent (.start payload now saves) f' now' ∧ f'.matchId = m := by
      intro f crypto hf hcrypto
      obtain ⟨text, sessionKey, matchKey, -, -, -, rfl⟩ := unwrapMatchKey_eq_some hcrypto
      refine ⟨rfl, fun m key hkey => ?_⟩
      by_cases hm : m = f.matchId
      · exact .inr ⟨f, now, ⟨payload, saves, rfl, hf⟩, hm.symm⟩
      · exact .inl ((Dict.set_of_ne _ hm _).symm.trans hkey)
    obtain heq | ⟨f, crypto, hf, hcrypto, ⟨-, heq⟩ | ⟨-, heq⟩⟩ :=
      onStart_cases (P := P) agent s payload now saves
    · rw [heq]
      exact ⟨rfl, fun m key hkey => .inl hkey⟩
    · rw [heq]
      exact hunwrapped hf hcrypto
    · rw [heq]
      exact hunwrapped hf hcrypto
  | stop =>
    obtain rfl := Option.some.inj h
    obtain ⟨heq, -⟩ | ⟨id', o, -, -, heq⟩ := s.onStop_scheduling
    · rw [heq]
      exact ⟨rfl, fun m key hkey => .inl hkey⟩
    · rw [heq, Scheduling.stop]
      dsimp only
      split
      · exact ⟨rfl, fun m key hkey => .inl hkey⟩
      · exact ⟨rfl, fun m key hkey => .inl (Dict.pop_eq_some.mp hkey).2⟩
  | task a =>
    obtain ⟨scheduling, htask, hstep, rfl⟩ := step_task h
    rw [(Scheduling.step_task htask hstep).1]
    exact ⟨rfl, fun m key hkey => .inl hkey⟩
  | raised id' =>
    obtain rfl := Option.some.inj h
    exact ⟨rfl, fun m key hkey => .inl hkey⟩

end NodeMain

/-! ### What a `START` makes of an assignment -/

/-- The task is made of the entry: it waits for its delay, and decrypts its prompt
under whatever key it was sealed with. -/
def SealedTask (P : Primitives) (m : MatchId) (task : FireTask) (entry : PromptEntry) : Prop :=
  task.delay = .fin entry.delay ∧ ∃ key nonce, task.encryptedPrompt =
    .str (P.sealBlob key nonce (utf8 entry.prompt) (some (utf8 m)))

/-- **What is decrypted is the prompt of the entry**, under whichever key. -/
theorem SealedTask.fire_eq {P : Primitives} (hP : P.Ideal) {m : MatchId} {task : FireTask}
    {entry : PromptEntry} (h : SealedTask P m task entry) {crypto : NodeCrypto} {prompt : String}
    (hfire : task.fire P crypto m = some prompt) : prompt = entry.prompt := by
  obtain ⟨-, key, nonce, hprompt⟩ := h
  rw [FireTask.fire, hprompt] at hfire
  simp only [NodeCrypto.decryptPrompt, Json.asStr, Option.bind_eq_bind, Option.bind_eq_some_iff,
    Option.some.injEq] at hfire
  obtain ⟨matchKey, -, text, rfl, data, hopen, hdecode⟩ := hfire
  obtain ⟨-, -, rfl⟩ := Primitives.eq_of_openBlob_sealBlob hP hopen
  rw [decodeUtf8_utf8] at hdecode
  exact (Option.some.inj hdecode).symm

theorem SchedulerState.createTasks_encryptSchedule {P : Primitives} {c : CryptoManager}
    {m : MatchId} (elapsed : PyFloat) {schedule : List PromptEntry} :
    ∀ {nonces : ℕ → Nonce} {encrypted : List Json} (i : ℕ),
      c.encryptSchedule P m nonces schedule = some encrypted →
        ∃ tasks, createTasks m elapsed i encrypted = (tasks, false) ∧
          List.Forall₂ (SealedTask P m) tasks schedule := by
  induction schedule with
  | nil =>
    intro nonces encrypted i h
    obtain rfl := Option.some.inj h
    exact ⟨[], rfl, .nil⟩
  | cons entry schedule ih =>
    intro nonces encrypted i h
    obtain ⟨blob, hblob, h⟩ := Option.bind_eq_some_iff.mp h
    obtain ⟨rest, hrest, h⟩ := Option.bind_eq_some_iff.mp h
    obtain rfl := Option.some.inj h
    obtain ⟨tasks, htasks, hsealed⟩ := ih (i + 1) hrest
    obtain ⟨matchKey, -, hblob⟩ := Option.bind_eq_some_iff.mp hblob
    obtain rfl := Option.some.inj hblob
    let task : FireTask :=
      { delay := .fin entry.delay
        wait := MatchScheduler.max0 ((PyFloat.fin entry.delay).sub elapsed)
        terminalId := m ++ "-t" ++ toString i
        encryptedPrompt :=
          .str (P.sealBlob matchKey (nonces 0) (utf8 entry.prompt) (some (utf8 m))) }
    have hfire : fireTask m elapsed i (.obj [("delay", .float (.fin entry.delay)),
        ("encrypted_prompt", task.encryptedPrompt)]) = some task := by
      simp [fireTask, Json.lookup, Json.asNumber, task]
    refine ⟨task :: tasks, ?_, .cons ⟨rfl, matchKey, nonces 0, rfl⟩ hsealed⟩
    rw [createTasks, hfire]
    dsimp only
    rw [htasks]

/-- The scheduler that `on_start` makes of a `START` for assignment `na` of match `m`. -/
theorem start_of_wraps {P : Primitives} {sessionKey : Bytes} {m : MatchId} {t0 : ℚ}
    {na : NodeAssignment} {payload : Json} (h : Wraps P sessionKey m t0 na payload)
    {agent : String} {f : StartFields} (hf : StartFields.ofPayload agent payload = some f)
    (now : ℚ) : f.matchId = m ∧ ∃ tasks,
      SchedulerState.start f.agentname f.matchId f.t0 f.schedule now =
        (.ofTasks (.str na.agentname) m tasks, false) ∧
      List.Forall₂ (SealedTask P m) tasks na.schedule := by
  obtain ⟨matchKey, nonce, nonces, encrypted, c, -, hencrypted, rfl⟩ := h
  simp [StartFields.ofPayload, MatchManager.startPayload, Json.lookup, Json.asStr] at hf
  subst hf
  obtain ⟨tasks, htasks, hsealed⟩ :=
    SchedulerState.createTasks_encryptSchedule ((PyFloat.fin now).sub (.fin t0)) 0 hencrypted
  refine ⟨rfl, tasks, ?_, hsealed⟩
  rw [SchedulerState.start]
  simp only [Json.asNumber, Json.items]
  rw [htasks]

/-! ### Runs of a deployment -/

namespace Server

/-- What a process receives, the server has sent to it. -/
theorem mem_inbox {s : Server} {identity msgType : Bytes} {payload : Json}
    (h : (msgType, payload) ∈ s.inbox identity) :
    (∃ n type, msgType = MsgType.bytes type ∧ .sent n identity type payload ∈ s.trace) ∨
      (∃ n pk, msgType = ServerConnection.msgRegisterOk ∧
        .registered n identity pk payload ∈ s.trace) ∨
      msgType = ServerConnection.msgRegisterFail := by
  obtain ⟨e, he, hmessage⟩ := List.mem_filterMap.mp h
  cases e with
  | sent n identity' type payload' =>
    rw [Event.message] at hmessage
    split at hmessage
    · next hid =>
      obtain ⟨rfl, rfl⟩ := Prod.mk.inj (Option.some.inj hmessage)
      exact .inl ⟨n, type, rfl, hid ▸ he⟩
    · cases hmessage
  | registered n identity' pk reply =>
    rw [Event.message] at hmessage
    split at hmessage
    · next hid =>
      obtain ⟨rfl, rfl⟩ := Prod.mk.inj (Option.some.inj hmessage)
      exact .inr (.inl ⟨n, pk, rfl, hid ▸ he⟩)
    · cases hmessage
  | rejected identity' reason =>
    rw [Event.message] at hmessage
    split at hmessage
    · exact .inr (.inr (Prod.mk.inj (Option.some.inj hmessage)).1.symm)
    · cases hmessage
  | rowWritten tid matchId state t0 => cases hmessage
  | marked n state => cases hmessage

theorem sent_of_mem_inbox {s : Server} {identity : Bytes} {payload : Json}
    (h : (Peer.msgStart, payload) ∈ s.inbox identity) :
    ∃ n, .sent n identity .start payload ∈ s.trace := by
  obtain ⟨n, type, htype, hsent⟩ | ⟨n, pk, htype, -⟩ | htype := mem_inbox h
  · cases type with
    | start => exact ⟨n, hsent⟩
    | stop => exact absurd htype (by decide)
  · exact absurd htype (by decide)
  · exact absurd htype (by decide)

theorem registered_of_mem_inbox {s : Server} {identity : Bytes} {reply : Json}
    (h : (ServerConnection.msgRegisterOk, reply) ∈ s.inbox identity) :
    ∃ n pk, .registered n identity pk reply ∈ s.trace := by
  obtain ⟨n, type, htype, -⟩ | ⟨n, pk, -, hregistered⟩ | htype := mem_inbox h
  · cases type with
    | start => exact absurd htype (by decide)
    | stop => exact absurd htype (by decide)
  · exact ⟨n, pk, hregistered⟩
  · exact absurd htype (by decide)

end Server

namespace Deployment

variable {P : Platform} {tokens : Dict NodeId String} {rows : Dict MatchId MatchRecord}
  {metrics : MetricsStore}

/-- A scheduler was made of an assignment of its match to node `n`. -/
def Assigned (P : Primitives) (s : Server) (n : NodeId) (plan : MatchId × List FireTask) : Prop :=
  ∃ na ∈ s.assignments plan.1, na.nodeId = n ∧
    List.Forall₂ (SealedTask P plan.1) plan.2 na.schedule

/-- The server has sent a `START` to `identity`, for an assignment of match `m` to
node `n`. -/
def Addressed (P : Primitives) (s : Server) (identity : Bytes) (n : NodeId) (m : MatchId) : Prop :=
  ∃ payload sessionKey t0 na, .sent n identity .start payload ∈ s.trace ∧
    na ∈ s.assignments m ∧ na.nodeId = n ∧ Wraps P sessionKey m t0 na payload

/-- A process that has registered under `identity`, and what it holds. -/
structure Serves (P : Primitives) (s : Server) (identity : Bytes) (p : Peer) (main : NodeMain) :
    Prop where
  registered : ∃ pk reply sessionKey, .registered p.conf.nodeId identity pk reply ∈ s.trace ∧
    p.Derives P reply sessionKey ∧ main.scheduling.crypto.sessionKey = some sessionKey
  schedulers : ∀ id o, main.scheduling.schedulers id = some o →
    Assigned P s p.conf.nodeId o.plan
  keys : ∀ m key, main.scheduling.crypto.matchKeys m = some key →
    Addressed P s identity p.conf.nodeId m

/-- The server has lost nothing. -/
structure Grows (s s' : Server) : Prop where
  keeps : s.store.Keeps s'.store
  trace : ∀ e ∈ s.trace, e ∈ s'.trace

theorem Effect.grows {d d' : Deployment} (h : Effect P d d') :
    Grows d.sys.server d'.sys.server := by
  obtain heq | ⟨a, ha⟩ := h.sys
  · rw [heq]
    exact ⟨MatchStore.keeps_refl _, fun _ he => he⟩
  · obtain ⟨es, htrace, -⟩ := Sys.registers_of_step ha
    refine ⟨Sys.step_keeps ha, fun e he => ?_⟩
    rw [htrace]
    exact List.mem_append_left _ he

theorem Assigned.mono {s s' : Server} (hs : Grows s s') {n : NodeId}
    {plan : MatchId × List FireTask} (h : Assigned P.toPrimitives s n plan) :
    Assigned P.toPrimitives s' n plan := by
  obtain ⟨na, hna, hn, hsealed⟩ := h
  exact ⟨na, Server.mem_assignments_of_keeps hs.keeps hna, hn, hsealed⟩

theorem Addressed.mono {s s' : Server} (hs : Grows s s') {identity : Bytes} {n : NodeId}
    {m : MatchId} (h : Addressed P.toPrimitives s identity n m) :
    Addressed P.toPrimitives s' identity n m := by
  obtain ⟨payload, sessionKey, t0, na, hsent, hna, hn, hwraps⟩ := h
  exact ⟨payload, sessionKey, t0, na, hs.trace _ hsent,
    Server.mem_assignments_of_keeps hs.keeps hna, hn, hwraps⟩

theorem Serves.mono {s s' : Server} (hs : Grows s s') {identity : Bytes} {p : Peer}
    {main : NodeMain} (h : Serves P.toPrimitives s identity p main) :
    Serves P.toPrimitives s' identity p main := by
  obtain ⟨⟨pk, reply, sessionKey, hmem, hderives, hkey⟩, hschedulers, hkeys⟩ := h
  exact ⟨⟨pk, reply, sessionKey, hs.trace _ hmem, hderives, hkey⟩,
    fun id o ho => (hschedulers id o ho).mono hs, fun m key hkey => (hkeys m key hkey).mono hs⟩

/-- The fields are those of a `START` that the server has sent to `identity`, for an
assignment to node `n`. -/
def StartOf (P : Primitives) (s : Server) (identity : Bytes) (n : NodeId) (agent : String)
    (f : StartFields) : Prop :=
  ∃ sessionKey m t0 na payload, .sent n identity .start payload ∈ s.trace ∧
    Wraps P sessionKey m t0 na payload ∧ na ∈ s.assignments m ∧ na.nodeId = n ∧
    StartFields.ofPayload agent payload = some f

/-- A process that handles nothing but `START`s for its node. -/
theorem Serves.step {s : Server} {identity : Bytes} {p : Peer} {main main' : NodeMain}
    (h : Serves P.toPrimitives s identity p main) {a : NodeMain.Act}
    (ha : ∀ f now, NodeMain.Handles p.conf.agent a f now →
      StartOf P.toPrimitives s identity p.conf.nodeId p.conf.agent f)
    (hstep : main.step P.toPrimitives p.conf.agent a = some main') :
    Serves P.toPrimitives s identity (p.serve main') main' := by
  obtain ⟨hsession, hmatchKeys⟩ := NodeMain.crypto_of_step hstep
  obtain ⟨⟨pk, reply, sessionKey, hmem, hderives, hkey⟩, hschedulers, hkeys⟩ := h
  refine ⟨⟨pk, reply, sessionKey, hmem, hderives, hsession.trans hkey⟩, fun id o' ho => ?_,
    fun m key hm => ?_⟩
  · obtain ⟨o, ho, hplan⟩ | ⟨f, now, hhandles, rfl⟩ := NodeMain.schedulers_of_step hstep ho
    · rw [hplan]
      exact hschedulers id o ho
    · obtain ⟨sessionKey', m, t0, na, payload, -, hwraps, hna, hn, hf⟩ := ha f now hhandles
      obtain ⟨-, tasks, hstart, hsealed⟩ := start_of_wraps hwraps hf now
      rw [hstart, SchedulerState.plan_ofTasks]
      exact ⟨na, hna, hn, hsealed⟩
  · obtain hold | ⟨f, now, hhandles, rfl⟩ := hmatchKeys m key hm
    · exact hkeys m key hold
    · obtain ⟨sessionKey', m, t0, na, payload, hsent, hwraps, hna, hn, hf⟩ := ha f now hhandles
      obtain ⟨rfl, -⟩ := start_of_wraps hwraps hf now
      exact ⟨payload, sessionKey', t0, na, hsent, hna, hn, hwraps⟩

/-- A `START` that has reached a process goes back to its registration, and to an
assignment of the match to its node. -/
theorem Wired.backed {d : Deployment} (hd : Wired P tokens rows metrics d) {identity : Bytes}
    {p : Peer} (hp : d.peers identity = some p) {payload : Json}
    (h : (Peer.msgStart, payload) ∈ d.sys.server.inbox identity) :
    ∃ pk reply sessionKey m t0 na,
      .registered p.conf.nodeId identity pk reply ∈ d.sys.server.trace ∧
      .sent p.conf.nodeId identity .start payload ∈ d.sys.server.trace ∧
      Agreed P.toPrimitives pk reply sessionKey ∧ na ∈ d.sys.server.assignments m ∧
      na.nodeId = p.conf.nodeId ∧ Wraps P.toPrimitives sessionKey m t0 na payload := by
  obtain ⟨n, hsent⟩ := Server.sent_of_mem_inbox h
  obtain ⟨pre, post, htrace⟩ := List.append_of_mem hsent
  obtain ⟨acts, hacts⟩ := hd.reachable
  obtain ⟨pk, reply, sessionKey, m, t0, na, hmem, hagreed, hna, hn, hwraps⟩ :=
    Sys.backed_run hacts pre _ post htrace n identity payload rfl
  have hmem : .registered n identity pk reply ∈ d.sys.server.trace := by
    rw [htrace]
    exact List.mem_append_left _ hmem
  obtain ⟨p', hp', rfl, -⟩ := hd.replies n identity pk reply hmem
  obtain rfl := Option.some.inj (hp.symm.trans hp')
  exact ⟨pk, reply, sessionKey, m, t0, na, hmem, hsent, hagreed, hna, hn, hwraps⟩

/-- Every process that serves holds what the server has made for its node. -/
def AllServe (P : Platform) (d : Deployment) : Prop :=
  ∀ identity p, d.peers identity = some p → ∀ main, p.phase = .serving main →
    Serves P.toPrimitives d.sys.server identity p main

/-- A process that moves within its phase. -/
theorem Serves.of_same {s : Server} {identity : Bytes} {p p' : Peer} {main : NodeMain}
    (h : Serves P.toPrimitives s identity p main) (hconf : p'.conf = p.conf)
    (hkey : p'.privateKey = p.privateKey) : Serves P.toPrimitives s identity p' main := by
  obtain ⟨⟨pk, reply, sessionKey, hmem, hderives, hsession⟩, hschedulers, hkeys⟩ := h
  refine ⟨⟨pk, reply, sessionKey, hconf ▸ hmem, ?_, hsession⟩, hconf ▸ hschedulers,
    hconf ▸ hkeys⟩
  rw [Peer.Derives, hkey]
  exact hderives

theorem AllServe.move {d : Deployment} (hd : Wired P tokens rows metrics d) (hs : AllServe P d)
    {identity : Bytes} {p p' : Peer} (hp : d.peers identity = some p)
    (hstep : PeerStep P.toPrimitives identity (d.sys.server.inbox identity) p p')
    {main' : NodeMain} (hphase' : p'.phase = .serving main') :
    Serves P.toPrimitives d.sys.server identity p' main' := by
  obtain ⟨-, hconf, hprivate⟩ := hstep.sound (hd.sound identity p hp)
  -- A process that has not moved on holds what it held.
  have hkept : p'.phase = p.phase →
      Serves P.toPrimitives d.sys.server identity p' main' := fun heq =>
    (hs identity p hp main' (heq.symm.trans hphase')).of_same hconf hprivate
  cases hstep with
  | exits =>
    rw [Peer.exit] at hphase'
    split at hphase'
    · cases hphase'
    · cases hphase'
  | skips => exact hkept rfl
  | receives msgType payload _ hnext hreceives =>
    have hmem := List.mem_of_getElem? hnext
    cases hreceives (hd.sound identity p hp).stateFile with
    | refused hphase => cases hphase'
    | registered sessionKey hphase htype hderives =>
      obtain rfl := PeerPhase.serving.inj hphase'
      subst htype
      obtain ⟨n, pk, hregistered⟩ := Server.registered_of_mem_inbox hmem
      obtain ⟨q, hq, rfl, -⟩ := hd.replies n identity pk payload hregistered
      obtain rfl := Option.some.inj (hp.symm.trans hq)
      exact ⟨⟨pk, payload, sessionKey, hregistered, hderives, rfl⟩,
        fun id o ho => (by cases ho), fun m key hkey => (by cases hkey)⟩
    | ignored => exact hkept rfl
    | starts main main'' now saves hphase htype hnode =>
      obtain rfl := PeerPhase.serving.inj hphase'
      subst htype
      refine ((hs identity p hp main hphase).step ?_ hnode).of_same rfl rfl
      rintro f now' ⟨payload', saves', heq, hf⟩
      obtain ⟨rfl, -, -⟩ := NodeMain.Act.start.inj heq
      obtain ⟨pk, reply, sessionKey, m, t0, na, -, hsent, -, hna, hn, hwraps⟩ := hd.backed hp hmem
      exact ⟨sessionKey, m, t0, na, payload, hsent, hwraps, hna, hn, hf⟩
    | stops main hphase htype =>
      obtain rfl := PeerPhase.serving.inj hphase'
      refine ((hs identity p hp main hphase).step (a := .stop) ?_ rfl).of_same rfl rfl
      rintro f now ⟨payload', saves', heq, -⟩
      cases heq
  | proceeds main main'' a ha hphase hnode =>
    obtain rfl := PeerPhase.serving.inj hphase'
    refine ((hs identity p hp main hphase).step ?_ hnode).of_same rfl rfl
    rintro f now ⟨payload', saves', rfl, -⟩
    cases ha
  | reports terminalId idleSeconds tokensUsed now => exact hkept rfl
  | drops => exact hkept rfl

theorem AllServe.step {d d' : Deployment} {a : Move} (hd : Wired P tokens rows metrics d)
    (hs : AllServe P d) (h : d.step P a = some d') : AllServe P d' := by
  have heffect := step_cases h
  have hgrows := heffect.grows
  refine heffect.forall_peers (q := fun identity p => ∀ main, p.phase = .serving main →
    Serves P.toPrimitives d'.sys.server identity p main) ?_ ?_ ?_ ?_
  · exact fun identity p hp main hphase => (hs identity p hp main hphase).mono hgrows
  · intro identity conf privateKey home stateFile hnew hfile heq main hphase
    cases hphase
  · exact fun identity p p' hp hstep main hphase => (hs.move hd hp hstep hphase).mono hgrows
  · intro identity p frames rest hp houtbox main hphase
    refine Serves.mono hgrows ?_
    exact (hs identity p hp main hphase).of_same rfl rfl

theorem run_serves {moves : List Move} {d : Deployment}
    (hrun : run (step P) (boot tokens rows metrics) moves = some d) : AllServe P d := by
  refine (invariant_of_run (I := fun d => Wired P tokens rows metrics d ∧ AllServe P d)
    (fun _ _ _ hd h => ⟨hd.1.step h, hd.2.step hd.1 h⟩) ⟨wired_boot, ?_⟩ hrun).2
  intro identity p hp
  cases hp

/-! ### The prompts that are fed to agents -/

/-- A prompt that is handed to a window: where, of which match and entry, and its text. -/
structure Fed where
  identity : Bytes
  matchId : MatchId
  entry : ℕ
  prompt : String
  deriving DecidableEq

/-- The prompts that a step of a process hands to its windows: `_fire` has decrypted
them. -/
def feeds (P : Primitives) (identity : Bytes) (main : NodeMain) : NodeMain.Act → List Fed
  | .task (.resume id i _) =>
    match main.scheduling.job id i with
    | none => []
    | some (o, job) =>
      if job.turn = some .fires then
        (job.task.fire P main.scheduling.crypto o.matchId).toList.map fun prompt =>
          ⟨identity, o.matchId, i, prompt⟩
      else []
  | _ => []

/-- The prompts that a step hands to windows. -/
def fed (P : Platform) (d : Deployment) : Move → List Fed
  | .node identity a =>
    match d.peers identity with
    | none => []
    | some p =>
      match p.phase with
      | .serving main => feeds P.toPrimitives identity main a
      | _ => []
  | _ => []

theorem mem_fed {d : Deployment} {a : Move} {x : Fed} (h : x ∈ fed P d a) :
    ∃ p main id o job, d.peers x.identity = some p ∧ p.phase = .serving main ∧
      main.scheduling.schedulers id = some o ∧ o.jobs[x.entry]? = some job ∧
      o.matchId = x.matchId ∧
      job.task.fire P.toPrimitives main.scheduling.crypto o.matchId = some x.prompt := by
  cases a with
  | node identity a =>
    rw [fed] at h
    split at h
    · exact absurd h List.not_mem_nil
    · next p hp =>
      split at h
      · next main hphase =>
        cases a with
        | task a =>
          cases a with
          | resume id i binds =>
            rw [feeds] at h
            split at h
            · exact absurd h List.not_mem_nil
            · next o job hjob =>
              split at h
              · obtain ⟨prompt, hprompt, rfl⟩ := List.mem_map.mp h
                obtain ⟨ho, hjob⟩ := Scheduling.job_eq_some.mp hjob
                exact ⟨p, main, id, o, job, hp, hphase, ho, hjob, rfl,
                  Option.mem_toList.mp hprompt⟩
              · exact absurd h List.not_mem_nil
          | _ => exact absurd h List.not_mem_nil
        | _ => exact absurd h List.not_mem_nil
      · exact absurd h List.not_mem_nil
  | _ => exact absurd h List.not_mem_nil

/-- The prompt is the entry of an assignment of its match to the node whose process
it is handed to, and the process has the token of that node. -/
def Due (tokens : Dict NodeId String) (d : Deployment) (x : Fed) : Prop :=
  ∃ p na entry, d.peers x.identity = some p ∧ tokens p.conf.nodeId = some p.conf.token ∧
    na ∈ d.sys.server.assignments x.matchId ∧ na.nodeId = p.conf.nodeId ∧
    na.schedule[x.entry]? = some entry ∧ entry.prompt = x.prompt

theorem Due.step {d d' : Deployment} (hd : Wired P tokens rows metrics d) (h : Effect P d d')
    {x : Fed} (hx : Due tokens d x) : Due tokens d' x := by
  obtain ⟨p, na, entry, hp, htoken, hna, hn, hentry, hprompt⟩ := hx
  obtain ⟨p', hp', hconf, -⟩ := hd.follows h x.identity p hp
  exact ⟨p', na, entry, hp', by rw [hconf, htoken],
    Server.mem_assignments_of_keeps h.grows.keeps hna, by rw [hconf, hn], hentry, hprompt⟩

theorem due_of_mem_fed (hP : P.toPrimitives.Ideal) {d : Deployment}
    (hd : Wired P tokens rows metrics d) (hs : AllServe P d) {a : Move} {x : Fed}
    (h : x ∈ fed P d a) : Due tokens d x := by
  obtain ⟨p, main, id, o, job, hp, hphase, ho, hjob, hmatch, hfire⟩ := mem_fed h
  obtain ⟨⟨pk, reply, sessionKey, hmem, -⟩, hschedulers, -⟩ := hs x.identity p hp main hphase
  obtain ⟨na, hna, hn, hsealed⟩ := hschedulers id o ho
  obtain ⟨q, hq, -, htoken, -⟩ := hd.replies _ _ _ _ hmem
  obtain rfl := Option.some.inj (hp.symm.trans hq)
  -- The job is made of the entry at its position.
  obtain ⟨hi, rfl⟩ := List.getElem?_eq_some_iff.mp hjob
  have hi₁ : x.entry < o.plan.2.length := by
    show x.entry < (o.jobs.map FireJob.task).length
    rwa [List.length_map]
  have hi₂ : x.entry < na.schedule.length := hsealed.length_eq ▸ hi₁
  have htask := hsealed.get hi₁ hi₂
  have hget : o.plan.2.get ⟨x.entry, hi₁⟩ = o.jobs[x.entry].task := List.getElem_map ..
  rw [hget] at htask
  have hmatch' : o.plan.1 = x.matchId := hmatch
  rw [hmatch'] at hna htask
  rw [hmatch] at hfire
  exact ⟨p, na, _, hp, htoken, hna, hn, List.getElem?_eq_getElem hi₂,
    (htask.fire_eq hP hfire).symm⟩

/-- **Every prompt that an agent is fed is the one that was assigned**: in every run
of the server with any number of node processes, with messages lost and strangers on
the network, a prompt that a process feeds to an agent is the entry, at the same
position, of an assignment of its match to the node whose token the process has. -/
theorem prompts_assigned (hP : P.toPrimitives.Ideal) {moves : List Move} {d : Deployment}
    (hrun : run (step P) (boot tokens rows metrics) moves = some d) :
    ∀ x ∈ observed (step P) (fed P) (boot tokens rows metrics) moves, Due tokens d x := by
  have hinvariant : (Wired P tokens rows metrics d ∧ AllServe P d) ∧
      ∀ x ∈ [] ++ observed (step P) (fed P) (boot tokens rows metrics) moves, Due tokens d x :=
    invariant_of_observed
    (I := fun d seen => (Wired P tokens rows metrics d ∧ AllServe P d) ∧ ∀ x ∈ seen, Due tokens d x)
    (fun d seen a d' hd h => by
      obtain ⟨⟨hwired, hserve⟩, hseen⟩ := hd
      refine ⟨⟨hwired.step h, hserve.step hwired h⟩, fun x hx => ?_⟩
      refine Due.step hwired (step_cases h) ?_
      obtain hold | hnew := List.mem_append.mp hx
      · exact hseen x hold
      · exact due_of_mem_fed hP hwired hserve hnew)
    ⟨⟨wired_boot, fun identity p hp => (by cases hp)⟩, fun x hx => absurd hx List.not_mem_nil⟩ hrun
  rw [List.nil_append] at hinvariant
  exact hinvariant.2

theorem prompts_assigned_sample : ∃ d,
    run (step Sample.framed) Sample.deployment Sample.prompted = some d ∧
      ∃ x ∈ observed (step Sample.framed) (fed Sample.framed) Sample.deployment Sample.prompted,
        Due (fun _ => some "token") d x := by
  obtain ⟨d, hd⟩ := Option.isSome_iff_exists.mp
    (show (run (step Sample.framed) Sample.deployment Sample.prompted).isSome by decide +kernel)
  have hfed : ⟨[1], "m", 0, "go"⟩ ∈
      observed (step Sample.framed) (fed Sample.framed) Sample.deployment Sample.prompted := by
    rw [show observed (step Sample.framed) (fed Sample.framed) Sample.deployment Sample.prompted
      = [⟨[1], "m", 0, "go"⟩] by decide +kernel]
    exact List.mem_singleton_self _
  exact ⟨d, hd, _, hfed, prompts_assigned Primitives.framed_ideal hd _ hfed⟩

/-- **Who holds which keys.**  A process that serves has the token of its node, and for
each match whose key it holds the server has sent it a `START`, made of an assignment
of that match to its node. -/
theorem keys_confined {moves : List Move} {d : Deployment}
    (hrun : run (step P) (boot tokens rows metrics) moves = some d) {identity : Bytes} {p : Peer}
    {main : NodeMain} (hp : d.peers identity = some p) (hphase : p.phase = .serving main) :
    tokens p.conf.nodeId = some p.conf.token ∧
      ∀ m key, main.scheduling.crypto.matchKeys m = some key →
        Addressed P.toPrimitives d.sys.server identity p.conf.nodeId m := by
  obtain ⟨⟨pk, reply, sessionKey, hmem, -⟩, -, hkeys⟩ := run_serves hrun identity p hp main hphase
  obtain ⟨q, hq, -, htoken, -⟩ := (run_wired hrun).replies _ _ _ _ hmem
  obtain rfl := Option.some.inj (hp.symm.trans hq)
  exact ⟨htoken, hkeys⟩

theorem keys_confined_sample : ∃ d p main key,
    run (step Sample.framed) Sample.deployment Sample.prompted = some d ∧
      d.serving [1] = some (p, main) ∧ main.scheduling.crypto.matchKeys "m" = some key ∧
      Addressed Primitives.framed d.sys.server [1] p.conf.nodeId "m" := by
  obtain ⟨d, hd⟩ := Option.isSome_iff_exists.mp
    (show (run (step Sample.framed) Sample.deployment Sample.prompted).isSome by decide +kernel)
  have hholds : (((run (step Sample.framed) Sample.deployment Sample.prompted).bind
      (·.serving [1])).bind (·.2.scheduling.crypto.matchKeys "m")).isSome := by decide +kernel
  rw [hd] at hholds
  obtain ⟨key, hkey⟩ := Option.isSome_iff_exists.mp hholds
  obtain ⟨⟨p, main⟩, hserving, hkey⟩ := Option.bind_eq_some_iff.mp hkey
  obtain ⟨hp, hphase⟩ := serving_eq_some.mp hserving
  exact ⟨d, p, main, key, hd, hserving, hkey, (keys_confined hd hp hphase).2 "m" key hkey⟩

end Deployment
