/-
The server, the node processes and what is on its way between them.

A `Deployment` is the server with any number of node processes, each known by the
identity that the router's socket has given its connection.  What the server has
sent to an identity is in its trace, in order; a process takes the next of these
messages, or it is lost.  A process's own messages arrive in order, or are lost.
Processes are launched and end at any time, and strangers without a node's token
may send whatever they like.

* `Deployment.step_cases` — what one step can do;
* `Deployment.run_wired` — the server's part of a run is a run of the server alone;
  who has sent the messages that wait, and whom a registration goes back to.
-/
import AgenticJuggling.Attribution
import AgenticJuggling.Noninterference
import AgenticJuggling.Peer

open Transition

def MsgType.bytes : MsgType → Bytes
  | .start => Peer.msgStart
  | .stop => Peer.msgStop

/-- The message that the event puts on its way to `identity`: its type and its payload. -/
def Event.message (identity : Bytes) : Event → Option (Bytes × Json)
  | .sent _ identity' msgType payload =>
    if identity' = identity then some (msgType.bytes, payload) else none
  | .registered _ identity' _ reply =>
    if identity' = identity then some (ServerConnection.msgRegisterOk, reply) else none
  | .rejected identity' reason =>
    if identity' = identity then
      some (ServerConnection.msgRegisterFail, .obj [("reason", .str reason)])
    else none
  | _ => none

namespace Server

/-- What the server has sent to `identity`. -/
def inbox (s : Server) (identity : Bytes) : List (Bytes × Json) :=
  s.trace.filterMap (Event.message identity)

/-- The message is a `REGISTER` that passes the token check. -/
def authenticates (s : Server) (frames : List Frame) : Bool :=
  match MatchManager.registerOf frames with
  | some (_, .obj kvs) =>
    match Json.getD kvs "node_id" (.str "") with
    | .str n => s.registry.authenticate n (Json.getD kvs "token" (.str ""))
    | _ => false
  | _ => false

end Server

/-- A step that no message causes. -/
def NodeMain.Act.isOwn : NodeMain.Act → Bool
  | .task _ => true
  | .raised _ => true
  | _ => false

/-- The arrival of a message at the server. -/
def Act.receives : Act → Bool
  | .call (.receive _) => true
  | _ => false

/-! ### The server's end -/

/-- No task waits for a message to be handled once it has begun. -/
theorem MatchManager.frames_of_resume {P : Platform} (tid fresh : TaskId) (s : Server)
    {t : ServerTask} (w : World) (hkind : t.pc.OfKind t.kind) :
    (resume P tid fresh s t w).pc.frames = none := by
  by_contra hne
  obtain ⟨frames, hframes⟩ := Option.ne_none_iff_exists'.mp hne
  have hdispatch : t.kind = .dispatch := by
    have hk := resume_ofKind (P := P) tid fresh s t w hkind
    cases hpc : (resume P tid fresh s t w).pc with
    | received frames =>
      rw [hpc] at hk
      exact hk
    | _ => rw [hpc] at hframes; cases hframes
  exact hne (resume_frames tid fresh s t w (hdispatch ▸ hkind))

namespace Sys

variable {P : Platform}

/-- The message that a task waits to handle. -/
def queued (s : Sys) (tid : TaskId) : Option (List Frame) := (s.tasks tid).bind (·.pc.frames)

/-- A step that is not an arrival adds no message; the one it handles is gone. -/
theorem queued_of_step {s s' : Sys} {a : Act} (hs : s.Sound) (h : step P s a = some s')
    (ha : a.receives = false) {tid : TaskId} {frames : List Frame}
    (hq : s'.queued tid = some frames) :
    s.queued tid = some frames ∧ ∀ w, a ≠ .run tid w := by
  obtain ⟨u, hu, hframes⟩ := Option.bind_eq_some_iff.mp hq
  rcases step_cases h with ⟨c, rfl, rfl⟩ | ⟨tid', w, t, rfl, ht, -, rfl⟩
  · have hu : s.tasks.set s.next c.task tid = some u := hu
    by_cases hn : tid = s.next
    · rw [hn, Dict.set_self, Option.some_inj] at hu
      subst hu
      cases c with
      | receive frames => cases ha
      | _ => cases hframes
    · rw [Dict.set_of_ne _ hn] at hu
      exact ⟨Option.bind_eq_some_iff.mpr ⟨u, hu, hframes⟩, fun w => by simp⟩
  · rcases apply_tasks hu with ⟨rfl, rfl⟩ | ⟨-, delay, -, rfl⟩ | ⟨hne, u', hu', rfl | ⟨-, rfl⟩⟩
    · rcases settle_pc tid t (MatchManager.resume P tid s.next s.server t w) with hpc | hpc
      · rw [hpc, MatchManager.frames_of_resume tid s.next s.server w (hs.kind tid t ht)] at hframes
        cases hframes
      · rw [hpc] at hframes
        cases hframes
    · cases hframes
    · refine ⟨Option.bind_eq_some_iff.mpr ⟨u, hu', hframes⟩, fun w' heq => ?_⟩
      exact hne (Act.run.inj heq).1.symm
    · rcases cancelTask_pc u' with hpc | hpc
      · rw [hpc] at hframes
        refine ⟨Option.bind_eq_some_iff.mpr ⟨u', hu', hframes⟩, fun w' heq => ?_⟩
        exact hne (Act.run.inj heq).1.symm
      · rw [hpc] at hframes
        cases hframes

/-- A message waits because it waited before or because it has just arrived. -/
theorem queued_cases {s s' : Sys} {a : Act} (hs : s.Sound) (h : step P s a = some s')
    {tid : TaskId} {frames : List Frame} (hq : s'.queued tid = some frames) :
    s.queued tid = some frames ∨ a = .call (.receive frames) := by
  cases ha : a.receives with
  | false => exact .inl (queued_of_step hs h ha hq).1
  | true =>
    cases a with
    | run tid' w => cases ha
    | call c =>
      cases c with
      | receive frames' =>
        obtain rfl := Option.some.inj h
        have hq : (s.tasks.set s.next (Call.receive frames').task tid).bind (·.pc.frames)
            = some frames := hq
        by_cases hn : tid = s.next
        · rw [hn, Dict.set_self] at hq
          obtain rfl := Option.some.inj hq
          exact .inr rfl
        · rw [Dict.set_of_ne _ hn] at hq
          exact .inl hq
      | _ => cases ha

/-- Task `tid` handles a `REGISTER` from `identity` that passes the token check. -/
structure Registers (s : Sys) (a : Act) (tid : TaskId) (frames : List Frame) (identity : Bytes)
    (n : NodeId) (pk : Json) : Prop where
  runs : ∃ w, a = .run tid w
  queued : s.queued tid = some frames
  payload : ∃ kvs, MatchManager.registerOf frames = some (identity, .obj kvs) ∧
    Json.getD kvs "node_id" (.str "") = .str n ∧ Json.getD kvs "ecdh_pubkey" (.str "") = pk ∧
    s.server.registry.authenticate n (Json.getD kvs "token" (.str "")) = true

/-- **Who is answered with a `REGISTER_OK`.** -/
theorem registers_of_step {s s' : Sys} {a : Act} (h : step P s a = some s') :
    ∃ es, s'.server.trace = s.server.trace ++ es ∧ ((∀ e ∈ es, e.registration = none) ∨
      ∃ tid frames identity n pk reply, s.Registers a tid frames identity n pk ∧
        es = [.registered n identity pk reply]) := by
  rcases step_cases h with ⟨c, -, rfl⟩ | ⟨tid, w, t, rfl, ht, -, rfl⟩
  · exact ⟨[], (List.append_nil _).symm, .inl (by simp)⟩
  · rw [apply_server]
    rcases (MatchManager.resume_stretch (P := P) tid s.next s.server t w).registration with
      ⟨frames, identity, payload, hpc, hregister, hr⟩ | ⟨es, htrace, hes⟩
    · rw [hr]
      rcases s.server.handleRegister_cases identity payload w.priv (P := P.toPrimitives) with
        ⟨outcome, heq⟩ | ⟨reason, heq⟩ | ⟨kvs, n, rfl, hn, hauth, -, heq⟩
      · rw [heq]
        exact ⟨[], (List.append_nil _).symm, .inl (by simp)⟩
      · rw [heq]
        exact ⟨[_], rfl, .inl (by simp [Event.registration])⟩
      · rw [heq]
        rcases s.server.acceptRegister_cases identity n (Json.getD kvs "hostname" (.str ""))
          (Json.getD kvs "ip" (.str "")) (Json.getD kvs "ecdh_pubkey" (.str "")) w.priv
          (P := P.toPrimitives) with ⟨-, heq⟩ | ⟨b64, -, heq⟩
        · rw [heq]
          exact ⟨[], (List.append_nil _).symm, .inl (by simp)⟩
        · rw [heq]
          refine ⟨_, rfl, .inr ⟨tid, frames, identity, n, _, _, ⟨⟨w, rfl⟩, ?_, kvs, hregister, hn,
            rfl, hauth⟩, rfl⟩⟩
          rw [queued, ht, Option.bind_some, hpc]
          rfl
    · exact ⟨es, htrace, .inl hes⟩

/-- The configured tokens stay. -/
theorem allowedTokens_run {tokens : Dict NodeId String} {rows : Dict MatchId MatchRecord}
    {metrics : MetricsStore} {acts : List Act} {s : Sys}
    (hrun : run (step P) (boot tokens rows metrics) acts = some s) :
    s.server.registry.allowedTokens = tokens := (attributed_run hrun).authenticated.allowed

end Sys

structure Deployment where
  sys : Sys
  peers : Dict Bytes Peer
  /-- The identities that the router's socket has given out. -/
  used : Finset Bytes

namespace Deployment

def boot (tokens : Dict NodeId String) (rows : Dict MatchId MatchRecord)
    (metrics : MetricsStore) : Deployment where
  sys := Sys.boot tokens rows metrics
  peers := Dict.empty
  used := ∅

inductive Move
  /-- A process is launched, in a new directory or in that of a process that has ended. -/
  | launch (identity : Bytes) (conf : NodeConf) (privateKey : Bytes) (home : Option Bytes)
  /-- No reply to the `REGISTER` arrives in time. -/
  | timeout (identity : Bytes)
  /-- A process takes the next message from its socket; `saves` says whether the state
  file can be written. -/
  | deliver (identity : Bytes) (now : ℚ) (saves : Bool)
  | lose (identity : Bytes)
  /-- A prompt task or a reporter of a process goes on. -/
  | node (identity : Bytes) (a : NodeMain.Act)
  /-- A reporter sends the readings of a window. -/
  | report (identity : Bytes) (terminalId : String) (idleSeconds : PyFloat) (tokensUsed : ℤ)
      (now : ℚ)
  | exit (identity : Bytes)
  /-- The next message of a process arrives at the server. -/
  | arrive (identity : Bytes)
  | drop (identity : Bytes)
  | stranger (frames : List Frame)
  /-- A match operation is requested, or a task of the server goes on. -/
  | server (a : Act)

/-- The process behind `identity`, if it serves. -/
def serving (d : Deployment) (identity : Bytes) : Option (Peer × NodeMain) :=
  (d.peers identity).bind fun p =>
    match p.phase with
    | .serving main => some (p, main)
    | _ => none

theorem serving_eq_some {d : Deployment} {identity : Bytes} {p : Peer} {main : NodeMain} :
    d.serving identity = some (p, main) ↔
      d.peers identity = some p ∧ p.phase = .serving main := by
  rw [serving]
  constructor
  · intro h
    obtain ⟨q, hq, h⟩ := Option.bind_eq_some_iff.mp h
    split at h
    · next main' hphase =>
      obtain ⟨rfl, rfl⟩ := Prod.mk.inj (Option.some.inj h)
      exact ⟨hq, hphase⟩
    · cases h
  · rintro ⟨hp, hphase⟩
    rw [hp, Option.bind_some, hphase]

def put (d : Deployment) (identity : Bytes) (p : Peer) : Deployment :=
  { d with peers := d.peers.set identity p }

/-- The state file of a directory. -/
def directory (d : Deployment) : Option Bytes → Option (Option Json)
  | none => some none
  | some identity => (d.peers identity).bind fun p =>
    match p.phase with
    | .exited => some p.stateFile
    | _ => none

variable (P : Platform)

/-- The router's socket hands a message to the server. -/
def route (d : Deployment) (frames : List Frame) : Option Deployment :=
  (d.sys.step P (.call (.receive frames))).map fun sys => { d with sys := sys }

def step (d : Deployment) : Move → Option Deployment
  | .launch identity conf privateKey home =>
    if identity ∈ d.used then none
    else (d.directory home).map fun stateFile =>
      { d.put identity (.launched P.toPrimitives identity conf privateKey stateFile) with
        used := insert identity d.used }
  | .timeout identity => do
    let p ← d.peers identity
    match p.phase with
    | .registering => some (d.put identity p.exit)
    | _ => none
  | .deliver identity now saves => do
    let p ← d.peers identity
    let (msgType, payload) ← (d.sys.server.inbox identity)[p.received]?
    let p ← p.taken.receive P.toPrimitives msgType payload now saves
    some (d.put identity p)
  | .lose identity => do
    let p ← d.peers identity
    some (d.put identity p.taken)
  | .node identity a => do
    let p ← d.peers identity
    match p.phase with
    | .serving main =>
      if a.isOwn then
        (main.step P.toPrimitives p.conf.agent a).map fun main => d.put identity (p.serve main)
      else none
    | _ => none
  | .report identity terminalId idleSeconds tokensUsed now => do
    let p ← d.peers identity
    match p.phase with
    | .serving main =>
      if main.reporters.Nonempty ∧ (main.scheduling.registry.lookup terminalId).isSome then
        some (d.put identity (p.post
          ((Report.metrics terminalId idleSeconds tokensUsed).frames identity p.conf.nodeId now [])))
      else none
    | _ => none
  | .exit identity => do
    let p ← d.peers identity
    some (d.put identity p.exit)
  | .arrive identity => do
    let p ← d.peers identity
    match p.outbox with
    | [] => none
    | frames :: rest => (d.put identity { p with outbox := rest }).route P frames
  | .drop identity => do
    let p ← d.peers identity
    some (d.put identity { p with outbox := p.outbox.tail })
  | .stranger frames =>
    match frames with
    | [] => none
    | identity :: _ =>
      if (d.peers identity.bytes).isNone ∧ d.sys.server.authenticates frames = false then
        { d with used := insert identity.bytes d.used }.route P frames
      else none
  | .server a =>
    if a.receives then none
    else (d.sys.step P a).map fun sys => { d with sys := sys }

/-! ### One step -/

/-- What a step does to one process, given what the server has sent to it. -/
inductive PeerStep (P : Primitives) (identity : Bytes) (inbox : List (Bytes × Json)) (p : Peer) :
    Peer → Prop
  | exits : PeerStep P identity inbox p p.exit
  | skips : PeerStep P identity inbox p p.taken
  | receives (msgType : Bytes) (payload : Json) (p' : Peer)
      (hnext : inbox[p.received]? = some (msgType, payload))
      (hreceives : NodeMain.Saved p.stateFile → p.taken.Receives P msgType payload p') :
      PeerStep P identity inbox p p'
  | proceeds (main main' : NodeMain) (a : NodeMain.Act) (ha : a.isOwn = true)
      (hphase : p.phase = .serving main) (hstep : main.step P p.conf.agent a = some main') :
      PeerStep P identity inbox p (p.serve main')
  | reports (terminalId : String) (idleSeconds : PyFloat) (tokensUsed : ℤ) (now : ℚ) :
      PeerStep P identity inbox p (p.post
        ((Report.metrics terminalId idleSeconds tokensUsed).frames identity p.conf.nodeId now []))
  | drops : PeerStep P identity inbox p { p with outbox := p.outbox.tail }

/-- The deployment with one more message among the server's tasks. -/
def routed (d : Deployment) (frames : List Frame) : Deployment :=
  { d with sys := { d.sys with
      tasks := d.sys.tasks.set d.sys.next (Call.receive frames).task
      next := d.sys.next + 1 } }

/-- **What one step can do.** -/
inductive Effect (P : Platform) (d : Deployment) : Deployment → Prop
  | launches (identity : Bytes) (conf : NodeConf) (privateKey : Bytes) (home : Option Bytes)
      (stateFile : Option Json) (hnew : identity ∉ d.used)
      (hfile : d.directory home = some stateFile) :
      Effect P d { d.put identity
          (.launched P.toPrimitives identity conf privateKey stateFile) with
        used := insert identity d.used }
  | moves (identity : Bytes) (p p' : Peer) (hp : d.peers identity = some p)
      (hstep : PeerStep P.toPrimitives identity (d.sys.server.inbox identity) p p') :
      Effect P d (d.put identity p')
  | arrives (identity : Bytes) (p : Peer) (frames : List Frame) (rest : List (List Frame))
      (hp : d.peers identity = some p) (houtbox : p.outbox = frames :: rest) :
      Effect P d ((d.put identity { p with outbox := rest }).routed frames)
  | intrudes (identity : Frame) (rest : List Frame) (hp : d.peers identity.bytes = none)
      (hauth : d.sys.server.authenticates (identity :: rest) = false) :
      Effect P d ({ d with used := insert identity.bytes d.used }.routed (identity :: rest))
  | serves (a : Act) (sys : Sys) (ha : a.receives = false) (hstep : d.sys.step P a = some sys) :
      Effect P d { d with sys := sys }

variable {P}

theorem route_eq (d : Deployment) (frames : List Frame) :
    d.route P frames = some (d.routed frames) := rfl

theorem step_cases {d d' : Deployment} {a : Move} (h : d.step P a = some d') : Effect P d d' := by
  cases a with
  | launch identity conf privateKey home =>
    rw [step] at h
    split at h
    · cases h
    · next hnew =>
      obtain ⟨stateFile, hfile, rfl⟩ := Option.map_eq_some_iff.mp h
      exact .launches identity conf privateKey home stateFile hnew hfile
  | timeout identity =>
    obtain ⟨p, hp, h⟩ := Option.bind_eq_some_iff.mp h
    split at h
    · obtain rfl := Option.some.inj h
      exact .moves identity p _ hp .exits
    · cases h
  | deliver identity now saves =>
    obtain ⟨p, hp, h⟩ := Option.bind_eq_some_iff.mp h
    obtain ⟨⟨msgType, payload⟩, hmsg, h⟩ := Option.bind_eq_some_iff.mp h
    obtain ⟨p', hp', h⟩ := Option.bind_eq_some_iff.mp h
    obtain rfl := Option.some.inj h
    exact .moves identity p p' hp
      (.receives msgType payload p' hmsg fun hs =>
        Peer.receive_cases (p := p.taken) hs hp')
  | lose identity =>
    obtain ⟨p, hp, h⟩ := Option.bind_eq_some_iff.mp h
    obtain rfl := Option.some.inj h
    exact .moves identity p _ hp .skips
  | node identity a =>
    obtain ⟨p, hp, h⟩ := Option.bind_eq_some_iff.mp h
    split at h
    · next main hphase =>
      split at h
      · next ha =>
        obtain ⟨main', hstep, rfl⟩ := Option.map_eq_some_iff.mp h
        exact .moves identity p _ hp (.proceeds main main' a ha hphase hstep)
      · cases h
    · cases h
  | report identity terminalId idleSeconds tokensUsed now =>
    obtain ⟨p, hp, h⟩ := Option.bind_eq_some_iff.mp h
    split at h
    · split at h
      · obtain rfl := Option.some.inj h
        exact .moves identity p _ hp (.reports terminalId idleSeconds tokensUsed now)
      · cases h
    · cases h
  | exit identity =>
    obtain ⟨p, hp, h⟩ := Option.bind_eq_some_iff.mp h
    obtain rfl := Option.some.inj h
    exact .moves identity p _ hp .exits
  | arrive identity =>
    obtain ⟨p, hp, h⟩ := Option.bind_eq_some_iff.mp h
    split at h
    · cases h
    · next frames rest houtbox =>
      obtain rfl := Option.some.inj ((route_eq _ _).symm.trans h)
      exact .arrives identity p frames rest hp houtbox
  | drop identity =>
    obtain ⟨p, hp, h⟩ := Option.bind_eq_some_iff.mp h
    obtain rfl := Option.some.inj h
    exact .moves identity p _ hp .drops
  | stranger frames =>
    cases frames with
    | nil => cases h
    | cons identity rest =>
      rw [step] at h
      split at h
      · next hguard =>
        obtain rfl := Option.some.inj ((route_eq _ _).symm.trans h)
        exact .intrudes identity rest (Option.isNone_iff_eq_none.mp hguard.1) hguard.2
      · cases h
  | server a =>
    rw [step] at h
    split at h
    · cases h
    · next ha =>
      obtain ⟨sys, hstep, rfl⟩ := Option.map_eq_some_iff.mp h
      exact .serves a sys (by simpa using ha) hstep

/-! ### Who has sent what waits -/

/-- The messages that a process sends. -/
inductive FromPeer (P : Primitives) (identity : Bytes) (p : Peer) : List Frame → Prop
  | register : FromPeer P identity p (Peer.registerFrames P identity p.conf p.privateKey)
  | report (terminalId : String) (idleSeconds : PyFloat) (tokensUsed : ℤ) (now : ℚ) :
      FromPeer P identity p
        ((Report.metrics terminalId idleSeconds tokensUsed).frames identity p.conf.nodeId now [])

theorem registerOf_report (identity : Bytes) (n : NodeId) (terminalId : String)
    (idleSeconds : PyFloat) (tokensUsed : ℤ) (now : ℚ) : MatchManager.registerOf
      ((Report.metrics terminalId idleSeconds tokensUsed).frames identity n now []) = none := by
  have hne : utf8 "METRICS" ≠ utf8 "REGISTER" := by decide
  rw [Report.frames, MatchManager.registerOf, Report.msgType]
  dsimp only
  rw [if_neg hne]

theorem FromPeer.registerOf {identity : Bytes} {p : Peer} {frames : List Frame}
    (h : FromPeer P.toPrimitives identity p frames) {identity' : Bytes} {payload : Json}
    (hregister : MatchManager.registerOf frames = some (identity', payload)) :
    identity' = identity ∧ payload = registerPayload p.conf.nodeId p.conf.token p.conf.hostname
      p.conf.ip (({ privateKey := p.privateKey } : NodeCrypto).pubkeyB64 P.toPrimitives) ∧
    frames = Peer.registerFrames P.toPrimitives identity p.conf p.privateKey := by
  cases h with
  | register =>
    have htype : ServerConnection.msgRegister = utf8 "REGISTER" := rfl
    rw [Peer.registerFrames, MatchManager.registerOf] at hregister
    dsimp only at hregister
    rw [if_pos htype] at hregister
    obtain ⟨rfl, rfl⟩ := Prod.mk.inj (Option.some.inj hregister)
    exact ⟨rfl, rfl, rfl⟩
  | report terminalId idleSeconds tokensUsed now =>
    rw [registerOf_report] at hregister
    cases hregister

/-- The same process, wherever it has got to. -/
def SamePeer (p p' : Peer) : Prop := p'.conf = p.conf ∧ p'.privateKey = p.privateKey

theorem FromPeer.of_same {identity : Bytes} {p p' : Peer} {frames : List Frame}
    (h : FromPeer P.toPrimitives identity p frames) (hsame : SamePeer p p') :
    FromPeer P.toPrimitives identity p' frames := by
  cases h with
  | register =>
    rw [← hsame.1, ← hsame.2]
    exact .register
  | report terminalId idleSeconds tokensUsed now =>
    rw [← hsame.1]
    exact .report terminalId idleSeconds tokensUsed now

end Deployment

/-- The handlers of the process are in order, and `on_start` has written its state file. -/
structure Peer.Sound (p : Peer) : Prop where
  stateFile : NodeMain.Saved p.stateFile
  main : ∀ main, p.phase = .serving main → main.Sound ∧ NodeMain.Saved main.saved

namespace Deployment

theorem sound_ofCrypto (crypto : NodeCrypto) (saved : Option Json) :
    (NodeMain.ofCrypto crypto saved).Sound where
  tracked := Scheduling.tracked_boot crypto
  numbered _ _ := rfl
  current id h := by cases h

theorem sound_serve {p : Peer} (hs : p.Sound) {main : NodeMain} (hmain : main.Sound)
    (hsaved : NodeMain.Saved main.saved) : (p.serve main).Sound where
  stateFile := hs.stateFile
  main main' h := by
    obtain rfl := PeerPhase.serving.inj h
    exact ⟨hmain, hsaved⟩

theorem sound_exited {p : Peer} {stateFile : Option Json} (hs : NodeMain.Saved stateFile) :
    ({ p with stateFile := stateFile, phase := .exited } : Peer).Sound where
  stateFile := hs
  main main h := by cases h

variable {P : Platform}

/-- A step of a process leaves it in order, and the same process. -/
theorem PeerStep.sound {identity : Bytes} {inbox : List (Bytes × Json)} {p p' : Peer}
    (h : PeerStep P.toPrimitives identity inbox p p') (hs : p.Sound) :
    p'.Sound ∧ SamePeer p p' := by
  have hserve : ∀ {main main' : NodeMain} {a : NodeMain.Act}, p.phase = .serving main →
      main.step P.toPrimitives p.conf.agent a = some main' →
      main'.Sound ∧ NodeMain.Saved main'.saved := by
    intro main main' a hphase hstep
    obtain ⟨hmain, hsaved⟩ := hs.main main hphase
    exact ⟨NodeMain.step_sound hmain hstep, NodeMain.step_saved hsaved hstep⟩
  cases h with
  | exits =>
    rw [Peer.exit]
    split
    · next main hphase => exact ⟨sound_exited (hs.main main hphase).2, rfl, rfl⟩
    · exact ⟨sound_exited hs.stateFile, rfl, rfl⟩
  | skips => exact ⟨⟨hs.stateFile, hs.main⟩, rfl, rfl⟩
  | receives msgType payload _ hnext hreceives =>
    have htaken : p.taken.Sound := ⟨hs.stateFile, hs.main⟩
    cases hreceives hs.stateFile with
    | refused hphase => exact ⟨sound_exited hs.stateFile, rfl, rfl⟩
    | registered sessionKey hphase htype hderives =>
      exact ⟨sound_serve htaken (sound_ofCrypto _ _) hs.stateFile, rfl, rfl⟩
    | ignored => exact ⟨htaken, rfl, rfl⟩
    | starts main main' now saves hphase htype hstep =>
      obtain ⟨hmain, hsaved⟩ := hserve hphase hstep
      exact ⟨sound_serve htaken hmain hsaved, rfl, rfl⟩
    | stops main hphase htype =>
      obtain ⟨hmain, hsaved⟩ := hserve (a := .stop) hphase rfl
      exact ⟨sound_serve htaken hmain hsaved, rfl, rfl⟩
  | proceeds main main' a ha hphase hstep =>
    obtain ⟨hmain, hsaved⟩ := hserve hphase hstep
    exact ⟨sound_serve hs hmain hsaved, rfl, rfl⟩
  | reports terminalId idleSeconds tokensUsed now => exact ⟨⟨hs.stateFile, hs.main⟩, rfl, rfl⟩
  | drops => exact ⟨⟨hs.stateFile, hs.main⟩, rfl, rfl⟩

/-- What waits in the outbox of a process after a step of it. -/
theorem PeerStep.outbox {identity : Bytes} {inbox : List (Bytes × Json)} {p p' : Peer}
    (h : PeerStep P.toPrimitives identity inbox p p') (hs : p.Sound) :
    p'.outbox = p.outbox ∨ p'.outbox = p.outbox.tail ∨
      ∃ frames, FromPeer P.toPrimitives identity p frames ∧
        MatchManager.registerOf frames = none ∧ p'.outbox = p.outbox ++ [frames] := by
  cases h with
  | exits =>
    rw [Peer.exit]
    split
    · exact .inl rfl
    · exact .inl rfl
  | skips => exact .inl rfl
  | receives msgType payload _ _ hreceives =>
    cases hreceives hs.stateFile with
    | _ => exact .inl rfl
  | proceeds main main' a ha hphase hstep => exact .inl rfl
  | reports terminalId idleSeconds tokensUsed now =>
    exact .inr (.inr ⟨_, .report terminalId idleSeconds tokensUsed now,
      registerOf_report .., rfl⟩)
  | drops => exact .inr (.inl rfl)

section Wiring

variable {tokens : Dict NodeId String} {rows : Dict MatchId MatchRecord} {metrics : MetricsStore}

/-- **What holds of every deployment**: the server's part is a run of the server; a
message that waits is from a process, or does not authenticate; and a `REGISTER` that
was accepted is that of the process it is answered to. -/
structure Wired (P : Platform) (tokens : Dict NodeId String) (rows : Dict MatchId MatchRecord)
    (metrics : MetricsStore) (d : Deployment) : Prop where
  reachable : ∃ acts, run (Sys.step P) (Sys.boot tokens rows metrics) acts = some d.sys
  used : ∀ identity p, d.peers identity = some p → identity ∈ d.used
  sound : ∀ identity p, d.peers identity = some p → p.Sound
  outbox : ∀ identity p, d.peers identity = some p → ∀ frames ∈ p.outbox,
    FromPeer P.toPrimitives identity p frames
  queued : ∀ tid frames, d.sys.queued tid = some frames →
    d.sys.server.authenticates frames = false ∨
      ∃ identity p, d.peers identity = some p ∧ FromPeer P.toPrimitives identity p frames
  replies : ∀ n identity pk reply, .registered n identity pk reply ∈ d.sys.server.trace →
    ∃ p, d.peers identity = some p ∧ p.conf.nodeId = n ∧ tokens n = some p.conf.token ∧
      pk = .str (({ privateKey := p.privateKey } : NodeCrypto).pubkeyB64 P.toPrimitives)

/-- Every process of `d` is still there in `d'`. -/
def Follows (d d' : Deployment) : Prop :=
  ∀ identity p, d.peers identity = some p → ∃ p', d'.peers identity = some p' ∧ SamePeer p p'

theorem follows_put {d : Deployment} {identity : Bytes} {p p' : Peer}
    (hp : d.peers identity = some p) (hsame : SamePeer p p') : d.Follows (d.put identity p') := by
  intro identity' q hq
  show ∃ q', d.peers.set identity p' identity' = some q' ∧ SamePeer q q'
  by_cases hid : identity' = identity
  · subst hid
    obtain rfl := Option.some.inj (hp.symm.trans hq)
    exact ⟨p', Dict.set_self .., hsame⟩
  · exact ⟨q, (Dict.set_of_ne _ hid _).trans hq, rfl, rfl⟩

theorem follows_refl (d : Deployment) : d.Follows d := fun _ p hp => ⟨p, hp, rfl, rfl⟩

theorem Wired.follows {d d' : Deployment} (hd : Wired P tokens rows metrics d)
    (h : Effect P d d') : d.Follows d' := by
  cases h with
  | launches identity conf privateKey home stateFile hnew hfile =>
    intro identity' p hp
    refine ⟨p, (Dict.set_of_ne _ ?_ _).trans hp, rfl, rfl⟩
    rintro rfl
    exact hnew (hd.used identity' p hp)
  | moves identity p p' hp hstep => exact follows_put hp (hstep.sound (hd.sound identity p hp)).2
  | arrives identity p frames rest hp houtbox => exact follows_put hp ⟨rfl, rfl⟩
  | intrudes identity rest hp hauth => exact follows_refl d
  | serves a sys ha hstep => exact follows_refl d

/-- The server's part of a step is a step of the server, or none. -/
theorem Effect.sys {d d' : Deployment} (h : Effect P d d') :
    d'.sys = d.sys ∨ ∃ a, Sys.step P d.sys a = some d'.sys := by
  cases h with
  | launches identity conf privateKey home stateFile hnew hfile => exact .inl rfl
  | moves identity p p' hp hstep => exact .inl rfl
  | arrives identity p frames rest hp houtbox => exact .inr ⟨.call (.receive frames), rfl⟩
  | intrudes identity rest hp hauth => exact .inr ⟨.call (.receive (identity :: rest)), rfl⟩
  | serves a sys ha hstep => exact .inr ⟨a, hstep⟩

theorem Wired.reachable_step {d d' : Deployment} (hd : Wired P tokens rows metrics d)
    (h : Effect P d d') :
    ∃ acts, run (Sys.step P) (Sys.boot tokens rows metrics) acts = some d'.sys := by
  obtain ⟨acts, hacts⟩ := hd.reachable
  obtain heq | ⟨a, ha⟩ := h.sys
  · exact ⟨acts, by rw [heq, hacts]⟩
  · refine ⟨acts ++ [a], run_append_eq_some.mpr ⟨d.sys, hacts, ?_⟩⟩
    exact run_cons_eq_some.mpr ⟨d'.sys, ha, rfl⟩

/-- **What holds of every process after a step**, if it held before and holds of a
process that is launched, moves or has sent a message. -/
theorem Effect.forall_peers {q : Bytes → Peer → Prop} {d d' : Deployment} (h : Effect P d d')
    (hold : ∀ identity p, d.peers identity = some p → q identity p)
    (hlaunch : ∀ identity conf privateKey home stateFile, identity ∉ d.used →
      d.directory home = some stateFile → d'.used = insert identity d.used →
      q identity (.launched P.toPrimitives identity conf privateKey stateFile))
    (hmove : ∀ identity p p', d.peers identity = some p →
      PeerStep P.toPrimitives identity (d.sys.server.inbox identity) p p' → q identity p')
    (harrive : ∀ identity p frames rest, d.peers identity = some p → p.outbox = frames :: rest →
      q identity { p with outbox := rest }) :
    ∀ identity p, d'.peers identity = some p → q identity p := by
  have hput : ∀ identity p, q identity p → ∀ identity' p',
      d.peers.set identity p identity' = some p' → q identity' p' := by
    intro identity p hq identity' p' hp'
    by_cases hid : identity' = identity
    · subst hid
      rw [Dict.set_self, Option.some_inj] at hp'
      exact hp' ▸ hq
    · rw [Dict.set_of_ne _ hid] at hp'
      exact hold identity' p' hp'
  cases h with
  | launches identity conf privateKey home stateFile hnew hfile =>
    exact hput identity _ (hlaunch identity conf privateKey home stateFile hnew hfile rfl)
  | moves identity p p' hp hstep => exact hput identity p' (hmove identity p p' hp hstep)
  | arrives identity p frames rest hp houtbox =>
    exact hput identity _ (harrive identity p frames rest hp houtbox)
  | intrudes identity rest hp hauth => exact hold
  | serves a sys ha hstep => exact hold

theorem saved_directory {d : Deployment} (hs : ∀ identity p, d.peers identity = some p → p.Sound)
    {home : Option Bytes} {stateFile : Option Json} (h : d.directory home = some stateFile) :
    NodeMain.Saved stateFile := by
  cases home with
  | none =>
    obtain rfl := Option.some.inj h
    rintro j hj
    cases hj
  | some identity =>
    obtain ⟨p, hp, h⟩ := Option.bind_eq_some_iff.mp h
    split at h
    · obtain rfl := Option.some.inj h
      exact (hs identity p hp).stateFile
    · cases h

theorem Wired.used_step {d d' : Deployment} (hd : Wired P tokens rows metrics d)
    (h : Effect P d d') : ∀ identity p, d'.peers identity = some p → identity ∈ d'.used := by
  have hused : d.used ⊆ d'.used := by
    cases h with
    | launches identity conf privateKey home stateFile hnew hfile => exact Finset.subset_insert _ _
    | moves identity p p' hp hstep => exact subset_rfl
    | arrives identity p frames rest hp houtbox => exact subset_rfl
    | intrudes identity rest hp hauth => exact Finset.subset_insert _ _
    | serves a sys ha hstep => exact subset_rfl
  refine h.forall_peers (q := fun identity _ => identity ∈ d'.used) ?_ ?_ ?_ ?_
  · exact fun identity p hp => hused (hd.used identity p hp)
  · intro identity conf privateKey home stateFile hnew hfile heq
    rw [heq]
    exact Finset.mem_insert_self ..
  · exact fun identity p p' hp hstep => hused (hd.used identity p hp)
  · exact fun identity p frames rest hp houtbox => hused (hd.used identity p hp)

theorem Wired.sound_step {d d' : Deployment} (hd : Wired P tokens rows metrics d)
    (h : Effect P d d') : ∀ identity p, d'.peers identity = some p → p.Sound := by
  refine h.forall_peers (q := fun _ p => p.Sound) hd.sound ?_ ?_ ?_
  · intro identity conf privateKey home stateFile hnew hfile heq
    exact ⟨saved_directory hd.sound hfile, fun main hmain => (by cases hmain)⟩
  · exact fun identity p p' hp hstep => (hstep.sound (hd.sound identity p hp)).1
  · intro identity p frames rest hp houtbox
    exact ⟨(hd.sound identity p hp).stateFile, (hd.sound identity p hp).main⟩

theorem Wired.outbox_step {d d' : Deployment} (hd : Wired P tokens rows metrics d)
    (h : Effect P d d') : ∀ identity p, d'.peers identity = some p → ∀ frames ∈ p.outbox,
      FromPeer P.toPrimitives identity p frames := by
  refine h.forall_peers
    (q := fun identity p => ∀ frames ∈ p.outbox, FromPeer P.toPrimitives identity p frames)
    hd.outbox ?_ ?_ ?_
  · intro identity conf privateKey home stateFile hnew hfile heq frames hframes
    rw [List.mem_singleton.mp hframes]
    exact .register
  · intro identity p p' hp hstep frames hframes
    have hsame := (hstep.sound (hd.sound identity p hp)).2
    refine FromPeer.of_same ?_ hsame
    obtain heq | heq | ⟨frames', hfrom, -, heq⟩ := hstep.outbox (hd.sound identity p hp)
    · exact hd.outbox identity p hp frames (heq ▸ hframes)
    · rw [heq] at hframes
      exact hd.outbox identity p hp frames (List.mem_of_mem_tail hframes)
    · rw [heq] at hframes
      obtain hold | hnew := List.mem_append.mp hframes
      · exact hd.outbox identity p hp frames hold
      · exact List.mem_singleton.mp hnew ▸ hfrom
  · intro identity p frames rest hp houtbox frames' hframes
    refine (hd.outbox identity p hp frames' ?_).of_same ⟨rfl, rfl⟩
    rw [houtbox]
    exact List.mem_cons_of_mem _ hframes

/-- Whether a message authenticates is up to the configured tokens. -/
theorem authenticates_congr {s s' : Server}
    (h : s'.registry.allowedTokens = s.registry.allowedTokens) (frames : List Frame) :
    s'.authenticates frames = s.authenticates frames := by
  simp only [Server.authenticates, NodeRegistry.authenticate, h]

theorem Wired.allowedTokens {d : Deployment} (hd : Wired P tokens rows metrics d) :
    d.sys.server.registry.allowedTokens = tokens := by
  obtain ⟨acts, hacts⟩ := hd.reachable
  exact Sys.allowedTokens_run hacts

theorem Wired.sysSound {d : Deployment} (hd : Wired P tokens rows metrics d) : d.sys.Sound := by
  obtain ⟨acts, hacts⟩ := hd.reachable
  exact Sys.sound_run (Sys.sound_boot ..) hacts

theorem queued_routed {d : Deployment} {frames frames' : List Frame} {tid : TaskId}
    (h : (d.routed frames).sys.queued tid = some frames') :
    frames' = frames ∨ d.sys.queued tid = some frames' := by
  have h : (d.sys.tasks.set d.sys.next (Call.receive frames).task tid).bind (·.pc.frames)
      = some frames' := h
  by_cases htid : tid = d.sys.next
  · rw [htid, Dict.set_self] at h
    exact .inl (Option.some.inj h).symm
  · rw [Dict.set_of_ne _ htid] at h
    exact .inr h

theorem Wired.queued_step {d d' : Deployment} (hd : Wired P tokens rows metrics d)
    (h : Effect P d d') : ∀ tid frames, d'.sys.queued tid = some frames →
      d'.sys.server.authenticates frames = false ∨
        ∃ identity p, d'.peers identity = some p ∧ FromPeer P.toPrimitives identity p frames := by
  have hfollows := hd.follows h
  have hkept : ∀ {frames : List Frame}, (∃ identity p, d.peers identity = some p ∧
      FromPeer P.toPrimitives identity p frames) → ∃ identity p, d'.peers identity = some p ∧
        FromPeer P.toPrimitives identity p frames := by
    rintro frames ⟨identity, p, hp, hfrom⟩
    obtain ⟨p', hp', hsame⟩ := hfollows identity p hp
    exact ⟨identity, p', hp', hfrom.of_same hsame⟩
  have htokens : d'.sys.server.registry.allowedTokens = d.sys.server.registry.allowedTokens := by
    obtain ⟨acts, hacts⟩ := hd.reachable_step h
    exact (Sys.allowedTokens_run hacts).trans hd.allowedTokens.symm
  intro tid frames hq
  cases h with
  | launches identity conf privateKey home stateFile hnew hfile =>
    exact (hd.queued tid frames hq).imp_right hkept
  | moves identity p p' hp hstep => exact (hd.queued tid frames hq).imp_right hkept
  | arrives identity p frames' rest hp houtbox =>
    obtain rfl | hold := queued_routed hq
    · refine .inr (hkept ⟨identity, p, hp, hd.outbox identity p hp frames ?_⟩)
      rw [houtbox]
      exact List.mem_cons_self
    · exact (hd.queued tid frames hold).imp_right hkept
  | intrudes identity rest hp hauth =>
    obtain rfl | hold := queued_routed hq
    · exact .inl hauth
    · exact (hd.queued tid frames hold).imp_right hkept
  | serves a sys ha hstep =>
    obtain ⟨hold, -⟩ := Sys.queued_of_step hd.sysSound hstep ha hq
    refine (hd.queued tid frames hold).imp ?_ hkept
    exact fun hauth => (authenticates_congr htokens frames).trans hauth

/-- The messages of a process that authenticate carry its node's token. -/
theorem FromPeer.token {identity identity' : Bytes} {p : Peer} {frames : List Frame}
    {kvs : List (String × Json)} {n : NodeId} {r : NodeRegistry}
    (h : FromPeer P.toPrimitives identity p frames)
    (hregister : MatchManager.registerOf frames = some (identity', .obj kvs))
    (hn : Json.getD kvs "node_id" (.str "") = .str n)
    (hauth : r.authenticate n (Json.getD kvs "token" (.str "")) = true) :
    identity' = identity ∧ p.conf.nodeId = n ∧ r.allowedTokens n = some p.conf.token ∧
      Json.getD kvs "ecdh_pubkey" (.str "") =
        .str (({ privateKey := p.privateKey } : NodeCrypto).pubkeyB64 P.toPrimitives) := by
  obtain ⟨rfl, hpayload, -⟩ := h.registerOf hregister
  obtain rfl := Json.obj.inj hpayload
  have hid : p.conf.nodeId = n := by
    simpa [Json.getD, Json.lookup] using hn
  refine ⟨rfl, hid, ?_, by simp [Json.getD, Json.lookup]⟩
  rw [NodeRegistry.authenticate] at hauth
  cases htoken : r.allowedTokens n with
  | none => simp [htoken] at hauth
  | some token =>
    rw [htoken] at hauth
    simp [Json.getD, Json.lookup, Json.asStr] at hauth
    rw [hauth]

theorem authenticates_of_registerOf {s : Server} {frames : List Frame} {identity : Bytes}
    {kvs : List (String × Json)} {n : NodeId}
    (hregister : MatchManager.registerOf frames = some (identity, .obj kvs))
    (hn : Json.getD kvs "node_id" (.str "") = .str n) :
    s.authenticates frames = s.registry.authenticate n (Json.getD kvs "token" (.str "")) := by
  simp [Server.authenticates, hregister, hn]

/-- The process whose `REGISTER` is accepted in a step. -/
theorem Wired.registers {d : Deployment} (hd : Wired P tokens rows metrics d) {a : Act}
    {tid : TaskId} {frames : List Frame} {identity : Bytes} {n : NodeId} {pk : Json}
    (h : d.sys.Registers a tid frames identity n pk) :
    ∃ p, d.peers identity = some p ∧ p.conf.nodeId = n ∧ tokens n = some p.conf.token ∧
      pk = .str (({ privateKey := p.privateKey } : NodeCrypto).pubkeyB64 P.toPrimitives) ∧
      FromPeer P.toPrimitives identity p frames := by
  obtain ⟨kvs, hregister, hn, hpk, hauth⟩ := h.payload
  obtain hnone | ⟨identity', p, hp, hfrom⟩ := hd.queued tid frames h.queued
  · rw [authenticates_of_registerOf hregister hn, hauth] at hnone
    cases hnone
  · obtain ⟨rfl, hid, htoken, hkey⟩ := hfrom.token hregister hn hauth
    rw [hd.allowedTokens] at htoken
    exact ⟨p, hp, hid, htoken, hpk.symm.trans hkey, hfrom⟩

theorem Wired.replies_step {d d' : Deployment} (hd : Wired P tokens rows metrics d)
    (h : Effect P d d') : ∀ n identity pk reply,
      .registered n identity pk reply ∈ d'.sys.server.trace →
        ∃ p, d'.peers identity = some p ∧ p.conf.nodeId = n ∧ tokens n = some p.conf.token ∧
          pk = .str (({ privateKey := p.privateKey } : NodeCrypto).pubkeyB64 P.toPrimitives) := by
  have hfollows := hd.follows h
  have hkept : ∀ {n identity pk}, (∃ p, d.peers identity = some p ∧ p.conf.nodeId = n ∧
      tokens n = some p.conf.token ∧
      pk = .str (({ privateKey := p.privateKey } : NodeCrypto).pubkeyB64 P.toPrimitives)) →
      ∃ p, d'.peers identity = some p ∧ p.conf.nodeId = n ∧ tokens n = some p.conf.token ∧
        pk = Json.str (({ privateKey := p.privateKey } : NodeCrypto).pubkeyB64 P.toPrimitives) := by
    rintro n identity pk ⟨p, hp, hn, htoken, hpk⟩
    obtain ⟨p', hp', hconf, hkey⟩ := hfollows identity p hp
    exact ⟨p', hp', by rw [hconf, hn], by rw [hconf, htoken], by rw [hkey, hpk]⟩
  intro n identity pk reply hmem
  obtain heq | ⟨a, ha⟩ := h.sys
  · rw [heq] at hmem
    exact hkept (hd.replies n identity pk reply hmem)
  · obtain ⟨es, htrace, hes⟩ := Sys.registers_of_step ha
    rw [htrace] at hmem
    obtain hold | hnew := List.mem_append.mp hmem
    · exact hkept (hd.replies n identity pk reply hold)
    · obtain hnone | ⟨tid, frames, identity', n', pk', reply', hregisters, rfl⟩ := hes
      · have hreg := hnone _ hnew
        cases hreg
      · obtain ⟨rfl, rfl, rfl, rfl⟩ := Event.registered.inj (List.mem_singleton.mp hnew)
        obtain ⟨p, hp, hn, htoken, hpk, -⟩ := hd.registers hregisters
        exact hkept ⟨p, hp, hn, htoken, hpk⟩

theorem Wired.step {d d' : Deployment} {a : Move} (hd : Wired P tokens rows metrics d)
    (h : d.step P a = some d') : Wired P tokens rows metrics d' := by
  have heffect := step_cases h
  exact ⟨hd.reachable_step heffect, hd.used_step heffect, hd.sound_step heffect,
    hd.outbox_step heffect, hd.queued_step heffect, hd.replies_step heffect⟩

theorem wired_boot : Wired P tokens rows metrics (boot tokens rows metrics) where
  reachable := ⟨[], rfl⟩
  used identity p hp := by cases hp
  sound identity p hp := by cases hp
  outbox identity p hp := by cases hp
  queued tid frames hq := by cases hq
  replies n identity pk reply hmem := (List.not_mem_nil hmem).elim

theorem run_wired {moves : List Move} {d : Deployment}
    (hrun : run (step P) (boot tokens rows metrics) moves = some d) :
    Wired P tokens rows metrics d :=
  invariant_of_run (I := Wired P tokens rows metrics) (fun _ _ _ hd h => hd.step h) wired_boot hrun

end Wiring

end Deployment

/-! ### One process of a node that is assigned in a match -/

namespace Sample

def framed : Platform := { platform with toPrimitives := Primitives.framed }

def deployment : Deployment :=
  .boot (fun _ => some "token") (Dict.empty.set "m" (MatchStore.recordOf (config "m" ["n"])))
    ⟨[], []⟩

/-- A process of the node registers, and the match is started. -/
def registers : List Deployment.Move :=
  [.launch [1] ⟨"n", "token", "claude", "n", "10.0.0.1"⟩ [3] none, .arrive [1],
    .server (.run 0 {}), .deliver [1] 0 true, .server (.call (.start "m" 30))] ++
  (runs 1 7 5).map .server

/-- The process takes the `START`, and its prompt is due. -/
def prompted : List Deployment.Move :=
  registers ++ [.deliver [1] 5 true, .node [1] (.task (.resume 0 0 true))]

/-- Its window opens, a reporter sends the readings, and the server handles them. -/
def reported : List Deployment.Move :=
  prompted ++ [.node [1] (.task (.spawned 0 0 true)), .node [1] (.task (.resume 0 0 true)),
    .report [1] "m-t0" (.fin 1) 5 10, .arrive [1], .server (.run 3 {}), .server (.run 3 {})]

end Sample
