/-
A node process from its launch to its end (`run` of `node/main.py` with the
connection of `node/connection.py`).

A process sends a `REGISTER`, waits for the reply, resumes what its state file
tells it to, and then handles what the server sends.  It holds `received`
messages of the server's already; what it has handed to its socket waits in its
`outbox`.  The state file is that of the working directory, and stays there when
the process ends.

* `Peer.resume_saved` — with a state file that `on_start` has written, a process
  that is told it was running ends;
* `Peer.receive_cases` — what a message of the server does to a process.
-/
import AgenticJuggling.NodeMain
import AgenticJuggling.Registration

/-- What a node is configured with, and what it says of its machine. -/
structure NodeConf where
  nodeId : NodeId
  token : String
  agent : String
  hostname : String
  ip : String

namespace NodeMain

/-- `run` behind the registration; the state file holds `saved`. -/
def ofCrypto (crypto : NodeCrypto) (saved : Option Json) : NodeMain where
  scheduling := Scheduling.boot crypto
  reporters := ∅
  scheduler := none
  reporter := none
  saved := saved
  starts := 0

variable (P : Primitives)

/-- Whether `on_start` raises. -/
def onStartRaises (agent : String) (s : NodeMain) (payload : Json) (now : ℚ) (saves : Bool) :
    Bool :=
  match StartFields.ofPayload agent payload with
  | none => true
  | some f =>
    match s.scheduling.crypto.unwrapMatchKey P f.matchId f.encryptedMatchKey with
    | none => true
    | some _ => !saves || startRaises f now

/-- A state file that `on_start` has written, or none. -/
def Saved (saved : Option Json) : Prop := ∀ j ∈ saved, ∃ f : StartFields, j = f.saved

variable {P}

/-- What `on_start` has saved lacks the match key. -/
theorem onStartRaises_saved (agent : String) (s : NodeMain) (f : StartFields) (now : ℚ)
    (saves : Bool) : s.onStartRaises P agent f.saved now saves = true := by
  have hnone : StartFields.ofPayload agent f.saved = none := by
    simp [StartFields.ofPayload, StartFields.saved, Json.lookup, Json.asStr]
  rw [onStartRaises, hnone]

theorem onStart_saved {agent : String} {s : NodeMain} {f : StartFields} (now : ℚ) (saves : Bool) :
    s.onStart P agent f.saved now saves = s.givesUp := by
  have hnone : StartFields.ofPayload agent f.saved = none := by
    simp [StartFields.ofPayload, StartFields.saved, Json.lookup, Json.asStr]
  rw [onStart, hnone]

theorem step_saved {agent : String} {s s' : NodeMain} {a : Act} (hs : Saved s.saved)
    (h : s.step P agent a = some s') : Saved s'.saved := by
  cases a with
  | start payload now saves =>
    rw [step_start h]
    obtain heq | ⟨f, crypto, -, -, ⟨-, heq⟩ | ⟨-, heq⟩⟩ :=
      onStart_cases (P := P) agent s payload now saves
    · rw [heq]
      exact hs
    · rw [heq]
      exact hs
    · rw [heq]
      rintro j hj
      exact ⟨f, (Option.some.inj hj).symm⟩
  | stop =>
    obtain rfl := Option.some.inj h
    rintro j hj
    cases hj
  | task a =>
    obtain ⟨scheduling, -, -, rfl⟩ := step_task h
    exact hs
  | raised id =>
    obtain rfl := Option.some.inj h
    exact hs

end NodeMain

inductive PeerPhase
  /-- `connect_and_register` waits for the reply. -/
  | registering
  | serving (main : NodeMain)
  | exited

structure Peer where
  conf : NodeConf
  privateKey : Bytes
  /-- The state file, unless the process is serving: then it is that of its `NodeMain`. -/
  stateFile : Option Json
  phase : PeerPhase := .registering
  /-- How many messages of the server's are gone from the socket. -/
  received : ℕ := 0
  /-- What has been handed to the socket and has not arrived. -/
  outbox : List (List Frame) := []

namespace Peer

def msgStart : Bytes := utf8 "START"

def msgStop : Bytes := utf8 "STOP"

/-- The process as it calls `connect_and_register`. -/
def connection (p : Peer) : ServerConnection where
  nodeId := p.conf.nodeId
  token := p.conf.token
  crypto := { privateKey := p.privateKey }

/-- The process ends, by a crash or by an exception or an interrupt in `run`. -/
def exit (p : Peer) : Peer :=
  match p.phase with
  | .serving main => { p with stateFile := main.saved, phase := .exited }
  | _ => { p with phase := .exited }

def serve (p : Peer) (main : NodeMain) : Peer := { p with phase := .serving main }

/-- A message is gone from the socket. -/
def taken (p : Peer) : Peer := { p with received := p.received + 1 }

/-- `send_multipart`. -/
def post (p : Peer) (frames : List Frame) : Peer := { p with outbox := p.outbox ++ [frames] }

variable (P : Primitives)

/-- The `REGISTER`, as the router's socket receives it from `identity`. -/
def registerFrames (identity : Bytes) (conf : NodeConf) (privateKey : Bytes) : List Frame :=
  [⟨identity, none⟩, ⟨ServerConnection.msgRegister, none⟩,
    ⟨[], some (registerPayload conf.nodeId conf.token conf.hostname conf.ip
      (({ privateKey := privateKey } : NodeCrypto).pubkeyB64 P))⟩]

/-- A process that has sent its `REGISTER`. -/
def launched (identity : Bytes) (conf : NodeConf) (privateKey : Bytes) (stateFile : Option Json) :
    Peer where
  conf := conf
  privateKey := privateKey
  stateFile := stateFile
  outbox := [registerFrames P identity conf privateKey]

/-- `resume_if_needed`; an exception in it ends the process. -/
def resume (p : Peer) (crypto : NodeCrypto) (wasRunning : Json) (now : ℚ) (saves : Bool) : Peer :=
  let main := NodeMain.ofCrypto crypto p.stateFile
  if wasRunning.truthy then
    match p.stateFile with
    | none => p.serve main
    | some saved =>
      if saved.truthy then
        let main' := main.onStart P p.conf.agent saved now saves
        if main.onStartRaises P p.conf.agent saved now saves then (p.serve main').exit
        else p.serve main'
      else p.serve main
  else p.serve main

/-- What `run` makes of the reply to the `REGISTER`. -/
def answered (p : Peer) (msgType : Bytes) (response : Json) (now : ℚ) (saves : Bool) : Peer :=
  match Startup.ofResult (p.connection.handleReply P msgType response).1 with
  | .registered wasRunning =>
    p.resume P (p.connection.handleReply P msgType response).2.crypto wasRunning now saves
  | _ => p.exit

/-- The handler of a message that `_dispatch` calls. -/
def handler (msgType : Bytes) (payload : Json) (now : ℚ) (saves : Bool) : Option NodeMain.Act :=
  if msgType = msgStart then some (.start payload now saves)
  else if msgType = msgStop then some .stop
  else none

/-- A message is read from the socket. -/
def receive (p : Peer) (msgType : Bytes) (payload : Json) (now : ℚ) (saves : Bool) : Option Peer :=
  match p.phase with
  | .registering => some (p.answered P msgType payload now saves)
  | .serving main =>
    match handler msgType payload now saves with
    | none => some p
    | some a => (main.step P p.conf.agent a).map p.serve
  | .exited => none

/-! ### What a process does with a message -/

variable {P}

/-- On what `on_start` has written, `resume_if_needed` raises. -/
theorem resume_saved {p : Peer} (hs : NodeMain.Saved p.stateFile) (crypto : NodeCrypto)
    (wasRunning : Json) (now : ℚ) (saves : Bool) :
    p.resume P crypto wasRunning now saves = { p with phase := .exited } ∨
      p.resume P crypto wasRunning now saves = p.serve (.ofCrypto crypto p.stateFile) := by
  rw [resume]
  split
  · split
    · exact .inr rfl
    · next saved hsaved =>
      split
      · obtain ⟨f, rfl⟩ := hs saved hsaved
        dsimp only
        rw [if_pos (NodeMain.onStartRaises_saved ..), NodeMain.onStart_saved]
        exact .inl rfl
      · exact .inr rfl
  · exact .inr rfl

theorem handleReply_pair {conn : ServerConnection} {msgType : Bytes} {response wasRunning : Json}
    (h : (conn.handleReply P msgType response).1 = .pair true wasRunning) :
    msgType = ServerConnection.msgRegisterOk := by
  rw [ServerConnection.handleReply] at h
  split at h
  · split at h
    · cases h
    · cases h
  · split at h
    · assumption
    · cases h

/-- The session key that a process derives from a reply. -/
def Derives (P : Primitives) (p : Peer) (reply : Json) (sessionKey : Bytes) : Prop :=
  ({ crypto := { privateKey := p.privateKey } } : NodeProcess).registered P reply =
    some { crypto := { privateKey := p.privateKey, sessionKey := some sessionKey } }

/-- After the reply a process has ended, or serves with the key it has derived. -/
theorem answered_cases {p : Peer} (hphase : p.phase = .registering)
    (hs : NodeMain.Saved p.stateFile) (msgType : Bytes) (response : Json) (now : ℚ)
    (saves : Bool) :
    p.answered P msgType response now saves = { p with phase := .exited } ∨
      ∃ sessionKey, msgType = ServerConnection.msgRegisterOk ∧ p.Derives P response sessionKey ∧
        p.answered P msgType response now saves = p.serve (.ofCrypto
          { privateKey := p.privateKey, sessionKey := some sessionKey } p.stateFile) := by
  have hexit : p.exit = { p with phase := .exited } := by
    rw [exit, hphase]
  rw [answered]
  cases hresult : (p.connection.handleReply P msgType response).1 with
  | bare => exact .inl hexit
  | raised e => exact .inl hexit
  | pair ok wasRunning =>
    cases ok with
    | false => exact .inl hexit
    | true =>
      obtain ⟨-, hregistered⟩ := ServerConnection.registered_of_pair
        (p := ({ crypto := { privateKey := p.privateKey } } : NodeProcess)) rfl hresult
      obtain ⟨sessionKey, hcrypto⟩ : ∃ sessionKey,
          (p.connection.handleReply P msgType response).2.crypto =
            { privateKey := p.privateKey, sessionKey := some sessionKey } := by
        simp only [NodeProcess.registered, NodeCrypto.deriveSessionKey, Option.bind_eq_bind,
          Option.bind_eq_some_iff, Option.some.injEq] at hregistered
        obtain ⟨-, -, crypto, ⟨-, -, -, -, -, -, key, -, rfl⟩, heq⟩ := hregistered
        exact ⟨key, (congrArg NodeProcess.crypto heq).symm⟩
      rw [hcrypto] at hregistered ⊢
      obtain hended | hserves := resume_saved (P := P) hs
        { privateKey := p.privateKey, sessionKey := some sessionKey } wasRunning now saves
      · exact .inl hended
      · exact .inr ⟨sessionKey, handleReply_pair hresult, hregistered, hserves⟩

/-- What a message of this type and payload can make of a process. -/
inductive Receives (P : Primitives) (p : Peer) (msgType : Bytes) (payload : Json) : Peer → Prop
  | refused (hphase : p.phase = .registering) :
      Receives P p msgType payload { p with phase := .exited }
  | registered (sessionKey : Bytes) (hphase : p.phase = .registering)
      (htype : msgType = ServerConnection.msgRegisterOk)
      (hderives : p.Derives P payload sessionKey) :
      Receives P p msgType payload (p.serve (.ofCrypto
        { privateKey := p.privateKey, sessionKey := some sessionKey } p.stateFile))
  | ignored : Receives P p msgType payload p
  | starts (main main' : NodeMain) (now : ℚ) (saves : Bool) (hphase : p.phase = .serving main)
      (htype : msgType = msgStart)
      (hstep : main.step P p.conf.agent (.start payload now saves) = some main') :
      Receives P p msgType payload (p.serve main')
  | stops (main : NodeMain) (hphase : p.phase = .serving main) (htype : msgType = msgStop) :
      Receives P p msgType payload (p.serve main.onStop)

theorem receive_cases {p p' : Peer} (hs : NodeMain.Saved p.stateFile) {msgType : Bytes}
    {payload : Json} {now : ℚ} {saves : Bool}
    (h : p.receive P msgType payload now saves = some p') : Receives P p msgType payload p' := by
  rw [receive] at h
  split at h
  · next hphase =>
    obtain rfl := Option.some.inj h
    obtain heq | ⟨sessionKey, htype, hderives, heq⟩ :=
      answered_cases (P := P) hphase hs msgType payload now saves
    · rw [heq]
      exact .refused hphase
    · rw [heq]
      exact .registered sessionKey hphase htype hderives
  · next main hphase =>
    split at h
    · obtain rfl := Option.some.inj h
      exact .ignored
    · next a ha =>
      obtain ⟨main', hstep, rfl⟩ := Option.map_eq_some_iff.mp h
      rw [handler] at ha
      split at ha
      · next htype =>
        obtain rfl := Option.some.inj ha
        exact .starts main main' now saves hphase htype hstep
      · split at ha
        · next htype =>
          obtain rfl := Option.some.inj ha
          obtain rfl := Option.some.inj hstep
          exact .stops main hphase htype
        · cases ha
  · cases h

end Peer
