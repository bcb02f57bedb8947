/-
The match operations (`match/manager.py`), cut at their `await` points.

A coroutine runs uninterrupted from one suspension to the next.  `Pc` says at
which `await` a task stands and holds the local variables it still needs;
`resume` performs the stretch from there to the next suspension and returns a
`Stretch`: the server it leaves behind, the new `Pc`, and the task it cancels
or creates on the way.

A database request takes effect when it is issued: the one worker thread of a
connection serves its requests in the order of issue, so a `SELECT` reads the
table as it stands then and its answer is delivered at the next resumption.
Several awaits of one request without an effect of their own are one
suspension.

`World` holds what the outside answers during one stretch: the clocks, whether
the request or send issued in it succeeds, whether that send suspends, and the
random values drawn.
-/
import AgenticJuggling.Ingester

/-- Answers of the outside world during one stretch. -/
structure World where
  /-- `time.time()`. -/
  wall : ℚ := 0
  /-- `time.monotonic()` where `_await_ready` is entered. -/
  monoEntry : ℚ := 0
  /-- `time.monotonic()` at the deadline check. -/
  mono : ℚ := 0
  dbOk : Bool := true
  sendOk : Bool := true
  suspends : Bool := true
  /-- `os.urandom(32)`. -/
  key : Bytes := []
  /-- `X25519PrivateKey.generate()`. -/
  priv : Bytes := []
  /-- The draws of `os.urandom(12)`, in order. -/
  nonce : ℕ → Nonce := fun _ => Nonce.zero

/-- One frame of a multipart message, with what `json.loads` makes of it. -/
structure Frame where
  bytes : Bytes
  json : Option Json

/-- The two database connections. -/
inductive Connection
  | matchDb
  | metricsDb
  deriving DecidableEq

/-- The `await` at which a task is suspended. -/
inductive Pc
  /-- Not yet begun. -/
  | createCall (config : MatchConfig)
  | startCall (readyTimeout : ℚ)
  | stopCall
  | received (frames : List Frame)
  /-- `start`: its `SELECT` has been answered with `record`. -/
  | startGet (readyTimeout : ℚ) (record : Option MatchRecord)
  /-- `start`: the update to `STARTING` has been issued. -/
  | startingWrote (readyTimeout : ℚ) (record : MatchRecord) (assignments : List NodeAssignment)
  | startingCommit (readyTimeout : ℚ) (record : MatchRecord) (assignments : List NodeAssignment)
  /-- `_await_ready`: asleep between two polls. -/
  | polling (deadline : ℚ) (record : MatchRecord) (assignments : List NodeAssignment)
  /-- `start`: the update to `RUNNING` has been issued. -/
  | runningWrote (t0 : ℚ) (record : MatchRecord) (assignments : List NodeAssignment)
  | runningCommit (t0 : ℚ) (record : MatchRecord) (assignments : List NodeAssignment)
  /-- `_dispatch_start`: in the send of the `START` to `na`. -/
  | startSent (t0 : ℚ) (record : MatchRecord) (na : NodeAssignment) (rest : List NodeAssignment)
  /-- `_auto_stop`: asleep until the match's duration has elapsed. -/
  | sleeping (delay : ℚ)
  /-- `stop`: its `SELECT` has been answered with `record`. -/
  | stopGet (record : Option MatchRecord)
  /-- `stop`: in the send of the `STOP` to `na`. -/
  | stopSent (na : NodeAssignment) (rest : List NodeAssignment)
  /-- `on_metrics`, `on_hook`: the `SELECT` has been answered. -/
  | metricsGet (nodeId : NodeId) (kvs : List (String × Json)) (record : Option MatchRecord)
  | hookGet (nodeId : NodeId) (kvs : List (String × Json)) (record : Option MatchRecord)
  /-- The last statement of the task has been issued; only its commit is left,
  after which the task ends with `outcome`. -/
  | wrote (db : Connection) (outcome : Outcome)
  | committing (outcome : Outcome)
  | done (outcome : Outcome)

def Pc.isDone : Pc → Bool
  | .done _ => true
  | _ => false

/-- How the task ended. -/
def Pc.outcome : Pc → Option Outcome
  | .done outcome => some outcome
  | _ => none

inductive TaskKind
  | create
  | start
  | stop
  | autoStop
  | dispatch
  deriving DecidableEq

structure ServerTask where
  kind : TaskKind
  matchId : MatchId
  pc : Pc
  /-- `cancel()` was called on the task while it was running. -/
  mustCancel : Bool := false

/-- What one uninterrupted stretch of a task leaves behind. -/
structure Stretch where
  server : Server
  pc : Pc
  /-- Whether the `await` that ends the stretch suspends the task. -/
  suspends : Bool := true
  cancels : Option TaskId := none
  /-- A new `_auto_stop` task, with its delay. -/
  spawns : Option ℚ := none

namespace MatchManager

variable (P : Platform)

/-- The task ends here. -/
def finish (s : Server) (outcome : Outcome) : Stretch :=
  { server := s, pc := .done outcome, suspends := false }

/-- A database request that raises: the exception is delivered at the await. -/
def dbError (s : Server) : Stretch := { server := s, pc := .done (.raised .database) }

/-- Issue the `UPDATE` of `update_state`. -/
def updateState (tid : TaskId) (w : World) (s : Server) (m : MatchId) (state : MatchState)
    (t0 : Option ℚ) (next : Pc) : Stretch :=
  if w.dbOk then
    let events := if (s.store.rows m).isSome then [Event.rowWritten tid m state t0] else []
    { server := { s with store := s.store.updateState m state t0, trace := s.trace ++ events }
      pc := next }
  else dbError s

/-- Issue the `COMMIT` that follows a statement. -/
def commit (w : World) (s : Server) (db : Connection) (next : Pc) : Stretch :=
  if w.dbOk then
    match db with
    | .matchDb => { server := { s with store := s.store.commit }, pc := next }
    | .metricsDb => { server := s, pc := next }
  else dbError s

/-- `create`: issue the `INSERT`. -/
def beginCreate (tid : TaskId) (w : World) (s : Server) (config : MatchConfig) : Stretch :=
  if w.dbOk then
    match s.store.insert config with
    | none => { server := s, pc := .done (.raised .matchExists) }
    | some store =>
      { server := { s with
          store := store
          trace := s.trace ++ [.rowWritten tid config.matchId .lobby none] }
        pc := .wrote .matchDb .returned }
  else dbError s

/-- `start`: issue the `SELECT`. -/
def beginStart (w : World) (s : Server) (m : MatchId) (readyTimeout : ℚ) : Stretch :=
  if w.dbOk then { server := s, pc := .startGet readyTimeout (s.store.get m) } else dbError s

/-- `stop`: issue the `SELECT`. -/
def beginStop (w : World) (s : Server) (m : MatchId) : Stretch :=
  if w.dbOk then { server := s, pc := .stopGet (s.store.get m) } else dbError s

/-! ### start -/

/-- The state gate, up to the update to `STARTING`. -/
def startGate (tid : TaskId) (w : World) (s : Server) (m : MatchId) (readyTimeout : ℚ) :
    Option MatchRecord → Stretch
  | none => finish s (.raised .notFound)
  | some record =>
    if record.state = .lobby then
      match MatchStore.parseAssignments record.configJson with
      | none => finish s (.raised .malformedConfig)
      | some assignments =>
        updateState tid w s m .starting none (.startingWrote readyTimeout record assignments)
    else finish s (.raised (.wrongState record.state))

/-- The expected nodes that are not `READY`. -/
def missing (s : Server) (assignments : List NodeAssignment) : List NodeId :=
  (assignments.map (·.nodeId)).dedup.filter fun n => !s.registry.inState .ready n

/-- One round of `_await_ready`, and what `start` does when it returns or
raises. -/
def poll (tid : TaskId) (w : World) (s : Server) (m : MatchId) (deadline : ℚ)
    (record : MatchRecord) (assignments : List NodeAssignment) : Stretch :=
  if missing s assignments = [] then
    updateState tid w s m .running (some w.wall) (.runningWrote w.wall record assignments)
  else if deadline ≤ w.mono then
    updateState tid w s m .lobby none
      (.wrote .matchDb (.raised (.readyTimeout (missing s assignments))))
  else { server := s, pc := .polling deadline record assignments }

/-- The `START` payload. -/
def startPayload (m : MatchId) (agentname : String) (t0 : ℚ) (encryptedMatchKey : String)
    (encryptedSchedule : List Json) : Json :=
  .obj [("match_id", .str m), ("agentname", .str agentname), ("t0", .float (.fin t0)),
    ("encrypted_match_key", .str encryptedMatchKey), ("schedule", .arr encryptedSchedule)]

/-- The loop of `_dispatch_start` from an assignment on; `i` nonces have been
drawn in this stretch.  At its end the auto-stop task `fresh` is created. -/
def dispatchLoop (fresh : TaskId) (w : World) (m : MatchId) (t0 : ℚ) (record : MatchRecord) :
    ℕ → Server → List NodeAssignment → Stretch
  | _, s, [] =>
    { server := { s with timers := s.timers.set m fresh }
      pc := .done .returned, suspends := false, spawns := some record.durationS }
  | i, s, na :: rest =>
    if s.crypto.hasSession na.nodeId then
      let nonces := fun k => w.nonce (i + k)
      match s.crypto.encryptSchedule P.toPrimitives m nonces na.schedule,
          s.crypto.encryptMatchKeyForNode P.toPrimitives m na.nodeId
            (nonces na.schedule.length) with
      | some encryptedSchedule, some encryptedMatchKey =>
        match s.send na.nodeId .start
            (startPayload m na.agentname t0 encryptedMatchKey encryptedSchedule) with
        | none => dispatchLoop fresh w m t0 record (i + na.schedule.length + 1) s rest
        | some s' =>
          if w.sendOk then
            { server := s', pc := .startSent t0 record na rest, suspends := w.suspends }
          else finish s (.raised .send)
      | _, _ => finish s (.raised .valueError)
    else dispatchLoop fresh w m t0 record i s rest

/-- `_dispatch_start`. -/
def dispatchStart (fresh : TaskId) (w : World) (s : Server) (m : MatchId) (t0 : ℚ)
    (record : MatchRecord) (assignments : List NodeAssignment) : Stretch :=
  match s.crypto.generateMatchKey m w.key with
  | none => finish s (.raised .valueError)
  | some crypto => dispatchLoop P fresh w m t0 record 0 { s with crypto := crypto } assignments

/-! ### stop -/

def stopPayload (m : MatchId) : Json := .obj [("match_id", .str m)]

/-- The STOP loop from an assignment on, and the revocation and the update to
`FINISHED` behind it. -/
def stopLoop (tid : TaskId) (w : World) (m : MatchId) (s : Server) :
    List NodeAssignment → Stretch
  | [] =>
    let s := { s with crypto := s.crypto.revokeMatchKey m }
    updateState tid w s m .finished none (.wrote .matchDb .returned)
  | na :: rest =>
    match s.send na.nodeId .stop (stopPayload m) with
    | none => stopLoop tid w m s rest
    | some s' =>
      if w.sendOk then { server := s', pc := .stopSent na rest, suspends := w.suspends }
      else finish s (.raised .send)

/-- `_auto_stop` logs a `MatchError` of the `stop` it calls and returns. -/
def matchError (kind : TaskKind) (e : Raised) : Outcome :=
  if kind = .autoStop then .returned else .raised e

/-- The state check of `stop`, and what follows it up to the first send. -/
def stopGate (tid : TaskId) (kind : TaskKind) (w : World) (s : Server) (m : MatchId) :
    Option MatchRecord → Stretch
  | none => finish s (matchError kind .notFound)
  | some record =>
    if record.state = .finished then finish s .returned
    else
      let task := s.timers m
      let s := { s with timers := s.timers.pop m }
      match MatchStore.parseAssignments record.configJson with
      | none => { finish s (.raised .malformedConfig) with cancels := task }
      | some assignments => { stopLoop tid w m s assignments with cancels := task }

/-! ### Incoming messages -/

/-- `_handle_metrics` and `_handle_hook`: a payload that names a registered
node goes to the ingester, whose `SELECT` is issued at once. -/
def handleReport (w : World) (s : Server) (payload : Json)
    (pc : NodeId → List (String × Json) → Option MatchRecord → Pc) : Stretch :=
  match payload.asObj with
  | none => finish s (.raised .payload)
  | some kvs =>
    match Json.getD kvs "node_id" (.str "") with
    | .str n =>
      match s.registry.get n with
      | none => finish s .returned
      | some _ =>
        if w.dbOk then { server := s, pc := pc n kvs (Ingester.getMatch P s.store kvs) }
        else dbError s
    | other => finish s (if other.hashable then .returned else .raised .payload)

/-- `_dispatch`. -/
def dispatch (w : World) (s : Server) (frames : List Frame) : Stretch :=
  match frames with
  | identity :: msgType :: raw :: _ =>
    match raw.json with
    | none => finish s .returned
    | some payload =>
      if msgType.bytes = utf8 "REGISTER" then
        let (s, outcome) := s.handleRegister P.toPrimitives identity.bytes payload w.priv
        finish s outcome
      else if msgType.bytes = utf8 "METRICS" then handleReport P w s payload .metricsGet
      else if msgType.bytes = utf8 "HOOK" then handleReport P w s payload .hookGet
      else finish s .returned
  | _ => finish s .returned

/-- `on_metrics` behind its `SELECT`, up to the commit of the row; what it reads for the
score callback after that changes nothing here. -/
def ingestMetric (w : World) (s : Server) (nodeId : NodeId) (kvs : List (String × Json)) :
    Option MatchRecord → Stretch
  | none => finish s .returned
  | some record =>
    if record.t0 = none then finish s .returned
    else match Ingester.metricRow P record nodeId kvs w.wall with
      | none => finish s (.raised .payload)
      | some row =>
        if w.dbOk then
          { server := { s with metrics := s.metrics.insertMetric row }
            pc := .wrote .metricsDb .returned }
        else dbError s

def ingestHook (w : World) (s : Server) (nodeId : NodeId) (kvs : List (String × Json)) :
    Option MatchRecord → Stretch
  | none => finish s .returned
  | some record =>
    if record.t0 = none then finish s .returned
    else match Ingester.hookEvent P record nodeId kvs w.wall with
      | none => finish s (.raised .payload)
      | some event =>
        if w.dbOk then
          { server := { s with metrics := s.metrics.insertHook event }
            pc := .wrote .metricsDb .returned }
        else dbError s

/-- The stretch of task `tid` from its `await` to the next suspension; `fresh`
is the id a task created on the way gets. -/
def resume (tid fresh : TaskId) (s : Server) (t : ServerTask) (w : World) : Stretch :=
  let m := t.matchId
  match t.pc with
  | .createCall config => beginCreate tid w s config
  | .startCall readyTimeout => beginStart w s m readyTimeout
  | .stopCall => beginStop w s m
  | .received frames => dispatch P w s frames
  | .startGet readyTimeout record => startGate tid w s m readyTimeout record
  | .startingWrote readyTimeout record as =>
    commit w s .matchDb (.startingCommit readyTimeout record as)
  | .startingCommit readyTimeout record as =>
    poll tid w s m (w.monoEntry + readyTimeout) record as
  | .polling deadline record as => poll tid w s m deadline record as
  | .runningWrote t0 record as => commit w s .matchDb (.runningCommit t0 record as)
  | .runningCommit t0 record as => dispatchStart P fresh w s m t0 record as
  | .startSent t0 record na rest =>
    dispatchLoop P fresh w m t0 record 0 (s.mark na.nodeId .running) rest
  | .sleeping _ => beginStop w s m
  | .stopGet record => stopGate tid t.kind w s m record
  | .stopSent na rest => stopLoop tid w m (s.mark na.nodeId .ready) rest
  | .metricsGet nodeId kvs record => ingestMetric P w s nodeId kvs record
  | .hookGet nodeId kvs record => ingestHook P w s nodeId kvs record
  | .wrote db outcome => commit w s db (.committing outcome)
  | .committing outcome => finish s outcome
  | .done outcome => finish s outcome

end MatchManager
