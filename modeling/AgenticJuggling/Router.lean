/-
The server's shared state and the ZMQ router (`network/router.py`).

`Server` gathers the stores, the registry, the key tables and the auto-stop
timers.  Its `trace` is a history variable: the row writes, the messages handed
to the socket and the registry marks, in the order in which they happened.

`send` addresses a node by the identity it last registered under;
`handleRegister` is the handler of a `REGISTER` frame.  All it does to the
server happens before its only `await`, so it is one atomic step.
-/
import AgenticJuggling.MetricsStore

abbrev TaskId := ℕ

/-- The exceptions a task can end with. -/
inductive Raised
  | notFound
  | wrongState (state : MatchState)
  | malformedConfig
  | readyTimeout (missing : List NodeId)
  | matchExists
  | database
  | send
  | valueError
  | payload
  deriving DecidableEq

inductive Outcome
  | returned
  | raised (e : Raised)
  | cancelled
  deriving DecidableEq

/-- What the server takes from outside its sources: the cryptography package,
Python's number parsers and SQLite's rendering of a `REAL` as text. -/
structure Platform extends Primitives where
  parseFloat : String → Option PyFloat
  parseInt : String → Option ℤ
  realText : PyFloat → String

/-- The messages to a node other than the replies to a `REGISTER`. -/
inductive MsgType
  | start
  | stop
  deriving DecidableEq, Repr

inductive Event
  /-- A statement of task `tid` wrote the row of a match. -/
  | rowWritten (tid : TaskId) (matchId : MatchId) (state : MatchState) (t0 : Option ℚ)
  /-- `send` handed a message to the socket. -/
  | sent (nodeId : NodeId) (identity : Bytes) (msgType : MsgType) (payload : Json)
  /-- A match operation set the registry state of a node. -/
  | marked (nodeId : NodeId) (state : NodeState)
  /-- A `REGISTER` was accepted and answered with this `REGISTER_OK`. -/
  | registered (nodeId : NodeId) (identity : Bytes) (ecdhPubkey reply : Json)
  /-- A `REGISTER` was answered with `REGISTER_FAIL`. -/
  | rejected (identity : Bytes) (reason : String)

/-- Writes of match rows are all that a database stretch adds to the trace. -/
def Event.isRow : Event → Bool
  | .rowWritten _ _ _ _ => true
  | _ => false

/-- The replies to a `REGISTER`. -/
def Event.isReply : Event → Bool
  | .registered _ _ _ _ => true
  | .rejected _ _ => true
  | _ => false

structure Server where
  registry : NodeRegistry
  crypto : CryptoManager
  store : MatchStore
  metrics : MetricsStore
  timers : Dict MatchId TaskId
  trace : List Event

namespace Server

def log (s : Server) (e : Event) : Server := { s with trace := s.trace ++ [e] }

/-- The message is handed to the socket under the node's current identity;
`none` for a node without one, where nothing is sent. -/
def send (s : Server) (nodeId : NodeId) (msgType : MsgType) (payload : Json) : Option Server :=
  (s.registry.identityFor nodeId).map fun identity =>
    s.log (.sent nodeId identity msgType payload)

/-- The registry write that follows a send. -/
def mark (s : Server) (nodeId : NodeId) (state : NodeState) : Server :=
  { s with
    registry := s.registry.updateState nodeId state
    trace := s.trace ++ [.marked nodeId state] }

def registerOk (isReconnect wasRunning : Bool) (serverPubkeyB64 : String) : Json :=
  .obj [("reconnect", .bool isReconnect), ("was_running", .bool wasRunning),
    ("server_ecdh_pubkey", .str serverPubkeyB64)]

variable (P : Primitives)

/-- The part of `_handle_register` behind the token and key-present checks. -/
def acceptRegister (s : Server) (identity : Bytes) (nodeId : NodeId)
    (hostname ip ecdhPubkey : Json) (serverPrivate : Bytes) : Server × Outcome :=
  let wasRunning := s.registry.inState .running nodeId
  let (registry, isReconnect) := s.registry.register nodeId hostname ip identity
  let (crypto, serverPubkey) := s.crypto.establishSession P nodeId ecdhPubkey serverPrivate
  let s := { s with registry := registry, crypto := crypto }
  match serverPubkey with
  | none => (s, .raised .valueError)
  | some serverPubkeyB64 =>
    let s := if wasRunning then s else { s with registry := s.registry.updateState nodeId .ready }
    (s.log (.registered nodeId identity ecdhPubkey
      (registerOk isReconnect wasRunning serverPubkeyB64)), .returned)

/-- `_handle_register`, up to the reply. -/
def handleRegister (s : Server) (identity : Bytes) (payload : Json) (serverPrivate : Bytes) :
    Server × Outcome :=
  match payload.asObj with
  | none => (s, .raised .payload)
  | some kvs =>
    let nodeId := Json.getD kvs "node_id" (.str "")
    let token := Json.getD kvs "token" (.str "")
    let hostname := Json.getD kvs "hostname" (.str "")
    let ip := Json.getD kvs "ip" (.str "")
    let ecdhPubkey := Json.getD kvs "ecdh_pubkey" (.str "")
    match nodeId with
    | .str n =>
      if s.registry.authenticate n token then
        if ecdhPubkey.truthy then
          acceptRegister P s identity n hostname ip ecdhPubkey serverPrivate
        else (s.log (.rejected identity "missing ecdh_pubkey"), .returned)
      else (s.log (.rejected identity "invalid token"), .returned)
    | other =>
      if other.hashable then (s.log (.rejected identity "invalid token"), .returned)
      else (s, .raised .payload)

variable {P}

@[simp] theorem log_registry (s : Server) (e : Event) : (s.log e).registry = s.registry := rfl
@[simp] theorem log_crypto (s : Server) (e : Event) : (s.log e).crypto = s.crypto := rfl
@[simp] theorem log_store (s : Server) (e : Event) : (s.log e).store = s.store := rfl
@[simp] theorem log_timers (s : Server) (e : Event) : (s.log e).timers = s.timers := rfl
@[simp] theorem log_metrics (s : Server) (e : Event) : (s.log e).metrics = s.metrics := rfl
@[simp] theorem log_trace (s : Server) (e : Event) : (s.log e).trace = s.trace ++ [e] := rfl

@[simp] theorem mark_registry (s : Server) (n : NodeId) (st : NodeState) :
    (s.mark n st).registry = s.registry.updateState n st := rfl
@[simp] theorem mark_crypto (s : Server) (n : NodeId) (st : NodeState) :
    (s.mark n st).crypto = s.crypto := rfl
@[simp] theorem mark_store (s : Server) (n : NodeId) (st : NodeState) :
    (s.mark n st).store = s.store := rfl
@[simp] theorem mark_timers (s : Server) (n : NodeId) (st : NodeState) :
    (s.mark n st).timers = s.timers := rfl
@[simp] theorem mark_metrics (s : Server) (n : NodeId) (st : NodeState) :
    (s.mark n st).metrics = s.metrics := rfl
@[simp] theorem mark_trace (s : Server) (n : NodeId) (st : NodeState) :
    (s.mark n st).trace = s.trace ++ [.marked n st] := rfl

/-- A registration that gets past the checks either fails in the key exchange
or is answered with a `REGISTER_OK`. -/
theorem acceptRegister_cases (s : Server) (identity : Bytes) (n : NodeId)
    (hostname ip pk : Json) (priv : Bytes) :
    ((s.crypto.establishSession P n pk priv).2 = none ∧
        s.acceptRegister P identity n hostname ip pk priv
          = ({ s with
                registry := (s.registry.register n hostname ip identity).1
                crypto := (s.crypto.establishSession P n pk priv).1 }, .raised .valueError)) ∨
      ∃ b64, (s.crypto.establishSession P n pk priv).2 = some b64 ∧
        s.acceptRegister P identity n hostname ip pk priv
          = (log { s with
                registry := if s.registry.inState .running n
                  then (s.registry.register n hostname ip identity).1
                  else (s.registry.register n hostname ip identity).1.updateState n .ready
                crypto := (s.crypto.establishSession P n pk priv).1 }
              (.registered n identity pk (registerOk (s.registry.register n hostname ip identity).2
                (s.registry.inState .running n) b64)), .returned) := by
  rw [acceptRegister]
  dsimp only
  cases h : (s.crypto.establishSession P n pk priv).2 with
  | none => exact .inl ⟨rfl, rfl⟩
  | some b64 =>
    refine .inr ⟨b64, rfl, ?_⟩
    by_cases hr : s.registry.inState .running n
    · simp only [hr, if_true]
    · simp only [hr, if_false, Bool.false_eq_true]

/-- What a registration that passes the checks does to the registry and the
sessions, whether or not the key exchange fails. -/
theorem acceptRegister_frame (s : Server) (identity : Bytes) (n : NodeId)
    (hostname ip pk : Json) (priv : Bytes) :
    let s' := (s.acceptRegister P identity n hostname ip pk priv).1
    s'.registry.allowedTokens = s.registry.allowedTokens ∧
      s'.registry.identityFor n = some identity ∧
      ∀ n', n' ≠ n → s'.registry.nodes n' = s.registry.nodes n' ∧
        s'.crypto.sessions n' = s.crypto.sessions n' := by
  have hsessions : ∀ n', n' ≠ n →
      (s.crypto.establishSession P n pk priv).1.sessions n' = s.crypto.sessions n' :=
    fun n' hn => s.crypto.establishSession_sessions_of_ne hn pk priv
  rcases s.acceptRegister_cases identity n hostname ip pk priv (P := P) with ⟨-, h⟩ | ⟨b64, -, h⟩
  · rw [h]
    exact ⟨NodeRegistry.register_allowedTokens .., NodeRegistry.register_identityFor_self ..,
      fun n' hn => ⟨NodeRegistry.register_nodes_of_ne _ hn .., hsessions n' hn⟩⟩
  · rw [h]
    dsimp only [log]
    split
    · exact ⟨NodeRegistry.register_allowedTokens .., NodeRegistry.register_identityFor_self ..,
        fun n' hn => ⟨NodeRegistry.register_nodes_of_ne _ hn .., hsessions n' hn⟩⟩
    · refine ⟨?_, ?_, fun n' hn => ⟨?_, hsessions n' hn⟩⟩
      · rw [NodeRegistry.updateState_allowedTokens, NodeRegistry.register_allowedTokens]
      · rw [NodeRegistry.updateState_identityFor, NodeRegistry.register_identityFor_self]
      · exact (Dict.modify_of_ne _ hn _).trans (NodeRegistry.register_nodes_of_ne _ hn ..)

theorem mem_trace_acceptRegister {s : Server} {e : Event} (he : e ∈ s.trace) (identity : Bytes)
    (n : NodeId) (hostname ip pk : Json) (priv : Bytes) :
    e ∈ (s.acceptRegister P identity n hostname ip pk priv).1.trace := by
  rcases s.acceptRegister_cases identity n hostname ip pk priv (P := P) with ⟨-, h⟩ | ⟨b64, -, h⟩
  · rw [h]
    exact he
  · rw [h]
    exact List.mem_append_left _ he

/-- A `REGISTER` is dropped, answered with a `REGISTER_FAIL`, or gets past the
checks. -/
theorem handleRegister_cases (s : Server) (identity : Bytes) (payload : Json) (priv : Bytes) :
    (∃ outcome, s.handleRegister P identity payload priv = (s, outcome)) ∨
      (∃ reason, s.handleRegister P identity payload priv
        = (s.log (.rejected identity reason), .returned)) ∨
      ∃ kvs n, payload = .obj kvs ∧ Json.getD kvs "node_id" (.str "") = .str n ∧
        s.registry.authenticate n (Json.getD kvs "token" (.str "")) = true ∧
        (Json.getD kvs "ecdh_pubkey" (.str "")).truthy = true ∧
        s.handleRegister P identity payload priv
          = s.acceptRegister P identity n (Json.getD kvs "hostname" (.str ""))
              (Json.getD kvs "ip" (.str "")) (Json.getD kvs "ecdh_pubkey" (.str "")) priv := by
  cases payload with
  | obj kvs =>
    cases hn : Json.getD kvs "node_id" (.str "") with
    | str n =>
      by_cases hauth : s.registry.authenticate n (Json.getD kvs "token" (.str ""))
      · by_cases hkey : (Json.getD kvs "ecdh_pubkey" (.str "")).truthy
        · exact .inr (.inr ⟨kvs, n, rfl, hn, hauth, hkey, by
            simp [handleRegister, Json.asObj, hn, hauth, hkey]⟩)
        · exact .inr (.inl ⟨"missing ecdh_pubkey", by
            simp [handleRegister, Json.asObj, hn, hauth, hkey]⟩)
      · exact .inr (.inl ⟨"invalid token", by simp [handleRegister, Json.asObj, hn, hauth]⟩)
    | arr items => exact .inl ⟨.raised .payload, by simp [handleRegister, Json.asObj, hn, Json.hashable]⟩
    | obj kvs' => exact .inl ⟨.raised .payload, by simp [handleRegister, Json.asObj, hn, Json.hashable]⟩
    | null => exact .inr (.inl ⟨"invalid token", by simp [handleRegister, Json.asObj, hn, Json.hashable]⟩)
    | bool b => exact .inr (.inl ⟨"invalid token", by simp [handleRegister, Json.asObj, hn, Json.hashable]⟩)
    | int i => exact .inr (.inl ⟨"invalid token", by simp [handleRegister, Json.asObj, hn, Json.hashable]⟩)
    | float x => exact .inr (.inl ⟨"invalid token", by simp [handleRegister, Json.asObj, hn, Json.hashable]⟩)
  | null => exact .inl ⟨_, rfl⟩
  | bool b => exact .inl ⟨_, rfl⟩
  | int i => exact .inl ⟨_, rfl⟩
  | float x => exact .inl ⟨_, rfl⟩
  | str t => exact .inl ⟨_, rfl⟩
  | arr items => exact .inl ⟨_, rfl⟩

/-- The servers differ in nothing but the registry, the sessions and the replies
in the trace. -/
structure RegisterFrame (s s' : Server) : Prop where
  store : s'.store = s.store
  metrics : s'.metrics = s.metrics
  timers : s'.timers = s.timers
  matchKeys : s'.crypto.matchKeys = s.crypto.matchKeys
  trace : ∃ es : List Event, s'.trace = s.trace ++ es ∧ ∀ e ∈ es, e.isReply = true

/-- **What a `REGISTER` touches.** -/
theorem handleRegister_frame (s : Server) (identity : Bytes) (payload : Json) (priv : Bytes) :
    s.RegisterFrame (s.handleRegister P identity payload priv).1 := by
  have hnone : ∃ es : List Event, s.trace = s.trace ++ es ∧ ∀ e ∈ es, e.isReply = true :=
    ⟨[], (List.append_nil _).symm, fun e he => (List.not_mem_nil he).elim⟩
  have hone : ∀ e : Event, e.isReply = true →
      ∃ es : List Event, s.trace ++ [e] = s.trace ++ es ∧ ∀ e ∈ es, e.isReply = true :=
    fun e he => ⟨[e], rfl, List.forall_mem_singleton.mpr he⟩
  rcases s.handleRegister_cases identity payload priv (P := P) with
    ⟨outcome, h⟩ | ⟨reason, h⟩ | ⟨kvs, n, -, -, -, -, h⟩
  · rw [h]
    exact ⟨rfl, rfl, rfl, rfl, hnone⟩
  · rw [h]
    exact ⟨rfl, rfl, rfl, rfl, hone _ rfl⟩
  · have hkeys := s.crypto.establishSession_matchKeys n (Json.getD kvs "ecdh_pubkey" (.str "")) priv
      (P := P)
    rw [h]
    rcases s.acceptRegister_cases identity n (Json.getD kvs "hostname" (.str ""))
      (Json.getD kvs "ip" (.str "")) (Json.getD kvs "ecdh_pubkey" (.str "")) priv (P := P) with
      ⟨-, h⟩ | ⟨b64, -, h⟩
    · rw [h]
      exact ⟨rfl, rfl, rfl, hkeys, hnone⟩
    · rw [h]
      exact ⟨rfl, rfl, rfl, hkeys, hone _ rfl⟩

end Server
