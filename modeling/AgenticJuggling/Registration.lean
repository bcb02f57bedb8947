/-
The registration as the node sees it (`connect_and_register` of
`node/connection.py`, and what `run` of `node/main.py` makes of its result).

`reply` is the first message that arrives, or `none` if none arrives in time.

* `ServerConnection.handled_iff` — which replies are handled: the node registers,
  or `run` leaves with its message, and no exception is left over;
* `ServerConnection.registered_of_pair` — a node that registers has the key of
  `NodeProcess.registered`;
* `ServerConnection.answers_of_agreed` — what the server answers is handled.
-/
import AgenticJuggling.NodeResume
import AgenticJuggling.WindowCollect

/-- What `connect_and_register` needs of the connection, and what it leaves. -/
structure ServerConnection where
  nodeId : NodeId
  token : String
  crypto : NodeCrypto
  /-- The messages that were sent, with what was encoded in them. -/
  sent : List (Bytes × Json) := []
  running : Bool := false
  /-- How many `_recv_loop` tasks were created. -/
  recvLoops : ℕ := 0

/-- The exceptions that `connect_and_register` lets through. -/
inductive RegisterError
  /-- `frames[1]` of a shorter message. -/
  | indexError
  | loads (e : LoadsError)
  /-- `response.get` of a value that is no dictionary. -/
  | attributeError
  /-- `response["server_ecdh_pubkey"]` fails. -/
  | noKey
  /-- `derive_session_key` fails. -/
  | badKey

/-- How `connect_and_register` ends. -/
inductive RegisterResult
  /-- `return False`. -/
  | bare
  /-- `return ok, was_running`. -/
  | pair (ok : Bool) (wasRunning : Json)
  | raised (e : RegisterError)

/-- How far `run` comes with it. -/
inductive Startup
  /-- To `resume_if_needed(was_running)`. -/
  | registered (wasRunning : Json)
  /-- "Could not register with server — exiting". -/
  | exits
  /-- `ok, was_running = False` raises `TypeError`. -/
  | cannotUnpack
  | raised (e : RegisterError)

/-- `ok, was_running = await conn.connect_and_register()`, and the test behind it. -/
def Startup.ofResult : RegisterResult → Startup
  | .bare => .cannotUnpack
  | .pair true wasRunning => .registered wasRunning
  | .pair false _ => .exits
  | .raised e => .raised e

namespace NodeCrypto

/-- The server's key is one that a session key can be derived from. -/
def Accepts (P : Primitives) (c : NodeCrypto) (serverPubkeyB64 : Json) : Prop :=
  ∃ text raw serverPubkey, serverPubkeyB64 = .str text ∧ Base64.b64decode text = some raw ∧
    P.fromPublicBytes raw = some serverPubkey ∧ P.exchange c.privateKey serverPubkey ≠ none

theorem deriveSessionKey_iff {P : Primitives} {c : NodeCrypto} {serverPubkeyB64 : Json} :
    (∃ c', c.deriveSessionKey P serverPubkeyB64 = some c') ↔ c.Accepts P serverPubkeyB64 := by
  simp only [deriveSessionKey, Option.bind_eq_bind, Option.bind_eq_some_iff, Primitives.sessionKey,
    Option.map_eq_some_iff]
  constructor
  · rintro ⟨c', text, htext, raw, hraw, serverPubkey, hpubkey, key, ⟨secret, hsecret, -⟩, -⟩
    cases serverPubkeyB64 with
    | str s =>
      obtain rfl := Option.some.inj htext
      exact ⟨s, raw, serverPubkey, rfl, hraw, hpubkey, by rw [hsecret]; exact Option.some_ne_none _⟩
    | _ => cases htext
  · rintro ⟨text, raw, serverPubkey, rfl, hraw, hpubkey, hexchange⟩
    obtain ⟨secret, hsecret⟩ := Option.ne_none_iff_exists'.mp hexchange
    exact ⟨_, text, rfl, raw, hraw, serverPubkey, hpubkey, _, ⟨secret, hsecret, rfl⟩, rfl⟩

end NodeCrypto

namespace ServerConnection

def msgRegister : Bytes := utf8 "REGISTER"

def msgRegisterOk : Bytes := utf8 "REGISTER_OK"

def msgRegisterFail : Bytes := utf8 "REGISTER_FAIL"

variable (P : Primitives) (loads : Bytes → Except LoadsError Json)

/-- The `REGISTER` that is sent before the reply is waited for. -/
def sendRegister (hostname ip : String) (conn : ServerConnection) : ServerConnection :=
  { conn with
    sent := conn.sent ++
      [(msgRegister, registerPayload conn.nodeId conn.token hostname ip (conn.crypto.pubkeyB64 P))] }

/-- The second half of `connect_and_register`, from the parsed reply on. -/
def handleReply (conn : ServerConnection) (msgType : Bytes) (response : Json) :
    RegisterResult × ServerConnection :=
  if msgType = msgRegisterFail then
    match response.asObj with
    | none => (.raised .attributeError, conn)
    | some _ => (.pair false (.bool false), conn)
  else if msgType = msgRegisterOk then
    match response.get? "server_ecdh_pubkey" with
    | none => (.raised .noKey, conn)
    | some serverPubkey =>
      match conn.crypto.deriveSessionKey P serverPubkey with
      | none => (.raised .badKey, conn)
      | some crypto =>
        (.pair true (NodeProcess.wasRunning response),
          { conn with crypto := crypto, running := true, recvLoops := conn.recvLoops + 1 })
  else (.pair false (.bool false), conn)

/-- `msg_type, raw = frames[0], frames[1]` and `json.loads(raw)`. -/
def parseReply : List Bytes → Except RegisterError (Bytes × Json)
  | msgType :: raw :: _ =>
    match loads raw with
    | .error e => .error (.loads e)
    | .ok response => .ok (msgType, response)
  | _ => .error .indexError

def connectAndRegister (hostname ip : String) (conn : ServerConnection)
    (reply : Option (List Bytes)) : RegisterResult × ServerConnection :=
  let conn := conn.sendRegister P hostname ip
  match reply with
  | none => (.bare, conn)
  | some frames =>
    match parseReply loads frames with
    | .error e => (.raised e, conn)
    | .ok (msgType, response) => conn.handleReply P msgType response

/-! ### What is asked of a reply -/

/-- The node has registered: the session key is derived from the key in the reply, the
receive loop is running and `run` goes on. -/
structure Registers (before : ServerConnection) (reply : Option (List Bytes))
    (r : RegisterResult × ServerConnection) : Prop where
  result : ∃ wasRunning, r.1 = .pair true wasRunning ∧
    Startup.ofResult r.1 = .registered wasRunning
  derived : ∃ msgType raw rest response serverPubkey,
    reply = some (msgType :: raw :: rest) ∧ loads raw = .ok response ∧
      response.get? "server_ecdh_pubkey" = some serverPubkey ∧
      before.crypto.deriveSessionKey P serverPubkey = some r.2.crypto
  running : r.2.running = true
  recvLoops : r.2.recvLoops = before.recvLoops + 1

/-- The node has not registered: no receive loop is running and `run` exits. -/
structure Refuses (before : ServerConnection) (r : RegisterResult × ServerConnection) : Prop where
  result : ∃ wasRunning, r.1 = .pair false wasRunning
  exits : Startup.ofResult r.1 = .exits
  recvLoops : r.2.recvLoops = before.recvLoops

/-- The reply is handled. -/
def Handled (hostname ip : String) (conn : ServerConnection) (reply : Option (List Bytes)) :
    Prop :=
  Registers P loads conn reply (connectAndRegister P loads hostname ip conn reply) ∨
    Refuses conn (connectAndRegister P loads hostname ip conn reply)

/-- A JSON value that its message type goes with. -/
def Answers (c : NodeCrypto) (msgType : Bytes) (response : Json) : Prop :=
  (msgType = msgRegisterFail → ∃ kvs, response = .obj kvs) ∧
    (msgType = msgRegisterOk → ∃ serverPubkey,
      response.get? "server_ecdh_pubkey" = some serverPubkey ∧ c.Accepts P serverPubkey)

variable {P loads}

theorem not_handled_of_ne_pair {before : ServerConnection} {reply : Option (List Bytes)}
    {r : RegisterResult × ServerConnection} (h : ∀ ok wasRunning, r.1 ≠ .pair ok wasRunning) :
    ¬(Registers P loads before reply r ∨ Refuses before r) := by
  rintro (hr | hr)
  · obtain ⟨wasRunning, hpair, -⟩ := hr.result
    exact h true wasRunning hpair
  · obtain ⟨wasRunning, hpair⟩ := hr.result
    exact h false wasRunning hpair

theorem not_handled_bare {before conn : ServerConnection} {reply : Option (List Bytes)} :
    ¬(Registers P loads before reply (.bare, conn) ∨ Refuses before (.bare, conn)) :=
  not_handled_of_ne_pair fun ok wasRunning h => by cases h

theorem not_handled_raised {before conn : ServerConnection} {reply : Option (List Bytes)}
    {e : RegisterError} :
    ¬(Registers P loads before reply (.raised e, conn) ∨ Refuses before (.raised e, conn)) :=
  not_handled_of_ne_pair fun ok wasRunning h => by cases h

theorem refuses_pair {before conn : ServerConnection} (h : conn.recvLoops = before.recvLoops)
    (wasRunning : Json) : Refuses before (.pair false wasRunning, conn) :=
  ⟨⟨wasRunning, rfl⟩, rfl, h⟩

/-- Of a parsed reply. -/
theorem handleReply_iff {before conn : ServerConnection} (hcrypto : conn.crypto = before.crypto)
    (hloops : conn.recvLoops = before.recvLoops) {msgType raw : Bytes} {rest : List Bytes}
    {response : Json} (hloads : loads raw = .ok response) :
    (Registers P loads before (some (msgType :: raw :: rest))
          (conn.handleReply P msgType response) ∨
        Refuses before (conn.handleReply P msgType response)) ↔
      Answers P before.crypto msgType response := by
  have hne : msgRegisterOk ≠ msgRegisterFail := by decide
  rw [handleReply]
  split
  · -- `REGISTER_FAIL`
    next hfail =>
    have hok : msgType ≠ msgRegisterOk := fun h => hne (h.symm.trans hfail)
    cases response with
    | obj kvs =>
      exact iff_of_true (.inr (refuses_pair hloops _)) ⟨fun _ => ⟨kvs, rfl⟩, fun h => absurd h hok⟩
    | _ =>
      refine iff_of_false not_handled_raised fun h => ?_
      obtain ⟨kvs, hkvs⟩ := h.1 hfail
      cases hkvs
  · next hfail =>
    split
    · -- `REGISTER_OK`
      next hok =>
      cases hkey : response.get? "server_ecdh_pubkey" with
      | none =>
        refine iff_of_false not_handled_raised fun h => ?_
        obtain ⟨serverPubkey, hsome, -⟩ := h.2 hok
        rw [hkey] at hsome
        cases hsome
      | some serverPubkey =>
        dsimp only
        cases hderive : conn.crypto.deriveSessionKey P serverPubkey with
        | none =>
          refine iff_of_false not_handled_raised fun h => ?_
          obtain ⟨serverPubkey', hsome, haccepts⟩ := h.2 hok
          obtain rfl : serverPubkey = serverPubkey' := Option.some.inj (hkey.symm.trans hsome)
          obtain ⟨crypto, hcrypto'⟩ := NodeCrypto.deriveSessionKey_iff.mpr haccepts
          rw [← hcrypto, hderive] at hcrypto'
          cases hcrypto'
        | some crypto =>
          rw [hcrypto] at hderive
          refine iff_of_true (.inl ⟨⟨_, rfl, rfl⟩,
            ⟨msgType, raw, rest, response, serverPubkey, rfl, hloads, hkey, hderive⟩, rfl, ?_⟩)
            ⟨fun h => absurd h hfail, fun _ => ⟨serverPubkey, hkey,
              NodeCrypto.deriveSessionKey_iff.mp ⟨crypto, hderive⟩⟩⟩
          exact congrArg (· + 1) hloops
    · -- Any other type
      next hok =>
      exact iff_of_true (.inr (refuses_pair hloops _))
        ⟨fun h => absurd h hfail, fun h => absurd h hok⟩

theorem parseReply_eq_ok {frames : List Bytes} {msgType : Bytes} {response : Json} :
    parseReply loads frames = .ok (msgType, response) ↔
      ∃ raw rest, frames = msgType :: raw :: rest ∧ loads raw = .ok response := by
  constructor
  · intro h
    unfold parseReply at h
    split at h
    · next msgType' raw rest =>
      split at h
      · cases h
      · next response' hloads =>
        obtain ⟨rfl, rfl⟩ := Prod.mk.inj (Except.ok.inj h)
        exact ⟨raw, rest, rfl, hloads⟩
    · cases h
  · rintro ⟨raw, rest, rfl, hloads⟩
    rw [parseReply, hloads]

/-- **Which replies are handled.**  One must arrive in time and hold JSON in its
second frame, a dictionary if it refuses, and a key that a session key can be
derived from if it accepts. -/
theorem handled_iff (P : Primitives) (loads : Bytes → Except LoadsError Json)
    (hostname ip : String) (conn : ServerConnection) (reply : Option (List Bytes)) :
    Handled P loads hostname ip conn reply ↔
      ∃ msgType raw rest response, reply = some (msgType :: raw :: rest) ∧
        loads raw = .ok response ∧ Answers P conn.crypto msgType response := by
  have hcrypto : (conn.sendRegister P hostname ip).crypto = conn.crypto := rfl
  have hloops : (conn.sendRegister P hostname ip).recvLoops = conn.recvLoops := rfl
  cases reply with
  | none =>
    refine iff_of_false not_handled_bare ?_
    rintro ⟨msgType, raw, rest, response, hreply, -⟩
    cases hreply
  | some frames =>
    rw [Handled, connectAndRegister]
    cases hparse : parseReply loads frames with
    | error e =>
      refine iff_of_false not_handled_raised ?_
      rintro ⟨msgType, raw, rest, response, hreply, hloads, -⟩
      have hok := parseReply_eq_ok.mpr ⟨raw, rest, Option.some.inj hreply, hloads⟩
      rw [hparse] at hok
      cases hok
    | ok p =>
      obtain ⟨msgType, response⟩ := p
      obtain ⟨raw, rest, rfl, hloads⟩ := parseReply_eq_ok.mp hparse
      refine (handleReply_iff hcrypto hloops hloads).trans ⟨fun h => ?_, ?_⟩
      · exact ⟨msgType, raw, rest, response, rfl, hloads, h⟩
      · rintro ⟨msgType', raw, rest, response', hreply, hloads, h⟩
        have hok := parseReply_eq_ok.mpr ⟨raw, rest, Option.some.inj hreply, hloads⟩
        obtain ⟨rfl, rfl⟩ := Prod.mk.inj (Except.ok.inj (hparse.symm.trans hok))
        exact h

/-- **The node derives its key from the reply it answers with `True` to.** -/
theorem registered_of_pair {p : NodeProcess} {conn : ServerConnection}
    (hp : p.crypto = conn.crypto) {msgType : Bytes} {response wasRunning : Json}
    (h : (conn.handleReply P msgType response).1 = .pair true wasRunning) :
    wasRunning = NodeProcess.wasRunning response ∧
      p.registered P response =
        some { p with crypto := (conn.handleReply P msgType response).2.crypto } := by
  rw [handleReply] at h ⊢
  split at h
  · split at h
    · cases h
    · cases h
  · next hfail =>
    rw [if_neg hfail]
    split at h
    · next hok =>
      rw [if_pos hok]
      split at h
      · cases h
      · next serverPubkey hkey =>
        split at h
        · cases h
        · next crypto hderive =>
          refine ⟨(RegisterResult.pair.inj h).2.symm, ?_⟩
          simp [NodeProcess.registered, hkey, hp, hderive]
    · cases h

/-- The reply that a server of the same key agreement makes to the node's `REGISTER`
is one that the node handles. -/
theorem answers_of_agreed (hP : P.Lawful) {c : NodeCrypto} {reply : Json} {sessionKey : Bytes}
    (h : Agreed P (.str (c.pubkeyB64 P)) reply sessionKey) : Answers P c msgRegisterOk reply := by
  have hne : msgRegisterOk ≠ msgRegisterFail := by decide
  obtain ⟨p', hp', -⟩ := NodeProcess.registered_of_agreed hP (p := { crypto := c }) h
  obtain ⟨serverPubkey, hkey, hp'⟩ := Option.bind_eq_some_iff.mp hp'
  obtain ⟨crypto, hderive, -⟩ := Option.bind_eq_some_iff.mp hp'
  exact ⟨fun hfail => absurd hfail hne, fun _ => ⟨serverPubkey, hkey,
    NodeCrypto.deriveSessionKey_iff.mp ⟨crypto, hderive⟩⟩⟩

/-- No reply arrives in time. -/
theorem not_handled_timeout : ¬Handled .transparent (fun _ => .error .jsonDecodeError) "host"
    "127.0.0.1" { nodeId := "n", token := "t", crypto := { privateKey := [] } } none :=
  not_handled_bare

end ServerConnection
