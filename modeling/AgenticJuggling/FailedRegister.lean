/-
What a registration that is not accepted leaves behind (`_handle_register` of
`network/router.py`).

The token and the presence of a key are checked before anything is written; the
key itself is parsed after the record of the node has been overwritten and its
session dropped.

* `Server.acceptRegister_failed_iff` — past the checks nothing is accepted exactly
  if the key exchange fails;
* `Server.spares_iff` — a registration that is not accepted changes nothing
  exactly if it fails a check, or the node's record was as the handler leaves it
  and the node had no session.
-/
import AgenticJuggling.Router

namespace CryptoManager

/-- The key parses and the exchange with it succeeds. -/
def Agrees (P : Primitives) (nodePubkeyB64 : Json) (serverPrivate : Bytes) : Prop :=
  ∃ nodePubkey, (nodePubkeyB64.asStr.bind Base64.b64decode).bind P.fromPublicBytes =
    some nodePubkey ∧ P.sessionKey serverPrivate nodePubkey ≠ none

variable {P : Primitives}

/-- An exchange that fails leaves the table without the node's session. -/
theorem establishSession_of_not_agrees {pk : Json} {priv : Bytes} (h : ¬ Agrees P pk priv)
    (c : CryptoManager) (n : NodeId) :
    c.establishSession P n pk priv = ({ c with sessions := c.sessions.pop n }, none) := by
  rw [establishSession]
  cases hpeer : (pk.asStr.bind Base64.b64decode).bind P.fromPublicBytes with
  | none => rfl
  | some peer =>
    have hkey : P.sessionKey priv peer = none := by
      by_contra hne
      exact h ⟨peer, hpeer, hne⟩
    simp only [hkey]

theorem establishSession_of_agrees {pk : Json} {priv : Bytes} (h : Agrees P pk priv)
    (c : CryptoManager) (n : NodeId) : (c.establishSession P n pk priv).2 ≠ none := by
  obtain ⟨peer, hpeer, hkey⟩ := h
  obtain ⟨key, hkey⟩ := Option.ne_none_iff_exists'.mp hkey
  rw [establishSession, hpeer]
  simp [hkey]

end CryptoManager

namespace NodeRegistry

/-- The record of the node is as `register` leaves it. -/
def Settled (r : NodeRegistry) (nodeId : NodeId) (hostname ip : Json) (zmqIdentity : Bytes) :
    Prop :=
  ∃ node, r.nodes nodeId = some node ∧ node.hostname = hostname ∧ node.ip = ip ∧
    node.zmqIdentity = some zmqIdentity ∧ node.state = .connected

theorem register_eq_self_iff (r : NodeRegistry) (n : NodeId) (hostname ip : Json)
    (identity : Bytes) :
    (r.register n hostname ip identity).1 = r ↔ r.Settled n hostname ip identity := by
  constructor
  · intro h
    have hn := congrFun (congrArg NodeRegistry.nodes h) n
    rw [register] at hn
    cases hnode : r.nodes n with
    | none => simp [hnode] at hn
    | some node =>
      simp only [hnode, Dict.set_self, Option.some_inj] at hn
      exact ⟨node, hnode, hn ▸ rfl, hn ▸ rfl, hn ▸ rfl, hn ▸ rfl⟩
  · rintro ⟨node, hnode, rfl, rfl, hidentity, hstate⟩
    have hsame : { node with zmqIdentity := some identity, state := .connected } = node := by
      rw [← hidentity, ← hstate]
    rw [register, hnode]
    dsimp only
    rw [hsame]
    have hset : r.nodes.set n node = r.nodes := by
      funext n'
      by_cases h : n' = n
      · rw [h, Dict.set_self, hnode]
      · rw [Dict.set_of_ne _ h]
    rw [hset]

end NodeRegistry

namespace Server

/-- The frame gets past the checks of the token and of the key's presence. -/
structure Passes (s : Server) (payload : Json) (kvs : List (String × Json)) (nodeId : NodeId) :
    Prop where
  payload_eq : payload = .obj kvs
  node : Json.getD kvs "node_id" (.str "") = .str nodeId
  token : s.registry.authenticate nodeId (Json.getD kvs "token" (.str "")) = true
  key : (Json.getD kvs "ecdh_pubkey" (.str "")).truthy = true

/-- The frame was answered with a `REGISTER_OK`. -/
def Accepted (P : Primitives) (s : Server) (identity : Bytes) (payload : Json)
    (serverPrivate : Bytes) : Prop :=
  ∃ n pk reply, (s.handleRegister P identity payload serverPrivate).1.trace =
    s.trace ++ [.registered n identity pk reply]

/-- A registration that is not accepted leaves registry and session table alone. -/
def Spares (P : Primitives) (s : Server) (identity : Bytes) (payload : Json)
    (serverPrivate : Bytes) : Prop :=
  ¬ s.Accepted P identity payload serverPrivate →
    (s.handleRegister P identity payload serverPrivate).1.registry = s.registry ∧
      (s.handleRegister P identity payload serverPrivate).1.crypto.sessions = s.crypto.sessions

variable {P : Primitives} {s : Server}

theorem handleRegister_of_passes {payload : Json} {kvs : List (String × Json)} {n : NodeId}
    (h : s.Passes payload kvs n) (identity : Bytes) (priv : Bytes) :
    s.handleRegister P identity payload priv =
      s.acceptRegister P identity n (Json.getD kvs "hostname" (.str ""))
        (Json.getD kvs "ip" (.str "")) (Json.getD kvs "ecdh_pubkey" (.str "")) priv := by
  obtain ⟨rfl, hnode, htoken, hkey⟩ := h
  simp [handleRegister, Json.asObj, hnode, htoken, hkey]

/-- A frame that fails a check changes nothing but the trace. -/
theorem handleRegister_of_not_passes {payload : Json} (h : ∀ kvs n, ¬ s.Passes payload kvs n)
    (identity : Bytes) (priv : Bytes) :
    (s.handleRegister P identity payload priv).1.registry = s.registry ∧
      (s.handleRegister P identity payload priv).1.crypto.sessions = s.crypto.sessions := by
  rcases s.handleRegister_cases identity payload priv (P := P) with
    ⟨outcome, heq⟩ | ⟨reason, heq⟩ | ⟨kvs, n, hpayload, hnode, htoken, hkey, -⟩
  · rw [heq]
    exact ⟨rfl, rfl⟩
  · rw [heq]
    exact ⟨rfl, rfl⟩
  · exact (h kvs n ⟨hpayload, hnode, htoken, hkey⟩).elim

/-- What a failed exchange leaves behind. -/
theorem acceptRegister_of_not_agrees {pk : Json} {priv : Bytes}
    (h : ¬ CryptoManager.Agrees P pk priv) (identity : Bytes) (n : NodeId) (hostname ip : Json) :
    (s.acceptRegister P identity n hostname ip pk priv).1 =
      { s with
        registry := (s.registry.register n hostname ip identity).1
        crypto := { s.crypto with sessions := s.crypto.sessions.pop n } } := by
  rw [acceptRegister, CryptoManager.establishSession_of_not_agrees h]

theorem accepted_of_agrees {payload : Json} {kvs : List (String × Json)} {n : NodeId}
    (hpasses : s.Passes payload kvs n) {priv : Bytes}
    (h : CryptoManager.Agrees P (Json.getD kvs "ecdh_pubkey" (.str "")) priv) (identity : Bytes) :
    s.Accepted P identity payload priv := by
  rw [Accepted, handleRegister_of_passes hpasses]
  rcases s.acceptRegister_cases identity n (Json.getD kvs "hostname" (.str ""))
    (Json.getD kvs "ip" (.str "")) (Json.getD kvs "ecdh_pubkey" (.str "")) priv (P := P) with
    ⟨hnone, -⟩ | ⟨b64, -, heq⟩
  · exact (CryptoManager.establishSession_of_agrees h _ n hnone).elim
  · exact ⟨n, _, _, by rw [heq]; rfl⟩

theorem pop_eq_self_iff {sessions : Dict NodeId NodeSession} {n : NodeId} :
    sessions.pop n = sessions ↔ sessions n = none := by
  constructor
  · intro h
    rw [← h, Dict.pop_self]
  · intro h
    funext n'
    by_cases hn : n' = n
    · rw [hn, Dict.pop_self, h]
    · rw [Dict.pop_of_ne _ hn]

/-- **When a registration that is not accepted changes nothing.**  It fails a
check, or the exchange succeeds after all, or there was nothing to lose: the
record was as the handler leaves it and the node had no session. -/
theorem spares_iff (s : Server) (identity : Bytes) (payload : Json) (priv : Bytes) :
    s.Spares P identity payload priv ↔
      ∀ kvs n, s.Passes payload kvs n →
        CryptoManager.Agrees P (Json.getD kvs "ecdh_pubkey" (.str "")) priv ∨
          s.registry.Settled n (Json.getD kvs "hostname" (.str "")) (Json.getD kvs "ip" (.str ""))
            identity ∧ s.crypto.sessions n = none := by
  constructor
  · intro h kvs n hpasses
    by_cases hagrees : CryptoManager.Agrees P (Json.getD kvs "ecdh_pubkey" (.str "")) priv
    · exact .inl hagrees
    · rw [Spares, Accepted, handleRegister_of_passes hpasses,
        acceptRegister_of_not_agrees hagrees] at h
      obtain ⟨hregistry, hsessions⟩ := h (by simp)
      exact .inr ⟨(NodeRegistry.register_eq_self_iff ..).mp hregistry,
        pop_eq_self_iff.mp hsessions⟩
  · intro h haccepted
    by_cases hpasses : ∃ kvs n, s.Passes payload kvs n
    · obtain ⟨kvs, n, hpasses⟩ := hpasses
      obtain hagrees | ⟨hsettled, hsession⟩ := h kvs n hpasses
      · exact (haccepted (accepted_of_agrees hpasses hagrees identity)).elim
      · have hagrees : ¬ CryptoManager.Agrees P (Json.getD kvs "ecdh_pubkey" (.str "")) priv :=
          fun hagrees => haccepted (accepted_of_agrees hpasses hagrees identity)
        rw [handleRegister_of_passes hpasses, acceptRegister_of_not_agrees hagrees]
        exact ⟨(NodeRegistry.register_eq_self_iff ..).mpr hsettled, pop_eq_self_iff.mpr hsession⟩
    · exact handleRegister_of_not_passes (fun kvs n hp => hpasses ⟨kvs, n, hp⟩) identity priv

/-! ### A running node sends a key that does not parse -/

/-- A server on which the node `n` runs a match and has a session. -/
def runningSample : Server where
  registry :=
    { allowedTokens := Dict.empty.set "n" "t"
      nodes := Dict.empty.set "n"
        { nodeId := "n", hostname := .str "h", ip := .str "i", state := .running,
          zmqIdentity := some [1] } }
  crypto := { sessions := Dict.empty.set "n" ⟨"n", [7]⟩, matchKeys := Dict.empty }
  store := { rows := Dict.empty, committed := Dict.empty }
  metrics := { metrics := [], hookEvents := [] }
  timers := Dict.empty
  trace := []

/-- The token is right and the key is the text `A`. -/
def malformedKey : List (String × Json) :=
  [("node_id", .str "n"), ("token", .str "t"), ("hostname", .str "h"), ("ip", .str "i"),
    ("ecdh_pubkey", .str "A")]

/-- The node loses its session and is no longer running. -/
theorem not_spares_malformedKey :
    ¬ runningSample.Spares Primitives.transparent [1] (.obj malformedKey) [9] := by
  have hpasses : runningSample.Passes (.obj malformedKey) malformedKey "n" :=
    ⟨rfl, rfl, by decide, by decide⟩
  have hagrees : ¬ CryptoManager.Agrees Primitives.transparent
      (Json.getD malformedKey "ecdh_pubkey" (.str "")) [9] := by
    rintro ⟨peer, hpeer, -⟩
    have hnone : (Json.getD malformedKey "ecdh_pubkey" (.str "")).asStr.bind Base64.b64decode =
        none := by
      decide
    rw [hnone] at hpeer
    cases hpeer
  intro h
  rw [Spares, Accepted, handleRegister_of_passes hpasses,
    acceptRegister_of_not_agrees hagrees] at h
  exact absurd (pop_eq_self_iff.mp (h (by simp)).2) (by decide)

end Server
