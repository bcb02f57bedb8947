/-
Session and match keys on the server (`crypto/session.py`).

A session key per node, agreed at registration, wraps the match key; a random
key per match encrypts the prompts, each under its own nonce and with the
match id as associated data.
-/
import AgenticJuggling.NodeRegistry
import AgenticJuggling.Sealing

abbrev MatchId := String

structure NodeSession where
  nodeId : NodeId
  sessionKey : Bytes

structure PromptEntry where
  delay : ℚ
  prompt : String
  deriving DecidableEq, Repr

structure CryptoManager where
  sessions : Dict NodeId NodeSession
  matchKeys : Dict MatchId Bytes

namespace CryptoManager

variable (P : Primitives)

/-- The old session is dropped before the key is parsed.  The second component
is the server's public key; `none` where parsing or the exchange raises. -/
def establishSession (c : CryptoManager) (nodeId : NodeId) (nodePubkeyB64 : Json)
    (serverPrivate : Bytes) : CryptoManager × Option String :=
  let c := { c with sessions := c.sessions.pop nodeId }
  match (nodePubkeyB64.asStr.bind Base64.b64decode).bind P.fromPublicBytes with
  | none => (c, none)
  | some nodePubkey =>
    match P.sessionKey serverPrivate nodePubkey with
    | none => (c, none)
    | some sessionKey =>
      ({ c with sessions := c.sessions.set nodeId ⟨nodeId, sessionKey⟩ },
        some (Base64.b64encode (P.publicKey serverPrivate)))

def hasSession (c : CryptoManager) (nodeId : NodeId) : Bool := (c.sessions nodeId).isSome

/-- `none` where a key for the match already exists (`ValueError`). -/
def generateMatchKey (c : CryptoManager) (matchId : MatchId) (key : Bytes) :
    Option CryptoManager :=
  match c.matchKeys matchId with
  | some _ => none
  | none => some { c with matchKeys := c.matchKeys.set matchId key }

def revokeMatchKey (c : CryptoManager) (matchId : MatchId) : CryptoManager :=
  { c with matchKeys := c.matchKeys.pop matchId }

/-- `none` without a match key or a session (`ValueError`). -/
def encryptMatchKeyForNode (c : CryptoManager) (matchId : MatchId) (nodeId : NodeId)
    (nonce : Nonce) : Option String := do
  let matchKey ← c.matchKeys matchId
  let session ← c.sessions nodeId
  some (P.sealBlob session.sessionKey nonce matchKey none)

/-- `none` without a match key (`ValueError`). -/
def encryptPrompt (c : CryptoManager) (matchId : MatchId) (prompt : String) (nonce : Nonce) :
    Option String := do
  let matchKey ← c.matchKeys matchId
  some (P.sealBlob matchKey nonce (utf8 prompt) (some (utf8 matchId)))

/-- Every prompt of a schedule, the `k`-th under the nonce `nonces k`. -/
def encryptSchedule (c : CryptoManager) (matchId : MatchId) (nonces : ℕ → Nonce) :
    List PromptEntry → Option (List Json)
  | [] => some []
  | entry :: rest => do
    let encryptedPrompt ← encryptPrompt P c matchId entry.prompt (nonces 0)
    let rest ← encryptSchedule c matchId (fun k => nonces (k + 1)) rest
    some (.obj [("delay", .float (.fin entry.delay)), ("encrypted_prompt", .str encryptedPrompt)]
      :: rest)

/-! ### What the operations change -/

variable {P}

@[simp] theorem establishSession_matchKeys (c : CryptoManager) (n : NodeId) (pk : Json)
    (priv : Bytes) : (c.establishSession P n pk priv).1.matchKeys = c.matchKeys := by
  rw [establishSession]
  cases (pk.asStr.bind Base64.b64decode).bind P.fromPublicBytes with
  | none => rfl
  | some peer =>
    cases hk : P.sessionKey priv peer with
    | none => simp [hk]
    | some key => simp [hk]

theorem establishSession_sessions_of_ne (c : CryptoManager) {n n' : NodeId} (h : n' ≠ n)
    (pk : Json) (priv : Bytes) :
    (c.establishSession P n pk priv).1.sessions n' = c.sessions n' := by
  rw [establishSession]
  cases (pk.asStr.bind Base64.b64decode).bind P.fromPublicBytes with
  | none => simp [h]
  | some peer =>
    cases hk : P.sessionKey priv peer with
    | none => simp [hk, h]
    | some key => simp [hk, h]

/-- A registration that fails inside the exchange leaves the node without a
session; one that succeeds leaves it with the agreed key. -/
theorem establishSession_cases (c : CryptoManager) (n : NodeId) (pk : Json) (priv : Bytes) :
    ((c.establishSession P n pk priv).2 = none ∧
        (c.establishSession P n pk priv).1.sessions n = none) ∨
      ∃ b64 raw peer key, pk = .str b64 ∧ Base64.b64decode b64 = some raw ∧
        P.fromPublicBytes raw = some peer ∧ P.sessionKey priv peer = some key ∧
        (c.establishSession P n pk priv).2 = some (Base64.b64encode (P.publicKey priv)) ∧
        (c.establishSession P n pk priv).1.sessions n = some ⟨n, key⟩ := by
  rw [establishSession]
  cases hpeer : (pk.asStr.bind Base64.b64decode).bind P.fromPublicBytes with
  | none => exact .inl (by simp)
  | some peer =>
    cases hkey : P.sessionKey priv peer with
    | none => exact .inl (by simp [hkey])
    | some key =>
      obtain ⟨raw, hraw, hpeer⟩ := Option.bind_eq_some_iff.mp hpeer
      obtain ⟨b64, hb64, hraw⟩ := Option.bind_eq_some_iff.mp hraw
      have hpk : pk = .str b64 := by
        cases pk <;> simp [Json.asStr] at hb64
        rw [hb64]
      exact .inr ⟨b64, raw, peer, key, hpk, hraw, hpeer, hkey, by simp [hkey], by simp [hkey]⟩

theorem generateMatchKey_eq_some {c c' : CryptoManager} {m : MatchId} {key : Bytes} :
    c.generateMatchKey m key = some c' ↔
      c.matchKeys m = none ∧ c' = { c with matchKeys := c.matchKeys.set m key } := by
  rw [generateMatchKey]
  cases c.matchKeys m with
  | none => simp [eq_comm]
  | some k => simp

@[simp] theorem revokeMatchKey_matchKeys (c : CryptoManager) (m : MatchId) :
    (c.revokeMatchKey m).matchKeys = c.matchKeys.pop m := rfl

@[simp] theorem revokeMatchKey_sessions (c : CryptoManager) (m : MatchId) :
    (c.revokeMatchKey m).sessions = c.sessions := rfl

end CryptoManager
