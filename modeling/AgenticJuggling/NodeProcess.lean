/-
The node process (`node/crypto.py`, `node/scheduler.py`, `node/main.py`).

A node agrees on a session key when its `REGISTER` is answered, unwraps a match
key from each `START` and decrypts a prompt when it is due.  `onStart` is the
handler of a `START`; it is `none` where the handler raises.  Match ids are
strings, as the server sends them.
-/
import AgenticJuggling.NodeConnection

structure NodeCrypto where
  privateKey : Bytes
  sessionKey : Option Bytes := none
  matchKeys : Dict MatchId Bytes := Dict.empty

namespace NodeCrypto

variable (P : Primitives)

def pubkeyB64 (c : NodeCrypto) : String := Base64.b64encode (P.publicKey c.privateKey)

/-- `none` where the key does not parse or the exchange raises. -/
def deriveSessionKey (c : NodeCrypto) (serverPubkeyB64 : Json) : Option NodeCrypto := do
  let text ← serverPubkeyB64.asStr
  let raw ← Base64.b64decode text
  let serverPubkey ← P.fromPublicBytes raw
  let sessionKey ← P.sessionKey c.privateKey serverPubkey
  some { c with sessionKey := some sessionKey }

def unwrapMatchKey (c : NodeCrypto) (matchId : MatchId) (encryptedMatchKeyB64 : Json) :
    Option NodeCrypto := do
  let text ← encryptedMatchKeyB64.asStr
  let sessionKey ← c.sessionKey
  let matchKey ← P.openBlob sessionKey text none
  some { c with matchKeys := c.matchKeys.set matchId matchKey }

def decryptPrompt (c : NodeCrypto) (matchId : MatchId) (encryptedPromptB64 : Json) :
    Option String := do
  let matchKey ← c.matchKeys matchId
  let text ← encryptedPromptB64.asStr
  let data ← P.openBlob matchKey text (some (utf8 matchId))
  decodeUtf8 data

def revokeMatchKey (c : NodeCrypto) (matchId : MatchId) : NodeCrypto :=
  { c with matchKeys := c.matchKeys.pop matchId }

end NodeCrypto

/-- A `_fire` task: the delay of its entry, how long it waits, and what it
decrypts then. -/
structure FireTask where
  delay : PyFloat
  wait : PyFloat
  terminalId : String
  encryptedPrompt : Json

/-- The prompt `_fire` feeds to the agent once it has waited. -/
def FireTask.fire (P : Primitives) (crypto : NodeCrypto) (matchId : MatchId) (task : FireTask) :
    Option String :=
  crypto.decryptPrompt P matchId task.encryptedPrompt

structure MatchScheduler where
  agentname : Json
  matchId : MatchId
  t0 : PyFloat
  tasks : List FireTask

namespace MatchScheduler

/-- `max(0.0, x)`. -/
def max0 : PyFloat → PyFloat
  | .fin q => .fin (max 0 q)
  | .posInf => .posInf
  | _ => .fin 0

/-- The loop of `start` from the `i`-th entry on. -/
def fireTasks (matchId : MatchId) (elapsed : PyFloat) : ℕ → List Json → Option (List FireTask)
  | _, [] => some []
  | i, entry :: rest => do
    let delay ← (← entry.get? "delay").asNumber
    let encryptedPrompt ← entry.get? "encrypted_prompt"
    let tasks ← fireTasks matchId elapsed (i + 1) rest
    some ({ delay := delay, wait := max0 (delay.sub elapsed),
            terminalId := matchId ++ "-t" ++ toString i, encryptedPrompt := encryptedPrompt }
          :: tasks)

/-- `start`, at time `now`. -/
def start (agentname : Json) (matchId : MatchId) (t0 : Json) (schedule : Json) (now : ℚ) :
    Option MatchScheduler := do
  let t0 ← t0.asNumber
  let entries ← schedule.items
  let tasks ← fireTasks matchId ((PyFloat.fin now).sub t0) 0 entries
  some { agentname := agentname, matchId := matchId, t0 := t0, tasks := tasks }

end MatchScheduler

structure NodeProcess where
  crypto : NodeCrypto
  /-- What `state.save` last wrote to disk. -/
  saved : Option Json := none
  scheduler : Option MatchScheduler := none

namespace NodeProcess

variable (P : Primitives)

/-- A `REGISTER_OK` has arrived. -/
def registered (p : NodeProcess) (response : Json) : Option NodeProcess := do
  let serverPubkey ← response.get? "server_ecdh_pubkey"
  let crypto ← p.crypto.deriveSessionKey P serverPubkey
  some { p with crypto := crypto }

/-- `agent` is the configured agent name. -/
def onStart (agent : String) (p : NodeProcess) (payload : Json) (now : ℚ) :
    Option NodeProcess := do
  let matchId ← (← payload.get? "match_id").asStr
  let agentname := (payload.get? "agentname").getD (.str agent)
  let t0 ← payload.get? "t0"
  let encryptedMatchKey ← payload.get? "encrypted_match_key"
  let schedule ← payload.get? "schedule"
  let crypto ← p.crypto.unwrapMatchKey P matchId encryptedMatchKey
  let saved := .obj [("match_id", .str matchId), ("t0", t0), ("agentname", agentname),
    ("schedule", schedule)]
  let scheduler ← MatchScheduler.start agentname matchId t0 schedule now
  some { crypto := crypto, saved := some saved, scheduler := some scheduler }

end NodeProcess
