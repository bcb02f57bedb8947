/-
The node's end of the connection (`node/connection.py`).

`Report` is a call of `send_metrics` or `send_hook` with its arguments; its
`payload` is the dictionary the node sends.  A `data` dictionary merged into a
payload comes after the node's own keys, so its values win.
-/
import AgenticJuggling.Ingester
import AgenticJuggling.MatchManager

/-- A call of `send_metrics` or `send_hook`. -/
inductive Report
  | metrics (terminalId : String) (idleSeconds : PyFloat) (tokensUsed : ℤ)
  | hook (eventType : String) (data : List (String × Json))

namespace Report

def msgType : Report → String
  | metrics _ _ _ => "METRICS"
  | hook _ _ => "HOOK"

/-- The payload of `send_metrics`, at time `now`. -/
def metricsPayload (nodeId : NodeId) (terminalId : String) (idleSeconds tokensUsed : Json)
    (now : ℚ) : List (String × Json) :=
  [("node_id", .str nodeId), ("terminal_id", .str terminalId), ("idle_seconds", idleSeconds),
    ("tokens_used", tokensUsed), ("timestamp", .float (.fin now))]

/-- The pairs of the payload that node `nodeId` sends at time `now`. -/
def payload (nodeId : NodeId) (now : ℚ) : Report → List (String × Json)
  | metrics terminalId idleSeconds tokensUsed =>
    metricsPayload nodeId terminalId (.float idleSeconds) (.int tokensUsed) now
  | hook eventType data => [("node_id", .str nodeId), ("event_type", .str eventType)] ++ data

/-- The message as the router's socket receives it. -/
def frames (identity : Bytes) (nodeId : NodeId) (now : ℚ) (report : Report) (raw : Bytes) :
    List Frame :=
  [⟨identity, none⟩, ⟨utf8 report.msgType, none⟩, ⟨raw, some (.obj (report.payload nodeId now))⟩]

end Report

/-- The payload of the `REGISTER` a node sends. -/
def registerPayload (nodeId : NodeId) (token hostname ip pubkeyB64 : String) : Json :=
  .obj [("node_id", .str nodeId), ("token", .str token), ("hostname", .str hostname),
    ("ip", .str ip), ("ecdh_pubkey", .str pubkeyB64)]

theorem registerPayload_ecdhPubkey (nodeId : NodeId) (token hostname ip pubkeyB64 : String) :
    (registerPayload nodeId token hostname ip pubkeyB64).get? "ecdh_pubkey"
      = some (.str pubkeyB64) := by
  simp [registerPayload, Json.lookup]
