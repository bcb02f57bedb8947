/-
From a `METRICS` or `HOOK` payload to a table row (`metrics/ingester.py`).

`sqlText` is what SQLite makes of a Python value bound where a `TEXT` column
is compared or filled; `toFloat` and `toInt` are Python's `float()` and
`int()`.  `metricRow` and `hookEvent` build the row of a payload from the
match's record, and are `none` where the handler drops the message or raises
before it inserts.
-/
import AgenticJuggling.Router

namespace Ingester

variable (P : Platform)

open MetricsStore (fitsInt64)

/-- The text of a bound value; `none` for `NULL` and for values that cannot be
bound, such as an integer of more than 64 bits. -/
def sqlText : Json → Option String
  | .str s => some s
  | .int i => if fitsInt64 i then some (toString i) else none
  | .bool b => some (if b then "1" else "0")
  | .float .nan => none
  | .float x => some (P.realText x)
  | _ => none

/-- `float(value)`. -/
def toFloat : Json → Option PyFloat
  | .str s => P.parseFloat s
  | j => j.asNumber

/-- `int(value)`; a float is truncated towards zero. -/
def toInt : Json → Option ℤ
  | .str s => P.parseInt s
  | .bool b => some (if b then 1 else 0)
  | .int i => some i
  | .float (.fin q) => some (q.num.tdiv q.den)
  | _ => none

/-- A `REAL NOT NULL` column takes every float except NaN, which SQLite turns
into `NULL`. -/
def sqlReal : PyFloat → Option PyFloat
  | .nan => none
  | x => some x

/-- `payload.get("timestamp", time.time()) - record.t0`, as a column value; an integer
too large for a float raises. -/
def relativeTime (kvs : List (String × Json)) (now t0 : ℚ) : Option PyFloat :=
  ((Json.getD kvs "timestamp" (.float (.fin now))).asNumber).bind fun ts =>
    sqlReal (ts.sub (.fin t0))

/-- The match id of a payload. -/
def matchId (kvs : List (String × Json)) : Option MatchId :=
  sqlText P (Json.getD kvs "match_id" (.str ""))

/-- The `SELECT` of `on_metrics` and `on_hook`. -/
def getMatch (db : MatchStore) (kvs : List (String × Json)) : Option MatchRecord :=
  (matchId P kvs).bind db.get

/-- The row `on_metrics` inserts. -/
def metricRow (record : MatchRecord) (nodeId : NodeId) (kvs : List (String × Json)) (now : ℚ) :
    Option MetricRow := do
  let t0 ← record.t0
  let matchId ← matchId P kvs
  let terminalId ← sqlText P (Json.getD kvs "terminal_id" (.str ""))
  let tRel ← relativeTime kvs now t0
  let idle ← toFloat P (Json.getD kvs "idle_seconds" (.float (.fin 0)))
  let idleSeconds ← sqlReal idle
  let tokensUsed ← toInt P (Json.getD kvs "tokens_used" (.int 0))
  if fitsInt64 tokensUsed then
    some { matchId := matchId, nodeId := nodeId, terminalId := terminalId, tRel := tRel,
           idleSeconds := idleSeconds, tokensUsed := tokensUsed }
  else none

/-- The event `on_hook` inserts. -/
def hookEvent (record : MatchRecord) (nodeId : NodeId) (kvs : List (String × Json)) (now : ℚ) :
    Option HookEvent := do
  let t0 ← record.t0
  let matchId ← matchId P kvs
  let tRel ← relativeTime kvs now t0
  let eventType ← sqlText P (Json.getD kvs "event_type" (.str "unknown"))
  some { matchId := matchId, nodeId := nodeId, tRel := tRel, eventType := eventType,
         payload := .obj kvs }

end Ingester
