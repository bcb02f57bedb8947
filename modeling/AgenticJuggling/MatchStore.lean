/-
The match table (`match/store.py`).

`rows` is the table as the server's own connection reads it and `committed`
what the last `COMMIT` left durable: a statement takes effect on `rows` at
once, and on `committed` only through `commit`.  A text column holding JSON is
kept as the value `json.loads` returns for it.
-/
import AgenticJuggling.CryptoManager

inductive MatchState
  | lobby
  | starting
  | running
  | finished
  deriving DecidableEq, Repr

structure NodeAssignment where
  nodeId : NodeId
  agentname : String
  schedule : List PromptEntry
  deriving DecidableEq, Repr

structure MatchConfig where
  durationS : ℚ
  nodes : List NodeAssignment
  tokenWeight : ℚ := 1 / 100
  idlePenalty : ℚ := 1
  matchId : MatchId
  version : ℤ := 1
  createdAt : ℚ

structure MatchRecord where
  matchId : MatchId
  version : ℤ
  createdAt : ℚ
  durationS : ℚ
  tokenWeight : ℚ
  idlePenalty : ℚ
  state : MatchState
  t0 : Option ℚ
  configJson : Json

structure MatchStore where
  rows : Dict MatchId MatchRecord
  committed : Dict MatchId MatchRecord

namespace MatchStore

def entryJson (p : PromptEntry) : Json :=
  .obj [("delay", .float (.fin p.delay)), ("prompt", .str p.prompt)]

def assignmentJson (na : NodeAssignment) : Json :=
  .obj [("node_id", .str na.nodeId), ("agentname", .str na.agentname),
    ("schedule", .arr (na.schedule.map entryJson))]

/-- The record `create` inserts. -/
def recordOf (config : MatchConfig) : MatchRecord where
  matchId := config.matchId
  version := config.version
  createdAt := config.createdAt
  durationS := config.durationS
  tokenWeight := config.tokenWeight
  idlePenalty := config.idlePenalty
  state := .lobby
  t0 := none
  configJson := .arr (config.nodes.map assignmentJson)

/-- The `INSERT` of `create`; `none` where the primary key is taken. -/
def insert (db : MatchStore) (config : MatchConfig) : Option MatchStore :=
  match db.rows config.matchId with
  | some _ => none
  | none => some { db with rows := db.rows.set config.matchId (recordOf config) }

def get (db : MatchStore) (matchId : MatchId) : Option MatchRecord := db.rows matchId

/-- The `UPDATE` of `update_state`; `t0` is written only when given. -/
def updateState (db : MatchStore) (matchId : MatchId) (state : MatchState) (t0 : Option ℚ) :
    MatchStore :=
  { db with
    rows := db.rows.modify matchId fun row => { row with state := state, t0 := t0.or row.t0 } }

/-- `COMMIT` makes everything the connection has written durable. -/
def commit (db : MatchStore) : MatchStore := { db with committed := db.rows }

/-- `PromptEntry(**p)`. -/
def parseEntry (p : Json) : Option PromptEntry := do
  let .float (.fin delay) ← p.get? "delay" | none
  let .str prompt ← p.get? "prompt" | none
  some ⟨delay, prompt⟩

def parseAssignment (na : Json) : Option NodeAssignment := do
  let .str nodeId ← na.get? "node_id" | none
  let .str agentname ← na.get? "agentname" | none
  let .arr entries ← na.get? "schedule" | none
  let schedule ← entries.mapM parseEntry
  some ⟨nodeId, agentname, schedule⟩

/-- `none` where the text is not one that `create` writes. -/
def parseAssignments (configJson : Json) : Option (List NodeAssignment) :=
  configJson.asArr.bind (·.mapM parseAssignment)

/-- The state in a match's row. -/
def stateOf (db : MatchStore) (matchId : MatchId) : Option MatchState :=
  (db.rows matchId).map (·.state)

/-- The start time in a match's row. -/
def t0Of (db : MatchStore) (matchId : MatchId) : Option ℚ :=
  (db.rows matchId).bind (·.t0)

/-- The configuration in a match's row. -/
def configOf (db : MatchStore) (matchId : MatchId) : Option Json :=
  (db.rows matchId).map (·.configJson)

/-! ### What the statements change -/

@[simp] theorem commit_rows (db : MatchStore) : db.commit.rows = db.rows := rfl

@[simp] theorem commit_committed (db : MatchStore) : db.commit.committed = db.rows := rfl

@[simp] theorem updateState_committed (db : MatchStore) (m : MatchId) (st : MatchState)
    (t0 : Option ℚ) : (db.updateState m st t0).committed = db.committed := rfl

theorem insert_eq_some {db db' : MatchStore} {config : MatchConfig} :
    db.insert config = some db' ↔
      db.rows config.matchId = none ∧
        db' = { db with rows := db.rows.set config.matchId (recordOf config) } := by
  rw [insert]
  cases db.rows config.matchId with
  | none => simp [eq_comm]
  | some row => simp

theorem updateState_rows (db : MatchStore) (m m' : MatchId) (st : MatchState) (t0 : Option ℚ) :
    (db.updateState m st t0).rows m' = if m' = m
      then (db.rows m).map fun row => { row with state := st, t0 := t0.or row.t0 }
      else db.rows m' :=
  Dict.modify_apply ..

theorem updateState_stateOf (db : MatchStore) (m m' : MatchId) (st : MatchState)
    (t0 : Option ℚ) : (db.updateState m st t0).stateOf m'
      = if m' = m then (db.stateOf m).map fun _ => st else db.stateOf m' := by
  rw [stateOf, updateState_rows]
  by_cases h : m' = m
  · rw [if_pos h, if_pos h, stateOf, Option.map_map, Option.map_map]
    rfl
  · rw [if_neg h, if_neg h, stateOf]

@[simp] theorem updateState_configOf (db : MatchStore) (m m' : MatchId) (st : MatchState)
    (t0 : Option ℚ) : (db.updateState m st t0).configOf m' = db.configOf m' := by
  rw [configOf, configOf, updateState_rows]
  by_cases h : m' = m
  · subst h
    rw [if_pos rfl, Option.map_map]
    rfl
  · rw [if_neg h]

end MatchStore
