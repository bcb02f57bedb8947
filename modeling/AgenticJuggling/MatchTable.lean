/-
The match table, column by column (`match/store.py`).

`MatchStore` keeps a record for every match.  Here are the statements behind
it: `create` binds nine values by position, `update_state` sets columns by
name, and `get` reads a row by name and turns the text of its `state` column
back into a state.

* `Represents.insert`, `Represents.updateState` — the statements do to the
  columns what `MatchStore` does to the records;
* `parseAssignments_assignmentsJson` — the decoder of `config_json` inverts its
  encoder;
* `MatchTable.replayable` — after any sequence of operations a match is read
  back as it was created, in the state and with the start time written last.
-/
import AgenticJuggling.MatchStore

/-- What SQLite stores in a column.  A text that holds JSON is kept as the value
`json.loads` returns for it. -/
inductive SqlValue
  | null
  | integer (i : ℤ)
  | real (x : ℚ)
  | text (s : String)
  | json (j : Json)

namespace MatchState

/-- `state.value`. -/
def value : MatchState → String
  | lobby => "LOBBY"
  | starting => "STARTING"
  | running => "RUNNING"
  | finished => "FINISHED"

/-- `MatchState(value)`; `none` where it raises. -/
def ofValue (s : String) : Option MatchState :=
  if s = "LOBBY" then some lobby
  else if s = "STARTING" then some starting
  else if s = "RUNNING" then some running
  else if s = "FINISHED" then some finished
  else none

@[simp] theorem ofValue_value (state : MatchState) : ofValue state.value = some state := by
  cases state <;> rfl

end MatchState

/-- A row: the columns by name. -/
abbrev SqlRow := Dict String SqlValue

namespace SqlRow

def text (row : SqlRow) (column : String) : Option String :=
  match row column with
  | some (.text s) => some s
  | _ => none

def integer (row : SqlRow) (column : String) : Option ℤ :=
  match row column with
  | some (.integer i) => some i
  | _ => none

def real (row : SqlRow) (column : String) : Option ℚ :=
  match row column with
  | some (.real x) => some x
  | _ => none

/-- A `REAL` column that may be `NULL`. -/
def realOrNull (row : SqlRow) (column : String) : Option (Option ℚ) :=
  match row column with
  | some .null => some none
  | some (.real x) => some (some x)
  | _ => none

def json (row : SqlRow) (column : String) : Option Json :=
  match row column with
  | some (.json j) => some j
  | _ => none

end SqlRow

/-- The rows of the table, by their primary key. -/
abbrev MatchTable := Dict MatchId SqlRow

namespace MatchTable

/-- The columns of the `INSERT`, in its order. -/
def insertColumns : List String :=
  ["match_id", "version", "created_at", "duration_s", "token_weight", "idle_penalty", "state",
    "t0", "config_json"]

/-- The value bound for a `t0`. -/
def t0Value : Option ℚ → SqlValue
  | none => .null
  | some t0 => .real t0

/-- The values of the `INSERT`, by position. -/
def insertValues (record : MatchRecord) : List SqlValue :=
  [.text record.matchId, .integer record.version, .real record.createdAt, .real record.durationS,
    .real record.tokenWeight, .real record.idlePenalty, .text record.state.value,
    t0Value record.t0, .json record.configJson]

/-- `_row_to_record`. -/
def rowToRecord (row : SqlRow) : Option MatchRecord := do
  let matchId ← row.text "match_id"
  let version ← row.integer "version"
  let createdAt ← row.real "created_at"
  let durationS ← row.real "duration_s"
  let tokenWeight ← row.real "token_weight"
  let idlePenalty ← row.real "idle_penalty"
  let state ← (← row.text "state") |> MatchState.ofValue
  let t0 ← row.realOrNull "t0"
  let configJson ← row.json "config_json"
  some { matchId := matchId, version := version, createdAt := createdAt, durationS := durationS,
         tokenWeight := tokenWeight, idlePenalty := idlePenalty, state := state, t0 := t0,
         configJson := configJson }

/-- `create`; `none` where the primary key is taken (`IntegrityError`). -/
def create (table : MatchTable) (config : MatchConfig) : Option MatchTable :=
  match table config.matchId with
  | some _ => none
  | none => some (table.set config.matchId fun column =>
      (insertColumns.zip (insertValues (MatchStore.recordOf config))).lookup column)

/-- The two `UPDATE`s of `update_state`. -/
def updateState (table : MatchTable) (matchId : MatchId) (state : MatchState) (t0 : Option ℚ) :
    MatchTable :=
  match t0 with
  | some t0 => table.modify matchId fun row =>
      (row.set "state" (.text state.value)).set "t0" (.real t0)
  | none => table.modify matchId fun row => row.set "state" (.text state.value)

def get (table : MatchTable) (matchId : MatchId) : Option MatchRecord :=
  (table matchId).bind rowToRecord

/-! ### Columns and records -/

/-- The positions of the `INSERT` line up with the names that are read. -/
theorem rowToRecord_insertValues (record : MatchRecord) :
    rowToRecord (fun column => (insertColumns.zip (insertValues record)).lookup column)
      = some record := by
  obtain ⟨matchId, version, createdAt, durationS, tokenWeight, idlePenalty, state, t0, config⟩ :=
    record
  cases t0 with
  | none => cases state <;> rfl
  | some t0 => cases state <;> rfl

/-- The `UPDATE` without a `t0`. -/
theorem rowToRecord_setState {row : SqlRow} {record : MatchRecord}
    (h : rowToRecord row = some record) (state : MatchState) :
    rowToRecord (row.set "state" (.text state.value)) = some { record with state := state } := by
  simp only [rowToRecord, Option.bind_eq_bind, Option.bind_eq_some_iff] at h
  obtain ⟨matchId, h1, version, h2, createdAt, h3, durationS, h4, tokenWeight, h5, idlePenalty, h6,
    text, -, old, -, t0, h7, config, h8, heq⟩ := h
  obtain rfl := Option.some.inj heq
  simp_all [rowToRecord, SqlRow.text, SqlRow.integer, SqlRow.real, SqlRow.realOrNull, SqlRow.json]

/-- What the other `UPDATE` sets besides. -/
theorem rowToRecord_setT0 {row : SqlRow} {record : MatchRecord}
    (h : rowToRecord row = some record) (t0 : ℚ) :
    rowToRecord (row.set "t0" (.real t0)) = some { record with t0 := some t0 } := by
  simp only [rowToRecord, Option.bind_eq_bind, Option.bind_eq_some_iff] at h
  obtain ⟨matchId, h1, version, h2, createdAt, h3, durationS, h4, tokenWeight, h5, idlePenalty, h6,
    text, h7, state, h8, old, -, config, h9, heq⟩ := h
  obtain rfl := Option.some.inj heq
  simp_all [rowToRecord, SqlRow.text, SqlRow.integer, SqlRow.real, SqlRow.realOrNull, SqlRow.json]

theorem create_eq_some {table table' : MatchTable} {config : MatchConfig} :
    table.create config = some table' ↔ table config.matchId = none ∧
      table' = table.set config.matchId fun column =>
        (insertColumns.zip (insertValues (MatchStore.recordOf config))).lookup column := by
  rw [create]
  cases table config.matchId with
  | none => simp [eq_comm]
  | some row => simp

theorem get_create_self {table table' : MatchTable} {config : MatchConfig}
    (h : table.create config = some table') :
    table'.get config.matchId = some (MatchStore.recordOf config) := by
  obtain ⟨-, rfl⟩ := create_eq_some.mp h
  rw [get, Dict.set_self, Option.bind_some, rowToRecord_insertValues]

theorem create_of_ne {table table' : MatchTable} {config : MatchConfig}
    (h : table.create config = some table') {m : MatchId} (hm : m ≠ config.matchId) :
    table' m = table m := by
  obtain ⟨-, rfl⟩ := create_eq_some.mp h
  exact Dict.set_of_ne _ hm _

theorem updateState_of_ne (table : MatchTable) {m m' : MatchId} (hm : m' ≠ m) (state : MatchState)
    (t0 : Option ℚ) : table.updateState m state t0 m' = table m' := by
  cases t0 with
  | none => exact Dict.modify_of_ne _ hm _
  | some t0 => exact Dict.modify_of_ne _ hm _

theorem updateState_self_eq_none {table : MatchTable} {m : MatchId} (state : MatchState)
    (t0 : Option ℚ) : table.updateState m state t0 m = none ↔ table m = none := by
  cases t0 with
  | none => simp [updateState]
  | some t0 => simp [updateState]

theorem get_updateState_self {table : MatchTable} {m : MatchId} {record : MatchRecord}
    (h : table.get m = some record) (state : MatchState) (t0 : Option ℚ) :
    (table.updateState m state t0).get m
      = some { record with state := state, t0 := t0.or record.t0 } := by
  obtain ⟨row, hrow, hrecord⟩ := Option.bind_eq_some_iff.mp h
  cases t0 with
  | none =>
    rw [get, updateState, Dict.modify_self, hrow, Option.map_some, Option.bind_some]
    exact rowToRecord_setState hrecord state
  | some t0 =>
    rw [get, updateState, Dict.modify_self, hrow, Option.map_some, Option.bind_some]
    exact rowToRecord_setT0 (rowToRecord_setState hrecord state) t0

/-- The columns are those of the records. -/
structure Represents (table : MatchTable) (db : MatchStore) : Prop where
  get : ∀ m, table.get m = db.get m
  absent : ∀ m, table m = none ↔ db.rows m = none

theorem Represents.insert {table : MatchTable} {db db' : MatchStore} (h : Represents table db)
    {config : MatchConfig} (hinsert : db.insert config = some db') :
    ∃ table', table.create config = some table' ∧ Represents table' db' := by
  obtain ⟨hnone, rfl⟩ := MatchStore.insert_eq_some.mp hinsert
  obtain ⟨table', htable'⟩ : ∃ table', table.create config = some table' :=
    ⟨_, create_eq_some.mpr ⟨(h.absent _).mpr hnone, rfl⟩⟩
  refine ⟨table', htable', fun m => ?_, fun m => ?_⟩
  · by_cases hm : m = config.matchId
    · rw [hm, get_create_self htable']
      exact (Dict.set_self ..).symm
    · rw [MatchTable.get, create_of_ne htable' hm]
      exact (h.get m).trans (Dict.set_of_ne _ hm _).symm
  · by_cases hm : m = config.matchId
    · obtain ⟨-, rfl⟩ := create_eq_some.mp htable'
      simp [hm]
    · rw [create_of_ne htable' hm, h.absent m]
      show db.rows m = none ↔ db.rows.set config.matchId _ m = none
      rw [Dict.set_of_ne _ hm]

theorem Represents.updateState {table : MatchTable} {db : MatchStore} (h : Represents table db)
    (m : MatchId) (state : MatchState) (t0 : Option ℚ) :
    Represents (table.updateState m state t0) (db.updateState m state t0) := by
  refine ⟨fun m' => ?_, fun m' => ?_⟩
  · rw [MatchStore.get, MatchStore.updateState_rows]
    by_cases hm : m' = m
    · rw [if_pos hm, hm]
      cases hrow : db.rows m with
      | none =>
        rw [MatchTable.get, (updateState_self_eq_none state t0).mpr ((h.absent m).mpr hrow)]
        rfl
      | some record => exact get_updateState_self ((h.get m).trans hrow) state t0
    · rw [if_neg hm, MatchTable.get, updateState_of_ne table hm]
      exact h.get m'
  · rw [MatchStore.updateState_rows]
    by_cases hm : m' = m
    · rw [if_pos hm, hm, updateState_self_eq_none, Option.map_eq_none_iff]
      exact h.absent m
    · rw [if_neg hm, updateState_of_ne table hm]
      exact h.absent m'

end MatchTable

/-! ### The configuration as JSON -/

/-- Decoding item by item inverts encoding item by item. -/
theorem mapM_map_of_inverse {α β : Type} {f : α → β} {g : β → Option α}
    (h : ∀ a, g (f a) = some a) (l : List α) : (l.map f).mapM g = some l := by
  induction l with
  | nil => rfl
  | cons a l ih => simp [h, ih]

namespace MatchStore

@[simp] theorem parseEntry_entryJson (p : PromptEntry) : parseEntry (entryJson p) = some p := by
  simp [parseEntry, entryJson, Json.lookup]

@[simp] theorem parseAssignment_assignmentJson (na : NodeAssignment) :
    parseAssignment (assignmentJson na) = some na := by
  simp [parseAssignment, assignmentJson, Json.lookup,
    mapM_map_of_inverse parseEntry_entryJson]

theorem parseAssignments_assignmentsJson (nodes : List NodeAssignment) :
    parseAssignments (.arr (nodes.map assignmentJson)) = some nodes :=
  mapM_map_of_inverse parseAssignment_assignmentJson nodes

end MatchStore

/-! ### Sequences of operations -/

/-- A call of one of the methods of the store. -/
inductive StoreOp
  | create (config : MatchConfig)
  | updateState (matchId : MatchId) (state : MatchState) (t0 : Option ℚ)
  | get (matchId : MatchId)
  | listAll

namespace StoreOp

/-- The states that are written for match `m`, in order. -/
def statesWritten (m : MatchId) (ops : List StoreOp) : List MatchState :=
  ops.filterMap fun
    | updateState m' state _ => if m' = m then some state else none
    | _ => none

/-- The start times that are written for match `m`, in order. -/
def t0sWritten (m : MatchId) (ops : List StoreOp) : List ℚ :=
  ops.filterMap fun
    | updateState m' _ t0 => if m' = m then t0 else none
    | _ => none

end StoreOp

namespace MatchTable

open StoreOp

/-- What an operation leaves; a `create` that raises leaves the table as it was. -/
def perform (table : MatchTable) : StoreOp → MatchTable
  | .create config => (table.create config).getD table
  | .updateState m state t0 => table.updateState m state t0
  | .get _ => table
  | .listAll => table

def performAll (table : MatchTable) (ops : List StoreOp) : MatchTable := ops.foldl perform table

/-- The same operations on the records. -/
def performOn (db : MatchStore) : StoreOp → MatchStore
  | .create config => (db.insert config).getD db
  | .updateState m state t0 => db.updateState m state t0
  | .get _ => db
  | .listAll => db

theorem Represents.perform {table : MatchTable} {db : MatchStore} (h : Represents table db)
    (op : StoreOp) : Represents (table.perform op) (performOn db op) := by
  cases op with
  | create config =>
    show Represents ((table.create config).getD table) ((db.insert config).getD db)
    cases hinsert : db.insert config with
    | none =>
      have hcreate : table.create config = none := by
        rw [← Option.not_isSome_iff_eq_none, Option.isSome_iff_exists]
        rintro ⟨table', hcreate⟩
        have hfree := (h.absent _).mp (create_eq_some.mp hcreate).1
        rw [MatchStore.insert, hfree] at hinsert
        cases hinsert
      rw [hcreate]
      exact h
    | some db' =>
      obtain ⟨table', hcreate, h'⟩ := h.insert hinsert
      rw [hcreate]
      exact h'
  | updateState m state t0 => exact h.updateState m state t0
  | get m => exact h
  | listAll => exact h

/-- **The records are a model of the columns**: every sequence of operations
does the same to both. -/
theorem Represents.performAll {table : MatchTable} {db : MatchStore} (h : Represents table db)
    (ops : List StoreOp) : Represents (table.performAll ops) (ops.foldl performOn db) := by
  induction ops generalizing table db with
  | nil => exact h
  | cons op ops ih => exact ih (h.perform op)

/-- **What one operation leaves of a record.** -/
theorem get_perform {table : MatchTable} {m : MatchId} {record : MatchRecord}
    (h : table.get m = some record) (op : StoreOp) :
    (table.perform op).get m = some { record with
      state := (statesWritten m [op]).getLastD record.state
      t0 := (t0sWritten m [op]).getLast?.or record.t0 } := by
  cases op with
  | create config =>
    show ((table.create config).getD table).get m = some record
    cases hcreate : table.create config with
    | none => exact h
    | some table' =>
      -- The primary key of the record is taken.
      have hm : m ≠ config.matchId := by
        rintro rfl
        rw [get, (create_eq_some.mp hcreate).1] at h
        cases h
      rw [Option.getD_some, get, create_of_ne hcreate hm]
      exact h
  | updateState m' state t0 =>
    by_cases hm : m' = m
    · subst hm
      show (table.updateState m' state t0).get m' = _
      rw [get_updateState_self h]
      cases t0 <;> simp [statesWritten, t0sWritten]
    · show (table.updateState m' state t0).get m = _
      rw [get, updateState_of_ne table (Ne.symm hm), ← get, h]
      simp [statesWritten, t0sWritten, hm]
  | get m' => exact h
  | listAll => exact h

/-- **What a sequence of operations leaves of a record.** -/
theorem get_performAll {table : MatchTable} {m : MatchId} {record : MatchRecord}
    (h : table.get m = some record) (ops : List StoreOp) :
    (table.performAll ops).get m = some { record with
      state := (statesWritten m ops).getLastD record.state
      t0 := (t0sWritten m ops).getLast?.or record.t0 } := by
  induction ops generalizing table record with
  | nil => exact h
  | cons op ops ih =>
    have hstates : statesWritten m (op :: ops) = statesWritten m [op] ++ statesWritten m ops :=
      List.filterMap_append (l := [op])
    have ht0s : t0sWritten m (op :: ops) = t0sWritten m [op] ++ t0sWritten m ops :=
      List.filterMap_append (l := [op])
    rw [performAll, List.foldl_cons, ← performAll, ih (get_perform h op), hstates, ht0s,
      List.getLast?_append, Option.or_assoc]
    simp [List.getLastD_eq_getLast?, List.getLast?_append]

/-- **Matches can be replayed**: whatever happens to the table after `create`,
`get` returns the configuration of the match as it was given, with the state
and the start time that were written last. -/
theorem replayable {table table' : MatchTable} {config : MatchConfig}
    (h : table.create config = some table') (ops : List StoreOp) :
    ∃ record, (table'.performAll ops).get config.matchId = some record ∧
      record.durationS = config.durationS ∧ record.tokenWeight = config.tokenWeight ∧
      record.idlePenalty = config.idlePenalty ∧ record.version = config.version ∧
      record.createdAt = config.createdAt ∧
      MatchStore.parseAssignments record.configJson = some config.nodes ∧
      record.state = (statesWritten config.matchId ops).getLastD .lobby ∧
      record.t0 = (t0sWritten config.matchId ops).getLast? := by
  refine ⟨_, get_performAll (get_create_self h) ops, rfl, rfl, rfl, rfl, rfl, ?_, rfl, ?_⟩
  · exact MatchStore.parseAssignments_assignmentsJson config.nodes
  · exact Option.or_none

/-- A match with one node and two prompts, created at time 3. -/
def duet : MatchConfig where
  durationS := 60
  nodes := [⟨"n", "claude", [⟨0, "go"⟩, ⟨5 / 2, "on"⟩]⟩]
  matchId := "m"
  createdAt := 3

/-- It is started, another match is created, its id is used again, and it ends. -/
theorem replayable_finished : ∃ record, get (performAll Dict.empty
      [.create duet, .updateState "m" .starting none, .updateState "m" .running (some 7),
        .create { duet with matchId := "other" }, .create { duet with durationS := 1 },
        .updateState "m" .finished none]) "m" = some record ∧
    record.durationS = 60 ∧ MatchStore.parseAssignments record.configJson = some duet.nodes ∧
    record.state = .finished ∧ record.t0 = some 7 := by
  have hcreate : create Dict.empty duet = some (perform Dict.empty (.create duet)) := rfl
  obtain ⟨record, hget, hduration, -, -, -, -, hnodes, hstate, ht0⟩ := replayable hcreate
    [.updateState "m" .starting none, .updateState "m" .running (some 7),
      .create { duet with matchId := "other" }, .create { duet with durationS := 1 },
      .updateState "m" .finished none]
  exact ⟨record, hget, hduration, hnodes, hstate, ht0⟩

end MatchTable
