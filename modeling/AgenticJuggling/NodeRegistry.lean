/-
The node registry (`registry/nodes.py`).

Which nodes have registered, under which ZMQ identity, and in which state.
The two clock stamps of a record are never read by the server and are left
out, and with them `touch`, which only sets one of them.
-/
import AgenticJuggling.Dict
import AgenticJuggling.Json
import AgenticJuggling.Base64

abbrev NodeId := String

inductive NodeState
  | connected
  | ready
  | running
  | disconnected
  deriving DecidableEq, Repr

structure NodeRecord where
  nodeId : NodeId
  hostname : Json
  ip : Json
  state : NodeState := .connected
  zmqIdentity : Option Bytes := none

structure NodeRegistry where
  /-- The configured pre-shared tokens. -/
  allowedTokens : Dict NodeId String
  nodes : Dict NodeId NodeRecord

namespace NodeRegistry

def authenticate (r : NodeRegistry) (nodeId : NodeId) (token : Json) : Bool :=
  match r.allowedTokens nodeId with
  | none => false
  | some expected => decide (token.asStr = some expected)

/-- The record is overwritten in place on a reconnect; the flag says which
case it was. -/
def register (r : NodeRegistry) (nodeId : NodeId) (hostname ip : Json) (zmqIdentity : Bytes) :
    NodeRegistry × Bool :=
  match r.nodes nodeId with
  | some node =>
    let node := { node with
      hostname := hostname, ip := ip, zmqIdentity := some zmqIdentity, state := .connected }
    ({ r with nodes := r.nodes.set nodeId node }, true)
  | none =>
    let node : NodeRecord :=
      { nodeId := nodeId, hostname := hostname, ip := ip, zmqIdentity := some zmqIdentity }
    ({ r with nodes := r.nodes.set nodeId node }, false)

def updateState (r : NodeRegistry) (nodeId : NodeId) (state : NodeState) : NodeRegistry :=
  { r with nodes := r.nodes.modify nodeId fun node => { node with state := state } }

def get (r : NodeRegistry) (nodeId : NodeId) : Option NodeRecord := r.nodes nodeId

/-- Membership in `all_in_state(state)`. -/
def inState (r : NodeRegistry) (state : NodeState) (nodeId : NodeId) : Bool :=
  match r.nodes nodeId with
  | none => false
  | some node => decide (node.state = state)

def identityFor (r : NodeRegistry) (nodeId : NodeId) : Option Bytes :=
  (r.nodes nodeId).bind (·.zmqIdentity)

/-- The state a node has in the registry. -/
def stateOf (r : NodeRegistry) (nodeId : NodeId) : Option NodeState :=
  (r.nodes nodeId).map (·.state)

theorem inState_iff {r : NodeRegistry} {state : NodeState} {nodeId : NodeId} :
    r.inState state nodeId = true ↔ r.stateOf nodeId = some state := by
  rw [inState, stateOf]
  cases r.nodes nodeId with
  | none => simp
  | some node => simp

/-! ### What the two writers change -/

@[simp] theorem updateState_allowedTokens (r : NodeRegistry) (n : NodeId) (st : NodeState) :
    (r.updateState n st).allowedTokens = r.allowedTokens := rfl

theorem updateState_stateOf (r : NodeRegistry) (n n' : NodeId) (st : NodeState) :
    (r.updateState n st).stateOf n'
      = if n' = n then (r.stateOf n).map fun _ => st else r.stateOf n' := by
  simp only [stateOf, updateState, Dict.modify_apply]
  by_cases h : n' = n
  · rw [if_pos h, if_pos h, Option.map_map, Option.map_map]
    rfl
  · rw [if_neg h, if_neg h]

@[simp] theorem updateState_identityFor (r : NodeRegistry) (n n' : NodeId) (st : NodeState) :
    (r.updateState n st).identityFor n' = r.identityFor n' := by
  simp only [identityFor, updateState, Dict.modify_apply]
  by_cases h : n' = n
  · subst h
    rw [if_pos rfl]
    cases r.nodes n' with
    | none => rfl
    | some node => rfl
  · rw [if_neg h]

/-- No state change adds or removes a node. -/
@[simp] theorem updateState_nodes_isSome (r : NodeRegistry) (n n' : NodeId) (st : NodeState) :
    ((r.updateState n st).nodes n').isSome = (r.nodes n').isSome := by
  simp only [updateState, Dict.modify_apply]
  by_cases h : n' = n
  · rw [if_pos h, Option.isSome_map, h]
  · rw [if_neg h]

@[simp] theorem register_allowedTokens (r : NodeRegistry) (n : NodeId) (hostname ip : Json)
    (identity : Bytes) : (r.register n hostname ip identity).1.allowedTokens = r.allowedTokens := by
  rw [register]
  cases r.nodes n with
  | none => rfl
  | some node => rfl

@[simp] theorem register_stateOf_self (r : NodeRegistry) (n : NodeId) (hostname ip : Json)
    (identity : Bytes) : (r.register n hostname ip identity).1.stateOf n = some .connected := by
  rw [register, stateOf]
  cases r.nodes n with
  | none => simp
  | some node => simp

@[simp] theorem register_identityFor_self (r : NodeRegistry) (n : NodeId) (hostname ip : Json)
    (identity : Bytes) : (r.register n hostname ip identity).1.identityFor n = some identity := by
  rw [register, identityFor]
  cases r.nodes n with
  | none => simp
  | some node => simp

theorem register_nodes_of_ne (r : NodeRegistry) {n n' : NodeId} (h : n' ≠ n) (hostname ip : Json)
    (identity : Bytes) : (r.register n hostname ip identity).1.nodes n' = r.nodes n' := by
  rw [register]
  cases r.nodes n with
  | none => simp [h]
  | some node => simp [h]

theorem register_stateOf_of_ne (r : NodeRegistry) {n n' : NodeId} (h : n' ≠ n)
    (hostname ip : Json) (identity : Bytes) :
    (r.register n hostname ip identity).1.stateOf n' = r.stateOf n' := by
  rw [stateOf, stateOf, register_nodes_of_ne r h]

theorem register_identityFor_of_ne (r : NodeRegistry) {n n' : NodeId} (h : n' ≠ n)
    (hostname ip : Json) (identity : Bytes) :
    (r.register n hostname ip identity).1.identityFor n' = r.identityFor n' := by
  rw [identityFor, identityFor, register_nodes_of_ne r h]

/-- A node with an identity is registered. -/
theorem stateOf_ne_none {r : NodeRegistry} {n : NodeId} (h : r.identityFor n ≠ none) :
    r.stateOf n ≠ none := by
  intro hs
  rw [stateOf, Option.map_eq_none_iff] at hs
  rw [identityFor, hs] at h
  exact h rfl

theorem updateState_stateOf_self {r : NodeRegistry} {n : NodeId} (h : r.identityFor n ≠ none)
    (st : NodeState) : (r.updateState n st).stateOf n = some st := by
  rw [updateState_stateOf, if_pos rfl]
  obtain ⟨old, hold⟩ := Option.ne_none_iff_exists'.mp (stateOf_ne_none h)
  rw [hold]
  rfl

theorem updateState_stateOf_of_ne (r : NodeRegistry) {n n' : NodeId} (h : n' ≠ n)
    (st : NodeState) : (r.updateState n st).stateOf n' = r.stateOf n' := by
  rw [updateState_stateOf, if_neg h]

end NodeRegistry
