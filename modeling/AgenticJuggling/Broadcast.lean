/-
Pushing a board to the subscribers of a match (`api/broadcast.py`).

`broadcast` walks through the live set of sockets and suspends in every
`send_json`; sockets connect and disconnect meanwhile.

* `Broadcast.sent_raised_iff` — after a send the walk raises exactly if the number
  of subscribers is not the one it began with;
* `Broadcast.broadcast_serves` — a walk during which the set does not change ends
  without raising, has sent to every subscriber once, and drops the sockets
  whose send failed;
* `Broadcast.disconnect_raises` — one subscriber leaves while a send to it is
  suspended.
-/
import AgenticJuggling.LiveIteration
import AgenticJuggling.Router
import AgenticJuggling.Transition

/-- A WebSocket, told apart by identity. -/
abbrev Socket := ℕ

structure BroadcastManager where
  connections : Dict MatchId (Finset Socket)

namespace BroadcastManager

/-- `self._connections.get(match_id, set())`. -/
def subscribers (b : BroadcastManager) (matchId : MatchId) : Finset Socket :=
  (b.connections matchId).getD ∅

/-- `connect`, once the socket is accepted. -/
def connect (b : BroadcastManager) (matchId : MatchId) (ws : Socket) : BroadcastManager where
  connections := b.connections.set matchId (insert ws (b.subscribers matchId))

def disconnect (b : BroadcastManager) (matchId : MatchId) (ws : Socket) : BroadcastManager where
  connections := b.connections.modify matchId fun sockets => sockets.erase ws

/-- The sockets `dead` are discarded, one after the other. -/
def discard (b : BroadcastManager) (matchId : MatchId) (dead : Finset Socket) :
    BroadcastManager where
  connections := b.connections.modify matchId fun sockets => sockets \ dead

theorem subscribers_connect (b : BroadcastManager) (m m' : MatchId) (ws : Socket) :
    (b.connect m' ws).subscribers m =
      if m = m' then insert ws (b.subscribers m) else b.subscribers m := by
  rw [subscribers, connect]
  dsimp only
  rw [Dict.set_apply]
  split
  · next h => rw [h, Option.getD_some]
  · rfl

theorem subscribers_disconnect (b : BroadcastManager) (m m' : MatchId) (ws : Socket) :
    (b.disconnect m' ws).subscribers m =
      if m = m' then (b.subscribers m).erase ws else b.subscribers m := by
  rw [subscribers, disconnect]
  dsimp only
  rw [Dict.modify_apply]
  split
  · next h =>
    subst h
    rw [subscribers]
    cases b.connections m with
    | none => rfl
    | some sockets => rfl
  · rfl

theorem subscribers_discard (b : BroadcastManager) (m : MatchId) (dead : Finset Socket) :
    (b.discard m dead).subscribers m = b.subscribers m \ dead := by
  rw [subscribers, discard]
  dsimp only
  rw [Dict.modify_self, subscribers]
  cases b.connections m with
  | none => exact (Finset.empty_sdiff dead).symm
  | some sockets => rfl

end BroadcastManager

inductive BroadcastPhase
  /-- Suspended in the `send_json` of a socket. -/
  | sending (it : LiveIter Socket) (ws : Socket)
  | returned
  /-- The iteration has raised. -/
  | raised

/-- A call of `broadcast` for one match, and the sets of all of them. -/
structure Broadcast where
  manager : BroadcastManager
  matchId : MatchId
  data : Json
  phase : BroadcastPhase
  /-- What `send_json` was called with. -/
  sent : List (Socket × Json)
  dead : Finset Socket

namespace Broadcast

/-- The set that is walked through. -/
def sockets (b : Broadcast) : Finset Socket := b.manager.subscribers b.matchId

/-- The loop from its next step on. -/
def proceed (b : Broadcast) (it : LiveIter Socket) (choice : Option Socket) : Broadcast :=
  match it.next b.sockets.card choice with
  | .raises => { b with phase := .raised }
  | .stops => { b with phase := .returned, manager := b.manager.discard b.matchId b.dead }
  | .yields ws it => { b with phase := .sending it ws, sent := b.sent ++ [(ws, b.data)] }

/-- `broadcast(match_id, data)` is called; `order` is the order of the set. -/
def begin (manager : BroadcastManager) (matchId : MatchId) (data : Json) (order : List Socket) :
    Broadcast :=
  proceed
    { manager := manager, matchId := matchId, data := data, phase := .returned, sent := [],
      dead := ∅ }
    (.ofMembers order) none

inductive Act
  | connect (matchId : MatchId) (ws : Socket)
  | disconnect (matchId : MatchId) (ws : Socket)
  /-- The suspended send ends; `choice` is read in a disturbed iteration only. -/
  | sent (fails : Bool) (choice : Option Socket)

/-- A walk is disturbed by a change of its set. -/
def withManager (b : Broadcast) (manager : BroadcastManager) (it : LiveIter Socket) (ws : Socket) :
    Broadcast :=
  { b with
    manager := manager
    phase := .sending (if manager.subscribers b.matchId = b.sockets then it else it.disturb) ws }

/-- What can happen until the call returns. -/
def step (b : Broadcast) (a : Act) : Option Broadcast :=
  match b.phase with
  | .sending it ws =>
    match a with
    | .connect m ws' => some (b.withManager (b.manager.connect m ws') it ws)
    | .disconnect m ws' => some (b.withManager (b.manager.disconnect m ws') it ws)
    | .sent fails choice =>
      if ∀ x ∈ choice, x ∈ b.sockets then
        some ({ b with dead := if fails then insert ws b.dead else b.dead }.proceed it choice)
      else none
  | _ => none

/-- The socket whose send fails. -/
def failed (b : Broadcast) : Act → List Socket
  | .sent true _ =>
    match b.phase with
    | .sending _ ws => [ws]
    | _ => []
  | _ => []

/-- The call does not change the set that is walked through. -/
def Quiet (b : Broadcast) : Act → Prop
  | .connect m ws => m = b.matchId → ws ∈ b.sockets
  | .disconnect m ws => m = b.matchId → ws ∉ b.sockets
  | .sent _ _ => True

instance : ∀ (b : Broadcast) (a : Act), Decidable (b.Quiet a)
  | b, .connect m ws => inferInstanceAs (Decidable (m = b.matchId → ws ∈ b.sockets))
  | b, .disconnect m ws => inferInstanceAs (Decidable (m = b.matchId → ws ∉ b.sockets))
  | _, .sent _ _ => .isTrue trivial

/-- All that a step of a walk can be: a change of the manager, which leaves the set
alone if it is quiet, or the end of the suspended send. -/
theorem step_cases {b b' : Broadcast} {a : Act} (h : b.step a = some b') : ∃ it ws,
    b.phase = .sending it ws ∧
      ((∃ manager, b' = b.withManager manager it ws ∧ b.failed a = [] ∧
          (b.Quiet a → manager.subscribers b.matchId = b.sockets)) ∨
        ∃ fails choice, a = .sent fails choice ∧
          b' = { b with dead := if fails then insert ws b.dead else b.dead }.proceed it choice) := by
  rw [step] at h
  split at h
  · next it ws hphase =>
    refine ⟨it, ws, hphase, ?_⟩
    cases a with
    | connect m ws' =>
      refine .inl ⟨_, (Option.some.inj h).symm, rfl, fun hquiet => ?_⟩
      rw [BroadcastManager.subscribers_connect]
      split
      · next hm => exact Finset.insert_eq_of_mem (hquiet hm.symm)
      · rfl
    | disconnect m ws' =>
      refine .inl ⟨_, (Option.some.inj h).symm, rfl, fun hquiet => ?_⟩
      rw [BroadcastManager.subscribers_disconnect]
      split
      · next hm => exact Finset.erase_eq_of_notMem (hquiet hm.symm)
      · rfl
    | sent fails choice =>
      dsimp only at h
      split at h
      · exact .inr ⟨fails, choice, rfl, (Option.some.inj h).symm⟩
      · cases h
  · cases h

theorem proceed_raised_iff {b : Broadcast} {it : LiveIter Socket} {choice : Option Socket} :
    (b.proceed it choice).phase = .raised ↔ b.sockets.card ≠ it.size := by
  rw [proceed, ← @LiveIter.next_eq_raises _ it b.sockets.card choice]
  cases it.next b.sockets.card choice with
  | raises => exact iff_of_true rfl rfl
  | stops => simp
  | yields ws it => simp

/-- **When a walk raises.**  Whatever has changed, only the number of sockets
counts. -/
theorem sent_raised_iff {b b' : Broadcast} {it : LiveIter Socket} {ws : Socket} {fails : Bool}
    {choice : Option Socket} (hphase : b.phase = .sending it ws)
    (h : b.step (.sent fails choice) = some b') :
    b'.phase = .raised ↔ b.sockets.card ≠ it.size := by
  rw [step, hphase] at h
  dsimp only at h
  split at h
  · obtain rfl := Option.some.inj h
    exact proceed_raised_iff
  · cases h

@[simp] theorem dead_proceed (b : Broadcast) (it : LiveIter Socket) (choice : Option Socket) :
    (b.proceed it choice).dead = b.dead := by
  rw [proceed]
  cases it.next b.sockets.card choice with
  | raises => rfl
  | stops => rfl
  | yields ws it => rfl

/-- A socket whose send has failed is marked. -/
theorem step_dead {b b' : Broadcast} {a : Act} (h : b.step a = some b') :
    b.dead ⊆ b'.dead ∧ ∀ ws ∈ b.failed a, ws ∈ b'.dead := by
  obtain ⟨it, ws, hphase, ⟨manager, rfl, hfailed, -⟩ | ⟨fails, choice, rfl, rfl⟩⟩ := step_cases h
  · rw [hfailed]
    exact ⟨subset_rfl, by simp⟩
  · cases fails with
    | false => simp [failed]
    | true => simp [failed, hphase]

/-! ### Walks that nothing disturbs -/

/-- How far a walk over the sockets in `order` has come. -/
def Serving (matchId : MatchId) (data : Json) (order : List Socket) (b : Broadcast) : Prop :=
  b.matchId = matchId ∧ b.data = data ∧
    match b.phase with
    | .sending it _ => b.sockets = order.toFinset ∧
        ∃ visited, it.Follows order visited ∧ b.sent = visited.map fun ws => (ws, data)
    | .returned => b.sent = (order.map fun ws => (ws, data)) ∧ Disjoint b.dead b.sockets
    | .raised => False

theorem proceed_serving {matchId : MatchId} {data : Json} {order visited : List Socket}
    {b : Broadcast} {it : LiveIter Socket} (horder : order.Nodup) (hmatch : b.matchId = matchId)
    (hdata : b.data = data) (hsockets : b.sockets = order.toFinset)
    (hfollows : it.Follows order visited)
    (hsent : b.sent = visited.map fun ws => (ws, data)) (choice : Option Socket) :
    (b.proceed it choice).Serving matchId data order := by
  have hcard : b.sockets.card = order.length := by
    rw [hsockets, List.toFinset_card_of_nodup horder]
  rw [proceed, hcard]
  obtain ⟨hnext, hvisited⟩ | ⟨ws, it', hnext, hfollows'⟩ := hfollows.next choice
  · rw [hnext]
    refine ⟨hmatch, hdata, by rw [hsent, hvisited], ?_⟩
    rw [sockets, BroadcastManager.subscribers_discard]
    exact Finset.disjoint_sdiff
  · rw [hnext]
    refine ⟨hmatch, hdata, hsockets, visited ++ [ws], hfollows', ?_⟩
    rw [List.map_append, hsent, hdata, List.map_singleton]

/-- A call that leaves the set alone does not disturb the walk. -/
theorem withManager_serving {matchId : MatchId} {data : Json} {order visited : List Socket}
    {b : Broadcast} {it : LiveIter Socket} {manager : BroadcastManager}
    (hmatch : b.matchId = matchId) (hdata : b.data = data)
    (hsockets : b.sockets = order.toFinset) (hfollows : it.Follows order visited)
    (hsent : b.sent = visited.map fun ws => (ws, data))
    (hsame : manager.subscribers b.matchId = b.sockets) (ws : Socket) :
    (b.withManager manager it ws).Serving matchId data order := by
  rw [withManager, if_pos hsame]
  exact ⟨hmatch, hdata, hsame.trans hsockets, visited, hfollows, hsent⟩

theorem step_serving {matchId : MatchId} {data : Json} {order : List Socket} {b b' : Broadcast}
    {a : Act} (horder : order.Nodup) (hb : b.Serving matchId data order) (hquiet : b.Quiet a)
    (h : b.step a = some b') : b'.Serving matchId data order := by
  obtain ⟨hmatch, hdata, hserving⟩ := hb
  obtain ⟨it, ws, hphase, hcases⟩ := step_cases h
  rw [hphase] at hserving
  obtain ⟨hsockets, visited, hfollows, hsent⟩ := hserving
  obtain ⟨manager, rfl, -, hsame⟩ | ⟨fails, choice, rfl, rfl⟩ := hcases
  · exact withManager_serving hmatch hdata hsockets hfollows hsent (hsame hquiet) ws
  · exact proceed_serving (b := { b with dead := if fails then insert ws b.dead else b.dead })
      horder hmatch hdata hsockets hfollows hsent choice

/-- **A walk that nothing disturbs.**  If no call changes the subscribers of the
match before `broadcast` returns, it does not raise; when it returns it has sent
the data to every subscriber exactly once, and no socket whose send failed is
left. -/
theorem broadcast_serves {manager : BroadcastManager} {matchId : MatchId} {data : Json}
    {order : List Socket} {as : List Act} {b : Broadcast} (horder : order.Nodup)
    (hsockets : order.toFinset = manager.subscribers matchId)
    (hquiet : Transition.Guarded step Quiet (begin manager matchId data order) as)
    (hrun : Transition.run step (begin manager matchId data order) as = some b) :
    b.phase ≠ .raised ∧
      (b.phase = .returned →
        (∀ ws ∈ manager.subscribers matchId,
          (b.sent.filter fun p => p.1 = ws) = [(ws, data)]) ∧
        ∀ ws ∈ Transition.observed step failed (begin manager matchId data order) as,
          ws ∉ b.manager.subscribers matchId) := by
  have hbegin : (begin manager matchId data order).Serving matchId data order :=
    proceed_serving
      (b := { manager := manager, matchId := matchId, data := data, phase := .returned,
              sent := [], dead := ∅ })
      horder rfl rfl hsockets.symm (LiveIter.follows_ofMembers order) rfl none
  -- Along the walk, every socket whose send has failed so far is marked.
  obtain ⟨⟨hmatch, -, hserving⟩, hfailed⟩ := Transition.invariant_of_guarded_observed
    (I := fun b seen => Serving matchId data order b ∧ ∀ ws ∈ seen, ws ∈ b.dead)
    (fun b seen a b' hb hq hstep => by
      obtain ⟨hdead, hnew⟩ := step_dead hstep
      refine ⟨step_serving horder hb.1 hq hstep, fun ws hws => ?_⟩
      obtain hold | hws := List.mem_append.mp hws
      · exact hdead (hb.2 ws hold)
      · exact hnew ws hws)
    ⟨hbegin, fun ws hws => absurd hws List.not_mem_nil⟩ hquiet hrun
  rw [List.nil_append] at hfailed
  constructor
  · intro hraised
    rw [hraised] at hserving
    exact hserving
  · intro hreturned
    rw [hreturned] at hserving
    obtain ⟨hsent, hdead⟩ := hserving
    constructor
    · intro ws hws
      rw [← hsockets, List.mem_toFinset] at hws
      have hsockets : b.sent.map Prod.fst = order := by
        rw [hsent, List.map_map]
        exact List.map_id order
      obtain ⟨p, hp, rfl, hfilter⟩ := LiveIter.exists_filter_eq_singleton
        (f := Prod.fst) (hsockets ▸ horder) (hsockets ▸ hws)
      rw [hsent] at hp
      obtain ⟨ws, -, rfl⟩ := List.mem_map.mp hp
      exact hfilter
    · intro ws hws
      rw [← hmatch]
      exact Finset.disjoint_left.mp hdead (hfailed ws hws)

/-- Two subscribers of the match `m`. -/
def twoSubscribers : BroadcastManager where
  connections := Dict.empty.set "m" {0, 1}

/-- What is seen of a call: whether it has raised, and the sockets it has sent to. -/
def seen (b : Broadcast) : Option Bool × List Socket :=
  (match b.phase with
    | .sending _ _ => none
    | .returned => some false
    | .raised => some true,
   b.sent.map Prod.fst)

/-- The first send fails, the second does not; a socket connects to another match
in between. -/
theorem broadcast_serves_two : ∃ b,
    Transition.run step (begin twoSubscribers "m" .null [0, 1])
        [.sent true none, .connect "n" 2, .sent false none] = some b ∧
      b.phase ≠ .raised ∧
      (b.phase = .returned →
        (∀ ws ∈ twoSubscribers.subscribers "m",
          (b.sent.filter fun p => p.1 = ws) = [(ws, .null)]) ∧
        ∀ ws ∈ Transition.observed step failed (begin twoSubscribers "m" .null [0, 1])
            [.sent true none, .connect "n" 2, .sent false none],
          ws ∉ b.manager.subscribers "m") := by
  have hseen : (Transition.run step (begin twoSubscribers "m" .null [0, 1])
      [.sent true none, .connect "n" 2, .sent false none]).map seen = some (some false, [0, 1]) := by
    decide
  obtain ⟨b, hrun, -⟩ := Option.map_eq_some_iff.mp hseen
  exact ⟨b, hrun, broadcast_serves (by decide) (by decide) (by decide) hrun⟩

/-- **A subscriber leaves during a send.**  The walk raises, and the second
subscriber, who stays, is sent nothing. -/
theorem disconnect_raises :
    (Transition.run step (begin twoSubscribers "m" .null [0, 1])
      [.disconnect "m" 0, .sent false none]).map
        (fun b => (b.seen, decide (1 ∈ b.manager.subscribers "m"))) =
      some ((some true, [0]), true) := by
  decide

end Broadcast
