/-
What a node is told when it registers again.

`was_running` is what the registry says of the node when its `REGISTER` is
handled, and the registry is written by the marks that follow the messages to
the node, and by the `REGISTER` itself.  `phase` reads off the trace which
message to a node was the last one.

* `registrations_eq` — what the handler answers and what it leaves in the
  registry;
* `Sys.Backed.step` — a node that is `RUNNING` was sent a `START` last, or a
  `STOP` whose mark is still to come;
* `Sys.reconnect_law` — exactly when a reconnecting node is served as it should
  be.
-/
import AgenticJuggling.Authentication
import AgenticJuggling.NodeHistory

open Transition

/-! ### Messages to a node -/

/-- The last message to a node. -/
inductive Phase
  /-- No message, or a `STOP` that has been followed by its mark. -/
  | idle
  | started
  /-- A `STOP` that has not been followed by its mark. -/
  | stopping
  deriving DecidableEq

namespace Event

/-- The phase of node `n` after one more event. -/
def nextPhase (n : NodeId) (phase : Phase) : Event → Phase
  | .sent nodeId _ msgType _ =>
    if nodeId = n then
      match msgType with
      | .start => .started
      | .stop => .stopping
    else phase
  | .marked nodeId state =>
    if nodeId = n ∧ state = .ready ∧ phase = .stopping then .idle else phase
  | _ => phase

/-- The matches that node `n` is to run, and those of them after whose `START`
it has been marked `RUNNING`. -/
def nextMatches (n : NodeId) (p : List MatchId × List MatchId) (e : Event) :
    List MatchId × List MatchId :=
  let running := track n p.1 e
  match e with
  | .marked nodeId .running => if nodeId = n then (running, running) else (running, p.2)
  | _ => (running, p.2.filter (· ∈ running))

/-- The node a `REGISTER` was accepted from, and the reply. -/
def registration : Event → Option (NodeId × Json)
  | .registered nodeId _ _ reply => some (nodeId, reply)
  | _ => none

theorem registration_of_isRow {e : Event} (h : e.isRow = true) : e.registration = none := by
  cases e with
  | rowWritten tid matchId state t0 => rfl
  | _ => cases h

end Event

def phase (n : NodeId) (trace : List Event) : Phase := trace.foldl (Event.nextPhase n) .idle

/-- The matches that node `n` is in the middle of: it has been sent their
`START` and been marked `RUNNING`, and they have not been stopped since. -/
def midMatches (n : NodeId) (trace : List Event) : List MatchId :=
  (trace.foldl (Event.nextMatches n) ([], [])).2

theorem phase_concat (n : NodeId) (trace : List Event) (e : Event) :
    phase n (trace ++ [e]) = e.nextPhase n (phase n trace) := by
  rw [phase, List.foldl_append]
  rfl

/-- Only the mark after a `STOP` makes a node idle. -/
theorem phase_append_ne_idle {n : NodeId} {trace es : List Event} (h : phase n trace ≠ .idle)
    (hes : ∀ e ∈ es, e ≠ .marked n .ready) : phase n (trace ++ es) ≠ .idle := by
  induction es using List.reverseRecOn with
  | nil => rwa [List.append_nil]
  | append_singleton es e ih =>
    rw [← List.append_assoc, phase_concat]
    have h' := ih fun e' he' => hes e' (List.mem_append_left _ he')
    have he := hes e (by simp)
    cases e with
    | sent nodeId identity msgType payload =>
      dsimp only [Event.nextPhase]
      split
      · cases msgType <;> simp
      · exact h'
    | marked nodeId state =>
      dsimp only [Event.nextPhase]
      rw [if_neg]
      · exact h'
      · rintro ⟨rfl, rfl, -⟩
        exact he rfl
    | _ => exact h'

/-- A node in phase `started` was sent a `START` that no `STOP` has followed. -/
theorem exists_start_of_phase {n : NodeId} {trace : List Event} (h : phase n trace = .started) :
    ∃ pre identity payload post, trace = pre ++ .sent n identity .start payload :: post ∧
      ∀ identity' payload', .sent n identity' .stop payload' ∉ post := by
  induction trace using List.reverseRecOn with
  | nil => cases h
  | append_singleton trace e ih =>
    rw [phase_concat] at h
    -- An event that is no `STOP` for `n` lies behind the `START` found so far.
    have hkeep : phase n trace = .started → (∀ identity' payload',
        e ≠ .sent n identity' .stop payload') → ∃ pre identity payload post,
        trace ++ [e] = pre ++ .sent n identity .start payload :: post ∧
          ∀ identity' payload', .sent n identity' .stop payload' ∉ post := by
      intro hphase he
      obtain ⟨pre, identity, payload, post, rfl, hpost⟩ := ih hphase
      refine ⟨pre, identity, payload, post ++ [e], by simp, fun identity' payload' hmem => ?_⟩
      rcases List.mem_append.mp hmem with hmem | hmem
      · exact hpost identity' payload' hmem
      · exact he identity' payload' (List.mem_singleton.mp hmem).symm
    cases e with
    | sent nodeId identity msgType payload =>
      dsimp only [Event.nextPhase] at h
      by_cases hn : nodeId = n
      · subst hn
        cases msgType with
        | start => exact ⟨trace, identity, payload, [], rfl, fun _ _ h => (List.not_mem_nil h).elim⟩
        | stop =>
          rw [if_pos rfl] at h
          cases h
      · rw [if_neg hn] at h
        refine hkeep h fun identity' payload' heq => hn ?_
        rw [Event.sent.injEq] at heq
        exact heq.1
    | marked nodeId state =>
      dsimp only [Event.nextPhase] at h
      split at h
      · cases h
      · exact hkeep h fun _ _ heq => by cases heq
    | rowWritten tid matchId state t0 => exact hkeep h fun _ _ heq => by cases heq
    | registered nodeId identity pk reply => exact hkeep h fun _ _ heq => by cases heq
    | rejected identity reason => exact hkeep h fun _ _ heq => by cases heq

theorem Event.nextMatches_fst (n : NodeId) (p : List MatchId × List MatchId) (e : Event) :
    (e.nextMatches n p).1 = track n p.1 e := by
  cases e with
  | marked nodeId state =>
    cases state with
    | running =>
      dsimp only [nextMatches]
      split <;> rfl
    | _ => rfl
  | _ => rfl

theorem foldl_nextMatches_fst (n : NodeId) (trace : List Event) :
    (trace.foldl (Event.nextMatches n) ([], [])).1 = unstopped n trace := by
  induction trace using List.reverseRecOn with
  | nil => rfl
  | append_singleton trace e ih =>
    rw [List.foldl_append, unstopped_concat, ← ih]
    exact Event.nextMatches_fst n _ e

theorem midMatches_concat (n : NodeId) (trace : List Event) (e : Event) :
    midMatches n (trace ++ [e]) = (e.nextMatches n (unstopped n trace, midMatches n trace)).2 := by
  rw [midMatches, List.foldl_append, ← foldl_nextMatches_fst]
  rfl

theorem mem_midMatches_concat {n : NodeId} {trace : List Event} {e : Event} {m : MatchId}
    (hsub : m ∈ midMatches n trace → m ∈ unstopped n trace) :
    m ∈ midMatches n (trace ++ [e]) ↔ (e = .marked n .running ∧ m ∈ unstopped n trace) ∨
      (m ∈ midMatches n trace ∧ e.isSent .stop n m = false) := by
  have hfilter : m ∈ (midMatches n trace).filter (· ∈ Event.track n (unstopped n trace) e) ↔
      m ∈ midMatches n trace ∧ e.isSent .stop n m = false := by
    rw [List.mem_filter, decide_eq_true_eq, Event.mem_track]
    refine and_congr_right fun hm => ⟨?_, fun h => .inr ⟨hsub hm, h⟩⟩
    rintro (hstart | ⟨-, hstop⟩)
    · -- A `START` is no `STOP`.
      cases e with
      | sent nodeId identity msgType payload =>
        have hmsg := of_decide_eq_true hstart
        rw [Event.isSent, hmsg.2.1]
        simp
      | _ => rfl
    · exact hstop
  rw [midMatches_concat]
  cases e with
  | marked nodeId state =>
    cases state with
    | running =>
      by_cases hn : nodeId = n
      · subst hn
        have h : (Event.nextMatches nodeId (unstopped nodeId trace, midMatches nodeId trace)
            (.marked nodeId .running)).2 = unstopped nodeId trace := by
          simp [Event.nextMatches, Event.track]
        rw [h]
        exact ⟨fun hm => .inl ⟨rfl, hm⟩, fun hm => hm.elim (·.2) fun hm => hsub hm.1⟩
      · have h : (Event.nextMatches n (unstopped n trace, midMatches n trace)
            (.marked nodeId .running)).2 = midMatches n trace := by
          simp [Event.nextMatches, hn]
        simp [h, hn, Event.isSent]
    | _ =>
      rw [or_iff_right fun h => by cases h.1]
      exact hfilter
  | _ =>
    rw [or_iff_right fun h => by cases h.1]
    exact hfilter

theorem mem_unstopped_of_mem_midMatches {n : NodeId} {trace : List Event} {m : MatchId}
    (h : m ∈ midMatches n trace) : m ∈ unstopped n trace := by
  induction trace using List.reverseRecOn with
  | nil => exact absurd h List.not_mem_nil
  | append_singleton trace e ih =>
    rw [unstopped_concat, Event.mem_track]
    rcases (mem_midMatches_concat ih).mp h with ⟨rfl, hm⟩ | ⟨hm, hstop⟩
    · exact .inr ⟨hm, rfl⟩
    · exact .inr ⟨ih hm, hstop⟩

/-- **A node is in the middle of a match** if it was sent its `START`, has been
marked `RUNNING` after that, and no `STOP` for the match has followed. -/
theorem mem_midMatches_iff {n : NodeId} {trace : List Event} {m : MatchId} :
    m ∈ midMatches n trace ↔ ∃ pre post, trace = pre ++ .marked n .running :: post ∧
      m ∈ unstopped n pre ∧ ∀ e ∈ post, e.isSent .stop n m = false := by
  induction trace using List.reverseRecOn with
  | nil => simp [midMatches]
  | append_singleton trace e ih =>
    rw [mem_midMatches_concat mem_unstopped_of_mem_midMatches, ih]
    constructor
    · rintro (⟨rfl, hm⟩ | ⟨⟨pre, post, rfl, hm, hpost⟩, hstop⟩)
      · exact ⟨trace, [], rfl, hm, fun e' he' => (List.not_mem_nil he').elim⟩
      · refine ⟨pre, post ++ [e], by simp, hm, fun x hx => ?_⟩
        rcases List.mem_append.mp hx with hx | hx
        · exact hpost x hx
        · rw [List.mem_singleton.mp hx]
          exact hstop
    · rintro ⟨pre, post, heq, hm, hpost⟩
      rcases List.eq_nil_or_concat post with rfl | ⟨post, x, rfl⟩
      · obtain ⟨rfl, h⟩ := List.append_inj' heq rfl
        exact .inl ⟨List.singleton_inj.mp h, hm⟩
      · rw [List.concat_eq_append] at heq hpost
        rw [← List.cons_append, ← List.append_assoc] at heq
        obtain ⟨rfl, h⟩ := List.append_inj' heq rfl
        obtain rfl : e = x := List.singleton_inj.mp h
        exact .inr ⟨⟨pre, post, rfl, hm, fun y hy => hpost y (List.mem_append_left _ hy)⟩,
          hpost e (List.mem_append_right _ List.mem_cons_self)⟩

/-! ### The reply and the registry -/

namespace Server

variable {P : Primitives}

/-- What a `REGISTER` that is accepted is answered, and the state it leaves its
node in. -/
theorem registrations_eq {s : Server} {identity : Bytes} {payload : Json} {priv : Bytes}
    {es : List Event} (h : (s.handleRegister P identity payload priv).1.trace = s.trace ++ es)
    {n : NodeId} {reply : Json} (hmem : (n, reply) ∈ es.filterMap Event.registration) :
    reply.get? "was_running" = some (.bool (s.registry.inState .running n)) ∧
      (s.handleRegister P identity payload priv).1.registry.stateOf n
        = some (if s.registry.inState .running n then .connected else .ready) := by
  have hnil : s.trace = s.trace ++ es → False := by
    intro heq
    rw [List.self_eq_append_right.mp heq] at hmem
    exact List.not_mem_nil hmem
  rcases s.handleRegister_cases identity payload priv (P := P) with
    ⟨outcome, heq⟩ | ⟨reason, heq⟩ | ⟨kvs, n', -, -, -, -, heq⟩
  · rw [heq] at h
    exact (hnil h).elim
  · rw [heq, log_trace] at h
    rw [← List.append_cancel_left h] at hmem
    exact absurd hmem List.not_mem_nil
  · rw [heq] at h ⊢
    rcases s.acceptRegister_cases identity n' (Json.getD kvs "hostname" (.str ""))
      (Json.getD kvs "ip" (.str "")) (Json.getD kvs "ecdh_pubkey" (.str "")) priv (P := P) with
      ⟨-, heq⟩ | ⟨b64, -, heq⟩
    · rw [heq] at h
      exact (hnil h).elim
    · rw [heq, log_trace] at h
      rw [← List.append_cancel_left h] at hmem
      obtain ⟨rfl, rfl⟩ := Prod.mk.inj (List.mem_singleton.mp hmem)
      rw [heq, log_registry]
      refine ⟨by simp [registerOk, Json.lookup], ?_⟩
      by_cases hrunning : s.registry.inState .running n
      · simp only [hrunning, if_true]
        exact NodeRegistry.register_stateOf_self ..
      · simp only [hrunning, if_false, Bool.false_eq_true]
        refine NodeRegistry.updateState_stateOf_self ?_ _
        rw [NodeRegistry.register_identityFor_self]
        exact Option.some_ne_none _

/-- A `REGISTER` leaves no node `RUNNING` that was not. -/
theorem handleRegister_running {s : Server} {identity : Bytes} {payload : Json} {priv : Bytes}
    {n : NodeId}
    (h : (s.handleRegister P identity payload priv).1.registry.stateOf n = some .running) :
    s.registry.stateOf n = some .running := by
  rcases s.handleRegister_cases identity payload priv (P := P) with
    ⟨outcome, heq⟩ | ⟨reason, heq⟩ | ⟨kvs, n', -, -, -, -, heq⟩
  · rwa [heq] at h
  · rwa [heq] at h
  · rw [heq] at h
    by_cases hn : n = n'
    · subst hn
      rcases s.acceptRegister_cases identity n (Json.getD kvs "hostname" (.str ""))
        (Json.getD kvs "ip" (.str "")) (Json.getD kvs "ecdh_pubkey" (.str "")) priv (P := P) with
        ⟨-, heq⟩ | ⟨b64, -, heq⟩
      · rw [heq] at h
        cases (NodeRegistry.register_stateOf_self ..).symm.trans h
      · rw [heq, log_registry] at h
        dsimp only at h
        split at h
        · cases (NodeRegistry.register_stateOf_self ..).symm.trans h
        · rw [NodeRegistry.updateState_stateOf_self] at h
          · cases h
          · rw [NodeRegistry.register_identityFor_self]
            exact Option.some_ne_none _
    · obtain ⟨-, -, hother⟩ := s.acceptRegister_frame identity n' (Json.getD kvs "hostname" (.str ""))
        (Json.getD kvs "ip" (.str "")) (Json.getD kvs "ecdh_pubkey" (.str "")) priv (P := P)
      rwa [NodeRegistry.stateOf, (hother n hn).1] at h

end Server

/-! ### What the loops add to the trace -/

namespace MatchManager

variable {P : Platform}

theorem DispatchStretch.events {fresh : TaskId} {w : World} {m : MatchId} {t0 : ℚ}
    {record : MatchRecord} {s : Server} {as : List NodeAssignment} {r : Stretch}
    (h : DispatchStretch P fresh w m t0 record s as r) : ∃ es, r.server.trace = s.trace ++ es ∧
      ∀ e ∈ es, ∃ n identity payload, e = .sent n identity .start payload := by
  cases h with
  | ended hskip => exact ⟨[], (List.append_nil _).symm, by simp⟩
  | sent skipped na rest identity payload has hskip hsent =>
    exact ⟨_, rfl, fun e he => ⟨_, _, _, List.mem_singleton.mp he⟩⟩
  | failed e => exact ⟨[], (List.append_nil _).symm, by simp⟩

theorem StopStretch.events {tid : TaskId} {w : World} {m : MatchId} {s : Server}
    {as : List NodeAssignment} {r : Stretch} (h : StopStretch tid w m s as r) :
    ∃ es, r.server.trace = s.trace ++ es ∧ ∀ e ∈ es, e.isRow = true ∨
      ∃ n identity, e = .sent n identity .stop (stopPayload m) := by
  cases h with
  | ended hskip =>
    obtain ⟨es, htrace, hes⟩ := (quiet_updateState tid w
      { s with crypto := s.crypto.revokeMatchKey m } m .finished none (.wrote .matchDb .returned)).trace
    exact ⟨es, htrace, fun e he => .inl (hes e he)⟩
  | sent skipped na rest identity has hskip hidentity =>
    exact ⟨_, rfl, fun e he => .inr ⟨_, _, List.mem_singleton.mp he⟩⟩
  | failed hreach hok => exact ⟨[], (List.append_nil _).symm, by simp⟩

/-- A dispatch loop marks no node before its next suspension. -/
theorem DispatchStretch.unmarked {fresh : TaskId} {w : World} {m : MatchId} {t0 : ℚ}
    {record : MatchRecord} {s : Server} {as : List NodeAssignment} {r : Stretch}
    (h : DispatchStretch P fresh w m t0 record s as r) : ∃ es, r.server.trace = s.trace ++ es ∧
      ∀ e ∈ es, ∀ n state, e ≠ .marked n state := by
  obtain ⟨es, htrace, hes⟩ := h.events
  refine ⟨es, htrace, fun e he n state heq => ?_⟩
  obtain ⟨n', identity, payload, rfl⟩ := hes e he
  cases heq

/-- Nor does the loop of a `stop`. -/
theorem StopStretch.unmarked {tid : TaskId} {w : World} {m : MatchId} {s : Server}
    {as : List NodeAssignment} {r : Stretch} (h : StopStretch tid w m s as r) :
    ∃ es, r.server.trace = s.trace ++ es ∧ ∀ e ∈ es, ∀ n state, e ≠ .marked n state := by
  obtain ⟨es, htrace, hes⟩ := h.events
  refine ⟨es, htrace, fun e he n state heq => ?_⟩
  rcases hes e he with hrow | ⟨n', identity, rfl⟩
  · rw [heq] at hrow
    cases hrow
  · cases heq

theorem Quiet.unregistered {s : Server} {r : Stretch} (h : Quiet s r) :
    ∃ es, r.server.trace = s.trace ++ es ∧ ∀ e ∈ es, e.registration = none := by
  obtain ⟨es, htrace, hes⟩ := h.trace
  exact ⟨es, htrace, fun e he => Event.registration_of_isRow (hes e he)⟩

theorem DispatchStretch.unregistered {fresh : TaskId} {w : World} {m : MatchId} {t0 : ℚ}
    {record : MatchRecord} {s : Server} {as : List NodeAssignment} {r : Stretch}
    (h : DispatchStretch P fresh w m t0 record s as r) :
    ∃ es, r.server.trace = s.trace ++ es ∧ ∀ e ∈ es, e.registration = none := by
  obtain ⟨es, htrace, hes⟩ := h.events
  refine ⟨es, htrace, fun e he => ?_⟩
  obtain ⟨n, identity, payload, rfl⟩ := hes e he
  rfl

theorem StopStretch.unregistered {tid : TaskId} {w : World} {m : MatchId} {s : Server}
    {as : List NodeAssignment} {r : Stretch} (h : StopStretch tid w m s as r) :
    ∃ es, r.server.trace = s.trace ++ es ∧ ∀ e ∈ es, e.registration = none := by
  obtain ⟨es, htrace, hes⟩ := h.events
  refine ⟨es, htrace, fun e he => ?_⟩
  rcases hes e he with hrow | ⟨n, identity, rfl⟩
  · exact Event.registration_of_isRow hrow
  · rfl

/-- A stretch may mark a node first. -/
theorem unregistered_of_mark {s : Server} {r : Stretch} {n : NodeId} {state : NodeState}
    (h : ∃ es, r.server.trace = (s.mark n state).trace ++ es ∧ ∀ e ∈ es, e.registration = none) :
    ∃ es, r.server.trace = s.trace ++ es ∧ ∀ e ∈ es, e.registration = none := by
  obtain ⟨es, htrace, hes⟩ := h
  refine ⟨.marked n state :: es, ?_, fun e he => ?_⟩
  · rw [htrace, Server.mark_trace, List.append_assoc]
    rfl
  · rcases List.mem_cons.mp he with rfl | he
    · rfl
    · exact hes e he

end MatchManager

/-! ### Runs -/

namespace MatchManager

variable {P : Platform}

/-- Only the handler of a `REGISTER` accepts one. -/
theorem NodeStretch.registration {tid fresh : TaskId} {s : Server} {t : ServerTask} {w : World}
    {r : Stretch} (h : NodeStretch P tid fresh s t w r) :
    (∃ frames identity payload, t.pc = .received frames ∧
        registerOf frames = some (identity, payload) ∧
        r = finish (s.handleRegister P.toPrimitives identity payload w.priv).1
          (s.handleRegister P.toPrimitives identity payload w.priv).2) ∨
      ∃ es, r.server.trace = s.trace ++ es ∧ ∀ e ∈ es, e.registration = none := by
  cases h with
  | quiet _ hq hduty hkind => exact .inr hq.unregistered
  | register frames identity payload hpc hframes =>
    exact .inl ⟨frames, identity, payload, hpc, hframes, rfl⟩
  | launch _ t0 record as hpc hready hq hr => exact .inr hq.unregistered
  | begin _ t0 record as hpc hkey hr =>
    obtain ⟨es, htrace, hes⟩ := hr.unregistered
    exact .inr ⟨es, htrace, hes⟩
  | next _ t0 record na rest hpc hr => exact .inr (unregistered_of_mark hr.unregistered)
  | stopBegin r record as hpc hstate has hr =>
    obtain ⟨es, htrace, hes⟩ := hr.unregistered
    exact .inr ⟨es, htrace, hes⟩
  | stopMalformed record hpc => exact .inr ⟨[], (List.append_nil _).symm, by simp⟩
  | stopNext _ na rest hpc hr => exact .inr (unregistered_of_mark hr.unregistered)

end MatchManager

namespace Sys

variable {P : Platform}

open MatchManager

/-- The `REGISTER`s that a step accepts: the node and the reply. -/
def registrations (P : Platform) (s : Sys) (a : Act) : List (NodeId × Json) :=
  match step P s a with
  | none => []
  | some s' => (s'.server.trace.drop s.server.trace.length).filterMap Event.registration

/-- The node that a step marks `RUNNING`. -/
def runMarks (s : Sys) : Act → Option NodeId
  | .call _ => none
  | .run tid _ => do
    let t ← s.tasks tid
    match t.pc with
    | .startSent _ _ na _ => some na.nodeId
    | _ => none

/-- A node that is in the middle of a match and registers anew is told so and
stays `RUNNING`. -/
def KeepsRunning (P : Platform) (s : Sys) (a : Act) : Prop :=
  ∀ s', step P s a = some s' → ∀ n reply, (n, reply) ∈ registrations P s a →
    midMatches n s.server.trace ≠ [] →
      reply.get? "was_running" = some (.bool true) ∧
        s'.server.registry.stateOf n = some .running

/-- Only a node that was sent a `START`, and no `STOP` after it, is told that it
was running. -/
def TellsRunning (P : Platform) (s : Sys) (a : Act) : Prop :=
  ∀ n reply, (n, reply) ∈ registrations P s a →
    reply.get? "was_running" = some (.bool true) →
      ∃ pre identity payload post,
        s.server.trace = pre ++ .sent n identity .start payload :: post ∧
          ∀ identity' payload', .sent n identity' .stop payload' ∉ post

/-- No `REGISTER` is accepted from a node that is in the middle of a match. -/
def MidMatchGuard (P : Platform) (s : Sys) (a : Act) : Prop :=
  ∀ p ∈ registrations P s a, midMatches p.1 s.server.trace = []

/-- No node is marked `RUNNING` that has been sent a `STOP` behind its `START`. -/
def RunMarkGuard (s : Sys) (a : Act) : Prop :=
  ∀ n ∈ s.runMarks a, phase n s.server.trace = .started

/-- No `REGISTER` is accepted from a node between a `STOP` and the mark that
follows it. -/
def ReplyGuard (P : Platform) (s : Sys) (a : Act) : Prop :=
  ∀ p ∈ registrations P s a, phase p.1 s.server.trace ≠ .stopping

instance (s : Sys) (a : Act) : Decidable (MidMatchGuard P s a) := by
  unfold MidMatchGuard
  infer_instance

instance (s : Sys) (a : Act) : Decidable (RunMarkGuard s a) := by
  unfold RunMarkGuard
  infer_instance

instance (s : Sys) (a : Act) : Decidable (ReplyGuard P s a) := by
  unfold ReplyGuard
  infer_instance

/-- **What a step that accepts a `REGISTER` answers**, and the state it leaves
the node in: never `RUNNING`. -/
theorem registrations_spec {s s' : Sys} {a : Act} (h : step P s a = some s') {n : NodeId}
    {reply : Json} (hmem : (n, reply) ∈ registrations P s a) :
    reply.get? "was_running" = some (.bool (s.server.registry.inState .running n)) ∧
      s'.server.registry.stateOf n
        = some (if s.server.registry.inState .running n then .connected else .ready) := by
  rw [registrations, h] at hmem
  dsimp only at hmem
  rcases step_cases h with ⟨c, -, rfl⟩ | ⟨tid, w, t, rfl, ht, -, rfl⟩
  · rw [List.drop_length] at hmem
    exact absurd hmem List.not_mem_nil
  · rw [apply_server] at hmem ⊢
    rcases (resume_stretch (P := P) tid s.next s.server t w).registration with
      ⟨frames, identity, payload, -, -, hr⟩ | ⟨es, htrace, hes⟩
    · rw [hr] at hmem ⊢
      obtain ⟨es, htrace, -⟩ := (s.server.handleRegister_frame identity payload w.priv
      (P := P.toPrimitives)).trace
      refine Server.registrations_eq htrace ?_
      rw [show (finish (s.server.handleRegister P.toPrimitives identity payload w.priv).1 _).server.trace
        = _ from htrace, List.drop_left] at hmem
      exact hmem
    · rw [htrace, List.drop_left] at hmem
      obtain ⟨e, he, hreg⟩ := List.mem_filterMap.mp hmem
      rw [hes e he] at hreg
      cases hreg

/-- A node that is `RUNNING` was sent a `START` last, or a `STOP` whose mark is
still to come. -/
def Backs (s : Server) : Prop :=
  ∀ n, s.registry.stateOf n = some .running → phase n s.trace ≠ .idle

theorem Backs.step {s s' : Sys} {a : Act} (hs : Backs s.server) (hmark : RunMarkGuard s a)
    (h : step P s a = some s') : Backs s'.server := by
  rcases step_cases h with ⟨c, -, rfl⟩ | ⟨tid, w, t, rfl, ht, -, rfl⟩
  · exact hs
  rw [apply_server]
  have hstretch := resume_stretch (P := P) tid s.next s.server t w
  generalize resume P tid s.next s.server t w = r at hstretch
  -- A stretch may drop what the trace says of a node only by marking it `READY`.
  have hkept : ∀ {r : Stretch} {es : List Event}, r.server.trace = s.server.trace ++ es →
      (∀ n, ∀ e ∈ es, e ≠ .marked n .ready) →
      (∀ n, r.server.registry.stateOf n = some .running →
        s.server.registry.stateOf n = some .running ∨ phase n s.server.trace ≠ .idle) →
      Backs r.server := by
    intro r es htrace hes hstate n hn
    rw [htrace]
    refine phase_append_ne_idle ?_ (hes n)
    exact (hstate n hn).elim (hs n) id
  have hquiet : ∀ {r : Stretch}, Quiet s.server r → Backs r.server := by
    intro r hq
    obtain ⟨es, htrace, hes⟩ := hq.trace
    refine hkept htrace (fun n e he heq => ?_) fun n hn => .inl (by rwa [hq.registry] at hn)
    rw [heq] at he
    cases hes _ he
  cases hstretch with
  | quiet _ hq hduty hkind => exact hquiet hq
  | register frames identity payload hpc hframes =>
    obtain ⟨es, htrace, hes⟩ := (s.server.handleRegister_frame identity payload w.priv
      (P := P.toPrimitives)).trace
    refine hkept htrace (fun n e he heq => ?_) fun n hn => .inl (Server.handleRegister_running hn)
    rw [heq] at he
    cases hes _ he
  | launch _ t0 record as hpc hready hq hr => exact hquiet hq
  | begin _ t0 record as hpc hkey hr =>
    obtain ⟨hreg, -, -, -⟩ := hr.frame
    obtain ⟨es, htrace, hes⟩ := hr.unmarked
    exact hkept htrace (fun n e he => hes e he n .ready) fun n hn => .inl (by rwa [hreg] at hn)
  | next _ t0 record na rest hpc hr =>
    obtain ⟨hreg, -, -, -⟩ := hr.frame
    obtain ⟨es, htrace, hes⟩ := hr.unmarked
    have hmarked : r.server.trace = s.server.trace ++ (.marked na.nodeId .running :: es) := by
      rw [htrace, Server.mark_trace, List.append_assoc]
      rfl
    refine hkept hmarked (fun n e he heq => ?_) fun n hn => ?_
    · rcases List.mem_cons.mp he with rfl | he
      · cases heq
      · exact hes e he n .ready heq
    · rw [hreg, Server.mark_registry] at hn
      by_cases hk : n = na.nodeId
      · -- The node that is marked has been sent a `START` last.
        rw [hk, hmark na.nodeId (by simp [runMarks, ht, hpc])]
        exact .inr (by decide)
      · rw [NodeRegistry.updateState_stateOf_of_ne _ hk] at hn
        exact .inl hn
  | stopBegin r record as hpc hstate has hr =>
    obtain ⟨hreg, -, -, -, -⟩ := hr.frame
    obtain ⟨es, htrace, hes⟩ := hr.unmarked
    refine hkept htrace (fun n e he => hes e he n .ready) fun n hn => .inl ?_
    have hn : r.server.registry.stateOf n = some .running := hn
    rwa [hreg] at hn
  | stopMalformed record hpc =>
    exact hkept (List.append_nil _).symm (by simp) fun n hn => .inl hn
  | stopNext _ na rest hpc hr =>
    obtain ⟨hreg, -, -, -, -⟩ := hr.frame
    obtain ⟨es, htrace, hes⟩ := hr.unmarked
    intro n hn
    rw [hreg, Server.mark_registry] at hn
    by_cases hk : n = na.nodeId
    · -- The node that is marked is `READY` now.
      rw [NodeRegistry.updateState_stateOf, if_pos hk] at hn
      obtain ⟨old, -, hold⟩ := Option.map_eq_some_iff.mp hn
      cases hold
    · rw [NodeRegistry.updateState_stateOf_of_ne _ hk] at hn
      rw [htrace, Server.mark_trace, List.append_assoc]
      refine phase_append_ne_idle (hs n hn) fun e he heq => ?_
      rcases List.mem_append.mp he with he | he
      · rw [List.mem_singleton.mp he, Event.marked.injEq] at heq
        exact hk heq.1.symm
      · exact hes e he n .ready heq

theorem keepsRunning_iff {s : Sys} {a : Act} : KeepsRunning P s a ↔ MidMatchGuard P s a := by
  constructor
  · rintro h ⟨n, reply⟩ hmem
    by_contra hmid
    cases hstep : step P s a with
    | none =>
      rw [registrations, hstep] at hmem
      exact List.not_mem_nil hmem
    | some s' =>
      obtain ⟨-, hstate⟩ := registrations_spec hstep hmem
      have hrunning := (h s' hstep n reply hmem hmid).2
      rw [hstate] at hrunning
      split at hrunning <;> cases hrunning
  · intro h s' _ n reply hmem hmid
    exact absurd (h (n, reply) hmem) hmid

theorem tellsRunning_of_backs {s : Sys} {a : Act} (hs : Backs s.server) (h : ReplyGuard P s a) :
    TellsRunning P s a := by
  intro n reply hmem hreply
  cases hstep : step P s a with
  | none =>
    rw [registrations, hstep] at hmem
    exact (List.not_mem_nil hmem).elim
  | some s' =>
    obtain ⟨hflag, -⟩ := registrations_spec hstep hmem
    rw [hflag, Option.some_inj, Json.bool.injEq] at hreply
    refine exists_start_of_phase ?_
    have hidle := hs n (NodeRegistry.inState_iff.mp hreply)
    have hstopping := h (n, reply) hmem
    cases hphase : phase n s.server.trace with
    | idle => exact absurd hphase hidle
    | started => rfl
    | stopping => exact absurd hphase hstopping

/-- **When a reconnecting node is served as it should be.**  In a run in which no
node is marked `RUNNING` behind a `STOP`, and none registers between a `STOP`
and its mark, only nodes that were sent a `START` last are told that they were
running, and every node that registers in the middle of a match is told so and
stays `RUNNING` just if none ever does. -/
theorem reconnect_law {tokens : Dict NodeId String} {rows : Dict MatchId MatchRecord}
    {metrics : MetricsStore} {acts : List Act}
    (hguard : Guarded (step P) (fun s a => RunMarkGuard s a ∧ ReplyGuard P s a)
      (boot tokens rows metrics) acts) :
    Guarded (step P) (fun s a => KeepsRunning P s a ∧ TellsRunning P s a)
        (boot tokens rows metrics) acts ↔
      Guarded (step P) (MidMatchGuard P) (boot tokens rows metrics) acts := by
  have htells : Guarded (step P) (TellsRunning P) (boot tokens rows metrics) acts :=
    Guarded.of_invariant (I := fun s => Backs s.server)
      (fun s a s' hs hg h => hs.step hg.1 h) (fun s a hs hg => tellsRunning_of_backs hs hg.2)
      (fun n hn => by cases hn) hguard
  constructor
  · exact Guarded.mono fun s a h => keepsRunning_iff.mp h.1
  · intro hmid
    exact (Guarded.and htells hmid).mono fun s a h => ⟨keepsRunning_iff.mpr h.2, h.1⟩

open Sample in
/-- `m` is started and stopped, and its node registers anew. -/
theorem reconnect_law_afterStop :
    Guarded (step platform) (fun s a => KeepsRunning platform s a ∧ TellsRunning platform s a)
      (Sample.boot [("m", ["n"])])
      (started ++ [.call (.stop "m")] ++ runs 3 5 6 ++ [register "n" [2]] ++ runs 4 1 7) :=
  (reconnect_law (by decide +kernel)).mpr (by decide +kernel)

open Sample in
/-- In the middle of `m` node `n` registers twice.  The first `REGISTER` leaves it
`CONNECTED`, and the second one is told that it was not running. -/
theorem reconnect_leaves_running : ∃ s s' s'',
    run (step platform) (Sample.boot [("m", ["n"])]) started = some s ∧
      midMatches "n" s.server.trace = ["m"] ∧
      run (step platform) s ([register "n" [2]] ++ runs 3 1 6) = some s' ∧
      midMatches "n" s'.server.trace = ["m"] ∧
      s'.server.registry.stateOf "n" = some .connected ∧
      run (step platform) s' ([register "n" [2]] ++ runs 4 1 7) = some s'' ∧
      (s''.server.trace.filterMap Event.registration).map
        (fun p => (p.2.get? "was_running").map Json.truthy)
          = [some false, some true, some false] := by
  obtain ⟨s'', hs'', h''⟩ := Option.map_eq_some_iff.mp
    (show (run (step platform) (Sample.boot [("m", ["n"])]) (started ++
        (([register "n" [2]] ++ runs 3 1 6) ++ ([register "n" [2]] ++ runs 4 1 7)))).map
        (fun s => (s.server.trace.filterMap Event.registration).map
          fun p => (p.2.get? "was_running").map Json.truthy)
      = some [some false, some true, some false] by decide +kernel)
  obtain ⟨s', hs', h'⟩ := Option.map_eq_some_iff.mp
    (show (run (step platform) (Sample.boot [("m", ["n"])]) (started ++
        ([register "n" [2]] ++ runs 3 1 6))).map
        (fun s => (midMatches "n" s.server.trace, s.server.registry.stateOf "n"))
      = some (["m"], some .connected) by decide +kernel)
  obtain ⟨s, hs, h⟩ := Option.map_eq_some_iff.mp
    (show (run (step platform) (Sample.boot [("m", ["n"])]) started).map
        (fun s => midMatches "n" s.server.trace) = some ["m"] by decide +kernel)
  obtain ⟨u, hu, hs'⟩ := run_append_eq_some.mp hs'
  obtain rfl : s = u := Option.some.inj (hs.symm.trans hu)
  obtain ⟨u, hu, hs''⟩ := run_append_eq_some.mp hs''
  obtain rfl : s = u := Option.some.inj (hs.symm.trans hu)
  obtain ⟨u, hu, hs''⟩ := run_append_eq_some.mp hs''
  obtain rfl : s' = u := Option.some.inj (hs'.symm.trans hu)
  obtain ⟨hmid, hstate⟩ := Prod.mk.inj h'
  exact ⟨s, s', s'', hs, h, hs', hmid, hstate, hs'', h''⟩

end Sys
