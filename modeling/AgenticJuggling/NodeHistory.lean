/-
Which matches a node runs, read off the messages it was sent.

`unstopped n` lists the matches whose `START` to node `n` has not been followed
by a `STOP` for the same match, the latest first.

* `mem_unstopped_iff` — what membership says about the trace;
* `Sys.Addressed.step` — a node that was ever sent a message has an identity.
-/
import AgenticJuggling.NodeSteps

namespace Event

/-- The match a payload names. -/
def matchOf (payload : Json) : Option MatchId := (payload.get? "match_id").bind Json.asStr

/-- A message of this type for match `m` to node `n`. -/
def isSent (msgType : MsgType) (n : NodeId) (m : MatchId) : Event → Bool
  | .sent nodeId _ msgType' payload =>
    decide (nodeId = n ∧ msgType' = msgType ∧ matchOf payload = some m)
  | _ => false

/-- The unstopped matches of node `n` after one more event. -/
def track (n : NodeId) (running : List MatchId) : Event → List MatchId
  | .sent nodeId _ msgType payload =>
    match matchOf payload with
    | none => running
    | some m =>
      if nodeId = n then
        match msgType with
        | .start => m :: running.filter (· ≠ m)
        | .stop => running.filter (· ≠ m)
      else running
  | _ => running

theorem mem_track {n : NodeId} {running : List MatchId} {m : MatchId} {e : Event} :
    m ∈ track n running e ↔
      isSent .start n m e = true ∨ (m ∈ running ∧ isSent .stop n m e = false) := by
  cases e with
  | sent nodeId identity msgType payload =>
    cases hp : matchOf payload with
    | none => simp [track, isSent, hp]
    | some m' =>
      by_cases hn : nodeId = n
      · by_cases hm : m' = m
        · cases msgType <;> simp [track, isSent, hp, hn, hm]
        · cases msgType <;> simp [track, isSent, hp, hn, hm, Ne.symm hm]
      · simp [track, isSent, hp, hn]
  | rowWritten tid matchId state t0 => simp [track, isSent]
  | marked nodeId state => simp [track, isSent]
  | registered nodeId identity pk reply => simp [track, isSent]
  | rejected identity reason => simp [track, isSent]

theorem track_of_isRow {n : NodeId} {running : List MatchId} {e : Event} (h : e.isRow = true) :
    track n running e = running := by
  cases e with
  | rowWritten tid matchId state t0 => rfl
  | _ => cases h

theorem track_of_isReply {n : NodeId} {running : List MatchId} {e : Event} (h : e.isReply = true) :
    track n running e = running := by
  cases e with
  | registered nodeId identity pk reply => rfl
  | rejected identity reason => rfl
  | _ => cases h

theorem matchOf_startPayload (m : MatchId) (agentname : String) (t0 : ℚ) (key : String)
    (schedule : List Json) :
    matchOf (MatchManager.startPayload m agentname t0 key schedule) = some m := by
  simp [matchOf, MatchManager.startPayload, Json.lookup, Json.asStr]

end Event

/-- The matches whose `START` to node `n` is unstopped, the latest first. -/
def unstopped (n : NodeId) (trace : List Event) : List MatchId := trace.foldl (Event.track n) []

theorem unstopped_append (n : NodeId) (trace es : List Event) :
    unstopped n (trace ++ es) = es.foldl (Event.track n) (unstopped n trace) :=
  List.foldl_append ..

theorem unstopped_concat (n : NodeId) (trace : List Event) (e : Event) :
    unstopped n (trace ++ [e]) = Event.track n (unstopped n trace) e :=
  unstopped_append ..

/-- Events that are no messages stop and start nothing. -/
theorem unstopped_append_of_track {n : NodeId} {trace es : List Event}
    (h : ∀ e ∈ es, ∀ running, Event.track n running e = running) :
    unstopped n (trace ++ es) = unstopped n trace := by
  rw [unstopped_append]
  generalize unstopped n trace = running
  induction es with
  | nil => rfl
  | cons e es ih =>
    rw [List.foldl_cons, h e List.mem_cons_self]
    exact ih fun e' he' => h e' (List.mem_cons_of_mem _ he')

@[simp] theorem unstopped_mark (n k : NodeId) (s : Server) (st : NodeState) :
    unstopped n (s.mark k st).trace = unstopped n s.trace := by
  rw [Server.mark_trace, unstopped_concat]
  rfl

/-- **A match is unstopped** if its `START` was sent and no `STOP` for it since. -/
theorem mem_unstopped_iff {n : NodeId} {trace : List Event} {m : MatchId} :
    m ∈ unstopped n trace ↔ ∃ pre e post, trace = pre ++ e :: post ∧
      e.isSent .start n m = true ∧ ∀ e' ∈ post, e'.isSent .stop n m = false := by
  induction trace using List.reverseRecOn with
  | nil => simp [unstopped]
  | append_singleton trace e ih =>
    rw [unstopped_concat, Event.mem_track, ih]
    constructor
    · rintro (h | ⟨⟨pre, e', post, rfl, hstart, hpost⟩, hstop⟩)
      · exact ⟨trace, e, [], rfl, h, fun e' he' => (List.not_mem_nil he').elim⟩
      · refine ⟨pre, e', post ++ [e], by simp, hstart, fun x hx => ?_⟩
        rcases List.mem_append.mp hx with hx | hx
        · exact hpost x hx
        · rw [List.mem_singleton.mp hx]
          exact hstop
    · rintro ⟨pre, e', post, heq, hstart, hpost⟩
      rcases List.eq_nil_or_concat post with rfl | ⟨post, x, rfl⟩
      · obtain ⟨-, h⟩ := List.append_inj' heq rfl
        rw [List.singleton_inj.mp h]
        exact .inl hstart
      · rw [List.concat_eq_append] at heq hpost
        rw [← List.cons_append, ← List.append_assoc] at heq
        obtain ⟨rfl, h⟩ := List.append_inj' heq rfl
        obtain rfl : e = x := List.singleton_inj.mp h
        refine .inr ⟨⟨pre, e', post, rfl, hstart, fun y hy => ?_⟩, ?_⟩
        · exact hpost y (List.mem_append_left _ hy)
        · exact hpost e (List.mem_append_right _ List.mem_cons_self)

namespace MatchManager

variable {P : Platform}

/-- The messages of a stretch go to the identities its server has. -/
def Addresses (s s' : Server) : Prop :=
  (∃ es, s'.trace = s.trace ++ es ∧ ∀ n identity msgType payload,
    .sent n identity msgType payload ∈ es → s'.registry.identityFor n = some identity) ∧
  ∀ n, s.registry.identityFor n ≠ none → s'.registry.identityFor n ≠ none

/-- A stretch that sends nothing. -/
theorem addresses_of_silent {s s' : Server} {es : List Event} (htrace : s'.trace = s.trace ++ es)
    (hes : ∀ n identity msgType payload, .sent n identity msgType payload ∉ es)
    (hreg : ∀ n, s.registry.identityFor n ≠ none → s'.registry.identityFor n ≠ none) :
    Addresses s s' :=
  ⟨⟨es, htrace, fun n identity msgType payload h => absurd h (hes n identity msgType payload)⟩,
    hreg⟩

theorem addresses_refl (s : Server) : Addresses s s :=
  addresses_of_silent (List.append_nil _).symm (fun _ _ _ _ h => (List.not_mem_nil h).elim)
    fun _ h => h

/-- A stretch that begins with a mark. -/
theorem addresses_of_mark {s s' : Server} {n : NodeId} {st : NodeState}
    (h : Addresses (s.mark n st) s') : Addresses s s' := by
  obtain ⟨⟨es, htrace, hes⟩, hreg⟩ := h
  refine ⟨⟨.marked n st :: es, ?_, fun n' identity msgType payload hmem => ?_⟩, fun n' hn' => ?_⟩
  · rw [htrace, Server.mark_trace, List.append_assoc]
    rfl
  · rcases List.mem_cons.mp hmem with h | h
    · cases h
    · exact hes n' identity msgType payload h
  · refine hreg n' ?_
    rw [Server.mark_registry, NodeRegistry.updateState_identityFor]
    exact hn'

theorem Quiet.addresses {s : Server} {r : Stretch} (h : Quiet s r) : Addresses s r.server := by
  obtain ⟨es, htrace, hes⟩ := h.trace
  refine addresses_of_silent htrace (fun n identity msgType payload hmem => ?_) fun n hn => ?_
  · cases hes _ hmem
  · rw [h.registry]
    exact hn

theorem DispatchStretch.addresses {fresh : TaskId} {w : World} {m : MatchId} {t0 : ℚ}
    {record : MatchRecord} {s : Server} {as : List NodeAssignment} {r : Stretch}
    (h : DispatchStretch P fresh w m t0 record s as r) : Addresses s r.server := by
  cases h with
  | ended hskip => exact addresses_refl s
  | sent skipped na rest identity payload has hskip hsent =>
    refine ⟨⟨_, rfl, fun n identity' msgType payload' hmem => ?_⟩, fun _ h => h⟩
    rw [List.mem_singleton, Event.sent.injEq] at hmem
    obtain ⟨rfl, rfl, -, -⟩ := hmem
    exact hsent.identity
  | failed e => exact addresses_refl s

theorem StopStretch.addresses {tid : TaskId} {w : World} {m : MatchId} {s : Server}
    {as : List NodeAssignment} {r : Stretch} (h : StopStretch tid w m s as r) :
    Addresses s r.server := by
  cases h with
  | ended hskip =>
    have hquiet := quiet_updateState tid w { s with crypto := s.crypto.revokeMatchKey m } m
      .finished none (.wrote .matchDb .returned)
    exact hquiet.addresses
  | sent skipped na rest identity has hskip hidentity =>
    refine ⟨⟨_, rfl, fun n identity' msgType payload' hmem => ?_⟩, fun _ h => h⟩
    rw [List.mem_singleton, Event.sent.injEq] at hmem
    obtain ⟨rfl, rfl, -, -⟩ := hmem
    exact hidentity
  | failed hreach hok => exact addresses_refl s

end MatchManager

namespace Server

/-- A registration sends nothing else, and leaves every identity or sets it. -/
theorem handleRegister_addresses {P : Primitives} (s : Server) (identity : Bytes) (payload : Json)
    (priv : Bytes) :
    MatchManager.Addresses s (s.handleRegister P identity payload priv).1 := by
  have hreg : ∀ n n' hostname ip, s.registry.identityFor n ≠ none →
      (s.registry.register n' hostname ip identity).1.identityFor n ≠ none := by
    intro n n' hostname ip hn
    by_cases h : n = n'
    · rw [h, NodeRegistry.register_identityFor_self]
      exact Option.some_ne_none _
    · rw [NodeRegistry.register_identityFor_of_ne _ h]
      exact hn
  obtain ⟨es, htrace, hes⟩ := (s.handleRegister_frame identity payload priv (P := P)).trace
  refine MatchManager.addresses_of_silent htrace
    (fun n identity msgType payload hmem => by cases hes _ hmem) fun n hn => ?_
  rcases s.handleRegister_cases identity payload priv (P := P) with
    ⟨outcome, h⟩ | ⟨reason, h⟩ | ⟨kvs, n', -, -, -, -, h⟩
  · rw [h]
    exact hn
  · rw [h]
    exact hn
  · rw [h]
    rcases s.acceptRegister_cases identity n' (Json.getD kvs "hostname" (.str ""))
      (Json.getD kvs "ip" (.str "")) (Json.getD kvs "ecdh_pubkey" (.str "")) priv (P := P) with
      ⟨-, h⟩ | ⟨b64, -, h⟩
    · rw [h]
      exact hreg n n' _ _ hn
    · rw [h, log_registry]
      dsimp only
      split
      · exact hreg n n' _ _ hn
      · rw [NodeRegistry.updateState_identityFor]
        exact hreg n n' _ _ hn

end Server

namespace MatchManager

variable {P : Platform}

theorem resume_addresses (tid fresh : TaskId) (s : Server) (t : ServerTask) (w : World) :
    Addresses s (resume P tid fresh s t w).server := by
  have hstretch := resume_stretch (P := P) tid fresh s t w
  generalize resume P tid fresh s t w = r at hstretch
  cases hstretch with
  | quiet _ hquiet hduty hkind => exact hquiet.addresses
  | register frames identity payload hpc hframes => exact s.handleRegister_addresses ..
  | launch _ t0 record as hpc hready hquiet hr => exact hquiet.addresses
  | begin _ t0 record as hpc hkey hr => exact hr.addresses
  | next _ t0 record na rest hpc hr => exact addresses_of_mark hr.addresses
  | stopBegin r record as hpc hstate has hr => exact hr.addresses
  | stopMalformed record hpc => exact addresses_refl s
  | stopNext _ na rest hpc hr => exact addresses_of_mark hr.addresses

end MatchManager

namespace Sys

variable {P : Platform}

theorem step_addresses {s s' : Sys} {a : Act} (h : step P s a = some s') :
    MatchManager.Addresses s.server s'.server := by
  rcases step_cases h with ⟨c, -, rfl⟩ | ⟨tid, w, t, -, ht, -, rfl⟩
  · exact MatchManager.addresses_refl _
  · rw [apply_server]
    exact MatchManager.resume_addresses ..

/-- A node that was sent a message has an identity. -/
def Addressed (s : Sys) : Prop :=
  ∀ n identity msgType payload, .sent n identity msgType payload ∈ s.server.trace →
    s.server.registry.identityFor n ≠ none

theorem Addressed.step {s s' : Sys} {a : Act} (hs : s.Addressed) (h : step P s a = some s') :
    s'.Addressed := by
  obtain ⟨⟨es, htrace, hes⟩, hreg⟩ := step_addresses h
  intro n identity msgType payload hmem
  rw [htrace] at hmem
  rcases List.mem_append.mp hmem with hmem | hmem
  · exact hreg n (hs n identity msgType payload hmem)
  · rw [hes n identity msgType payload hmem]
    exact Option.some_ne_none _

theorem addressed_run {tokens : Dict NodeId String} {rows : Dict MatchId MatchRecord}
    {metrics : MetricsStore} {acts : List Act} {s : Sys}
    (hrun : Transition.run (step P) (boot tokens rows metrics) acts = some s) : s.Addressed :=
  Transition.invariant_of_run (I := Addressed) (fun _ _ _ hs h => hs.step h)
    (fun _ _ _ _ h => (List.not_mem_nil h).elim) hrun

/-- A node that runs a match has an identity. -/
theorem Addressed.identity_of_unstopped {s : Sys} (hs : s.Addressed) {n : NodeId} {m : MatchId}
    (h : m ∈ unstopped n s.server.trace) : s.server.registry.identityFor n ≠ none := by
  obtain ⟨pre, e, post, htrace, hstart, -⟩ := mem_unstopped_iff.mp h
  cases e with
  | sent nodeId identity msgType payload =>
    obtain ⟨rfl, -, -⟩ := of_decide_eq_true hstart
    exact hs nodeId identity msgType payload (by rw [htrace]; simp)
  | _ => cases hstart

end Sys
