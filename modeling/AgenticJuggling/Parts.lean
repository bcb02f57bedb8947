/-
A deployment and its parts.

What the server does in a run of a deployment is a run of the server by itself, and
what a process does from its registration on is a run of `node/main.py` by itself.
So what holds of every run of a part holds of it in every deployment.

* `Deployment.peer_of_step` — what one step is to a process;
* `Deployment.runs_of_parts` — the runs of the parts, and that a process handles the
  messages that the server has sent to it in their order, some of them lost;
* `Deployment.run_of_serving` — the same from any point of a run on.
-/
import AgenticJuggling.Deployment

open Transition

/-- What a handler takes from its message: the payload of a `START`, nothing of a `STOP`. -/
def NodeMain.Act.message : NodeMain.Act → Option (Option Json)
  | .start payload _ _ => some (some payload)
  | .stop => some none
  | _ => none

namespace Peer

/-- What the handler of a message takes from it. -/
def incoming (message : Bytes × Json) : Option (Option Json) :=
  if message.1 = msgStart then some (some message.2)
  else if message.1 = msgStop then some none
  else none

theorem handler_message (msgType : Bytes) (payload : Json) (now : ℚ) (saves : Bool) :
    (handler msgType payload now saves).toList.filterMap NodeMain.Act.message =
      (incoming (msgType, payload)).toList := by
  rw [handler, incoming]
  dsimp only
  split
  · rfl
  · split
    · rfl
    · rfl

end Peer

namespace Deployment

/-- What a move makes the process behind `identity` do, if it serves. -/
def acts (identity : Bytes) (d : Deployment) : Move → List NodeMain.Act
  | .deliver identity' now saves =>
    if identity' = identity then
      ((d.serving identity).bind fun x => ((d.sys.server.inbox identity)[x.1.received]?).bind
        fun message => Peer.handler message.1 message.2 now saves).toList
    else []
  | .node identity' a => if identity' = identity then [a] else []
  | _ => []

/-- What a move makes the server do. -/
def serverActs (d : Deployment) : Move → List Act
  | .arrive identity =>
    (((d.peers identity).bind fun p => p.outbox.head?).map fun frames =>
      Act.call (.receive frames)).toList
  | .stranger frames => [.call (.receive frames)]
  | .server a => [a]
  | _ => []

/-- What is in an outbox after a step: a process that has registered sends no other
`REGISTER`. -/
def Mails (p p' : Peer) : Prop :=
  p'.outbox = p.outbox ∨ p'.outbox = p.outbox.tail ∨
    ∃ frames, MatchManager.registerOf frames = none ∧ p'.outbox = p.outbox ++ [frames]

/-- What a step is to a process that was there before: `acts` is what the step makes it
do. -/
structure Goes (P : Primitives) (inbox : List (Bytes × Json)) (acts : List NodeMain.Act)
    (p p' : Peer) : Prop where
  same : SamePeer p p'
  received : p.received ≤ p'.received
  messages : (acts.filterMap NodeMain.Act.message).Sublist
    (((inbox.take p'.received).drop p.received).filterMap Peer.incoming)
  waits : p'.phase = .registering → p.phase = .registering ∧ acts = []
  serves : ∀ main', p'.phase = .serving main' →
    (∃ main, p.phase = .serving main ∧
      run (NodeMain.step P p.conf.agent) main acts = some main') ∨
    (p.phase = .registering ∧ acts = [] ∧ ∃ crypto saved, crypto.privateKey = p.privateKey ∧
      main' = .ofCrypto crypto saved)
  outbox : Mails p p'

variable {P : Platform}

theorem Goes.idle {inbox : List (Bytes × Json)} {p p' : Peer} (hsame : SamePeer p p')
    (hreceived : p.received ≤ p'.received) (hphase : p'.phase = p.phase) (houtbox : Mails p p') :
    Goes P.toPrimitives inbox [] p p' where
  same := hsame
  received := hreceived
  messages := List.nil_sublist _
  waits h := ⟨hphase ▸ h, rfl⟩
  serves main' h := .inl ⟨main', hphase ▸ h, rfl⟩
  outbox := houtbox

theorem Goes.refl (inbox : List (Bytes × Json)) (p : Peer) : Goes P.toPrimitives inbox [] p p :=
  .idle ⟨rfl, rfl⟩ le_rfl rfl (.inl rfl)

theorem Goes.exit (inbox : List (Bytes × Json)) (p : Peer) :
    Goes P.toPrimitives inbox [] p p.exit := by
  have hexited : p.exit.phase = .exited := by
    rw [Peer.exit]
    split
    · rfl
    · rfl
  have hsame : p.exit.conf = p.conf ∧ p.exit.privateKey = p.privateKey ∧
      p.exit.received = p.received ∧ p.exit.outbox = p.outbox := by
    rw [Peer.exit]
    split
    · exact ⟨rfl, rfl, rfl, rfl⟩
    · exact ⟨rfl, rfl, rfl, rfl⟩
  obtain ⟨hconf, hkey, hreceived, houtbox⟩ := hsame
  refine ⟨⟨hconf, hkey⟩, hreceived.ge, List.nil_sublist _, fun h => ?_, fun main h => ?_,
    .inl houtbox⟩
  · rw [hexited] at h
    cases h
  · rw [hexited] at h
    cases h

/-- The reply to the `REGISTER` is taken from the socket. -/
theorem Goes.answer {inbox : List (Bytes × Json)} {p p' : Peer} (hs : p.Sound)
    (hphase : p.phase = .registering) {msgType : Bytes} {payload : Json} {now : ℚ} {saves : Bool}
    (h : p.taken.receive P.toPrimitives msgType payload now saves = some p') :
    Goes P.toPrimitives inbox [] p p' := by
  have hreceive : p.taken.receive P.toPrimitives msgType payload now saves =
      some (p.taken.answered P.toPrimitives msgType payload now saves) := by
    have hphase : p.taken.phase = .registering := hphase
    rw [Peer.receive, hphase]
  obtain rfl := Option.some.inj (hreceive.symm.trans h)
  obtain heq | ⟨sessionKey, -, -, heq⟩ := Peer.answered_cases (P := P.toPrimitives) (p := p.taken)
    hphase hs.stateFile msgType payload now saves
  · rw [heq]
    exact ⟨⟨rfl, rfl⟩, Nat.le_succ _, List.nil_sublist _, fun h => (by cases h),
      fun main h => (by cases h), .inl rfl⟩
  · rw [heq]
    refine ⟨⟨rfl, rfl⟩, Nat.le_succ _, List.nil_sublist _, fun h => (by cases h), fun main h => ?_,
      .inl rfl⟩
    obtain rfl := PeerPhase.serving.inj h
    exact .inr ⟨hphase, rfl, _, _, rfl, rfl⟩

/-- A message is taken from the socket and handled. -/
theorem Goes.handle {inbox : List (Bytes × Json)} {p p' : Peer} {main : NodeMain}
    (hphase : p.phase = .serving main) {msgType : Bytes} {payload : Json} {now : ℚ} {saves : Bool}
    (hnext : inbox[p.received]? = some (msgType, payload))
    (h : p.taken.receive P.toPrimitives msgType payload now saves = some p') :
    Goes P.toPrimitives inbox (Peer.handler msgType payload now saves).toList p p' := by
  have hmessages : ((Peer.handler msgType payload now saves).toList.filterMap
      NodeMain.Act.message).Sublist
      (((inbox.take (p.received + 1)).drop p.received).filterMap Peer.incoming) := by
    have hlt := (List.getElem?_eq_some_iff.mp hnext).1
    rw [Peer.handler_message, List.take_add_one, hnext, List.drop_append,
      List.length_take_of_le hlt.le, Nat.sub_self, List.drop_zero,
      List.drop_eq_nil_of_le (List.length_take_le ..), List.nil_append]
    cases hincoming : Peer.incoming (msgType, payload) with
    | none => exact List.nil_sublist _
    | some x => simp [hincoming]
  have htaken : p.taken.phase = .serving main := hphase
  have hwaits : ∀ {q : Peer} {main' : NodeMain}, q.phase = .serving main' →
      q.phase = .registering → p.phase = .registering ∧
        (Peer.handler msgType payload now saves).toList = [] := by
    intro q main' hserving hregistering
    rw [hserving] at hregistering
    cases hregistering
  rw [Peer.receive, htaken] at h
  dsimp only at h
  cases hhandler : Peer.handler msgType payload now saves with
  | none =>
    rw [hhandler] at h hmessages hwaits
    obtain rfl := Option.some.inj h
    exact ⟨⟨rfl, rfl⟩, Nat.le_succ _, hmessages, hwaits htaken, fun main' h =>
      .inl ⟨main', h, rfl⟩, .inl rfl⟩
  | some a =>
    rw [hhandler] at h hmessages hwaits
    obtain ⟨main', hstep, rfl⟩ := Option.map_eq_some_iff.mp h
    refine ⟨⟨rfl, rfl⟩, Nat.le_succ _, hmessages, hwaits (q := p.taken.serve main') rfl,
      fun main'' h => ?_, .inl rfl⟩
    obtain rfl := PeerPhase.serving.inj h
    exact .inl ⟨main, hphase, run_cons_eq_some.mpr ⟨main', hstep, rfl⟩⟩

theorem Goes.own {inbox : List (Bytes × Json)} {p : Peer} {main main' : NodeMain}
    {a : NodeMain.Act} (hphase : p.phase = .serving main) (ha : a.isOwn = true)
    (h : main.step P.toPrimitives p.conf.agent a = some main') :
    Goes P.toPrimitives inbox [a] p (p.serve main') := by
  have hmessage : a.message = none := by
    cases a with
    | start payload now saves => cases ha
    | stop => cases ha
    | task a => rfl
    | raised id => rfl
  refine ⟨⟨rfl, rfl⟩, le_rfl, ?_, fun h => (by cases h), fun main'' h'' => ?_, .inl rfl⟩
  · rw [List.filterMap_cons_none hmessage]
    exact List.nil_sublist _
  · obtain rfl := PeerPhase.serving.inj h''
    exact .inl ⟨main, hphase, run_cons_eq_some.mpr ⟨main', h, rfl⟩⟩

variable {tokens : Dict NodeId String} {rows : Dict MatchId MatchRecord} {metrics : MetricsStore}

/-- The processes after a step of one of them. -/
theorem goes_of_put {d : Deployment} {identity identity' : Bytes} {q p' : Peer}
    (hp' : d.peers.set identity' q identity = some p') {inbox : List (Bytes × Json)}
    {acts : List NodeMain.Act}
    (hself : identity' = identity → ∃ p, d.peers identity = some p ∧
      Goes P.toPrimitives inbox acts p q)
    (hother : identity' ≠ identity → acts = []) :
    ∃ p, d.peers identity = some p ∧ Goes P.toPrimitives inbox acts p p' := by
  by_cases hid : identity' = identity
  · subst hid
    rw [Dict.set_self, Option.some_inj] at hp'
    exact hp' ▸ hself rfl
  · rw [Dict.set_of_ne _ (Ne.symm hid)] at hp'
    rw [hother hid]
    exact ⟨p', hp', .refl _ _⟩

/-- What a step of the deployment is to its parts. -/
structure Splits (P : Platform) (d : Deployment) (a : Move) (d' : Deployment) : Prop where
  sys : run (Sys.step P) d.sys (serverActs d a) = some d'.sys
  peers : ∀ identity p', d'.peers identity = some p' →
    (identity ∉ d.used ∧ p'.phase = .registering ∧ acts identity d a = [] ∧
      ∃ conf privateKey home, a = .launch identity conf privateKey home) ∨
      ∃ p, d.peers identity = some p ∧
        Goes P.toPrimitives (d.sys.server.inbox identity) (acts identity d a) p p'

/-- **What one step is to the server and to the processes.** -/
theorem splits_of_step {d d' : Deployment} {a : Move} (hd : Wired P tokens rows metrics d)
    (h : d.step P a = some d') : Splits P d a d' := by
  cases a with
  | launch identity' conf privateKey home =>
    rw [step] at h
    split at h
    · cases h
    · next hnew =>
      obtain ⟨stateFile, -, rfl⟩ := Option.map_eq_some_iff.mp h
      refine ⟨rfl, fun identity p' hp' => ?_⟩
      have hp' : d.peers.set identity' _ identity = some p' := hp'
      by_cases hid : identity = identity'
      · subst hid
        rw [Dict.set_self, Option.some_inj] at hp'
        exact .inl ⟨hnew, hp' ▸ rfl, rfl, conf, privateKey, home, rfl⟩
      · rw [Dict.set_of_ne _ hid] at hp'
        exact .inr ⟨p', hp', .refl _ _⟩
  | timeout identity' =>
    obtain ⟨q, hq, h⟩ := Option.bind_eq_some_iff.mp h
    split at h
    · obtain rfl := Option.some.inj h
      exact ⟨rfl, fun identity p' hp' =>
        .inr (goes_of_put hp' (fun hid => ⟨q, hid ▸ hq, .exit _ q⟩) (fun _ => rfl))⟩
    · cases h
  | deliver identity' now saves =>
    obtain ⟨q, hq, h⟩ := Option.bind_eq_some_iff.mp h
    obtain ⟨⟨msgType, payload⟩, hnext, h⟩ := Option.bind_eq_some_iff.mp h
    obtain ⟨q', hq', h⟩ := Option.bind_eq_some_iff.mp h
    obtain rfl := Option.some.inj h
    refine ⟨rfl, fun identity p' hp' =>
      .inr (goes_of_put hp' (fun hid => ⟨q, hid ▸ hq, ?_⟩) (fun hid => if_neg hid))⟩
    subst hid
    rw [acts, if_pos rfl]
    cases hphase : q.phase with
    | registering =>
      have hnone : d.serving identity' = none := by
        rw [serving, hq, Option.bind_some, hphase]
      rw [hnone]
      exact .answer (hd.sound _ q hq) hphase hq'
    | serving main =>
      rw [serving_eq_some.mpr ⟨hq, hphase⟩, Option.bind_some, hnext, Option.bind_some]
      exact .handle hphase hnext hq'
    | exited =>
      have hphase : q.taken.phase = .exited := hphase
      rw [Peer.receive, hphase] at hq'
      cases hq'
  | lose identity' =>
    obtain ⟨q, hq, h⟩ := Option.bind_eq_some_iff.mp h
    obtain rfl := Option.some.inj h
    exact ⟨rfl, fun identity p' hp' => .inr (goes_of_put hp'
      (fun hid => ⟨q, hid ▸ hq, .idle ⟨rfl, rfl⟩ (Nat.le_succ _) rfl (.inl rfl)⟩) (fun _ => rfl))⟩
  | node identity' a =>
    obtain ⟨q, hq, h⟩ := Option.bind_eq_some_iff.mp h
    split at h
    · next main hphase =>
      split at h
      · next ha =>
        obtain ⟨main', hstep, rfl⟩ := Option.map_eq_some_iff.mp h
        refine ⟨rfl, fun identity p' hp' =>
          .inr (goes_of_put hp' (fun hid => ⟨q, hid ▸ hq, ?_⟩) (fun hid => if_neg hid))⟩
        rw [acts, if_pos hid]
        exact .own hphase ha hstep
      · cases h
    · cases h
  | report identity' terminalId idleSeconds tokensUsed now =>
    obtain ⟨q, hq, h⟩ := Option.bind_eq_some_iff.mp h
    split at h
    · split at h
      · obtain rfl := Option.some.inj h
        refine ⟨rfl, fun identity p' hp' => .inr (goes_of_put hp'
          (fun hid => ⟨q, hid ▸ hq, .idle ⟨rfl, rfl⟩ le_rfl rfl ?_⟩) (fun _ => rfl))⟩
        exact .inr (.inr ⟨_, registerOf_report .., rfl⟩)
      · cases h
    · cases h
  | exit identity' =>
    obtain ⟨q, hq, h⟩ := Option.bind_eq_some_iff.mp h
    obtain rfl := Option.some.inj h
    exact ⟨rfl, fun identity p' hp' =>
      .inr (goes_of_put hp' (fun hid => ⟨q, hid ▸ hq, .exit _ q⟩) (fun _ => rfl))⟩
  | arrive identity' =>
    obtain ⟨q, hq, h⟩ := Option.bind_eq_some_iff.mp h
    split at h
    · cases h
    · next frames rest houtbox =>
      obtain rfl := Option.some.inj ((route_eq _ _).symm.trans h)
      refine ⟨?_, fun identity p' hp' => .inr (goes_of_put hp'
        (fun hid => ⟨q, hid ▸ hq, .idle ⟨rfl, rfl⟩ le_rfl rfl ?_⟩) (fun _ => rfl))⟩
      · rw [serverActs, hq, Option.bind_some, houtbox]
        rfl
      · exact .inr (.inl (by rw [houtbox]; rfl))
  | drop identity' =>
    obtain ⟨q, hq, h⟩ := Option.bind_eq_some_iff.mp h
    obtain rfl := Option.some.inj h
    exact ⟨rfl, fun identity p' hp' => .inr (goes_of_put hp'
      (fun hid => ⟨q, hid ▸ hq, .idle ⟨rfl, rfl⟩ le_rfl rfl (.inr (.inl rfl))⟩) (fun _ => rfl))⟩
  | stranger frames =>
    cases frames with
    | nil => cases h
    | cons first rest =>
      rw [step] at h
      split at h
      · obtain rfl := Option.some.inj ((route_eq _ _).symm.trans h)
        exact ⟨rfl, fun identity p' hp' => .inr ⟨p', hp', .refl _ _⟩⟩
      · cases h
  | server b =>
    rw [step] at h
    split at h
    · cases h
    · obtain ⟨sys, hstep, rfl⟩ := Option.map_eq_some_iff.mp h
      exact ⟨run_cons_eq_some.mpr ⟨sys, hstep, rfl⟩,
        fun identity p' hp' => .inr ⟨p', hp', .refl _ _⟩⟩

/-- **What one step is to the server**: nothing, a step of its own, or the arrival of a
message. -/
theorem sys_of_step {d d' : Deployment} {a : Move} (hd : Wired P tokens rows metrics d)
    (h : d.step P a = some d') :
    d'.sys = d.sys ∨
      (∃ b, a = .server b ∧ b.receives = false ∧ Sys.step P d.sys b = some d'.sys) ∨
      (∃ frames, a = .stranger frames ∧ d.sys.server.authenticates frames = false ∧
        Sys.step P d.sys (.call (.receive frames)) = some d'.sys) ∨
      ∃ identity p frames, d.peers identity = some p ∧ frames ∈ p.outbox ∧
        Sys.step P d.sys (.call (.receive frames)) = some d'.sys := by
  have hsys := (splits_of_step hd h).sys
  cases a with
  | arrive identity =>
    obtain ⟨p, hp, h⟩ := Option.bind_eq_some_iff.mp h
    split at h
    · cases h
    · next frames rest houtbox =>
      obtain rfl := Option.some.inj ((route_eq _ _).symm.trans h)
      refine .inr (.inr (.inr ⟨identity, p, frames, hp, ?_, rfl⟩))
      rw [houtbox]
      exact List.mem_cons_self
  | stranger frames =>
    cases frames with
    | nil => cases h
    | cons first rest =>
      obtain ⟨sys, hstep, heq⟩ := run_cons_eq_some.mp hsys
      obtain rfl := Option.some.inj heq
      rw [step] at h
      split at h
      · next hauth => exact .inr (.inr (.inl ⟨first :: rest, rfl, hauth.2, hstep⟩))
      · cases h
  | server b =>
    obtain ⟨sys, hstep, heq⟩ := run_cons_eq_some.mp hsys
    obtain rfl := Option.some.inj heq
    rw [step] at h
    split at h
    · cases h
    · next hreceives => exact .inr (.inl ⟨b, rfl, Bool.eq_false_iff.mpr hreceives, hstep⟩)
  | _ => exact .inl (Option.some.inj hsys).symm

/-! ### Runs -/

/-- The server's part of a run. -/
theorem run_sys {moves : List Move} {d d' : Deployment} (hd : Wired P tokens rows metrics d)
    (hrun : run (step P) d moves = some d') :
    run (Sys.step P) d.sys (observed (step P) serverActs d moves) = some d'.sys := by
  have hpart : Wired P tokens rows metrics d' ∧ run (Sys.step P) d.sys
      ([] ++ observed (step P) serverActs d moves) = some d'.sys :=
    invariant_of_observed
    (I := fun d₁ seen => Wired P tokens rows metrics d₁ ∧
      run (Sys.step P) d.sys seen = some d₁.sys)
    (fun d₁ seen a d₂ h hstep => ⟨h.1.step hstep,
      run_append_eq_some.mpr ⟨d₁.sys, h.2, (splits_of_step h.1 hstep).sys⟩⟩) ⟨hd, rfl⟩ hrun
  rw [List.nil_append] at hpart
  exact hpart.2

/-- **From a point on at which a process serves**, as long as it does, its part of the
run is a run of its program. -/
theorem run_of_serving {moves : List Move} {d d' : Deployment} (hd : Wired P tokens rows metrics d)
    (hrun : run (step P) d moves = some d') {identity : Bytes} {p : Peer} {main : NodeMain}
    (hp : d.peers identity = some p) (hphase : p.phase = .serving main) {p' : Peer}
    {main' : NodeMain} (hp' : d'.peers identity = some p') (hphase' : p'.phase = .serving main') :
    p'.conf = p.conf ∧ run (NodeMain.step P.toPrimitives p.conf.agent) main
      (observed (step P) (acts identity) d moves) = some main' := by
  have hpart : Wired P tokens rows metrics d' ∧ ∃ q, d'.peers identity = some q ∧
      q.conf = p.conf ∧ q.phase ≠ .registering ∧ ∀ main', q.phase = .serving main' →
        run (NodeMain.step P.toPrimitives p.conf.agent) main
          ([] ++ observed (step P) (acts identity) d moves) = some main' := by
    refine invariant_of_observed
      (I := fun d₁ seen => Wired P tokens rows metrics d₁ ∧ ∃ q, d₁.peers identity = some q ∧
        q.conf = p.conf ∧ q.phase ≠ .registering ∧ ∀ main', q.phase = .serving main' →
          run (NodeMain.step P.toPrimitives p.conf.agent) main seen = some main')
      (fun d₁ seen a d₂ h hstep => ?_) ⟨hd, p, hp, rfl, ?_, ?_⟩ hrun
    · obtain ⟨hd₁, q, hq, hconf, hregistering, hserves⟩ := h
      obtain ⟨q', hq', -⟩ := hd₁.follows (step_cases hstep) identity q hq
      refine ⟨hd₁.step hstep, q', hq', ?_⟩
      obtain ⟨hnew, -⟩ | ⟨q₀, hq₀, hgoes⟩ := (splits_of_step hd₁ hstep).peers identity q' hq'
      · exact absurd (hd₁.used identity q hq) hnew
      · obtain rfl := Option.some.inj (hq.symm.trans hq₀)
        refine ⟨hgoes.same.1.trans hconf, fun h => hregistering (hgoes.waits h).1,
          fun main' hmain' => ?_⟩
        obtain ⟨main₁, hmain₁, hacts⟩ | ⟨hwaits, -⟩ := hgoes.serves main' hmain'
        · rw [hconf] at hacts
          exact run_append_eq_some.mpr ⟨main₁, hserves main₁ hmain₁, hacts⟩
        · exact absurd hwaits hregistering
    · rw [hphase]
      simp
    · intro main' hmain'
      rw [hphase] at hmain'
      obtain rfl := PeerPhase.serving.inj hmain'
      rfl
  obtain ⟨-, q, hq, hconf, -, hserves⟩ := hpart
  obtain rfl := Option.some.inj (hp'.symm.trans hq)
  rw [List.nil_append] at hserves
  exact ⟨hconf, hserves main' hphase'⟩

/-- What a process has done since it was launched. -/
structure Played (P : Primitives) (identity : Bytes) (d : Deployment) (seen : List NodeMain.Act)
    (p : Peer) : Prop where
  waits : p.phase = .registering → seen = []
  messages : (seen.filterMap NodeMain.Act.message).Sublist
    (((d.sys.server.inbox identity).take p.received).filterMap Peer.incoming)
  serves : ∀ main, p.phase = .serving main → ∃ crypto saved, crypto.privateKey = p.privateKey ∧
    run (NodeMain.step P p.conf.agent) (.ofCrypto crypto saved) seen = some main

/-- What a process has been sent stays, and more is sent. -/
theorem take_inbox {s : Sys} {acts : List Act} {s' : Sys}
    (h : run (Sys.step P) s acts = some s') (identity : Bytes) (k : ℕ) :
    ((s.server.inbox identity).take k).Sublist ((s'.server.inbox identity).take k) := by
  have hgrows : ∃ es, s'.server.trace = s.server.trace ++ es :=
    invariant_of_run (I := fun s₁ => ∃ es, s₁.server.trace = s.server.trace ++ es)
      (fun s₁ a s₂ hs₁ hstep => by
        obtain ⟨es, hes⟩ := hs₁
        obtain ⟨es', hes', -⟩ := Sys.registers_of_step hstep
        exact ⟨es ++ es', by rw [hes', hes, List.append_assoc]⟩) ⟨[], by simp⟩ h
  obtain ⟨es, hes⟩ := hgrows
  rw [Server.inbox, Server.inbox, hes, List.filterMap_append, List.take_append]
  exact List.sublist_append_left ..

theorem Played.step {d d' : Deployment} {a : Move} {identity : Bytes} {p p' : Peer}
    {seen : List NodeMain.Act} (h : Played P.toPrimitives identity d seen p)
    (hsplits : Splits P d a d')
    (hgoes : Goes P.toPrimitives (d.sys.server.inbox identity) (acts identity d a) p p') :
    Played P.toPrimitives identity d' (seen ++ acts identity d a) p' where
  waits hphase := by
    obtain ⟨hwaits, hacts⟩ := hgoes.waits hphase
    rw [hacts, h.waits hwaits]
    rfl
  messages := by
    rw [List.filterMap_append]
    refine List.Sublist.trans ?_ ((take_inbox hsplits.sys identity p'.received).filterMap _)
    rw [← List.take_append_drop p.received ((d.sys.server.inbox identity).take p'.received),
      List.take_take, min_eq_left hgoes.received, List.filterMap_append]
    exact h.messages.append hgoes.messages
  serves main hphase := by
    rw [hgoes.same.1, hgoes.same.2]
    obtain ⟨main₁, hmain₁, hacts⟩ | ⟨hwaits, hacts, crypto, saved, hkey, rfl⟩ :=
      hgoes.serves main hphase
    · obtain ⟨crypto, saved, hkey, hrun⟩ := h.serves main₁ hmain₁
      exact ⟨crypto, saved, hkey, run_append_eq_some.mpr ⟨main₁, hrun, hacts⟩⟩
    · refine ⟨crypto, saved, hkey, ?_⟩
      rw [hacts, h.waits hwaits]
      rfl

/-- Before it is launched a process does nothing. -/
theorem acts_of_none {d d' : Deployment} {a : Move} (h : d.step P a = some d') {identity : Bytes}
    (hnone : d.peers identity = none) : acts identity d a = [] := by
  cases a with
  | deliver identity' now saves =>
    rw [acts, serving, hnone]
    exact ite_self _
  | node identity' a =>
    obtain ⟨q, hq, -⟩ := Option.bind_eq_some_iff.mp h
    refine if_neg fun hid => ?_
    rw [hid, hnone] at hq
    cases hq
  | _ => rfl

/-- **A deployment is made of its parts.**  What the server does in a run is a run of
the server; what a process does is a run of its program, from its registration on, in
which it handles messages that the server has sent to it, each once at most and in
their order, as the transport delivers them. -/
theorem runs_of_parts {moves : List Move} {d : Deployment}
    (hrun : run (step P) (boot tokens rows metrics) moves = some d) :
    run (Sys.step P) (Sys.boot tokens rows metrics)
      (observed (step P) serverActs (boot tokens rows metrics) moves) = some d.sys ∧
    ∀ identity p main, d.peers identity = some p → p.phase = .serving main →
      (∃ crypto saved, crypto.privateKey = p.privateKey ∧
        run (NodeMain.step P.toPrimitives p.conf.agent) (.ofCrypto crypto saved)
          (observed (step P) (acts identity) (boot tokens rows metrics) moves) = some main) ∧
      ((observed (step P) (acts identity) (boot tokens rows metrics) moves).filterMap
        NodeMain.Act.message).Sublist ((d.sys.server.inbox identity).filterMap Peer.incoming) := by
  refine ⟨run_sys wired_boot hrun, fun identity p main hp hphase => ?_⟩
  have hplayed : Wired P tokens rows metrics d ∧ (d.peers identity = none → [] ++ observed (step P)
      (acts identity) (boot tokens rows metrics) moves = []) ∧ ∀ p, d.peers identity = some p →
        Played P.toPrimitives identity d ([] ++ observed (step P) (acts identity)
          (boot tokens rows metrics) moves) p := by
    refine invariant_of_observed
      (I := fun d₁ seen => Wired P tokens rows metrics d₁ ∧ (d₁.peers identity = none → seen = []) ∧
        ∀ p, d₁.peers identity = some p → Played P.toPrimitives identity d₁ seen p)
      (fun d₁ seen a d₂ h hstep => ?_) ⟨wired_boot, fun _ => rfl, fun p hp => (by cases hp)⟩ hrun
    obtain ⟨hd₁, hnone, hplayed⟩ := h
    have hsplits := splits_of_step hd₁ hstep
    refine ⟨hd₁.step hstep, fun hnone' => ?_, fun p' hp' => ?_⟩
    · have hbefore : d₁.peers identity = none := by
        by_contra hsome
        obtain ⟨q, hq⟩ := Option.ne_none_iff_exists'.mp hsome
        obtain ⟨q', hq', -⟩ := hd₁.follows (step_cases hstep) identity q hq
        rw [hnone'] at hq'
        cases hq'
      rw [hnone hbefore, acts_of_none hstep hbefore]
      rfl
    · obtain ⟨hnew, hphase', hacts, -⟩ | ⟨q, hq, hgoes⟩ := hsplits.peers identity p' hp'
      · have hbefore : d₁.peers identity = none := by
          by_contra hsome
          obtain ⟨q, hq⟩ := Option.ne_none_iff_exists'.mp hsome
          exact hnew (hd₁.used identity q hq)
        rw [hacts, hnone hbefore]
        exact ⟨fun _ => rfl, List.nil_sublist _, fun main hmain => (by
          rw [hphase'] at hmain
          cases hmain)⟩
      · exact (hplayed q hq).step hsplits hgoes
  rw [List.nil_append] at hplayed
  obtain ⟨-, -, hplayed⟩ := hplayed
  refine ⟨(hplayed p hp).serves main hphase, (hplayed p hp).messages.trans ?_⟩
  exact (List.take_sublist ..).filterMap _

theorem runs_of_parts_sample : ∃ d p main crypto saved,
    run (step Sample.framed) Sample.deployment Sample.prompted = some d ∧
      d.serving [1] = some (p, main) ∧
      run (NodeMain.step Primitives.framed p.conf.agent) (.ofCrypto crypto saved)
        (observed (step Sample.framed) (acts [1]) Sample.deployment Sample.prompted) = some main ∧
      (observed (step Sample.framed) (acts [1]) Sample.deployment Sample.prompted).length = 2 := by
  have hruns : (run (step Sample.framed) Sample.deployment Sample.prompted).bind (fun d =>
      (d.serving [1]).map fun _ => (observed (step Sample.framed) (acts [1]) Sample.deployment
        Sample.prompted).length) = some 2 := by decide +kernel
  obtain ⟨d, hd, h⟩ := Option.bind_eq_some_iff.mp hruns
  obtain ⟨⟨p, main⟩, hserving, hlength⟩ := Option.map_eq_some_iff.mp h
  obtain ⟨hp, hphase⟩ := serving_eq_some.mp hserving
  obtain ⟨⟨crypto, saved, -, hrun⟩, -⟩ := (runs_of_parts hd).2 [1] p main hp hphase
  exact ⟨d, p, main, crypto, saved, hd, hserving, hrun, hlength⟩

end Deployment
