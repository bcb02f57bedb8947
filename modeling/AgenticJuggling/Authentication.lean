/-
Who is in the registry, in every run.

The handled messages of a run are all the server ever learns of its peers.
`Admits` says which of them are `REGISTER`s that pass the token check and the
key-present check; everything else, and every match operation, leaves the set
of nodes, their identities and their sessions alone.

* `Authenticated.step` — one step, with the messages handled so far;
* `Sys.registry_authenticated` — a registered node has presented its token, it
  is addressed under the identity of its last `REGISTER` that passed both
  checks, and only registered nodes have a session.
-/
import AgenticJuggling.Sessions

open Transition

/-- The message is a `REGISTER` for node `n` that carries its configured token. -/
def Presents (tokens : Dict NodeId String) (frames : List Frame) (n : NodeId) : Prop :=
  ∃ identity kvs token, MatchManager.registerOf frames = some (identity, .obj kvs) ∧
    Json.getD kvs "node_id" (.str "") = .str n ∧ tokens n = some token ∧
    Json.getD kvs "token" (.str "") = .str token

/-- The message is a `REGISTER` from `identity` for node `n` that carries its
token and a non-empty public key. -/
def Admits (tokens : Dict NodeId String) (frames : List Frame) (n : NodeId) (identity : Bytes) :
    Prop :=
  ∃ kvs token, MatchManager.registerOf frames = some (identity, .obj kvs) ∧
    Json.getD kvs "node_id" (.str "") = .str n ∧ tokens n = some token ∧
    Json.getD kvs "token" (.str "") = .str token ∧
    (Json.getD kvs "ecdh_pubkey" (.str "")).truthy = true

/-- `identity` is that of the last message for node `n` that passes both checks. -/
def LastAdmitted (tokens : Dict NodeId String) (handled : List (List Frame)) (n : NodeId)
    (identity : Bytes) : Prop :=
  ∃ pre frames post, handled = pre ++ frames :: post ∧ Admits tokens frames n identity ∧
    ∀ frames' ∈ post, ∀ identity', ¬ Admits tokens frames' n identity'

theorem Admits.eq {tokens : Dict NodeId String} {frames : List Frame} {n n' : NodeId}
    {identity identity' : Bytes} (h : Admits tokens frames n identity)
    (h' : Admits tokens frames n' identity') : n' = n ∧ identity' = identity := by
  obtain ⟨kvs, token, hframes, hn, -⟩ := h
  obtain ⟨kvs', token', hframes', hn', -⟩ := h'
  rw [hframes, Option.some_inj, Prod.mk.injEq, Json.obj.injEq] at hframes'
  obtain ⟨rfl, rfl⟩ := hframes'
  rw [hn, Json.str.injEq] at hn'
  exact ⟨hn'.symm, rfl⟩

namespace LastAdmitted

variable {tokens : Dict NodeId String} {handled : List (List Frame)} {frames : List Frame}
  {n : NodeId} {identity : Bytes}

theorem concat_of_admits (h : Admits tokens frames n identity) {identity' : Bytes} :
    LastAdmitted tokens (handled ++ [frames]) n identity' ↔ identity' = identity := by
  constructor
  · rintro ⟨pre, frames', post, heq, hadmits, hpost⟩
    rcases List.eq_nil_or_concat post with rfl | ⟨post, x, rfl⟩
    · obtain ⟨-, heq⟩ := List.append_inj' heq rfl
      rw [← List.singleton_inj.mp heq] at hadmits
      exact (h.eq hadmits).2
    · -- A later message cannot be the one that was admitted last.
      rw [List.concat_eq_append] at heq hpost
      rw [← List.cons_append, ← List.append_assoc] at heq
      obtain ⟨-, heq⟩ := List.append_inj' heq rfl
      rw [← List.singleton_inj.mp heq] at hpost
      exact absurd h (hpost frames (by simp) identity)
  · rintro rfl
    exact ⟨handled, frames, [], rfl, h, fun frames' hmem => (List.not_mem_nil hmem).elim⟩

theorem concat_of_not_admits (h : ∀ identity, ¬ Admits tokens frames n identity) :
    LastAdmitted tokens (handled ++ [frames]) n identity ↔ LastAdmitted tokens handled n identity := by
  constructor
  · rintro ⟨pre, frames', post, heq, hadmits, hpost⟩
    rcases List.eq_nil_or_concat post with rfl | ⟨post, x, rfl⟩
    · obtain ⟨-, heq⟩ := List.append_inj' heq rfl
      rw [← List.singleton_inj.mp heq] at hadmits
      exact absurd hadmits (h identity)
    · rw [List.concat_eq_append] at heq hpost
      rw [← List.cons_append, ← List.append_assoc] at heq
      obtain ⟨rfl, -⟩ := List.append_inj' heq rfl
      exact ⟨pre, frames', post, rfl, hadmits, fun y hy => hpost y (List.mem_append_left _ hy)⟩
  · rintro ⟨pre, frames', post, rfl, hadmits, hpost⟩
    refine ⟨pre, frames', post ++ [frames], by simp, hadmits, fun y hy => ?_⟩
    rcases List.mem_append.mp hy with hy | hy
    · exact hpost y hy
    · rw [List.mem_singleton.mp hy]
      exact h

end LastAdmitted

/-! ### The handler -/

/-- What the server knows of its nodes agrees with the messages it has handled. -/
structure Authenticated (tokens : Dict NodeId String) (s : Server) (handled : List (List Frame)) :
    Prop where
  allowed : s.registry.allowedTokens = tokens
  identity : ∀ n identity,
    s.registry.identityFor n = some identity ↔ LastAdmitted tokens handled n identity
  known : ∀ n, (s.registry.nodes n).isSome = true → s.registry.identityFor n ≠ none
  sessions : ∀ n, s.crypto.sessions n ≠ none → (s.registry.nodes n).isSome = true

namespace Server

variable {P : Primitives}

/-- A message gets past the checks just if it is admitted. -/
theorem handleRegister_cases_admits (s : Server) {frames : List Frame} {identity : Bytes}
    {payload : Json} (hframes : MatchManager.registerOf frames = some (identity, payload))
    (priv : Bytes) :
    ((∀ n identity', ¬ Admits s.registry.allowedTokens frames n identity') ∧
        (s.handleRegister P identity payload priv).1.registry = s.registry ∧
        (s.handleRegister P identity payload priv).1.crypto = s.crypto) ∨
      ∃ n hostname ip pk, Admits s.registry.allowedTokens frames n identity ∧
        s.handleRegister P identity payload priv
          = s.acceptRegister P identity n hostname ip pk priv := by
  by_cases hadmits : ∃ n identity', Admits s.registry.allowedTokens frames n identity'
  · obtain ⟨n, identity', hn⟩ := hadmits
    obtain ⟨kvs, token, hkvs, hid, htoken, hsent, hkey⟩ := id hn
    rw [hframes, Option.some_inj, Prod.mk.injEq] at hkvs
    obtain ⟨rfl, rfl⟩ := hkvs
    refine .inr ⟨n, Json.getD kvs "hostname" (.str ""), Json.getD kvs "ip" (.str ""),
      Json.getD kvs "ecdh_pubkey" (.str ""), hn, ?_⟩
    have hauth : s.registry.authenticate n (Json.getD kvs "token" (.str "")) = true := by
      rw [NodeRegistry.authenticate, htoken, hsent]
      exact decide_eq_true rfl
    simp [handleRegister, Json.asObj, hid, hauth, hkey]
  · have hnone : ∀ n identity', ¬ Admits s.registry.allowedTokens frames n identity' :=
      fun n identity' h => hadmits ⟨n, identity', h⟩
    refine .inl ⟨hnone, ?_⟩
    rcases s.handleRegister_cases identity payload priv (P := P) with
      ⟨outcome, h⟩ | ⟨reason, h⟩ | ⟨kvs, n, rfl, hid, hauth, hkey, h⟩
    · rw [h]
      exact ⟨rfl, rfl⟩
    · rw [h]
      exact ⟨rfl, rfl⟩
    · exfalso
      rw [NodeRegistry.authenticate] at hauth
      cases htoken : s.registry.allowedTokens n with
      | none => simp [htoken] at hauth
      | some token =>
        rw [htoken, decide_eq_true_eq] at hauth
        refine hnone n identity ⟨kvs, token, hframes, hid, htoken, ?_, hkey⟩
        generalize Json.getD kvs "token" (.str "") = sent at hauth
        cases sent with
        | str text => rw [Option.some.inj hauth]
        | _ => cases hauth

end Server

namespace Authenticated

variable {P : Primitives} {tokens : Dict NodeId String} {s : Server}
  {handled : List (List Frame)}

/-- Whatever leaves the nodes, their identities and their sessions alone. -/
theorem of_kept (h : Authenticated tokens s handled) {s' : Server}
    (htokens : s'.registry.allowedTokens = s.registry.allowedTokens)
    (hid : ∀ n, s'.registry.identityFor n = s.registry.identityFor n)
    (hnodes : ∀ n, (s'.registry.nodes n).isSome = (s.registry.nodes n).isSome)
    (hsessions : s'.crypto.sessions = s.crypto.sessions) : Authenticated tokens s' handled where
  allowed := htokens.trans h.allowed
  identity n identity := by
    rw [hid]
    exact h.identity n identity
  known n hn := by
    rw [hid]
    rw [hnodes] at hn
    exact h.known n hn
  sessions n hn := by
    rw [hnodes]
    rw [hsessions] at hn
    exact h.sessions n hn

/-- A message that admits no node. -/
theorem concat (h : Authenticated tokens s handled) {frames : List Frame}
    (hnone : ∀ n identity, ¬ Admits tokens frames n identity) :
    Authenticated tokens s (handled ++ [frames]) where
  allowed := h.allowed
  identity n identity := by
    rw [LastAdmitted.concat_of_not_admits (hnone n)]
    exact h.identity n identity
  known := h.known
  sessions := h.sessions

theorem handleRegister (h : Authenticated tokens s handled) {frames : List Frame}
    {identity : Bytes} {payload : Json}
    (hframes : MatchManager.registerOf frames = some (identity, payload)) (priv : Bytes) :
    Authenticated tokens (s.handleRegister P identity payload priv).1 (handled ++ [frames]) := by
  rcases s.handleRegister_cases_admits hframes priv (P := P) with
    ⟨hnone, hreg, hcrypto⟩ | ⟨n, hostname, ip, pk, hadmits, heq⟩
  · rw [h.allowed] at hnone
    exact (h.of_kept (by rw [hreg]) (fun n => by rw [hreg]) (fun n => by rw [hreg])
      (by rw [hcrypto])).concat hnone
  · rw [heq]
    rw [h.allowed] at hadmits
    obtain ⟨htokens, hid, hother⟩ := s.acceptRegister_frame identity n hostname ip pk priv (P := P)
    refine ⟨htokens.trans h.allowed, fun n' identity' => ?_, fun n' hn' => ?_, fun n' hn' => ?_⟩
    · by_cases hn : n' = n
      · rw [hn, hid, LastAdmitted.concat_of_admits hadmits, Option.some_inj, eq_comm]
      · rw [NodeRegistry.identityFor, (hother n' hn).1,
          LastAdmitted.concat_of_not_admits fun identity'' h' => hn (hadmits.eq h').1]
        exact h.identity n' identity'
    · by_cases hn : n' = n
      · rw [hn, hid]
        exact Option.some_ne_none _
      · rw [NodeRegistry.identityFor, (hother n' hn).1]
        rw [(hother n' hn).1] at hn'
        exact h.known n' hn'
    · by_cases hn : n' = n
      · rw [hn, Option.isSome_iff_ne_none]
        intro hnone
        rw [NodeRegistry.identityFor, hnone] at hid
        cases hid
      · rw [(hother n' hn).1]
        rw [(hother n' hn).2] at hn'
        exact h.sessions n' hn'

end Authenticated

/-! ### Runs -/

/-- A `REGISTER` is handled in one stretch. -/
theorem MatchManager.resume_register {P : Platform} (tid fresh : TaskId) (s : Server)
    {t : ServerTask} (w : World) {frames : List Frame} {identity : Bytes} {payload : Json}
    (hpc : t.pc = .received frames) (hframes : registerOf frames = some (identity, payload)) :
    resume P tid fresh s t w = finish (s.handleRegister P.toPrimitives identity payload w.priv).1
      (s.handleRegister P.toPrimitives identity payload w.priv).2 := by
  rw [resume, hpc]
  show dispatch P w s frames = _
  unfold registerOf at hframes
  split at hframes
  · split at hframes
    · rename_i identity' msgType raw rest hregister
      obtain ⟨payload', hraw, heq⟩ := Option.map_eq_some_iff.mp hframes
      obtain ⟨rfl, rfl⟩ := Prod.mk.inj heq
      simp [dispatch, hraw, hregister]
    · cases hframes
  · cases hframes

/-- The message the task is about to handle. -/
def Pc.frames : Pc → Option (List Frame)
  | .received frames => some frames
  | _ => none

namespace Sys

variable {P : Platform}

/-- The message a step handles. -/
def handles (s : Sys) : Act → List (List Frame)
  | .call _ => []
  | .run tid _ => ((s.tasks tid).bind (·.pc.frames)).toList

/-- The messages handled along a run, in order. -/
def handled (P : Platform) (s : Sys) (acts : List Act) : List (List Frame) :=
  observed (step P) handles s acts

/-- **A step that handles no `REGISTER`** changes neither the set of nodes, nor
an identity, nor a session. -/
theorem step_nodes {s s' : Sys} {a : Act} (h : step P s a = some s')
    (hframes : ∀ frames ∈ s.handles a, MatchManager.registerOf frames = none) :
    s'.server.registry.allowedTokens = s.server.registry.allowedTokens ∧
      (∀ n, (s'.server.registry.nodes n).isSome = (s.server.registry.nodes n).isSome) ∧
      (∀ n, s'.server.registry.identityFor n = s.server.registry.identityFor n) ∧
      s'.server.crypto.sessions = s.server.crypto.sessions := by
  rcases step_cases h with ⟨c, -, rfl⟩ | ⟨tid, w, t, rfl, ht, -, rfl⟩
  · exact ⟨rfl, fun n => rfl, fun n => rfl, rfl⟩
  · rw [apply_server]
    rcases (MatchManager.resume_stretch (P := P) tid s.next s.server t w).registry with
      ⟨frames, identity, payload, hpc, hregister, -⟩ | ⟨hsessions, hreg | ⟨n, state, hreg⟩⟩
    · rw [hframes frames (by simp [handles, ht, hpc, Pc.frames])] at hregister
      cases hregister
    · rw [hreg]
      exact ⟨rfl, fun n => rfl, fun n => rfl, hsessions⟩
    · rw [hreg]
      exact ⟨rfl, fun n' => NodeRegistry.updateState_nodes_isSome ..,
        fun n' => NodeRegistry.updateState_identityFor .., hsessions⟩

/-- A message that is no `REGISTER` admits nobody. -/
theorem not_admits_of_registerOf {tokens : Dict NodeId String} {frames : List Frame}
    (h : MatchManager.registerOf frames = none) (n : NodeId) (identity : Bytes) :
    ¬ Admits tokens frames n identity := by
  rintro ⟨kvs, token, hframes, -⟩
  rw [h] at hframes
  cases hframes

theorem authenticated_step {tokens : Dict NodeId String} {s s' : Sys} {a : Act}
    {seen : List (List Frame)} (hs : Authenticated tokens s.server seen)
    (h : step P s a = some s') : Authenticated tokens s'.server (seen ++ s.handles a) := by
  by_cases hframes : ∀ frames ∈ s.handles a, MatchManager.registerOf frames = none
  · obtain ⟨htokens, hnodes, hid, hsessions⟩ := step_nodes h hframes
    have h' := hs.of_kept htokens hid hnodes hsessions
    cases a with
    | call c =>
      rw [handles, List.append_nil]
      exact h'
    | run tid w =>
      rw [handles] at hframes ⊢
      cases hf : (s.tasks tid).bind (·.pc.frames) with
      | none =>
        rw [Option.toList_none, List.append_nil]
        exact h'
      | some frames =>
        rw [hf, Option.toList_some, List.forall_mem_singleton] at hframes
        exact h'.concat (not_admits_of_registerOf hframes)
  · rcases step_cases h with ⟨c, rfl, -⟩ | ⟨tid, w, t, rfl, ht, -, rfl⟩
    · exact absurd (fun frames hmem => (List.not_mem_nil hmem).elim) hframes
    · cases hpc : t.pc with
      | received frames =>
        have hhandles : s.handles (.run tid w) = [frames] := by
          simp [handles, ht, hpc, Pc.frames]
        rw [hhandles, List.forall_mem_singleton] at hframes
        obtain ⟨⟨identity, payload⟩, hregister⟩ := Option.ne_none_iff_exists'.mp hframes
        rw [apply_server, hhandles,
          MatchManager.resume_register tid s.next s.server w hpc hregister]
        exact hs.handleRegister hregister w.priv
      | _ => exact absurd (by simp [handles, ht, hpc, Pc.frames]) hframes

/-- **The registry is authenticated** after every run.  A registered node has a
token and has sent a `REGISTER` with exactly that token; it is addressed under
the identity of the last `REGISTER` that passed both checks; only registered
nodes have a session; and no step that handles anything but a `REGISTER` adds
or removes a node, an identity or a session. -/
theorem registry_authenticated {tokens : Dict NodeId String} {rows : Dict MatchId MatchRecord}
    {metrics : MetricsStore} {acts : List Act} {s : Sys}
    (hrun : run (step P) (boot tokens rows metrics) acts = some s) :
    (∀ n, (s.server.registry.nodes n).isSome = true →
      tokens n ≠ none ∧
      (∃ frames ∈ handled P (boot tokens rows metrics) acts, Presents tokens frames n) ∧
      ∃ identity, s.server.registry.identityFor n = some identity ∧
        LastAdmitted tokens (handled P (boot tokens rows metrics) acts) n identity) ∧
    (∀ n, s.server.crypto.sessions n ≠ none → (s.server.registry.nodes n).isSome = true) ∧
    (∀ a s', step P s a = some s' →
      (∀ frames ∈ s.handles a, MatchManager.registerOf frames = none) →
      (∀ n, (s'.server.registry.nodes n).isSome = (s.server.registry.nodes n).isSome) ∧
        (∀ n, s'.server.registry.identityFor n = s.server.registry.identityFor n) ∧
        s'.server.crypto.sessions = s.server.crypto.sessions) := by
  have hboot : Authenticated tokens (boot tokens rows metrics).server [] := by
    refine ⟨rfl, fun n identity => ⟨fun h => (by cases h), ?_⟩, fun n h => (by cases h),
      fun n h => absurd rfl h⟩
    rintro ⟨pre, frames, post, heq, -⟩
    simp at heq
  have hs : Authenticated tokens s.server (handled P (boot tokens rows metrics) acts) :=
    invariant_of_observed (I := fun s seen => Authenticated tokens s.server seen)
      (fun s seen a s' hs h => authenticated_step hs h) hboot hrun
  refine ⟨fun n hn => ?_, hs.sessions, fun a s' h hframes => (step_nodes h hframes).2⟩
  obtain ⟨identity, hid⟩ := Option.ne_none_iff_exists'.mp (hs.known n hn)
  have hlast := (hs.identity n identity).mp hid
  obtain ⟨pre, frames, post, heq, ⟨kvs, token, hframes, hnode, htoken, hsent, -⟩, -⟩ := id hlast
  refine ⟨?_, ⟨frames, ?_, identity, kvs, token, hframes, hnode, htoken, hsent⟩,
    identity, hid, hlast⟩
  · rw [htoken]
    exact Option.some_ne_none _
  · rw [heq]
    exact List.mem_append_right _ List.mem_cons_self

theorem registry_authenticated_started : ∃ s identity,
    run (step Sample.platform) (Sample.boot [("m", ["n"])]) Sample.started = some s ∧
      s.server.registry.identityFor "n" = some identity ∧
      LastAdmitted (fun _ => some "token")
        (handled Sample.platform (Sample.boot [("m", ["n"])]) Sample.started) "n" identity := by
  obtain ⟨s, hs, h⟩ := Option.map_eq_some_iff.mp
    (show (run (step Sample.platform) (Sample.boot [("m", ["n"])]) Sample.started).map
      (fun s => (s.server.registry.nodes "n").isSome) = some true by decide +kernel)
  obtain ⟨-, -, identity, hid, hlast⟩ := (registry_authenticated hs).1 "n" h
  exact ⟨s, identity, hs, hid, hlast⟩

end Sys
