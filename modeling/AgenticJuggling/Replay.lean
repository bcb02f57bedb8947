/-
Replays of what the server has sealed.

A wrapped match key is not bound to its match, so whoever can replay messages
can install the key of one match under the id of another, and can hand a
prompt to `unwrap_match_key` or a wrapped key to `decrypt_prompt`.
`CryptoSys` is the server with any number of nodes and every blob it has
emitted; the nodes are called with any of these blobs under any match id.
`encrypt_schedule` is a sequence of calls of `encrypt_prompt`.

* `Unmixed.step` — match keys and session keys are never taken for one another,
  on either side;
* `CryptoSys.no_replay` — a prompt decrypts only under the match it was
  encrypted for.
-/
import AgenticJuggling.NodeProcess
import AgenticJuggling.Transition

open Transition

/-- A call that made the server emit a blob. -/
inductive SealCall
  | encryptMatchKeyForNode (matchId : MatchId) (nodeId : NodeId)
  | encryptPrompt (matchId : MatchId) (prompt : String)
  deriving DecidableEq

structure Emission where
  blob : String
  call : SealCall
  deriving DecidableEq

/-- The server, the nodes, and what there has been: every blob the server has
emitted, every match key it has generated and every session key that it or a
node has derived. -/
structure CryptoSys where
  server : CryptoManager
  nodes : NodeId → NodeCrypto
  emitted : List Emission
  matchKeys : List Bytes
  sessionKeys : List Bytes

/-- A call of one of the crypto methods, with the random values it draws. -/
inductive CryptoCall
  | establishSession (nodeId : NodeId) (nodePubkeyB64 : Json) (serverPrivate : Bytes)
  | generateMatchKey (matchId : MatchId) (key : Bytes)
  | revokeMatchKey (matchId : MatchId)
  | encryptMatchKeyForNode (matchId : MatchId) (nodeId : NodeId) (nonce : Nonce)
  | encryptPrompt (matchId : MatchId) (prompt : String) (nonce : Nonce)
  /-- Calls on the `NodeCrypto` of a node. -/
  | deriveSessionKey (nodeId : NodeId) (serverPubkeyB64 : Json)
  | unwrapMatchKey (nodeId : NodeId) (matchId : MatchId) (blob : String)
  | decryptPrompt (nodeId : NodeId) (matchId : MatchId) (blob : String)
  | nodeRevokeMatchKey (nodeId : NodeId) (matchId : MatchId)

namespace CryptoSys

variable (P : Primitives)

/-- Node `n` has changed; a call that raises leaves it as it was. -/
def putNode (s : CryptoSys) (n : NodeId) (crypto : Option NodeCrypto) : CryptoSys :=
  match crypto with
  | none => s
  | some crypto => { s with nodes := Function.update s.nodes n crypto }

/-- The server hands out a blob, unless the call raises. -/
def emit (s : CryptoSys) (call : SealCall) (blob : Option String) : CryptoSys :=
  match blob with
  | none => s
  | some blob => { s with emitted := s.emitted ++ [⟨blob, call⟩] }

/-- The match key that a call generates. -/
def generates (s : CryptoSys) : CryptoCall → Option Bytes
  | .generateMatchKey m key => if (s.server.generateMatchKey m key).isSome then some key else none
  | _ => none

/-- The session key that a call derives. -/
def derives (s : CryptoSys) : CryptoCall → Option Bytes
  | .establishSession n pk priv =>
    ((s.server.establishSession P n pk priv).1.sessions n).map (·.sessionKey)
  | .deriveSessionKey n pk => ((s.nodes n).deriveSessionKey P pk).bind (·.sessionKey)
  | _ => none

/-- The effect of a call on the server and the nodes. -/
def perform (s : CryptoSys) : CryptoCall → CryptoSys
  | .establishSession n pk priv => { s with server := (s.server.establishSession P n pk priv).1 }
  | .generateMatchKey m key =>
    match s.server.generateMatchKey m key with
    | none => s
    | some server => { s with server := server }
  | .revokeMatchKey m => { s with server := s.server.revokeMatchKey m }
  | .encryptMatchKeyForNode m n nonce =>
    s.emit (.encryptMatchKeyForNode m n) (s.server.encryptMatchKeyForNode P m n nonce)
  | .encryptPrompt m prompt nonce =>
    s.emit (.encryptPrompt m prompt) (s.server.encryptPrompt P m prompt nonce)
  | .deriveSessionKey n pk => s.putNode n ((s.nodes n).deriveSessionKey P pk)
  | .unwrapMatchKey n m blob => s.putNode n ((s.nodes n).unwrapMatchKey P m (.str blob))
  | .decryptPrompt _ _ _ => s
  | .nodeRevokeMatchKey n m => s.putNode n (some ((s.nodes n).revokeMatchKey m))

/-- Note the keys that the call makes, and perform it. -/
def step (s : CryptoSys) (call : CryptoCall) : Option CryptoSys :=
  let noted := { s with
    matchKeys := s.matchKeys ++ (s.generates call).toList
    sessionKeys := s.sessionKeys ++ (s.derives P call).toList }
  some (noted.perform P call)

/-- Nothing but the private keys of the nodes. -/
def boot (privateKey : NodeId → Bytes) : CryptoSys where
  server := { sessions := Dict.empty, matchKeys := Dict.empty }
  nodes n := { privateKey := privateKey n }
  emitted := []
  matchKeys := []
  sessionKeys := []

/-- A node is called with blobs that the server has emitted, in whatever role. -/
def Replays (s : CryptoSys) : CryptoCall → Prop
  | .unwrapMatchKey _ _ blob => ∃ e ∈ s.emitted, e.blob = blob
  | .decryptPrompt _ _ blob => ∃ e ∈ s.emitted, e.blob = blob
  | _ => True

/-- No fresh match key is a session key, and the other way round. -/
def FreshKeys (s : CryptoSys) (call : CryptoCall) : Prop :=
  (∀ key ∈ s.generates call, key ∉ s.sessionKeys) ∧
    ∀ key ∈ s.derives P call, key ∉ s.matchKeys

instance (s : CryptoSys) (call : CryptoCall) : Decidable (Replays s call) := by
  cases call <;> unfold Replays <;> infer_instance

instance (s : CryptoSys) (call : CryptoCall) : Decidable (FreshKeys P s call) := by
  unfold FreshKeys
  infer_instance

/-! ### The invariant -/

/-- A wrapped key is a match key under a session key, a prompt is sealed under a
match key with its match id. -/
def Sealed (matchKeys sessionKeys : List Bytes) (e : Emission) : Prop :=
  match e.call with
  | .encryptMatchKeyForNode _ _ => ∃ sessionKey ∈ sessionKeys, ∃ matchKey ∈ matchKeys, ∃ nonce,
      e.blob = P.sealBlob sessionKey nonce matchKey none
  | .encryptPrompt m prompt => ∃ matchKey ∈ matchKeys, ∃ nonce,
      e.blob = P.sealBlob matchKey nonce (utf8 prompt) (some (utf8 m))

/-- Match keys and session keys are apart, and every party holds the right kind. -/
structure Unmixed (s : CryptoSys) : Prop where
  serverKey : ∀ m key, s.server.matchKeys m = some key → key ∈ s.matchKeys
  serverSession : ∀ n session, s.server.sessions n = some session →
    session.sessionKey ∈ s.sessionKeys
  nodeSession : ∀ n key, (s.nodes n).sessionKey = some key → key ∈ s.sessionKeys
  nodeKey : ∀ n m key, (s.nodes n).matchKeys m = some key → key ∈ s.matchKeys
  apart : ∀ key ∈ s.matchKeys, key ∉ s.sessionKeys
  emitted : ∀ e ∈ s.emitted, Sealed P s.matchKeys s.sessionKeys e

variable {P} {s : CryptoSys}

theorem unmixed_boot (privateKey : NodeId → Bytes) : Unmixed P (boot privateKey) where
  serverKey m key h := by cases h
  serverSession n session h := by cases h
  nodeSession n key h := by cases h
  nodeKey n m key h := by cases h
  apart key h := (List.not_mem_nil h).elim
  emitted e h := (List.not_mem_nil h).elim

theorem Sealed.append {matchKeys sessionKeys : List Bytes} {e : Emission}
    (h : Sealed P matchKeys sessionKeys e) (matchKeys' sessionKeys' : List Bytes) :
    Sealed P (matchKeys ++ matchKeys') (sessionKeys ++ sessionKeys') e := by
  obtain ⟨blob, call⟩ := e
  cases call with
  | encryptMatchKeyForNode m n =>
    obtain ⟨sessionKey, hs, matchKey, hm, nonce, hblob⟩ := h
    exact ⟨sessionKey, List.mem_append_left _ hs, matchKey, List.mem_append_left _ hm, nonce, hblob⟩
  | encryptPrompt m prompt =>
    obtain ⟨matchKey, hm, nonce, hblob⟩ := h
    exact ⟨matchKey, List.mem_append_left _ hm, nonce, hblob⟩

theorem utf8_injective {a b : String} (h : utf8 a = utf8 b) : a = b := by
  have hdecode := congrArg decodeUtf8 h
  rwa [decodeUtf8_utf8, decodeUtf8_utf8, Option.some_inj] at hdecode

/-- What opens under a session key is a wrapped match key. -/
theorem Unmixed.open_session (hs : Unmixed P s) (hP : P.Ideal) {key data : Bytes}
    (hkey : key ∈ s.sessionKeys) {e : Emission} (he : e ∈ s.emitted)
    (h : P.openBlob key e.blob none = some data) : data ∈ s.matchKeys := by
  have hsealed := hs.emitted e he
  obtain ⟨blob, call⟩ := e
  cases call with
  | encryptMatchKeyForNode m n =>
    obtain ⟨sessionKey, -, matchKey, hm, nonce, hblob⟩ := hsealed
    rw [show blob = _ from hblob] at h
    rw [(Primitives.eq_of_openBlob_sealBlob hP h).2.2]
    exact hm
  | encryptPrompt m prompt =>
    -- A prompt does not open: its key is a match key.
    obtain ⟨matchKey, hm, nonce, hblob⟩ := hsealed
    rw [show blob = _ from hblob] at h
    rw [(Primitives.eq_of_openBlob_sealBlob hP h).1] at hkey
    exact absurd hkey (hs.apart matchKey hm)

/-- What opens under a match key, with a match id, is a prompt for that match. -/
theorem Unmixed.open_match (hs : Unmixed P s) (hP : P.Ideal) {key data : Bytes} {m : MatchId}
    (hkey : key ∈ s.matchKeys) {e : Emission} (he : e ∈ s.emitted)
    (h : P.openBlob key e.blob (some (utf8 m)) = some data) :
    ∃ prompt, e.call = .encryptPrompt m prompt ∧ data = utf8 prompt := by
  have hsealed := hs.emitted e he
  obtain ⟨blob, call⟩ := e
  cases call with
  | encryptMatchKeyForNode m' n =>
    -- A wrapped key does not open: its key is a session key.
    obtain ⟨sessionKey, hsession, matchKey, -, nonce, hblob⟩ := hsealed
    rw [show blob = _ from hblob] at h
    rw [← (Primitives.eq_of_openBlob_sealBlob hP h).1] at hsession
    exact absurd hsession (hs.apart key hkey)
  | encryptPrompt m' prompt =>
    obtain ⟨matchKey, -, nonce, hblob⟩ := hsealed
    rw [show blob = _ from hblob] at h
    obtain ⟨-, haad, hdata⟩ := Primitives.eq_of_openBlob_sealBlob hP h
    obtain rfl : m = m' := utf8_injective haad
    exact ⟨prompt, rfl, hdata⟩

/-- New keys of one kind. -/
theorem Unmixed.note (hs : Unmixed P s) (matchKeys sessionKeys : List Bytes)
    (hmatch : ∀ key ∈ matchKeys, key ∉ s.sessionKeys)
    (hsession : ∀ key ∈ sessionKeys, key ∉ s.matchKeys) (hone : matchKeys = [] ∨ sessionKeys = []) :
    Unmixed P { s with
      matchKeys := s.matchKeys ++ matchKeys, sessionKeys := s.sessionKeys ++ sessionKeys } where
  serverKey m key h := List.mem_append_left _ (hs.serverKey m key h)
  serverSession n session h := List.mem_append_left _ (hs.serverSession n session h)
  nodeSession n key h := List.mem_append_left _ (hs.nodeSession n key h)
  nodeKey n m key h := List.mem_append_left _ (hs.nodeKey n m key h)
  apart key hkey hkey' := by
    rcases List.mem_append.mp hkey with hold | hnew
    · rcases List.mem_append.mp hkey' with hold' | hnew'
      · exact hs.apart key hold hold'
      · exact hsession key hnew' hold
    · rcases List.mem_append.mp hkey' with hold' | hnew'
      · exact hmatch key hnew hold'
      · rcases hone with rfl | rfl
        · exact List.not_mem_nil hnew
        · exact List.not_mem_nil hnew'
  emitted e he := (hs.emitted e he).append matchKeys sessionKeys

/-- A server that holds keys there have been. -/
theorem Unmixed.withServer (hs : Unmixed P s) {server : CryptoManager}
    (hkeys : ∀ m key, server.matchKeys m = some key → key ∈ s.matchKeys)
    (hsessions : ∀ n session, server.sessions n = some session →
      session.sessionKey ∈ s.sessionKeys) : Unmixed P { s with server := server } :=
  ⟨hkeys, hsessions, hs.nodeSession, hs.nodeKey, hs.apart, hs.emitted⟩

/-- A node that holds keys there have been. -/
theorem Unmixed.putNode (hs : Unmixed P s) (n : NodeId) (crypto : Option NodeCrypto)
    (h : ∀ c, crypto = some c → (∀ key, c.sessionKey = some key → key ∈ s.sessionKeys) ∧
      ∀ m key, c.matchKeys m = some key → key ∈ s.matchKeys) : Unmixed P (s.putNode n crypto) := by
  cases crypto with
  | none => exact hs
  | some c =>
    obtain ⟨hsession, hkeys⟩ := h c rfl
    refine ⟨hs.serverKey, hs.serverSession, fun n' key h => ?_, fun n' m key h => ?_, hs.apart,
      hs.emitted⟩
    · by_cases hn : n' = n
      · subst hn
        exact hsession key (by simpa [CryptoSys.putNode] using h)
      · exact hs.nodeSession n' key (by simpa [CryptoSys.putNode, hn] using h)
    · by_cases hn : n' = n
      · subst hn
        exact hkeys m key (by simpa [CryptoSys.putNode] using h)
      · exact hs.nodeKey n' m key (by simpa [CryptoSys.putNode, hn] using h)

theorem Unmixed.emit (hs : Unmixed P s) {call : SealCall} {blob : Option String}
    (h : ∀ b, blob = some b → Sealed P s.matchKeys s.sessionKeys ⟨b, call⟩) :
    Unmixed P (s.emit call blob) := by
  cases blob with
  | none => exact hs
  | some b =>
    refine ⟨hs.serverKey, hs.serverSession, hs.nodeSession, hs.nodeKey, hs.apart, fun e he => ?_⟩
    rcases List.mem_append.mp he with he | he
    · exact hs.emitted e he
    · rw [List.mem_singleton.mp he]
      exact h b rfl

theorem mem_of_set {d : Dict MatchId Bytes} {keys : List Bytes}
    (h : ∀ m key, d m = some key → key ∈ keys) {m : MatchId} {new : Bytes} (hnew : new ∈ keys) :
    ∀ m' key, d.set m new m' = some key → key ∈ keys := by
  intro m' key hkey
  by_cases hm : m' = m
  · rw [hm, Dict.set_self, Option.some_inj] at hkey
    exact hkey ▸ hnew
  · rw [Dict.set_of_ne _ hm] at hkey
    exact h m' key hkey

theorem mem_of_pop {d : Dict MatchId Bytes} {keys : List Bytes}
    (h : ∀ m key, d m = some key → key ∈ keys) (m : MatchId) :
    ∀ m' key, d.pop m m' = some key → key ∈ keys := by
  intro m' key hkey
  by_cases hm : m' = m
  · rw [hm, Dict.pop_self] at hkey
    cases hkey
  · rw [Dict.pop_of_ne _ hm] at hkey
    exact h m' key hkey

theorem mem_append_toList {keys : List Bytes} {made : Option Bytes} {key : Bytes}
    (h : made = some key) : key ∈ keys ++ made.toList := by
  rw [h, Option.toList_some]
  exact List.mem_append_right _ List.mem_cons_self

/-- **A call keeps the keys apart**, if its fresh keys are, and if the nodes are
called with nothing but what the server has emitted. -/
theorem Unmixed.step (hP : P.Ideal) {s' : CryptoSys} {call : CryptoCall} (hs : Unmixed P s)
    (hfresh : FreshKeys P s call) (hreplays : Replays s call)
    (h : CryptoSys.step P s call = some s') : Unmixed P s' := by
  obtain rfl := Option.some.inj h
  -- The keys of the call are noted first; then the ciphers and the dictionaries follow.
  have hnoted := hs.note (s.generates call).toList (s.derives P call).toList
    (fun key hkey => hfresh.1 key (Option.mem_toList.mp hkey))
    (fun key hkey => hfresh.2 key (Option.mem_toList.mp hkey))
    (by cases call <;> simp [generates, derives])
  cases call with
  | establishSession n pk priv =>
    refine hnoted.withServer (fun m key hkey => ?_) fun n' session hsession => ?_
    · rw [CryptoManager.establishSession_matchKeys] at hkey
      exact hnoted.serverKey m key hkey
    · by_cases hn : n' = n
      · subst hn
        refine mem_append_toList ?_
        rw [derives, show (s.server.establishSession P n' pk priv).1.sessions n' = _ from hsession]
        rfl
      · rw [CryptoManager.establishSession_sessions_of_ne _ hn] at hsession
        exact hnoted.serverSession n' session hsession
  | generateMatchKey m key =>
    cases hgen : s.server.generateMatchKey m key with
    | none =>
      rw [perform, show CryptoManager.generateMatchKey _ m key = none from hgen]
      exact hnoted
    | some server =>
      rw [perform, show CryptoManager.generateMatchKey _ m key = some server from hgen]
      obtain ⟨-, rfl⟩ := CryptoManager.generateMatchKey_eq_some.mp hgen
      refine hnoted.withServer (mem_of_set hnoted.serverKey ?_) hnoted.serverSession
      refine mem_append_toList ?_
      rw [generates, hgen]
      rfl
  | revokeMatchKey m =>
    exact hnoted.withServer (mem_of_pop hnoted.serverKey m) hnoted.serverSession
  | encryptMatchKeyForNode m n nonce =>
    refine hnoted.emit fun b hb => ?_
    obtain ⟨matchKey, hm, hrest⟩ := Option.bind_eq_some_iff.mp hb
    obtain ⟨session, hsession, hb⟩ := Option.bind_eq_some_iff.mp hrest
    exact ⟨_, hnoted.serverSession n session hsession, matchKey, hnoted.serverKey m matchKey hm,
      nonce, (Option.some.inj hb).symm⟩
  | encryptPrompt m prompt nonce =>
    refine hnoted.emit fun b hb => ?_
    obtain ⟨matchKey, hm, hb⟩ := Option.bind_eq_some_iff.mp hb
    exact ⟨matchKey, hnoted.serverKey m matchKey hm, nonce, (Option.some.inj hb).symm⟩
  | deriveSessionKey n pk =>
    refine hnoted.putNode n _ fun c hc => ⟨fun key hkey => ?_, fun m key hkey => ?_⟩
    · refine mem_append_toList ?_
      rw [derives, show (s.nodes n).deriveSessionKey P pk = some c from hc, Option.bind_some]
      exact hkey
    · -- The match keys of the node stay as they are.
      obtain ⟨text, -, hrest⟩ := Option.bind_eq_some_iff.mp hc
      obtain ⟨raw, -, hrest⟩ := Option.bind_eq_some_iff.mp hrest
      obtain ⟨peer, -, hrest⟩ := Option.bind_eq_some_iff.mp hrest
      obtain ⟨sessionKey, -, hc⟩ := Option.bind_eq_some_iff.mp hrest
      obtain rfl := Option.some.inj hc
      exact hnoted.nodeKey n m key hkey
  | unwrapMatchKey n m blob =>
    obtain ⟨e, he, rfl⟩ := hreplays
    refine hnoted.putNode n _ fun c hc => ?_
    obtain ⟨sessionKey, hsession, hrest⟩ := Option.bind_eq_some_iff.mp hc
    obtain ⟨matchKey, hopen, hc⟩ := Option.bind_eq_some_iff.mp hrest
    obtain rfl := Option.some.inj hc
    exact ⟨hnoted.nodeSession n, mem_of_set (hnoted.nodeKey n)
      (hnoted.open_session hP (hnoted.nodeSession n sessionKey hsession) he hopen)⟩
  | decryptPrompt n m blob => exact hnoted
  | nodeRevokeMatchKey n m =>
    refine hnoted.putNode n (some ((s.nodes n).revokeMatchKey m)) fun c hc => ?_
    obtain rfl := Option.some.inj hc
    exact ⟨hnoted.nodeSession n, mem_of_pop (hnoted.nodeKey n) m⟩

/-- **No replay across matches decrypts.**  Whatever the nodes are called with, as
long as the server has emitted it: what `decrypt_prompt` makes of a blob under
match `m` is a prompt that the server encrypted into this blob for `m`. -/
theorem no_replay (hP : P.Ideal) {privateKey : NodeId → Bytes} {calls : List CryptoCall}
    (hguard : Guarded (CryptoSys.step P) (fun s call => FreshKeys P s call ∧ Replays s call)
      (boot privateKey) calls)
    (hrun : run (CryptoSys.step P) (boot privateKey) calls = some s) {n : NodeId} {m : MatchId}
    {blob : String} {prompt : String} (hblob : ∃ e ∈ s.emitted, e.blob = blob)
    (h : (s.nodes n).decryptPrompt P m (.str blob) = some prompt) :
    ⟨blob, .encryptPrompt m prompt⟩ ∈ s.emitted := by
  have hs : Unmixed P s := invariant_of_guarded (I := Unmixed P)
    (fun s call s' hs hg h => hs.step hP hg.1 hg.2 h) (unmixed_boot privateKey) hguard hrun
  obtain ⟨e, he, rfl⟩ := hblob
  obtain ⟨matchKey, hkey, hrest⟩ := Option.bind_eq_some_iff.mp h
  obtain ⟨text, htext, hrest⟩ := Option.bind_eq_some_iff.mp hrest
  obtain rfl : e.blob = text := Option.some.inj htext
  obtain ⟨data, hopen, hdata⟩ := Option.bind_eq_some_iff.mp hrest
  obtain ⟨prompt', hcall, rfl⟩ := hs.open_match hP (hs.nodeKey n m matchKey hkey) he hopen
  rw [decodeUtf8_utf8, Option.some_inj] at hdata
  subst hdata
  obtain ⟨blob, call⟩ := e
  obtain rfl : call = .encryptPrompt m prompt' := hcall
  exact he

end CryptoSys

namespace Sample

/-- The key of match `a`, wrapped for node `n`. -/
def wrappedKey : String :=
  Primitives.framed.sealBlob (Primitives.raw32 [5]) Nonce.zero [1] none

/-- A prompt of match `a`. -/
def sealedPrompt : String :=
  Primitives.framed.sealBlob [1] Nonce.zero (utf8 "go") (some (utf8 "a"))

/-- Matches `a` and `b` have keys, that of `a` is wrapped for `n`, which installs it
under both ids. -/
def replayCalls : List CryptoCall :=
  [.establishSession "n" (.str (Base64.b64encode (Primitives.raw32 [2]))) [3],
    .deriveSessionKey "n" (.str (Base64.b64encode (Primitives.raw32 [3]))),
    .generateMatchKey "a" [1], .generateMatchKey "b" [2],
    .encryptMatchKeyForNode "a" "n" Nonce.zero, .encryptPrompt "a" "go" Nonce.zero,
    .unwrapMatchKey "n" "a" wrappedKey, .unwrapMatchKey "n" "b" wrappedKey]

end Sample

namespace CryptoSys

open Sample in
/-- The prompt decrypts under `a` and not under `b`, though both ids have its key. -/
theorem no_replay_sample : ∃ s,
    run (CryptoSys.step Primitives.framed) (boot fun _ => [2]) replayCalls = some s ∧
      (s.nodes "n").matchKeys "b" = some [1] ∧
      (s.nodes "n").decryptPrompt Primitives.framed "b" (.str sealedPrompt) = none ∧
      (s.nodes "n").decryptPrompt Primitives.framed "a" (.str sealedPrompt) = some "go" ∧
      ⟨sealedPrompt, .encryptPrompt "a" "go"⟩ ∈ s.emitted := by
  obtain ⟨s, hs, h⟩ := Option.map_eq_some_iff.mp
    (show (run (CryptoSys.step Primitives.framed) (boot fun _ => [2]) replayCalls).map
        (fun s => ((s.nodes "n").matchKeys "b",
          (s.nodes "n").decryptPrompt Primitives.framed "b" (.str sealedPrompt),
          (s.nodes "n").decryptPrompt Primitives.framed "a" (.str sealedPrompt),
          s.emitted.map (·.blob)))
      = some (some [1], none, some "go", [wrappedKey, sealedPrompt]) by decide +kernel)
  simp only [Prod.mk.injEq] at h
  obtain ⟨hkey, hb, ha, hblobs⟩ := h
  refine ⟨s, hs, hkey, hb, ha, no_replay Primitives.framed_ideal (by decide +kernel) hs ?_ ha⟩
  have hmem : sealedPrompt ∈ s.emitted.map (·.blob) := by
    rw [hblobs]
    simp
  exact List.mem_map.mp hmem

end CryptoSys
