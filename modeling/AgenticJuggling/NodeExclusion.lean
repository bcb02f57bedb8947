/-
Which nodes are in two matches at once.

* `Sys.starts_exclusive` — between the `START`s of two matches to one node lies
  a `STOP` of the first, if no `start` passes its readiness check while another
  match's is about to use one of its nodes, and no node becomes `READY` in the
  middle of a match;
* `Sys.node_in_two_matches` — two starts that overlap.
-/
import AgenticJuggling.Roster
import AgenticJuggling.Sessions

open Transition

/-- The nodes a `start` past its readiness check has still to deal with. -/
def ServerTask.claim (t : ServerTask) : Option (Claim NodeId MatchId) :=
  t.pc.duty.map fun d =>
    { job := t.matchId
      pending := d.pending.map (·.nodeId)
      rest := {n | ∃ na ∈ d.rest, na.nodeId = n} }

namespace ServerTask

/-- Whether the task is past its readiness check with node `n` still to deal
with. -/
def holds (t : ServerTask) (n : NodeId) : Bool :=
  match t.pc.duty with
  | none => false
  | some d => d.pending.any (fun na => na.nodeId = n) || d.rest.any fun na => na.nodeId = n

/-- Whether the task has sent `n` the `START` of `m` and marks it `RUNNING` next. -/
def aboutToMark (t : ServerTask) (n : NodeId) (m : MatchId) : Bool :=
  match t.pc.duty with
  | none => false
  | some d => decide (t.matchId = m) && d.pending.any fun na => na.nodeId = n

theorem holds_iff {t : ServerTask} {n : NodeId} :
    t.holds n = true ↔ ∃ c, t.claim = some c ∧ c.Holds n := by
  rw [holds, claim]
  cases t.pc.duty with
  | none => simp
  | some d => cases hd : d.pending <;> simp [Claim.Holds, hd]

theorem aboutToMark_iff {t : ServerTask} {n : NodeId} {m : MatchId} :
    t.aboutToMark n m = true ↔ ∃ c, t.claim = some c ∧ c.job = m ∧ c.pending = some n := by
  rw [aboutToMark, claim]
  cases t.pc.duty with
  | none => simp
  | some d => cases hd : d.pending <;> simp [hd]

end ServerTask

namespace Sys

variable {P : Platform}

/-- The nodes as workers: those that are `READY`, the matches each one runs, and
what the starts have still to do. -/
def roster (s : Sys) : Roster NodeId MatchId TaskId where
  idle := {n | s.server.registry.stateOf n = some .ready}
  jobs n := {m | m ∈ unstopped n s.server.trace}
  claim tid := (s.tasks tid).bind ServerTask.claim

theorem claim_of_kind {t : ServerTask} (h : t.pc.OfKind t.kind) (hk : t.kind ≠ .start) :
    t.claim = none := by
  rw [ServerTask.claim, Option.map_eq_none_iff]
  cases hd : t.pc.duty with
  | none => rfl
  | some d => exact absurd (h.of_duty hd) hk

/-- No `start` is ever cancelled: its stretches end where they say. -/
theorem Sound.settle_start {s : Sys} (hs : s.Sound) {tid : TaskId} {t : ServerTask}
    (ht : s.tasks tid = some t) (hk : t.kind = .start) (w : World) :
    (settle tid t (MatchManager.resume P tid s.next s.server t w)).pc
      = (MatchManager.resume P tid s.next s.server t w).pc := by
  have hflag : t.mustCancel = false := by
    cases hm : t.mustCancel with
    | false => rfl
    | true =>
      have hauto := hs.flag tid t ht hm
      rw [hk] at hauto
      cases hauto
  have hcancels : (MatchManager.resume P tid s.next s.server t w).cancels ≠ some tid := by
    intro hc
    rcases MatchManager.resume_cancels (P := P) tid s.next s.server t w with h | h
    · rw [h] at hc
      cases hc
    · rw [h] at hc
      obtain ⟨u, hu, hauto⟩ := hs.timer _ _ hc
      obtain rfl : t = u := Option.some.inj (ht.symm.trans hu)
      rw [hk] at hauto
      cases hauto
  simp [settle, hflag, hcancels]

/-- A stretch changes the claim of its own task only. -/
theorem Sound.claim_apply {s : Sys} (hs : s.Sound) {tid : TaskId} {t : ServerTask}
    (ht : s.tasks tid = some t) (w : World) :
    (s.apply tid t (MatchManager.resume P tid s.next s.server t w)).roster.claim tid
        = ({ t with pc := (MatchManager.resume P tid s.next s.server t w).pc } :
            ServerTask).claim ∧
      ∀ tid', tid' ≠ tid →
        (s.apply tid t (MatchManager.resume P tid s.next s.server t w)).roster.claim tid'
          = s.roster.claim tid' := by
  have hkind := MatchManager.resume_ofKind (P := P) tid s.next s.server t w (hs.kind tid t ht)
  constructor
  · obtain ⟨u, hu, -⟩ := s.apply_tasks_of_some ht ht (hs.lt_next ht)
      (r := MatchManager.resume P tid s.next s.server t w)
    rcases apply_tasks hu with ⟨-, rfl⟩ | ⟨h, -⟩ | ⟨h, -⟩
    · show ((s.apply tid t _).tasks tid).bind ServerTask.claim = _
      rw [hu, Option.bind_some]
      by_cases hk : t.kind = .start
      · rw [ServerTask.claim, settle_matchId, hs.settle_start ht hk, ServerTask.claim]
      · rw [claim_of_kind (t := settle tid t _) ?_ (by rwa [settle_kind]),
          claim_of_kind (t := { t with pc := _ }) hkind hk]
        rw [settle_kind]
        rcases settle_pc tid t (MatchManager.resume P tid s.next s.server t w) with hpc | hpc
        · rw [hpc]
          exact hkind
        · rw [hpc]
          exact trivial
    · exact absurd (hs.lt_next ht) (by rw [h]; exact Nat.lt_irrefl _)
    · exact absurd rfl h
  · intro tid' hne
    show ((s.apply tid t _).tasks tid').bind _ = (s.tasks tid').bind _
    cases hold : s.tasks tid' with
    | none =>
      cases hnew : (s.apply tid t
          (MatchManager.resume P tid s.next s.server t w)).tasks tid' with
      | none => rfl
      | some u =>
        -- A task that was not there before is a timer, and claims nothing.
        rcases apply_tasks hnew with ⟨h, -⟩ | ⟨-, delay, -, rfl⟩ | ⟨-, u', hu', -⟩
        · exact absurd h hne
        · rfl
        · rw [hold] at hu'
          cases hu'
    | some u =>
      obtain ⟨u', hu', -⟩ := s.apply_tasks_of_some ht hold (hs.lt_next hold)
        (r := MatchManager.resume P tid s.next s.server t w)
      rw [hu']
      rcases apply_tasks hu' with ⟨h, -⟩ | ⟨h, -⟩ | ⟨-, u'', hu'', h⟩
      · exact absurd h hne
      · exact absurd (hs.lt_next hold) (by rw [h]; exact Nat.lt_irrefl _)
      · obtain rfl : u = u'' := Option.some.inj (hold.symm.trans hu'')
        rcases h with rfl | ⟨hcancels, rfl⟩
        · rfl
        · -- The task that is cancelled is a timer, which claims nothing.
          rcases MatchManager.resume_cancels (P := P) tid s.next s.server t w with hc | hc
          · rw [hc] at hcancels
            cases hcancels
          · rw [hc] at hcancels
            obtain ⟨v, hv, hauto⟩ := hs.timer _ _ hcancels
            obtain rfl : u = v := Option.some.inj (hold.symm.trans hv)
            have hk : u.kind ≠ .start := by
              rw [hauto]
              exact fun h => by cases h
            rw [Option.bind_some, Option.bind_some, claim_of_kind (hs.kind tid' u hold) hk,
              claim_of_kind ?_ (by rwa [cancelTask_kind])]
            rw [cancelTask_kind]
            rcases cancelTask_pc u with hpc | hpc
            · rw [hpc]
              exact hs.kind tid' u hold
            · rw [hpc]
              exact trivial

end Sys

/-! ### What a stretch does to the roster -/

/-- The node that a `REGISTER` makes `READY`: its key exchange succeeds and it is
not `RUNNING`. -/
def Server.readiedBy (P : Primitives) (s : Server) (frames : List Frame) (priv : Bytes) :
    Option NodeId := do
  let (_, payload) ← MatchManager.registerOf frames
  let kvs ← payload.asObj
  let n ← (Json.getD kvs "node_id" (.str "")).asStr
  if s.registry.authenticate n (Json.getD kvs "token" (.str "")) ∧
      (s.crypto.establishSession P n (Json.getD kvs "ecdh_pubkey" (.str "")) priv).2.isSome ∧
      s.registry.inState .running n = false then some n
  else none

/-- A `REGISTER` makes no other node `READY`. -/
theorem Server.handleRegister_ready {P : Primitives} {s : Server} {frames : List Frame}
    {identity : Bytes} {payload : Json} {priv : Bytes}
    (hframes : MatchManager.registerOf frames = some (identity, payload)) {k : NodeId}
    (h : (s.handleRegister P identity payload priv).1.registry.stateOf k = some .ready) :
    s.registry.stateOf k = some .ready ∨ s.readiedBy P frames priv = some k := by
  rcases s.handleRegister_cases identity payload priv (P := P) with
    ⟨outcome, heq⟩ | ⟨reason, heq⟩ | ⟨kvs, n, rfl, hn, hauth, -, heq⟩
  · rw [heq] at h
    exact .inl h
  · rw [heq] at h
    exact .inl h
  · rw [heq] at h
    have hstate : ∀ hostname ip, (s.registry.register n hostname ip identity).1.stateOf k
        = some .ready → s.registry.stateOf k = some .ready := by
      intro hostname ip h
      by_cases hk : k = n
      · rw [hk, NodeRegistry.register_stateOf_self] at h
        cases h
      · rwa [NodeRegistry.register_stateOf_of_ne _ hk] at h
    rcases s.acceptRegister_cases identity n (Json.getD kvs "hostname" (.str ""))
      (Json.getD kvs "ip" (.str "")) (Json.getD kvs "ecdh_pubkey" (.str "")) priv (P := P) with
      ⟨-, heq⟩ | ⟨b64, hsome, heq⟩
    · rw [heq] at h
      exact .inl (hstate _ _ h)
    · rw [heq, log_registry] at h
      dsimp only at h
      split at h
      · exact .inl (hstate _ _ h)
      · rename_i hrunning
        by_cases hk : k = n
        · refine .inr ?_
          rw [Bool.not_eq_true] at hrunning
          simp [readiedBy, hframes, Json.asObj, hn, Json.asStr, hauth, hsome, hrunning, hk]
        · rw [NodeRegistry.updateState_stateOf_of_ne _ hk] at h
          exact .inl (hstate _ _ h)

namespace Sys

variable {P : Platform}

/-- The roster of a server whose starts have these claims. -/
def rosterOf (s : Server) (claim : TaskId → Option (Claim NodeId MatchId)) :
    Roster NodeId MatchId TaskId where
  idle := {n | s.registry.stateOf n = some .ready}
  jobs n := {m | m ∈ unstopped n s.trace}
  claim := claim

theorem roster_eq (s : Sys) : s.roster = rosterOf s.server s.roster.claim := rfl

open Roster MatchManager

/-- A stretch of the loop of `_dispatch_start` gives the match to one more node,
or drops the claim of its task. -/
theorem orderly_dispatch {fresh : TaskId} {w : World} {m : MatchId} {t0 : ℚ}
    {record : MatchRecord} {s : Server} {as : List NodeAssignment} {r : Stretch}
    (h : DispatchStretch P fresh w m t0 record s as r) {tid : TaskId} {pending : Option NodeId}
    {ρ : Roster NodeId MatchId TaskId} {claim : TaskId → Option (Claim NodeId MatchId)}
    (hc : ρ.claim tid = some ⟨m, pending, {n | ∃ na ∈ as, na.nodeId = n}⟩)
    (hidle : (rosterOf s claim).idle ⊆ ρ.idle)
    (hstruck : ∀ k, pending = some k → k ∉ (rosterOf s claim).idle)
    (hjobs : (rosterOf s claim).jobs = ρ.jobs)
    (hnew : claim tid = r.pc.duty.map fun d =>
      ⟨m, d.pending.map (·.nodeId), {n | ∃ na ∈ d.rest, na.nodeId = n}⟩)
    (hother : ∀ tid', tid' ≠ tid → claim tid' = ρ.claim tid') :
    Orderly ρ (rosterOf r.server claim) := by
  -- A loop that is over gives its claim up and changes nothing else.
  have hdrop : ∀ s' : Server, s'.registry = s.registry → s'.trace = s.trace → claim tid = none →
      Orderly ρ (rosterOf s' claim) := by
    intro s' hreg htrace hnone
    have heq : rosterOf s' claim = rosterOf s claim := by
      rw [rosterOf, hreg, htrace]
      rfl
    rw [heq]
    refine .shrink hidle (fun n => (congrFun hjobs n).subset) (.of_own (.inl hnone) hother ?_)
    intro _ c n hc' hpending
    obtain rfl := Option.some.inj (hc.symm.trans hc')
    exact hstruck n hpending
  cases h with
  | ended hskip => exact hdrop _ rfl rfl hnew
  | sent skipped na rest identity payload has hskip hsent =>
    obtain ⟨k, encryptedSchedule, encryptedMatchKey, -, -, rfl⟩ := hsent.payload
    -- The node that is sent to takes the job; the claim keeps the nodes behind it.
    refine .give tid _ na.nodeId {n | ∃ na' ∈ rest, na'.nodeId = n} hc hidle hstruck ?_ ?_ ?_ hnew
      hother
    · exact ⟨na, by rw [has]; simp, rfl⟩
    · rintro n ⟨na', hna', rfl⟩
      exact ⟨na', by rw [has]; simp [hna'], rfl⟩
    · intro n m' hm'
      have hm' : m' ∈ unstopped n (s.trace ++ [_]) := hm'
      rw [unstopped_concat, Event.mem_track] at hm'
      rcases hm' with hstart | ⟨hold, -⟩
      · obtain ⟨rfl, -, hmatch⟩ := of_decide_eq_true hstart
        rw [Event.matchOf_startPayload, Option.some_inj] at hmatch
        exact .inr ⟨rfl, hmatch.symm⟩
      · exact .inl ((congrFun hjobs n).subset hold)
  | failed e => exact hdrop _ rfl rfl hnew

/-- A stretch of the loop of `stop` leaves the nodes' states alone and adds no
match to any. -/
theorem jobs_stop {tid : TaskId} {w : World} {m : MatchId} {s : Server}
    {as : List NodeAssignment} {r : Stretch} (h : StopStretch tid w m s as r) (n : NodeId)
    {m' : MatchId} (hm' : m' ∈ unstopped n r.server.trace) : m' ∈ unstopped n s.trace := by
  cases h with
  | ended hskip =>
    obtain ⟨es, htrace, hes⟩ := (quiet_updateState tid w
      { s with crypto := s.crypto.revokeMatchKey m } m .finished none (.wrote .matchDb .returned)).trace
    rw [htrace, unstopped_append_of_track fun e he running => Event.track_of_isRow (hes e he)] at hm'
    exact hm'
  | sent skipped na rest identity has hskip hidentity =>
    have hm' : m' ∈ unstopped n (s.trace ++ [_]) := hm'
    rw [unstopped_concat, Event.mem_track] at hm'
    rcases hm' with hstart | ⟨hold, -⟩
    · obtain ⟨-, hstop, -⟩ := of_decide_eq_true hstart
      cases hstop
    · exact hold
  | failed hreach hok => exact hm'

/-! ### Orderly steps -/

/-- The match and the assignments of a `start` whose readiness check is about to
succeed. -/
def launches (s : Sys) : Act → Option (MatchId × List NodeAssignment)
  | .call _ => none
  | .run tid _ => do
    let t ← s.tasks tid
    let as ← t.pc.awaited
    if missing s.server as = [] then some (t.matchId, as) else none

/-- The node a step makes `READY`: by the mark that follows a `STOP`, or by a
`REGISTER`. -/
def readies (P : Platform) (s : Sys) : Act → Option NodeId
  | .call _ => none
  | .run tid w => do
    let t ← s.tasks tid
    match t.pc with
    | .stopSent na _ => some na.nodeId
    | .received frames => s.server.readiedBy P.toPrimitives frames w.priv
    | _ => none

/-- No readiness check succeeds while the `start` of another match has one of
the nodes still to deal with. -/
def LaunchGuard (s : Sys) (a : Act) : Prop :=
  ∀ launch ∈ s.launches a, ∀ na ∈ launch.2, ∀ tid < s.next, ∀ t ∈ s.tasks tid,
    t.matchId = launch.1 ∨ t.holds na.nodeId = false

/-- No node becomes `READY` in the middle of a match, except where the match's
`start` is about to mark it `RUNNING`. -/
def ReadyGuard (P : Platform) (s : Sys) (a : Act) : Prop :=
  ∀ n ∈ s.readies P a, ∀ m ∈ unstopped n s.server.trace,
    ∃ tid < s.next, ∃ t ∈ s.tasks tid, t.aboutToMark n m = true

instance (s : Sys) (a : Act) : Decidable (LaunchGuard s a) := by
  unfold LaunchGuard
  infer_instance

instance (s : Sys) (a : Act) : Decidable (ReadyGuard P s a) := by
  unfold ReadyGuard
  infer_instance

theorem ReadyGuard.aboutToStrike {s : Sys} {a : Act} (h : ReadyGuard P s a) {n : NodeId}
    (hn : s.readies P a = some n) : ∀ m ∈ s.roster.jobs n, s.roster.AboutToStrike n m := by
  intro m hm
  obtain ⟨tid, -, t, ht, hmark⟩ := h n hn m hm
  obtain ⟨c, hc, hjob, hpending⟩ := ServerTask.aboutToMark_iff.mp hmark
  refine ⟨tid, c, ?_, hjob, hpending⟩
  show (s.tasks tid).bind ServerTask.claim = some c
  rw [show s.tasks tid = some t from ht]
  exact hc

/-- Past its readiness check a `start` finds all its nodes `READY`. -/
theorem ready_of_missing {s : Server} {as : List NodeAssignment} (h : missing s as = [])
    {na : NodeAssignment} (hna : na ∈ as) : s.registry.stateOf na.nodeId = some .ready := by
  have hmem : na.nodeId ∈ (as.map (·.nodeId)).dedup :=
    List.mem_dedup.mpr (List.mem_map_of_mem hna)
  have hready := List.filter_eq_nil_iff.mp h na.nodeId hmem
  rw [Bool.not_eq_true', Bool.not_eq_false] at hready
  exact NodeRegistry.inState_iff.mp hready

/-- The mark that follows a `START` strikes its node off. -/
theorem stateOf_mark_running {s : Server} {k n : NodeId}
    (h : (s.mark k .running).registry.stateOf n = some .ready) :
    n ≠ k ∧ s.registry.stateOf n = some .ready := by
  rw [Server.mark_registry, NodeRegistry.updateState_stateOf] at h
  by_cases hn : n = k
  · rw [if_pos hn] at h
    obtain ⟨old, -, h⟩ := Option.map_eq_some_iff.mp h
    cases h
  · rw [if_neg hn] at h
    exact ⟨hn, h⟩

theorem pending_of_not_sending {t : ServerTask} (h : t.pc.sending = false)
    {c : Claim NodeId MatchId} (hc : t.claim = some c) : c.pending = none := by
  obtain ⟨d, hd, rfl⟩ := Option.map_eq_some_iff.mp hc
  cases hpc : t.pc with
  | startSent t0 record na rest =>
    rw [hpc] at h
    cases h
  | runningWrote t0 record as =>
    rw [hpc] at hd
    rw [← Option.some.inj hd]
    rfl
  | runningCommit t0 record as =>
    rw [hpc] at hd
    rw [← Option.some.inj hd]
    rfl
  | _ =>
    rw [hpc] at hd
    cases hd

/-- A stretch that only talks to the database adds nothing to the roster. -/
theorem orderly_quiet {s : Server} {r : Stretch} (hquiet : Quiet s r)
    {claim claim' : TaskId → Option (Claim NodeId MatchId)}
    (hclaim : WorkedOff (rosterOf s claim) (rosterOf r.server claim')) :
    Orderly (rosterOf s claim) (rosterOf r.server claim') := by
  obtain ⟨es, htrace, hes⟩ := hquiet.trace
  refine .shrink (fun n hn => ?_) (fun n m hm => ?_) hclaim
  · have hn : r.server.registry.stateOf n = some .ready := hn
    rwa [hquiet.registry] at hn
  · have hm : m ∈ unstopped n r.server.trace := hm
    rwa [htrace, unstopped_append_of_track
      fun e he running => Event.track_of_isRow (hes e he)] at hm

theorem orderly_register {s : Server} {frames : List Frame} {identity : Bytes} {payload : Json}
    {priv : Bytes} (hframes : registerOf frames = some (identity, payload))
    {claim : TaskId → Option (Claim NodeId MatchId)}
    (hready : ∀ n, s.readiedBy P.toPrimitives frames priv = some n →
      ∀ m ∈ (rosterOf s claim).jobs n, (rosterOf s claim).AboutToStrike n m) :
    Orderly (rosterOf s claim)
      (rosterOf (s.handleRegister P.toPrimitives identity payload priv).1 claim) := by
  obtain ⟨es, htrace, hes⟩ := (s.handleRegister_frame identity payload priv
      (P := P.toPrimitives)).trace
  have hjobs : ∀ n, (rosterOf (s.handleRegister P.toPrimitives identity payload priv).1 claim).jobs n
      ⊆ (rosterOf s claim).jobs n := by
    intro n m hm
    have hm : m ∈ unstopped n (s.handleRegister P.toPrimitives identity payload priv).1.trace := hm
    rwa [htrace, unstopped_append_of_track
      fun e he running => Event.track_of_isReply (hes e he)] at hm
  cases hby : s.readiedBy P.toPrimitives frames priv with
  | none =>
    refine .shrink (fun n hn => ?_) hjobs (.of_eq rfl)
    refine (Server.handleRegister_ready hframes hn).resolve_right ?_
    rw [hby]
    exact fun h => by cases h
  | some k =>
    refine .ready k (fun n hn => ?_) hjobs rfl (hready k hby)
    rcases Server.handleRegister_ready hframes hn with h | h
    · exact .inr h
    · exact .inl (Option.some.inj (h.symm.trans hby))

/-- A `start` that passes its readiness check takes idle nodes. -/
theorem orderly_launch {s : Server} {r : Stretch} (hquiet : Quiet s r) {m : MatchId}
    {as : List NodeAssignment} (hmissing : missing s as = []) {tid : TaskId}
    {claim claim' : TaskId → Option (Claim NodeId MatchId)}
    (hold : ∀ c, claim tid = some c → c.pending = none)
    (hnew : claim' tid = some ⟨m, none, {n | ∃ na ∈ as, na.nodeId = n}⟩)
    (hother : ∀ tid', tid' ≠ tid → claim' tid' = claim tid')
    (hfree : ∀ tid' c, claim tid' = some c → c.job ≠ m → ∀ na ∈ as, ¬ c.Holds na.nodeId) :
    Orderly (rosterOf s claim) (rosterOf r.server claim') := by
  obtain ⟨es, htrace, hes⟩ := hquiet.trace
  have hjobs : (rosterOf r.server claim').jobs = (rosterOf s claim).jobs := by
    funext n
    show {m | m ∈ unstopped n r.server.trace} = _
    rw [htrace, unstopped_append_of_track fun e he running => Event.track_of_isRow (hes e he)]
    rfl
  have hidle : (rosterOf r.server claim').idle = (rosterOf s claim).idle := by
    show {n | r.server.registry.stateOf n = some .ready} = _
    rw [hquiet.registry]
    rfl
  refine .launch tid m _ hidle hjobs hold hnew hother ?_ ?_
  · rintro n ⟨na, hna, rfl⟩
    exact ready_of_missing hmissing hna
  · rintro tid' c hc hjob n ⟨na, hna, rfl⟩
    exact hfree tid' c hc hjob na hna

/-- The guard excludes the starts of other matches. -/
theorem LaunchGuard.free {s : Sys} {a : Act} (h : LaunchGuard s a) (hs : s.Sound) {m : MatchId}
    {as : List NodeAssignment} (hl : s.launches a = some (m, as)) {tid : TaskId}
    {c : Claim NodeId MatchId} (hc : s.roster.claim tid = some c) (hjob : c.job ≠ m)
    {na : NodeAssignment} (hna : na ∈ as) : ¬ c.Holds na.nodeId := by
  intro hholds
  obtain ⟨t, ht, hclaim⟩ := Option.bind_eq_some_iff.mp hc
  have hmatch : t.matchId = c.job := by
    obtain ⟨d, -, rfl⟩ := Option.map_eq_some_iff.mp hclaim
    rfl
  rcases h _ hl na hna tid (hs.lt_next ht) t ht with h | h
  · exact hjob (hmatch.symm.trans h)
  · rw [ServerTask.holds_iff.mpr ⟨c, hclaim, hholds⟩] at h
    cases h

/-- A call creates a task that claims nothing. -/
theorem orderly_call {s : Sys} (hs : s.Sound) (c : Call) : Orderly s.roster
    ({ s with tasks := s.tasks.set s.next c.task, next := s.next + 1 } : Sys).roster := by
  refine .shrink subset_rfl (fun n => subset_rfl) (.of_eq ?_)
  funext tid
  show ((s.tasks.set s.next c.task) tid).bind ServerTask.claim = (s.tasks tid).bind ServerTask.claim
  by_cases hn : tid = s.next
  · rw [hn, Dict.set_self, hs.fresh s.next (Nat.le_refl _)]
    cases c <;> rfl
  · rw [Dict.set_of_ne _ hn]

/-- **A step under the two guards is orderly.** -/
theorem orderly_step {s s' : Sys} {a : Act} (hs : s.Sound) (hlaunch : LaunchGuard s a)
    (hready : ReadyGuard P s a) (h : step P s a = some s') : Orderly s.roster s'.roster := by
  rcases step_cases h with ⟨c, -, rfl⟩ | ⟨tid, w, t, rfl, ht, -, rfl⟩
  · exact orderly_call hs c
  obtain ⟨hnew, hother⟩ := hs.claim_apply (P := P) ht w
  have hold : s.roster.claim tid = t.claim := by
    show (s.tasks tid).bind _ = _
    rw [ht]
    rfl
  have hkind := resume_ofKind (P := P) tid s.next s.server t w (hs.kind tid t ht)
  rw [roster_eq (s.apply tid t _), apply_server]
  generalize (s.apply tid t (resume P tid s.next s.server t w)).roster.claim = claim
    at hnew hother
  -- A task that is no `start` has no claim, before or after.
  have hsame : ¬ t.pc.OfKind .start → claim = s.roster.claim := by
    intro hnot
    have hk : t.kind ≠ .start := fun hk => hnot (hk ▸ hs.kind tid t ht)
    funext tid'
    by_cases hid : tid' = tid
    · rw [hid, hnew, hold, claim_of_kind (hs.kind tid t ht) hk,
        claim_of_kind (t := { t with pc := _ }) hkind hk]
    · exact hother tid' hid
  by_cases hsend : t.pc.sending = true
  · cases hpc : t.pc with
    | startSent t0 record na rest =>
      have hloop : DispatchStretch P s.next w t.matchId t0 record
          (s.server.mark na.nodeId .running) rest (resume P tid s.next s.server t w) := by
        rw [resume, hpc]
        exact dispatchLoop_stretch ..
      have hc : s.roster.claim tid = some ⟨t.matchId, some na.nodeId,
          {n | ∃ na ∈ rest, na.nodeId = n}⟩ := by
        rw [hold, ServerTask.claim, hpc]
        rfl
      refine orderly_dispatch hloop hc (fun n hn => (stateOf_mark_running hn).2) ?_ ?_ hnew hother
      · rintro k hk hn
        exact (stateOf_mark_running hn).1 (Option.some.inj hk).symm
      · funext n
        show {m | m ∈ unstopped n (s.server.mark _ _).trace} = _
        rw [unstopped_mark]
        rfl
    | _ =>
      rw [hpc] at hsend
      cases hsend
  rw [Bool.not_eq_true] at hsend
  have hpending : ∀ c, s.roster.claim tid = some c → c.pending = none := by
    intro c hc
    rw [hold] at hc
    exact pending_of_not_sending hsend hc
  have hstretch := resume_stretch (P := P) tid s.next s.server t w
  generalize resume P tid s.next s.server t w = r at hstretch hnew
  cases hstretch with
  | quiet _ hquiet hduty _ =>
    refine orderly_quiet hquiet (.of_own ?_ hother fun _ c n hc hp => ?_)
    · show claim tid = none ∨ claim tid = s.roster.claim tid
      rw [hnew, hold]
      rcases hduty with h | h
      · exact .inl (by rw [ServerTask.claim, h]; rfl)
      · exact .inr (by rw [ServerTask.claim, h]; rfl)
    · rw [hpending c hc] at hp
      cases hp
  | register frames identity payload hpc hframes =>
    rw [hsame (by rw [hpc]; exact fun h => by cases h)]
    refine orderly_register hframes fun n hn => hready.aboutToStrike ?_
    simp [readies, ht, hpc, hn]
  | launch _ t0 record as hpc hmissing hquiet hr =>
    have hlaunches : s.launches (.run tid w) = some (t.matchId, as) := by
      simp [launches, ht, hpc, hmissing]
    refine orderly_launch hquiet hmissing hpending ?_ hother fun tid' c hc hjob na hna =>
      hlaunch.free hs hlaunches hc hjob hna
    rw [hnew, ServerTask.claim, hr]
    rfl
  | begin _ t0 record as hpc hkey hr =>
    have hc : s.roster.claim tid = some ⟨t.matchId, none, {n | ∃ na ∈ as, na.nodeId = n}⟩ := by
      rw [hold, ServerTask.claim, hpc]
      rfl
    exact orderly_dispatch hr hc subset_rfl (fun k hk => by cases hk) rfl hnew hother
  | next _ t0 record na rest hpc hr =>
    rw [hpc] at hsend
    cases hsend
  | stopBegin r record as hpc hstate has hr =>
    rw [hsame (by rw [hpc]; simp [Pc.OfKind])]
    refine .shrink (fun n hn => ?_) (fun n m hm => jobs_stop hr n hm) (.of_eq rfl)
    have hn : r.server.registry.stateOf n = some .ready := hn
    rwa [hr.frame.1] at hn
  | stopMalformed record hpc =>
    rw [hsame (by rw [hpc]; simp [Pc.OfKind])]
    exact .shrink subset_rfl (fun n => subset_rfl) (.of_eq rfl)
  | stopNext _ na rest hpc hr =>
    rw [hsame (by rw [hpc]; simp [Pc.OfKind])]
    refine .ready na.nodeId (fun n hn => ?_) (fun n m hm => ?_) rfl
      (hready.aboutToStrike (by simp [readies, ht, hpc]))
    · have hn : r.server.registry.stateOf n = some .ready := hn
      rw [hr.frame.1, Server.mark_registry] at hn
      by_cases hk : n = na.nodeId
      · exact .inl hk
      · rw [NodeRegistry.updateState_stateOf_of_ne _ hk] at hn
        exact .inr hn
    · have hm := jobs_stop hr n hm
      rwa [unstopped_mark] at hm

/-! ### The messages of a run -/

/-- Every `START` goes to a node that runs no other match. -/
def StartsAlone (trace : List Event) : Prop :=
  Past (fun pre e => ∀ n m', e.isSent .start n m' = true → ∀ m ∈ unstopped n pre, m = m') trace

theorem startsAlone_of_silent {trace es : List Event} (h : StartsAlone trace)
    (hes : ∀ e ∈ es, ∀ n m, e.isSent .start n m = false) : StartsAlone (trace ++ es) := by
  refine past_append.mpr ⟨h, ?_⟩
  rintro pre e post rfl n m' he
  rw [hes e (by simp) n m'] at he
  cases he

theorem not_isSent_of_isRow {e : Event} (h : e.isRow = true) (msgType : MsgType) (n : NodeId)
    (m : MatchId) : e.isSent msgType n m = false := by
  cases e with
  | rowWritten tid matchId state t0 => rfl
  | _ => cases h

theorem not_isSent_of_isReply {e : Event} (h : e.isReply = true) (msgType : MsgType) (n : NodeId)
    (m : MatchId) : e.isSent msgType n m = false := by
  cases e with
  | registered nodeId identity pk reply => rfl
  | rejected identity reason => rfl
  | _ => cases h

theorem startsAlone_mark {s : Server} (h : StartsAlone s.trace) (n : NodeId) (st : NodeState) :
    StartsAlone (s.mark n st).trace :=
  startsAlone_of_silent h fun e he n' m => by
    rw [List.mem_singleton.mp he]
    rfl

theorem startsAlone_quiet {s : Server} {r : Stretch} (h : StartsAlone s.trace)
    (hquiet : Quiet s r) : StartsAlone r.server.trace := by
  obtain ⟨es, htrace, hes⟩ := hquiet.trace
  rw [htrace]
  exact startsAlone_of_silent h fun e he n m => not_isSent_of_isRow (hes e he) _ n m

theorem startsAlone_dispatch {fresh : TaskId} {w : World} {m : MatchId} {t0 : ℚ}
    {record : MatchRecord} {s : Server} {as : List NodeAssignment} {r : Stretch}
    (h : DispatchStretch P fresh w m t0 record s as r) (hs : StartsAlone s.trace)
    (halone : ∀ na ∈ as, ∀ m' ∈ unstopped na.nodeId s.trace, m' = m) :
    StartsAlone r.server.trace := by
  cases h with
  | ended hskip => exact hs
  | sent skipped na rest identity payload has hskip hsent =>
    obtain ⟨k, encryptedSchedule, encryptedMatchKey, -, -, rfl⟩ := hsent.payload
    refine past_append.mpr ⟨hs, fun pre e post heq n m' he m'' hm'' => ?_⟩
    -- The one new event is the `START`.
    obtain ⟨rfl, hcons⟩ : pre = [] ∧ _ = e :: post := by
      cases pre with
      | nil => exact ⟨rfl, heq⟩
      | cons x pre => simp at heq
    rw [← (List.cons.inj hcons).1] at he
    obtain ⟨rfl, -, hmatch⟩ := of_decide_eq_true he
    rw [Event.matchOf_startPayload, Option.some_inj] at hmatch
    rw [List.append_nil] at hm''
    rw [← hmatch]
    exact halone na (by rw [has]; simp) m'' hm''
  | failed e => exact hs

theorem startsAlone_stop {tid : TaskId} {w : World} {m : MatchId} {s : Server}
    {as : List NodeAssignment} {r : Stretch} (h : StopStretch tid w m s as r)
    (hs : StartsAlone s.trace) : StartsAlone r.server.trace := by
  cases h with
  | ended hskip =>
    have hs' : StartsAlone ({ s with crypto := s.crypto.revokeMatchKey m } : Server).trace := hs
    exact startsAlone_quiet hs' (quiet_updateState tid w
      { s with crypto := s.crypto.revokeMatchKey m } m .finished none (.wrote .matchDb .returned))
  | sent skipped na rest identity has hskip hidentity =>
    refine startsAlone_of_silent hs fun e he n m' => ?_
    rw [List.mem_singleton.mp he]
    simp [Event.isSent]
  | failed hreach hok => exact hs

/-- In an exclusive roster a step starts no match on a node that runs another. -/
theorem startsAlone_step {s s' : Sys} {a : Act} (hs : StartsAlone s.server.trace)
    (hexclusive : s.roster.Exclusive) (h : step P s a = some s') :
    StartsAlone s'.server.trace := by
  rcases step_cases h with ⟨c, -, rfl⟩ | ⟨tid, w, t, -, ht, -, rfl⟩
  · exact hs
  rw [apply_server]
  have halone : ∀ d, t.pc.duty = some d → ∀ na ∈ d.rest,
      ∀ m ∈ unstopped na.nodeId s.server.trace, m = t.matchId := by
    intro d hd na hna m hm
    refine hexclusive.alone (t := tid) ?_ (show na.nodeId ∈ {n | ∃ na ∈ d.rest, na.nodeId = n} from
      ⟨na, hna, rfl⟩) hm (c := ⟨t.matchId, d.pending.map (·.nodeId), _⟩)
    show (s.tasks tid).bind _ = _
    rw [ht, Option.bind_some, ServerTask.claim, hd]
    rfl
  have hstretch := resume_stretch (P := P) tid s.next s.server t w
  generalize resume P tid s.next s.server t w = r at hstretch
  cases hstretch with
  | quiet _ hquiet hduty hkind => exact startsAlone_quiet hs hquiet
  | register frames identity payload hpc hframes =>
    obtain ⟨es, htrace, hes⟩ := (s.server.handleRegister_frame identity payload w.priv
      (P := P.toPrimitives)).trace
    show StartsAlone (s.server.handleRegister P.toPrimitives identity payload w.priv).1.trace
    rw [htrace]
    exact startsAlone_of_silent hs fun e he n m => not_isSent_of_isReply (hes e he) _ n m
  | launch _ t0 record as hpc hready hquiet hr => exact startsAlone_quiet hs hquiet
  | begin _ t0 record as hpc hkey hr =>
    exact startsAlone_dispatch hr hs (halone ⟨none, as⟩ (by rw [hpc]; rfl))
  | next _ t0 record na rest hpc hr =>
    refine startsAlone_dispatch hr (startsAlone_mark hs _ _) fun na' hna' m hm => ?_
    rw [unstopped_mark] at hm
    exact halone ⟨some na, rest⟩ (by rw [hpc]; rfl) na' hna' m hm
  | stopBegin r record as hpc hstate has hr =>
    exact startsAlone_stop (r := r) hr hs
  | stopMalformed record hpc => exact hs
  | stopNext _ na rest hpc hr => exact startsAlone_stop hr (startsAlone_mark hs _ _)

theorem exclusive_boot (tokens : Dict NodeId String) (rows : Dict MatchId MatchRecord)
    (metrics : MetricsStore) : (boot tokens rows metrics).roster.Exclusive where
  idle _ hn := by cases hn
  rest _ c hc := by cases hc
  single _ _ c _ hc := by cases hc

theorem startsAlone_boot (tokens : Dict NodeId String) (rows : Dict MatchId MatchRecord)
    (metrics : MetricsStore) : StartsAlone (boot tokens rows metrics).server.trace :=
  past_nil

/-- **Between the `START`s of two matches to one node lies a `STOP` of the
first**, in every run in which no readiness check succeeds while the `start` of
another match has one of the nodes still to deal with, and no node becomes
`READY` in the middle of a match. -/
theorem starts_exclusive {tokens : Dict NodeId String} {rows : Dict MatchId MatchRecord}
    {metrics : MetricsStore} {acts : List Act} {s : Sys}
    (hrun : run (step P) (boot tokens rows metrics) acts = some s)
    (hguard : Guarded (step P) (fun s a => LaunchGuard s a ∧ ReadyGuard P s a)
      (boot tokens rows metrics) acts)
    {pre mid post : List Event} {e e' : Event} {n : NodeId} {m m' : MatchId}
    (htrace : s.server.trace = (pre ++ e :: mid) ++ e' :: post)
    (he : e.isSent .start n m = true) (he' : e'.isSent .start n m' = true) (hm : m ≠ m') :
    ∃ x ∈ mid, x.isSent .stop n m = true := by
  have hinv : s.Sound ∧ s.roster.Exclusive ∧ StartsAlone s.server.trace := by
    refine invariant_of_guarded
      (I := fun s => s.Sound ∧ s.roster.Exclusive ∧ StartsAlone s.server.trace)
      ?_ ⟨sound_boot .., exclusive_boot .., startsAlone_boot tokens rows metrics⟩ hguard hrun
    rintro s a s' ⟨hsound, hexclusive, halone⟩ ⟨hlaunch, hready⟩ hstep
    exact ⟨hsound.step hstep, hexclusive.step (orderly_step hsound hlaunch hready hstep),
      startsAlone_step halone hexclusive hstep⟩
  by_contra hnone
  push Not at hnone
  refine hm (hinv.2.2 _ e' post htrace n m' he' m ?_)
  exact mem_unstopped_iff.mpr ⟨pre, e, mid, rfl, he, fun x hx => by simpa using hnone x hx⟩

/-- Two events of a trace, found by the values of a function on it. -/
theorem exists_events {β : Type} {f : Event → β} {trace : List Event} {as bs cs : List β} {b c : β}
    (h : trace.map f = (as ++ b :: bs) ++ c :: cs) :
    ∃ pre e mid e' post, trace = (pre ++ e :: mid) ++ e' :: post ∧ f e = b ∧ f e' = c ∧
      mid.map f = bs := by
  obtain ⟨l, l', rfl, hl, hl'⟩ := List.map_eq_append_iff.mp h
  obtain ⟨pre, l, rfl, -, hl⟩ := List.map_eq_append_iff.mp hl
  obtain ⟨e, mid, rfl, he, hmid⟩ := List.map_eq_cons_iff.mp hl
  obtain ⟨e', post, rfl, he', -⟩ := List.map_eq_cons_iff.mp hl'
  exact ⟨pre, e, mid, e', post, rfl, he, he', hmid⟩

open Sample in
/-- `m` runs on `n` and is stopped; then `m'` is started on `n`. -/
def oneAfterTheOther : List Act :=
  [register "n" [1]] ++ runs 0 1 0 ++ [.call (.start "m" 30)] ++ runs 1 7 5 ++
    [.call (.stop "m")] ++ runs 3 5 6 ++ [.call (.start "m'" 30)] ++ runs 4 7 8

theorem starts_exclusive_oneAfterTheOther : ∃ s pre e mid e' post,
    run (step Sample.platform) (Sample.boot [("m", ["n"]), ("m'", ["n"])]) oneAfterTheOther
        = some s ∧
      s.server.trace = (pre ++ e :: mid) ++ e' :: post ∧ e.isSent .start "n" "m" = true ∧
      e'.isSent .start "n" "m'" = true ∧ ∃ x ∈ mid, x.isSent .stop "n" "m" = true := by
  obtain ⟨s, hs, h⟩ := Option.map_eq_some_iff.mp
    (show (run (step Sample.platform) (Sample.boot [("m", ["n"]), ("m'", ["n"])])
        oneAfterTheOther).map (fun s => s.server.trace.map
          fun e => (e.isSent .start "n" "m", e.isSent .start "n" "m'"))
      = some ((List.replicate 3 (false, false) ++ (true, false) :: List.replicate 6 (false, false))
          ++ (false, true) :: [(false, false)]) by decide +kernel)
  obtain ⟨pre, e, mid, e', post, htrace, he, he', -⟩ := exists_events h
  obtain ⟨he, -⟩ := Prod.mk.inj he
  obtain ⟨-, he'⟩ := Prod.mk.inj he'
  exact ⟨s, pre, e, mid, e', post, hs, htrace, he, he',
    starts_exclusive hs (by decide +kernel) htrace he he' (by decide)⟩

open Sample in
/-- Both starts find `n` `READY` before either has marked it `RUNNING`. -/
def twoReady : List Act :=
  [register "n" [1]] ++ runs 0 1 0 ++ [.call (.start "m" 30), .call (.start "m'" 30)] ++
    runs 1 4 5 ++ runs 2 4 5 ++ runs 1 3 6 ++ runs 2 3 6

theorem node_in_two_matches : ∃ acts s pre e mid e' post,
    run (step Sample.platform) (Sample.boot [("m", ["n"]), ("m'", ["n"])]) acts = some s ∧
      s.server.trace = (pre ++ e :: mid) ++ e' :: post ∧ e.isSent .start "n" "m" = true ∧
      e'.isSent .start "n" "m'" = true ∧ ∀ x ∈ mid, x.isSent .stop "n" "m" = false := by
  obtain ⟨s, hs, h⟩ := Option.map_eq_some_iff.mp
    (show (run (step Sample.platform) (Sample.boot [("m", ["n"]), ("m'", ["n"])]) twoReady).map
        (fun s => s.server.trace.map fun e =>
          (e.isSent .start "n" "m", e.isSent .start "n" "m'", e.isSent .stop "n" "m"))
      = some ((List.replicate 5 (false, false, false) ++ (true, false, false) ::
          [(false, false, false)]) ++ (false, true, false) :: [(false, false, false)]) by
        decide +kernel)
  obtain ⟨pre, e, mid, e', post, htrace, he, he', hmid⟩ := exists_events h
  refine ⟨_, s, pre, e, mid, e', post, hs, htrace, (Prod.mk.inj he).1,
    (Prod.mk.inj (Prod.mk.inj he').2).1, fun x hx => ?_⟩
  have hx := List.mem_map_of_mem (f := fun e : Event =>
    (e.isSent .start "n" "m", e.isSent .start "n" "m'", e.isSent .stop "n" "m")) hx
  rw [hmid, List.mem_singleton] at hx
  exact (Prod.mk.inj (Prod.mk.inj hx).2).2

end Sys
