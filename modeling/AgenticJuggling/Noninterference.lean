/-
Matches that share no node do not interfere.

All matches share the store, the registry, the key tables, the timers and the
router.  Take any run on match `m` and on matches with other nodes, interleaved
with any `REGISTER`s, and leave out of it all that is not an operation on `m` or a
`REGISTER` of one of its nodes.  What is left is a run again, with its task ids
renamed, and shows the same of `m`.

* `Mirrors` — the run that is left is in the same place;
* `Sys.noninterference` — the theorem for whole runs.
-/
import AgenticJuggling.Correspondence

open Transition

namespace MatchManager

variable {P : Platform}

theorem MessageStretch.frames {s : Server} {w : World} {pc : Pc} {r : Stretch}
    (h : MessageStretch P s w pc r) : r.pc.frames = none := by
  cases h <;> rfl

/-- The task of a message handles it in its first stretch. -/
theorem resume_frames (tid fresh : TaskId) (s : Server) (t : ServerTask) (w : World)
    (hkind : t.pc.OfKind .dispatch) : (resume P tid fresh s t w).pc.frames = none := by
  obtain ⟨kind, m, pc, mustCancel⟩ := t
  cases pc with
  | received frames => exact (dispatch_message (P := P) (s := s) (w := w) frames).frames
  | metricsGet n kvs record =>
    exact (ingestMetric_message (P := P) (s := s) (w := w) n kvs record).frames
  | hookGet n kvs record =>
    exact (ingestHook_message (P := P) (s := s) (w := w) n kvs record).frames
  | wrote db outcome =>
    show (commit w s db (.committing outcome)).pc.frames = none
    rcases commit_pc w s db (.committing outcome) with h | h
    · rw [h]
      rfl
    · rw [h]
      rfl
  | committing outcome => rfl
  | done outcome => rfl
  | stopGet record => rcases hkind with h | h <;> cases h
  | stopSent na rest => rcases hkind with h | h <;> cases h
  | _ => cases hkind

end MatchManager

/-! ### What belongs to a match -/

/-- The task is an operation on match `m`, or has yet to handle a `REGISTER` of one
of the nodes `N`. -/
def ServerTask.belongs (m : MatchId) (N : List NodeId) (t : ServerTask) : Bool :=
  if t.kind = .dispatch then (t.pc.frames.bind registerNode).any (· ∈ N)
  else decide (t.matchId = m)

theorem ServerTask.belongs_of_dispatch {m : MatchId} {N : List NodeId} {t : ServerTask}
    (hkind : t.kind = .dispatch) : t.belongs m N = true ↔
      ∃ frames n, t.pc.frames = some frames ∧ registerNode frames = some n ∧ n ∈ N := by
  rw [belongs, if_pos hkind, Option.any_eq_true]
  simp only [Option.bind_eq_some_iff, decide_eq_true_eq]
  constructor
  · rintro ⟨n, ⟨frames, hframes, hn⟩, hmem⟩
    exact ⟨frames, n, hframes, hn, hmem⟩
  · rintro ⟨frames, n, hframes, hn, hmem⟩
    exact ⟨n, ⟨frames, hframes, hn⟩, hmem⟩

theorem ServerTask.belongs_of_ne {m : MatchId} {N : List NodeId} {t : ServerTask}
    (hkind : t.kind ≠ .dispatch) : t.belongs m N = true ↔ t.matchId = m := by
  rw [belongs, if_neg hkind, decide_eq_true_eq]

/-- A task that is not of `m` becomes none by stopping. -/
theorem ServerTask.belongs_of_done {m : MatchId} {N : List NodeId} {t t' : ServerTask}
    (hkind : t'.kind = t.kind) (hmatch : t'.matchId = t.matchId)
    (hframes : t.kind = .dispatch → t'.pc.frames = none) (h : t'.belongs m N = true) :
    t.belongs m N = true := by
  by_cases hd : t.kind = .dispatch
  · obtain ⟨frames, n, hsome, -⟩ := (belongs_of_dispatch (hkind.trans hd)).mp h
    rw [hframes hd] at hsome
    cases hsome
  · rw [belongs_of_ne (hkind ▸ hd)] at h
    exact (belongs_of_ne hd).mpr (hmatch ▸ h)

/-- The act with its task renamed. -/
def Act.rename (ρ : TaskId → TaskId) : Act → Act
  | .call c => .call c
  | .run tid w => .run (ρ tid) w

namespace Sys

variable {P : Platform}

open MatchManager

/-- Whether a step is one of match `m`, whose nodes are `N`. -/
def belongs (m : MatchId) (N : List NodeId) (s : Sys) : Act → Bool
  | .call c => c.task.belongs m N
  | .run tid _ => (s.tasks tid).any (·.belongs m N)

/-- The acts of a run that belong to match `m`, in order. -/
def own (P : Platform) (m : MatchId) (N : List NodeId) (s : Sys) (acts : List Act) : List Act :=
  observed (step P) (fun s a => if s.belongs m N a then [a] else []) s acts

/-- The messages of a step for the nodes `N` of match `m`: those sent to them, and
the reply to a `REGISTER` of one of them. -/
def messages (P : Platform) (m : MatchId) (N : List NodeId) (s : Sys) (a : Act) : List Event :=
  match step P s a with
  | none => []
  | some s' => (s'.server.trace.drop s.server.trace.length).filter fun e =>
      e.recipient.any (· ∈ N) || (e.isReply && s.belongs m N a)

/-- The messages for the nodes `N` of match `m` along a run, in order. -/
def received (P : Platform) (m : MatchId) (N : List NodeId) (s : Sys) (acts : List Act) :
    List Event :=
  observed (step P) (messages P m N) s acts

/-- The tasks that are operations on match `m`. -/
def operations (m : MatchId) (s : Sys) : Set TaskId :=
  {tid | ∃ t, s.tasks tid = some t ∧ t.kind ≠ .dispatch ∧ t.matchId = m}

/-- Match `m` with its nodes `N` looks the same: its row, whether it has a key and
a timer, the registry entries of its nodes, and where each of its operations is or
how it ended.  `ρ` names the tasks of `s` in `s'`.  The row is what the connection
reads, not what is committed: a commit for another match takes a pending update of
`m` with it. -/
structure LooksAlike (ρ : TaskId → TaskId) (m : MatchId) (N : List NodeId) (s s' : Sys) : Prop where
  row : s'.server.store.rows m = s.server.store.rows m
  key : s'.server.crypto.matchKeys m = s.server.crypto.matchKeys m
  timer : (s'.server.timers m).isSome = (s.server.timers m).isSome
  nodes : ∀ n ∈ N, s'.server.registry.nodes n = s.server.registry.nodes n
  operations : ∀ tid ∈ s.operations m, s'.tasks (ρ tid) = s.tasks tid
  order : StrictMonoOn ρ (s.operations m)

/-! ### The run that is left -/

/-- Task `tid` belongs to match `m`. -/
def Owns (m : MatchId) (N : List NodeId) (s : Sys) (tid : TaskId) : Prop :=
  ∃ t, s.tasks tid = some t ∧ t.belongs m N = true

/-- `s'` is where the run that is left is when the whole run is in `s`. -/
structure Mirrors (ρ : TaskId → TaskId) (m : MatchId) (s0 : Server) (s s' : Sys) : Prop where
  confined : Confined m s0 s
  fresh : s'.Fresh
  server : s.server.Alike ρ m (s0.nodesOf m) s.server.trace s'.server.trace s'.server
  tasks : ∀ tid, s.Owns m (s0.nodesOf m) tid → s'.tasks (ρ tid) = s.tasks tid
  order : ∀ tid tid', s.Owns m (s0.nodesOf m) tid → s.Owns m (s0.nodesOf m) tid' →
    tid < tid' → ρ tid < ρ tid'

section Mirrors

variable {ρ : TaskId → TaskId} {m : MatchId} {s0 : Server} {s s' : Sys}

theorem Mirrors.lt_next (hs : Mirrors ρ m s0 s s') {tid : TaskId}
    (h : s.Owns m (s0.nodesOf m) tid) : ρ tid < s'.next := by
  by_contra hge
  have hnone := hs.fresh (ρ tid) (Nat.le_of_not_lt hge)
  rw [hs.tasks tid h] at hnone
  obtain ⟨t, ht, -⟩ := h
  rw [ht] at hnone
  cases hnone

theorem Owns.lt_next {N : List NodeId} {tid : TaskId} (h : s.Owns m N tid) (hs : s.Sound) :
    tid < s.next := by
  obtain ⟨t, ht, -⟩ := h
  exact hs.lt_next ht

/-- The renaming confuses no two tasks of `m`. -/
theorem Mirrors.injective (hs : Mirrors ρ m s0 s s') {tid tid' : TaskId}
    (h : s.Owns m (s0.nodesOf m) tid) (h' : s.Owns m (s0.nodesOf m) tid')
    (heq : ρ tid = ρ tid') : tid = tid' := by
  rcases Nat.lt_trichotomy tid tid' with hlt | heq' | hlt
  · exact absurd heq (Nat.ne_of_lt (hs.order tid tid' h h' hlt))
  · exact heq'
  · exact absurd heq.symm (Nat.ne_of_lt (hs.order tid' tid h' h hlt))

/-- The timer of `m` is a task of `m`. -/
theorem Confined.owns_timer (hs : Confined m s0 s) {c : TaskId} {N : List NodeId}
    (h : s.server.timers m = some c) : s.Owns m N c := by
  obtain ⟨t, ht, hkind⟩ := hs.sound.timer m c h
  refine ⟨t, ht, (ServerTask.belongs_of_ne ?_).mpr (hs.timer m c t h ht)⟩
  rw [hkind]
  exact fun h => by cases h

/-- The renaming with the next task of `s` renamed to the next task of `s'`. -/
def grow (ρ : TaskId → TaskId) (s s' : Sys) : TaskId → TaskId :=
  Function.update ρ s.next s'.next

theorem grow_of_lt {tid : TaskId} (h : tid < s.next) : grow ρ s s' tid = ρ tid :=
  Function.update_of_ne (Nat.ne_of_lt h) ..

theorem grow_next : grow ρ s s' s.next = s'.next := Function.update_self ..

/-- The servers are alike under the new renaming, which leaves the timer alone. -/
theorem Mirrors.server_grow (hs : Mirrors ρ m s0 s s') :
    s.server.Alike (grow ρ s s') m (s0.nodesOf m) s.server.trace s'.server.trace s'.server := by
  refine ⟨⟨hs.server.tokens, hs.server.nodes, hs.server.sessions⟩, hs.server.row, hs.server.key, ?_,
    hs.server.said⟩
  rw [hs.server.timer]
  cases htimer : s.server.timers m with
  | none => rfl
  | some c =>
    have hlt := (hs.confined.owns_timer htimer (N := [])).lt_next hs.confined.sound
    rw [Option.map_some, Option.map_some, grow_of_lt hlt]

/-- **How the two runs go on together**: what holds of the tasks that were there
and of the one that may be new is enough. -/
theorem Mirrors.extend (hs : Mirrors ρ m s0 s s') {u u' : Sys} (hconfined : Confined m s0 u)
    (hfresh : u'.Fresh) {before before' : List Event}
    (hserver : u.server.Alike (grow ρ s s') m (s0.nodesOf m) before before' u'.server)
    (hold : ∀ tid, s.Owns m (s0.nodesOf m) tid → u'.tasks (ρ tid) = u.tasks tid)
    (howns : ∀ tid, u.Owns m (s0.nodesOf m) tid → s.Owns m (s0.nodesOf m) tid ∨ tid = s.next)
    (hnew : u.Owns m (s0.nodesOf m) s.next → u'.tasks s'.next = u.tasks s.next) :
    Mirrors (grow ρ s s') m s0 u u' := by
  have hlt : ∀ {tid}, s.Owns m (s0.nodesOf m) tid → tid < s.next := fun h =>
    h.lt_next hs.confined.sound
  refine ⟨hconfined, hfresh, hserver.of_sameSlice (.refl ..), fun tid h => ?_,
    fun tid tid' h h' hlt' => ?_⟩
  · rcases howns tid h with h | rfl
    · rw [grow_of_lt (hlt h)]
      exact hold tid h
    · rw [grow_next]
      exact hnew h
  · rcases howns tid h with h | rfl
    · rw [grow_of_lt (hlt h)]
      rcases howns tid' h' with h' | rfl
      · rw [grow_of_lt (hlt h')]
        exact hs.order tid tid' h h' hlt'
      · rw [grow_next]
        exact hs.lt_next h
    · -- No task of `m` is newer than the new one.
      exfalso
      rcases howns tid' h' with h' | rfl
      · exact Nat.lt_asymm hlt' (hlt h')
      · exact Nat.lt_irrefl _ hlt'

/-! ### Calls -/

/-- A call of another match, or a message that is no `REGISTER` of a node of `m`. -/
theorem Mirrors.foreign_call (P : Platform) (hs : Mirrors ρ m s0 s s') {c : Call}
    (hc : c.Within s0 m) (hforeign : ¬c.task.belongs m (s0.nodesOf m)) :
    Mirrors (grow ρ s s') m s0
      { s with tasks := s.tasks.set s.next c.task, next := s.next + 1 } s' := by
  refine hs.extend (hs.confined.step (P := P) (a := .call c) hc rfl) hs.fresh hs.server_grow
    (fun tid h => ?_) (fun tid h => ?_) fun h => ?_
  · rw [hs.tasks tid h]
    exact (Dict.set_of_ne _ (Nat.ne_of_lt (h.lt_next hs.confined.sound)) _).symm
  · obtain ⟨t, ht, hbelongs⟩ := h
    by_cases hn : tid = s.next
    · exact .inr hn
    · exact .inl ⟨t, (Dict.set_of_ne _ hn _).symm.trans ht, hbelongs⟩
  · obtain ⟨t, ht, hbelongs⟩ := h
    rw [Option.some.inj ((Dict.set_self ..).symm.trans ht)] at hforeign
    exact absurd hbelongs hforeign

theorem Mirrors.own_call (P : Platform) (hs : Mirrors ρ m s0 s s') {c : Call}
    (hc : c.Within s0 m) : Mirrors (grow ρ s s') m s0
      { s with tasks := s.tasks.set s.next c.task, next := s.next + 1 }
      { s' with tasks := s'.tasks.set s'.next c.task, next := s'.next + 1 } := by
  refine hs.extend (hs.confined.step (P := P) (a := .call c) hc rfl)
    (hs.fresh.step (P := P) (a := .call c) rfl) hs.server_grow (fun tid h => ?_) (fun tid h => ?_)
    fun h => ?_
  · refine (Dict.set_of_ne _ (Nat.ne_of_lt (hs.lt_next h)) _).trans ((hs.tasks tid h).trans ?_)
    exact (Dict.set_of_ne _ (Nat.ne_of_lt (h.lt_next hs.confined.sound)) _).symm
  · obtain ⟨t, ht, hbelongs⟩ := h
    by_cases hn : tid = s.next
    · exact .inr hn
    · exact .inl ⟨t, (Dict.set_of_ne _ hn _).symm.trans ht, hbelongs⟩
  · exact (Dict.set_self ..).trans (Dict.set_self ..).symm

/-! ### Stretches -/

/-- A stretch makes no task a task of `m`, but for the one that it creates. -/
theorem Sound.owns_of_apply (hs : s.Sound) {N : List NodeId} {tid tid' : TaskId} {t : ServerTask}
    {w : World} (ht : s.tasks tid = some t)
    (h : (s.apply tid t (resume P tid s.next s.server t w)).Owns m N tid') :
    s.Owns m N tid' ∨ tid' = s.next := by
  obtain ⟨u, hu, hbelongs⟩ := h
  rcases apply_tasks hu with ⟨rfl, rfl⟩ | ⟨hnext, -⟩ | ⟨-, u', hu', rfl | ⟨-, rfl⟩⟩
  · refine .inl ⟨t, ht, ServerTask.belongs_of_done (settle_kind ..) (settle_matchId ..)
      (fun hd => ?_) hbelongs⟩
    rcases settle_pc tid' t (resume P tid' s.next s.server t w) with hpc | hpc
    · rw [hpc]
      exact resume_frames _ _ _ _ _ (hd ▸ hs.kind tid' t ht)
    · rw [hpc]
      rfl
  · exact .inr hnext
  · exact .inl ⟨u, hu', hbelongs⟩
  · refine .inl ⟨u', hu', ?_⟩
    by_cases hdone : u'.pc.isDone
    · rwa [cancelTask, if_pos hdone] at hbelongs
    · rw [cancelTask, if_neg hdone] at hbelongs
      refine ServerTask.belongs_of_done ?_ ?_ (fun _ => ?_) hbelongs
      all_goals rfl

/-- A task that cancels another is a `stop`. -/
theorem Sound.kind_of_cancels (hs : s.Sound) {tid : TaskId} {t : ServerTask} {w : World}
    {c : TaskId} (ht : s.tasks tid = some t)
    (h : (resume P tid s.next s.server t w).cancels = some c) : t.kind ≠ .dispatch := by
  have hkind := hs.kind tid t ht
  have hstop : ∀ {record : Option MatchRecord}, t.pc = .stopGet record → t.kind ≠ .dispatch := by
    intro record hpc hd
    rw [hpc, hd] at hkind
    rcases hkind with hk | hk <;> cases hk
  have hstretch := resume_stretch (P := P) tid s.next s.server t w
  generalize resume P tid s.next s.server t w = r at hstretch h
  cases hstretch with
  | quiet _ hquiet hduty hk =>
    rw [hquiet.cancels] at h
    cases h
  | register frames identity payload hpc hframes => cases h
  | launch _ t0 record as hpc hready hquiet hr =>
    rw [hquiet.cancels] at h
    cases h
  | begin _ t0 record as hpc hkey hr =>
    rw [hr.frame.2.2.1] at h
    cases h
  | next _ t0 record na rest hpc hr =>
    rw [hr.frame.2.2.1] at h
    cases h
  | stopBegin r record as hpc hstate has hr => exact hstop hpc
  | stopMalformed record hpc => exact hstop hpc
  | stopNext _ na rest hpc hr =>
    rw [hr.frame.2.2.2.1] at h
    cases h

/-- A task that does not belong to `m` works on other nodes. -/
theorem Confined.avoids (hs : Confined m s0 s) {tid : TaskId} {t : ServerTask}
    (ht : s.tasks tid = some t) (hforeign : ¬t.belongs m (s0.nodesOf m)) :
    (t.matchId ≠ m ∨ t.pc.OfKind .dispatch) ∧ Avoids (s0.nodesOf m) t := by
  have hkind := hs.sound.kind tid t ht
  have htask := hs.task tid t ht
  by_cases hd : t.kind = .dispatch
  · rw [hd] at hkind
    refine ⟨.inr hkind, fun na hna => ?_, fun frames hpc n hn hname => hforeign ?_⟩
    · rw [Pc.targets_eq_nil hkind (by decide) (by decide) (by decide)] at hna
      exact (List.not_mem_nil hna).elim
    · exact (ServerTask.belongs_of_dispatch hd).mpr ⟨frames, n, by rw [hpc]; rfl, hname, hn⟩
  · have hm : t.matchId ≠ m := fun hm => hforeign ((ServerTask.belongs_of_ne hd).mpr hm)
    refine ⟨.inl hm, fun na hna hmem => ?_, fun frames hpc => ?_⟩
    · exact (htask.apart hd).resolve_left hm hmem
        (List.mem_map_of_mem (htask.targets na hna))
    · rw [hpc] at hkind
      exact absurd hkind hd

theorem Confined.sameSlice (hs : Confined m s0 s) {tid : TaskId} {t : ServerTask} (w : World)
    (ht : s.tasks tid = some t) (hforeign : ¬t.belongs m (s0.nodesOf m)) :
    s.server.SameSlice m (s0.nodesOf m) (resume P tid s.next s.server t w).server := by
  obtain ⟨hother, havoids⟩ := hs.avoids ht hforeign
  refine resume_sameSlice tid s.next s.server t w (fun config hpc => ?_) hother havoids
  have hkind := hs.sound.kind tid t ht
  rw [hpc] at hkind
  exact (hs.task tid t ht).kind hkind

/-- **A stretch of another match** is left out. -/
theorem Mirrors.foreign_run (hs : Mirrors ρ m s0 s s') {tid : TaskId} {t : ServerTask} (w : World)
    (ht : s.tasks tid = some t) (hdone : t.pc.isDone = false)
    (hforeign : ¬t.belongs m (s0.nodesOf m)) :
    Mirrors (grow ρ s s') m s0 (s.apply tid t (resume P tid s.next s.server t w)) s' := by
  have hsound := hs.confined.sound
  have hserver := hs.server_grow.of_sameSlice (hs.confined.sameSlice (P := P) w ht hforeign)
  rw [← apply_server s tid t] at hserver
  refine hs.extend (hs.confined.step (P := P) (a := .run tid w) trivial (step_run ht hdone w))
    hs.fresh hserver (fun tid' h => ?_) (fun tid' h => hsound.owns_of_apply ht h) fun h => ?_
  · -- A task of `m` is not the actor, and it is not cancelled.
    rw [hs.tasks tid' h, apply_tasks_of_ne_next s (Nat.ne_of_lt (h.lt_next hsound))]
    obtain ⟨u, hu, hbelongs⟩ := h
    rw [if_neg, if_neg]
    · intro hcancels
      rcases resume_cancels (P := P) tid s.next s.server t w with h | h
      · rw [hcancels] at h
        cases h
      · rw [hcancels] at h
        obtain ⟨v, hv, hauto⟩ := hsound.timer _ _ h.symm
        obtain rfl : u = v := Option.some.inj (hu.symm.trans hv)
        have hne : u.kind ≠ .dispatch := by
          rw [hauto]
          exact fun h => by cases h
        rw [ServerTask.belongs_of_ne hne, hs.confined.timer _ _ u h.symm hu] at hbelongs
        exact hforeign ((ServerTask.belongs_of_ne (hsound.kind_of_cancels ht hcancels)).mpr hbelongs)
    · rintro rfl
      exact hforeign (Option.some.inj (ht.symm.trans hu) ▸ hbelongs)
  · obtain ⟨u, hu, hbelongs⟩ := h
    rcases apply_tasks hu with ⟨hnext, -⟩ | ⟨-, delay, hspawns, rfl⟩ | ⟨-, u', hu', -⟩
    · exact absurd hnext.symm (Nat.ne_of_lt (hsound.lt_next ht))
    · have hstart := hsound.kind_of_spawns ht hspawns
      have hauto : (autoStopTask t.matchId delay).kind ≠ .dispatch := fun h => by cases h
      have hm : t.matchId = m := (ServerTask.belongs_of_ne hauto).mp hbelongs
      refine absurd ((ServerTask.belongs_of_ne ?_).mpr hm) hforeign
      rw [hstart]
      exact fun h => by cases h
    · rw [hsound.fresh s.next (Nat.le_refl _)] at hu'
      cases hu'

/-- A stretch of a task of `m` does the same in the run that is left. -/
theorem Mirrors.alike_resume (hs : Mirrors ρ m s0 s s') {tid : TaskId} {t : ServerTask} (w : World)
    (ht : s.tasks tid = some t) (hown : t.belongs m (s0.nodesOf m) = true) :
    (resume P tid s.next s.server t w).Alike (grow ρ s s') m (s0.nodesOf m) s.server.trace
      s'.server.trace (resume P (ρ tid) s'.next s'.server t w) := by
  have hkind := hs.confined.sound.kind tid t ht
  have htask := hs.confined.task tid t ht
  by_cases hd : t.kind = .dispatch
  · obtain ⟨frames, n, hframes, hname, hn⟩ := (ServerTask.belongs_of_dispatch hd).mp hown
    have hpc : t.pc = .received frames := by
      cases hpc : t.pc with
      | received frames' =>
        rw [hpc] at hframes
        rw [Option.some.inj hframes]
      | _ =>
        rw [hpc] at hframes
        cases hframes
    exact alike_register hs.server_grow tid (ρ tid) s.next s'.next w hpc hname hn
  · have hm := (ServerTask.belongs_of_ne hd).mp hown
    have hnext : grow ρ s s' s.next = s'.next := grow_next
    rw [← hnext]
    refine MatchManager.alike_resume hs.server_grow tid (ρ tid) s.next w hm hkind htask.kind hd
      fun na hna => ?_
    exact List.mem_map_of_mem (hm ▸ htask.targets na hna)

/-- **A stretch of `m`** is taken by the run that is left as well. -/
theorem Mirrors.own_run (hs : Mirrors ρ m s0 s s') {tid : TaskId} {t : ServerTask} (w : World)
    (ht : s.tasks tid = some t) (hdone : t.pc.isDone = false)
    (hown : t.belongs m (s0.nodesOf m) = true) :
    Mirrors (grow ρ s s') m s0 (s.apply tid t (resume P tid s.next s.server t w))
      (s'.apply (ρ tid) t (resume P (ρ tid) s'.next s'.server t w)) := by
  have hsound := hs.confined.sound
  have hr := hs.alike_resume (P := P) w ht hown
  have hactor : s.Owns m (s0.nodesOf m) tid := ⟨t, ht, hown⟩
  have ht' : s'.tasks (ρ tid) = some t := (hs.tasks tid hactor).trans ht
  -- What the stretch cancels is a task of `m`, and the same one in both runs.
  have hcancels : ∀ tid', s.Owns m (s0.nodesOf m) tid' →
      ((resume P (ρ tid) s'.next s'.server t w).cancels = some (ρ tid') ↔
        (resume P tid s.next s.server t w).cancels = some tid') := by
    intro tid' h
    rw [hr.cancels]
    constructor
    · intro hc
      obtain ⟨c, hc, heq⟩ := Option.map_eq_some_iff.mp hc
      have howns : s.Owns m (s0.nodesOf m) c := by
        rcases resume_cancels (P := P) tid s.next s.server t w with hnone | htimer
        · rw [hc] at hnone
          cases hnone
        · have hm := (ServerTask.belongs_of_ne (hsound.kind_of_cancels ht hc)).mp hown
          rw [hm, hc] at htimer
          exact hs.confined.owns_timer htimer.symm
      rw [grow_of_lt (howns.lt_next hsound)] at heq
      rw [hc, hs.injective howns h heq]
    · intro hc
      rw [hc, Option.map_some, grow_of_lt (h.lt_next hsound)]
  have hsettle : settle (ρ tid) t (resume P (ρ tid) s'.next s'.server t w)
      = settle tid t (resume P tid s.next s.server t w) := by
    rw [settle, settle, hr.pc, hr.suspends, decide_eq_decide.mpr (hcancels tid hactor)]
  have hserver := hr.server
  rw [← apply_server s tid t, ← apply_server s' (ρ tid) t] at hserver
  refine hs.extend (hs.confined.step (P := P) (a := .run tid w) trivial (step_run ht hdone w))
    (hs.fresh.step (P := P) (a := .run (ρ tid) w) (step_run ht' hdone w)) hserver
    (fun tid' h => ?_) (fun tid' h => hsound.owns_of_apply ht h) fun h => ?_
  · rw [apply_tasks_of_ne_next s (Nat.ne_of_lt (h.lt_next hsound)),
      apply_tasks_of_ne_next s' (Nat.ne_of_lt (hs.lt_next h))]
    by_cases hid : tid' = tid
    · rw [if_pos hid, if_pos (congrArg ρ hid), hsettle]
    · rw [if_neg hid, if_neg fun heq => hid (hs.injective h hactor heq), hs.tasks tid' h]
      by_cases hc : (resume P tid s.next s.server t w).cancels = some tid'
      · rw [if_pos hc, if_pos ((hcancels tid' h).mpr hc)]
      · rw [if_neg hc, if_neg fun hc' => hc ((hcancels tid' h).mp hc')]
  · obtain ⟨u, hu, -⟩ := h
    rcases apply_tasks hu with ⟨hnext, -⟩ | ⟨-, delay, hspawns, rfl⟩ | ⟨-, u', hu', -⟩
    · exact absurd hnext.symm (Nat.ne_of_lt (hsound.lt_next ht))
    · rw [hu, apply, hr.spawns, hspawns]
      exact Dict.set_self ..
    · rw [hsound.fresh s.next (Nat.le_refl _)] at hu'
      cases hu'

end Mirrors

/-! ### Messages -/

section Messages

variable {m : MatchId} {N : List NodeId}

theorem messages_eq {s s' : Sys} {a : Act} (h : step P s a = some s') {es : List Event}
    (htrace : s'.server.trace = s.server.trace ++ es) : messages P m N s a =
      es.filter fun e => e.recipient.any (· ∈ N) || (e.isReply && s.belongs m N a) := by
  rw [messages, h]
  dsimp only
  rw [htrace, List.drop_left]

theorem messages_call (s : Sys) (c : Call) : messages P m N s (.call c) = [] := by
  have h : step P s (.call c)
      = some { s with tasks := s.tasks.set s.next c.task, next := s.next + 1 } := rfl
  rw [messages_eq h (List.append_nil _).symm, List.filter_nil]

/-- The same new messages are the same messages for `N`. -/
theorem filter_congr_of_isMessage {es es' : List Event} (b : Bool)
    (h : es'.filter Event.isMessage = es.filter Event.isMessage) :
    es'.filter (fun e => e.recipient.any (· ∈ N) || (e.isReply && b))
      = es.filter fun e => e.recipient.any (· ∈ N) || (e.isReply && b) := by
  have hfilter : ∀ es : List Event,
      es.filter (fun e => e.recipient.any (· ∈ N) || (e.isReply && b))
        = (es.filter Event.isMessage).filter
            fun e => e.recipient.any (· ∈ N) || (e.isReply && b) := by
    intro es
    rw [List.filter_filter]
    refine List.filter_congr fun e _ => ?_
    cases e with
    | sent n identity msgType payload => simp [Event.recipient, Event.isMessage, Event.isReply]
    | _ => simp [Event.recipient, Event.isMessage, Event.isReply]
  rw [hfilter es', hfilter es, h]

end Messages

/-! ### Runs -/

/-- The renamings agree on the tasks of `s`. -/
def Agree (s : Sys) (ρ ρ' : TaskId → TaskId) : Prop := ∀ tid < s.next, ρ' tid = ρ tid

theorem next_le_of_step {s s' : Sys} {a : Act} (h : step P s a = some s') : s.next ≤ s'.next := by
  rcases step_cases h with ⟨c, -, rfl⟩ | ⟨tid, w, t, -, -, -, rfl⟩
  · exact Nat.le_succ _
  · exact le_apply_next ..

/-- **What belongs to `m` in a step of the whole run** is what the run that is left
does, with the same messages. -/
theorem Mirrors.answer {ρ : TaskId → TaskId} {m : MatchId} {s0 : Server} {s s' u : Sys} {a : Act}
    (hs : Mirrors ρ m s0 s s') (ha : a.Within s0 m) (h : step P s a = some u) : ∃ ρ' u',
      Agree s ρ ρ' ∧
      run (step P) s' ((if s.belongs m (s0.nodesOf m) a then [a] else []).map (Act.rename ρ'))
        = some u' ∧
      s'.received P m (s0.nodesOf m)
          ((if s.belongs m (s0.nodesOf m) a then [a] else []).map (Act.rename ρ'))
        = messages P m (s0.nodesOf m) s a ∧
      Mirrors ρ' m s0 u u' := by
  have hsound := hs.confined.sound
  have hagree : Agree s ρ (grow ρ s s') := fun tid htid => grow_of_lt htid
  have hone : ∀ {a' : Act} {u' : Sys}, step P s' a' = some u' → run (step P) s' [a'] = some u' ∧
      s'.received P m (s0.nodesOf m) [a'] = messages P m (s0.nodesOf m) s' a' := by
    intro a' u' h'
    refine ⟨run_cons_eq_some.mpr ⟨u', h', rfl⟩, ?_⟩
    simp [received, observed, h']
  rcases step_cases h with ⟨c, rfl, rfl⟩ | ⟨tid, w, t, rfl, ht, hdone, rfl⟩
  · by_cases hown : s.belongs m (s0.nodesOf m) (.call c)
    · rw [if_pos hown]
      obtain ⟨hrun, hmessages⟩ := hone (show step P s' (.call c) = some _ from rfl)
      refine ⟨grow ρ s s', _, hagree, hrun, hmessages.trans ?_, hs.own_call P ha⟩
      rw [messages_call, messages_call]
    · rw [if_neg hown, messages_call]
      exact ⟨grow ρ s s', s', hagree, rfl, rfl, hs.foreign_call P ha hown⟩
  · have hbelongs : s.belongs m (s0.nodesOf m) (.run tid w) = t.belongs m (s0.nodesOf m) := by
      rw [belongs, ht, Option.any_some]
    by_cases hown : t.belongs m (s0.nodesOf m)
    · have ht' : s'.tasks (ρ tid) = some t := (hs.tasks tid ⟨t, ht, hown⟩).trans ht
      have hbelongs' : s'.belongs m (s0.nodesOf m) (.run (ρ tid) w) = true := by
        rw [belongs, ht', Option.any_some, hown]
      have hrename : Act.rename (grow ρ s s') (.run tid w) = .run (ρ tid) w := by
        rw [Act.rename, grow_of_lt (hsound.lt_next ht)]
      obtain ⟨hrun, hmessages⟩ := hone (step_run ht' hdone w)
      rw [if_pos (hbelongs.trans hown)]
      -- A step of `m` is answered by the same step under its other name.
      refine ⟨grow ρ s s', _, hagree, ?_, ?_, hs.own_run w ht hdone hown⟩
      all_goals rw [List.map_singleton, hrename]
      · exact hrun
      rw [hmessages]
      obtain ⟨es, es', htrace, htrace', hsame⟩ := (hs.alike_resume (P := P) w ht hown).server.said
      rw [messages_eq h (by rw [apply_server, htrace]),
        messages_eq (step_run ht' hdone w) (by rw [apply_server, htrace']), hbelongs, hown,
        hbelongs']
      exact filter_congr_of_isMessage true hsame
    · rw [if_neg (by rw [hbelongs]; exact hown)]
      refine ⟨grow ρ s s', s', hagree, rfl, ?_, hs.foreign_run w ht hdone hown⟩
      -- A step of another match sends nothing to the nodes of `m`.
      obtain ⟨es, htrace, hes⟩ := (hs.confined.sameSlice (P := P) w ht hown).silent
      rw [messages_eq h (by rw [apply_server, htrace]), hbelongs, Bool.eq_false_of_not_eq_true hown]
      refine (List.filter_eq_nil_iff.mpr fun e he => ?_).symm
      cases hrecipient : e.recipient with
      | none => simp
      | some n => simpa using hes e he n hrecipient

theorem mirrors_projection (m : MatchId) (s0 : Server) :
    Projection (step P) (fun _ a => a.Within s0 m) (step P)
      (fun s a => if s.belongs m (s0.nodesOf m) a then [a] else []) Act.rename
      (messages P m (s0.nodesOf m)) (messages P m (s0.nodesOf m)) Agree
      (fun ρ s s' => Mirrors ρ m s0 s s') where
  refl s ρ tid htid := rfl
  trans s a s' i j k h hij hjk tid htid :=
    (hjk tid (htid.trans_le (next_le_of_step h))).trans (hij tid htid)
  labels ρ s t a s' j k hs h hjk b hb := by
    obtain rfl : b = a := by
      split at hb
      · exact List.mem_singleton.mp hb
      · exact (List.not_mem_nil hb).elim
    cases b with
    | call c => rfl
    | run tid w =>
      -- The task that runs is an old one.
      rcases step_cases h with ⟨c, hc, -⟩ | ⟨tid', w', u, ha, hu, -, -⟩
      · cases hc
      · obtain ⟨rfl, rfl⟩ := Act.run.inj ha
        rw [Act.rename, Act.rename,
          hjk tid ((hs.confined.sound.lt_next hu).trans_le (next_le_of_step h))]
  answer ρ s s' a u hs ha h := hs.answer ha h

theorem mirrors_boot (m : MatchId) (tokens : Dict NodeId String)
    (rows : Dict MatchId MatchRecord) (metrics : MetricsStore) :
    Mirrors id m (boot tokens rows metrics).server (boot tokens rows metrics)
      (boot tokens rows metrics) where
  confined := confined_boot m tokens rows metrics
  fresh := fresh_boot tokens rows metrics
  server := ⟨.of_eq rfl rfl, rfl, rfl, rfl, [], [], rfl, rfl, rfl⟩
  tasks _ _ := rfl
  order _ _ _ _ h := h

/-- Two runs that mirror each other show the same of `m`. -/
theorem Mirrors.looksAlike {ρ : TaskId → TaskId} {m : MatchId} {s0 : Server} {s s' : Sys}
    (hs : Mirrors ρ m s0 s s') : LooksAlike ρ m (s0.nodesOf m) s s' := by
  have howns : ∀ tid ∈ s.operations m, s.Owns m (s0.nodesOf m) tid := by
    rintro tid ⟨t, ht, hd, hm⟩
    exact ⟨t, ht, (ServerTask.belongs_of_ne hd).mpr hm⟩
  refine ⟨hs.server.row, hs.server.key, ?_, hs.server.nodes, fun tid h => hs.tasks tid (howns tid h),
    fun tid h tid' h' hlt => hs.order tid tid' (howns tid h) (howns tid' h') hlt⟩
  rw [hs.server.timer, Option.isSome_map]

/-- **Matches that share no node do not interfere**: in every run on `m` and on
matches with other nodes, interleaved with any messages, `m` looks as it does when
its own operations and its nodes' `REGISTER`s run alone, in the same order and with
the same answers of the outside. -/
theorem noninterference {tokens : Dict NodeId String} {rows : Dict MatchId MatchRecord}
    {metrics : MetricsStore} {m : MatchId} {acts : List Act} {s : Sys}
    (hacts : ∀ a ∈ acts, a.Within (boot tokens rows metrics).server m)
    (hrun : run (step P) (boot tokens rows metrics) acts = some s) :
    let s0 := boot tokens rows metrics
    let nodes := s0.server.nodesOf m
    ∃ ρ s', run (step P) s0 ((s0.own P m nodes acts).map (Act.rename ρ)) = some s' ∧
      LooksAlike ρ m nodes s s' ∧
      s0.received P m nodes ((s0.own P m nodes acts).map (Act.rename ρ))
        = s0.received P m nodes acts := by
  obtain ⟨ρ, s', -, hrun', hmessages, hs⟩ := (mirrors_projection (P := P) m
    (boot tokens rows metrics).server).run (mirrors_boot m tokens rows metrics)
    (guarded_of_forall hacts _) hrun
  exact ⟨ρ, s', hrun', hs.looksAlike, hmessages⟩

open Sample in
/-- `m` on `n` and `m'` on `n'` are started together; `m'` is stopped. -/
def sideBySide : List Act :=
  [register "n" [1], register "n'" [2], .call (.start "m'" 30), .call (.start "m" 30)] ++
    runs 1 1 0 ++ runs 2 3 5 ++ runs 3 3 5 ++ runs 0 1 5 ++ runs 2 4 6 ++ runs 3 4 7 ++
    [.call (.stop "m'")] ++ runs 6 3 8

theorem noninterference_sideBySide : ∃ s ρ s',
    let s0 := Sample.boot [("m", ["n"]), ("m'", ["n'"])]
    let alone := (s0.own Sample.platform "m" ["n"] sideBySide).map (Act.rename ρ)
    run (step Sample.platform) s0 sideBySide = some s ∧
      run (step Sample.platform) s0 alone = some s' ∧ LooksAlike ρ "m" ["n"] s s' ∧
      s0.received Sample.platform "m" ["n"] alone
        = s0.received Sample.platform "m" ["n"] sideBySide ∧
      s.server.store.stateOf "m" = some .running := by
  obtain ⟨s, hs, hstate⟩ := Option.map_eq_some_iff.mp
    (show (run (step Sample.platform) (Sample.boot [("m", ["n"]), ("m'", ["n'"])]) sideBySide).map
        (fun s => s.server.store.stateOf "m") = some (some .running) by decide +kernel)
  obtain ⟨ρ, s', hs', hlooks, hmessages⟩ := noninterference (m := "m") (by decide +kernel) hs
  exact ⟨s, ρ, s', hs, hs', hlooks, hmessages, hstate⟩

end Sys
