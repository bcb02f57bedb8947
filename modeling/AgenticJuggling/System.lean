/-
The server as a whole: any number of tasks, interleaved at their awaits.

`Sys` is the shared server with its pool of tasks.  A step either creates a
task, for a match operation or for an incoming message, or lets one task run
to its next suspension.  `apply` puts such a stretch into effect, following
asyncio's rules for `Task.cancel()`: a suspended task that is cancelled never
runs again; the running task that cancels itself is stopped at its next await
that suspends.
-/
import AgenticJuggling.MatchManager
import AgenticJuggling.Transition

structure Sys where
  server : Server
  tasks : Dict TaskId ServerTask
  next : TaskId

/-- What the outside asks of the server. -/
inductive Call
  | create (config : MatchConfig)
  | start (matchId : MatchId) (readyTimeout : ℚ)
  | stop (matchId : MatchId)
  | receive (frames : List Frame)

/-- The task of a call, not yet begun. -/
def Call.task : Call → ServerTask
  | create config => { kind := .create, matchId := config.matchId, pc := .createCall config }
  | start m readyTimeout => { kind := .start, matchId := m, pc := .startCall readyTimeout }
  | stop m => { kind := .stop, matchId := m, pc := .stopCall }
  | receive frames => { kind := .dispatch, matchId := "", pc := .received frames }

inductive Act
  | call (c : Call)
  | run (tid : TaskId) (w : World)

namespace Sys

/-- A task after a stretch: ended by its own `cancel()` if it now suspends. -/
def settle (tid : TaskId) (t : ServerTask) (r : Stretch) : ServerTask :=
  let mustCancel := t.mustCancel || decide (r.cancels = some tid)
  if mustCancel && r.suspends then { t with pc := .done .cancelled, mustCancel := false }
  else { t with pc := r.pc, mustCancel := mustCancel }

/-- `cancel()` on a suspended task; no effect on one that has ended. -/
def cancelTask (t : ServerTask) : ServerTask :=
  if t.pc.isDone then t else { t with pc := .done .cancelled }

def cancelOther (tasks : Dict TaskId ServerTask) (tid : TaskId) (target : Option TaskId) :
    Dict TaskId ServerTask :=
  match target with
  | none => tasks
  | some c => if c = tid then tasks else tasks.modify c cancelTask

/-- The `_auto_stop` task of a match. -/
def autoStopTask (m : MatchId) (delay : ℚ) : ServerTask :=
  { kind := .autoStop, matchId := m, pc := .sleeping delay }

/-- The effect of one stretch of task `tid`. -/
def apply (s : Sys) (tid : TaskId) (t : ServerTask) (r : Stretch) : Sys :=
  let tasks := cancelOther (s.tasks.set tid (settle tid t r)) tid r.cancels
  match r.spawns with
  | none => { server := r.server, tasks := tasks, next := s.next }
  | some delay =>
    { server := r.server
      tasks := tasks.set s.next (autoStopTask t.matchId delay)
      next := s.next + 1 }

variable (P : Platform)

def step (s : Sys) : Act → Option Sys
  | .call c => some { s with tasks := s.tasks.set s.next c.task, next := s.next + 1 }
  | .run tid w =>
    match s.tasks tid with
    | none => none
    | some t =>
      if t.pc.isDone then none
      else some (s.apply tid t (MatchManager.resume P tid s.next s.server t w))

/-- The server when it boots: the tables hold what earlier processes left, and
nothing else is there yet. -/
def boot (tokens : Dict NodeId String) (rows : Dict MatchId MatchRecord)
    (metrics : MetricsStore) : Sys where
  server :=
    { registry := { allowedTokens := tokens, nodes := Dict.empty }
      crypto := { sessions := Dict.empty, matchKeys := Dict.empty }
      store := { rows := rows, committed := rows }
      metrics := metrics
      timers := Dict.empty
      trace := [] }
  tasks := Dict.empty
  next := 0

variable {P}

/-- A step creates a task or performs a stretch of one. -/
theorem step_cases {s s' : Sys} {a : Act} (h : step P s a = some s') :
    (∃ c, a = .call c ∧ s' = { s with tasks := s.tasks.set s.next c.task, next := s.next + 1 }) ∨
      ∃ tid w t, a = .run tid w ∧ s.tasks tid = some t ∧ t.pc.isDone = false ∧
        s' = s.apply tid t (MatchManager.resume P tid s.next s.server t w) := by
  cases a with
  | call c =>
    rw [step, Option.some_inj] at h
    exact .inl ⟨c, rfl, h.symm⟩
  | run tid w =>
    rw [step] at h
    cases ht : s.tasks tid with
    | none => simp [ht] at h
    | some t =>
      simp only [ht] at h
      by_cases hd : t.pc.isDone
      · simp [hd] at h
      · rw [if_neg hd, Option.some_inj] at h
        exact .inr ⟨tid, w, t, rfl, ht, by simpa using hd, h.symm⟩

theorem step_run {s : Sys} {tid : TaskId} {t : ServerTask} (ht : s.tasks tid = some t)
    (hd : t.pc.isDone = false) (w : World) : step P s (.run tid w)
      = some (s.apply tid t (MatchManager.resume P tid s.next s.server t w)) := by
  simp [step, ht, hd]

@[simp] theorem apply_server (s : Sys) (tid : TaskId) (t : ServerTask) (r : Stretch) :
    (s.apply tid t r).server = r.server := by
  rw [apply]
  cases r.spawns with
  | none => rfl
  | some delay => rfl

/-- A stretch settles its own task and cancels at most one other. -/
theorem cancelOther_set (tasks : Dict TaskId ServerTask) (tid tid' : TaskId) (u : ServerTask)
    (target : Option TaskId) : cancelOther (tasks.set tid u) tid target tid' =
      if tid' = tid then some u
      else if target = some tid' then (tasks tid').map cancelTask else tasks tid' := by
  cases target with
  | none => simp [cancelOther, Dict.set_apply]
  | some c =>
    rw [cancelOther]
    by_cases hcid : c = tid
    · rw [if_pos hcid, Dict.set_apply]
      by_cases hid : tid' = tid
      · rw [if_pos hid, if_pos hid]
      · rw [if_neg hid, if_neg hid, if_neg fun h => hid ((Option.some.inj h).symm.trans hcid)]
    · rw [if_neg hcid, Dict.modify_apply, Dict.set_of_ne _ hcid, Dict.set_apply]
      by_cases hid : tid' = tid
      · rw [if_pos hid, if_pos hid, if_neg fun h => hcid (h.symm.trans hid)]
      · by_cases hct : tid' = c
        · rw [if_pos hct, if_neg hid, if_pos (congrArg some hct.symm), hct]
        · rw [if_neg hct, if_neg hid, if_neg hid, if_neg fun h => hct (Option.some.inj h).symm]

/-- The tasks after a stretch, but for a new one. -/
theorem apply_tasks_of_ne_next (s : Sys) {tid tid' : TaskId} {t : ServerTask} {r : Stretch}
    (hne : tid' ≠ s.next) : (s.apply tid t r).tasks tid' =
      if tid' = tid then some (settle tid t r)
      else if r.cancels = some tid' then (s.tasks tid').map cancelTask else s.tasks tid' := by
  rw [← cancelOther_set, apply]
  cases r.spawns with
  | none => rfl
  | some delay => exact Dict.set_of_ne _ hne _

/-- The tasks after a stretch: the actor, a new auto-stop task, and the tasks
that were there, of which one may have been cancelled. -/
theorem apply_tasks {s : Sys} {tid tid' : TaskId} {t t' : ServerTask} {r : Stretch}
    (h : (s.apply tid t r).tasks tid' = some t') :
    (tid' = tid ∧ t' = settle tid t r) ∨
      (tid' = s.next ∧ ∃ delay, r.spawns = some delay ∧ t' = autoStopTask t.matchId delay) ∨
      (tid' ≠ tid ∧ ∃ u, s.tasks tid' = some u ∧
        (t' = u ∨ (r.cancels = some tid' ∧ t' = cancelTask u))) := by
  have hother : cancelOther (s.tasks.set tid (settle tid t r)) tid r.cancels tid' = some t' →
      (tid' = tid ∧ t' = settle tid t r) ∨
      (tid' ≠ tid ∧ ∃ u, s.tasks tid' = some u ∧
        (t' = u ∨ (r.cancels = some tid' ∧ t' = cancelTask u))) := by
    intro h
    rw [cancelOther_set] at h
    by_cases hid : tid' = tid
    · rw [if_pos hid, Option.some_inj] at h
      exact .inl ⟨hid, h.symm⟩
    · rw [if_neg hid] at h
      by_cases hc : r.cancels = some tid'
      · rw [if_pos hc] at h
        obtain ⟨u, hu, rfl⟩ := Option.map_eq_some_iff.mp h
        exact .inr ⟨hid, u, hu, .inr ⟨hc, rfl⟩⟩
      · rw [if_neg hc] at h
        exact .inr ⟨hid, t', h, .inl rfl⟩
  cases hs : r.spawns with
  | none =>
    simp only [apply, hs] at h
    exact (hother h).imp_right .inr
  | some delay =>
    simp only [apply, hs] at h
    by_cases hn : tid' = s.next
    · subst hn
      rw [Dict.set_self, Option.some_inj] at h
      exact .inr (.inl ⟨rfl, delay, rfl, h.symm⟩)
    · rw [Dict.set_of_ne _ hn] at h
      exact (hother h).imp_right .inr

/-- **What holds of every task after a step**, if it holds of the tasks that were
there, survives a `cancel()`, and holds of new tasks and of the actor. -/
theorem forall_tasks_of_step {q : ServerTask → Prop} {s s' : Sys} {a : Act}
    (h : step P s a = some s') (hcall : ∀ c : Call, q c.task)
    (hauto : ∀ m delay, q (autoStopTask m delay)) (hcancel : ∀ t, q t → q (cancelTask t))
    (hold : ∀ tid t, s.tasks tid = some t → q t)
    (hrun : ∀ tid w t, a = .run tid w → s.tasks tid = some t →
      q (settle tid t (MatchManager.resume P tid s.next s.server t w))) :
    ∀ tid t, s'.tasks tid = some t → q t := by
  intro tid u hu
  rcases step_cases h with ⟨c, -, rfl⟩ | ⟨tid', w, t, rfl, ht, -, rfl⟩
  · have hu : s.tasks.set s.next c.task tid = some u := hu
    by_cases hn : tid = s.next
    · rw [hn, Dict.set_self, Option.some_inj] at hu
      exact hu ▸ hcall c
    · rw [Dict.set_of_ne _ hn] at hu
      exact hold tid u hu
  · rcases apply_tasks hu with ⟨-, rfl⟩ | ⟨-, delay, -, rfl⟩ | ⟨-, u', hu', rfl | ⟨-, rfl⟩⟩
    · exact hrun tid' w t rfl ht
    · exact hauto _ _
    · exact hold tid u hu'
    · exact hcancel u' (hold tid u' hu')

/-- A stretch that neither cancels nor creates a task only moves its own. -/
theorem apply_alone (s : Sys) {tid : TaskId} {t : ServerTask} {r : Stretch}
    (hm : t.mustCancel = false) (hc : r.cancels = none) (hsp : r.spawns = none) :
    s.apply tid t r
      = { s with server := r.server, tasks := s.tasks.set tid { t with pc := r.pc } } := by
  simp [apply, hsp, hc, cancelOther, settle, hm]

theorem apply_self (s : Sys) {tid : TaskId} {t : ServerTask} {r : Stretch}
    (hsp : r.spawns = none) : (s.apply tid t r).tasks tid = some (settle tid t r) := by
  simp only [apply, hsp]
  rw [cancelOther_set, if_pos rfl]

/-! ### Task ids are fresh -/

/-- No task has an id that is still to be given out. -/
def Fresh (s : Sys) : Prop := ∀ tid, s.next ≤ tid → s.tasks tid = none

theorem fresh_boot (tokens : Dict NodeId String) (rows : Dict MatchId MatchRecord)
    (metrics : MetricsStore) : (boot tokens rows metrics).Fresh :=
  fun _ _ => rfl

theorem apply_next (s : Sys) (tid : TaskId) (t : ServerTask) (r : Stretch) :
    (s.apply tid t r).next = if r.spawns.isSome then s.next + 1 else s.next := by
  rw [apply]
  cases r.spawns with
  | none => rfl
  | some delay => rfl

theorem le_apply_next (s : Sys) (tid : TaskId) (t : ServerTask) (r : Stretch) :
    s.next ≤ (s.apply tid t r).next := by
  rw [apply_next]
  split
  · exact Nat.le_succ _
  · exact Nat.le_refl _

theorem Fresh.step {s s' : Sys} {a : Act} (hs : s.Fresh) (h : step P s a = some s') :
    s'.Fresh := by
  intro tid htid
  rcases step_cases h with ⟨c, -, rfl⟩ | ⟨tid', w, t, -, ht, -, rfl⟩
  · have hlt : s.next < tid := htid
    show s.tasks.set s.next c.task tid = none
    rw [Dict.set_of_ne _ (Nat.ne_of_gt hlt)]
    exact hs tid (Nat.le_of_lt hlt)
  · have hnone := hs tid ((le_apply_next s tid' t _).trans htid)
    rw [← Option.not_isSome_iff_eq_none, Option.isSome_iff_exists]
    rintro ⟨u, hu⟩
    rcases apply_tasks hu with ⟨rfl, -⟩ | ⟨rfl, delay, hspawn, -⟩ | ⟨-, u', hu', -⟩
    · rw [ht] at hnone
      cases hnone
    · -- The id of a new task has been given out.
      rw [apply_next, hspawn] at htid
      exact Nat.not_succ_le_self _ htid
    · rw [hu'] at hnone
      cases hnone

end Sys

/-! ### Concrete data

A platform that computes, and matches and registrations to run it on. -/

namespace Sample

def platform : Platform where
  toPrimitives := Primitives.transparent
  parseFloat _ := none
  parseInt _ := none
  realText _ := ""

def config (m : MatchId) (nodes : List NodeId) : MatchConfig where
  durationS := 60
  nodes := nodes.map fun n => ⟨n, "claude", [⟨0, "go"⟩]⟩
  matchId := m
  createdAt := 0

/-- A server that boots with these matches in `LOBBY`. -/
def boot (matches' : List (MatchId × List NodeId)) : Sys :=
  Sys.boot (fun _ => some "token")
    (matches'.foldl (fun d p => d.set p.1 (MatchStore.recordOf (config p.1 p.2))) Dict.empty)
    ⟨[], []⟩

/-- A `REGISTER` of a node from a socket identity, with a public key. -/
def registerFrames (n : NodeId) (identity : Bytes) (ecdhPubkey : Json) : List Frame :=
  [⟨identity, none⟩, ⟨utf8 "REGISTER", none⟩,
    ⟨[], some (.obj [("node_id", .str n), ("token", .str "token"), ("hostname", .str n),
      ("ip", .str "10.0.0.1"), ("ecdh_pubkey", ecdhPubkey)])⟩]

/-- A public key of 32 zero bytes. -/
def ecdhPubkey : Json := .str "AAAAAAAAAAAAAAAAAAAAAAAAAAAAAAAAAAAAAAAAAAA="

def register (n : NodeId) (identity : Bytes) : Act :=
  .call (.receive (registerFrames n identity ecdhPubkey))

/-- Task `tid` runs through `k` stretches at time `wall`. -/
def runs (tid : TaskId) (k : ℕ) (wall : ℚ) : List Act :=
  List.replicate k (.run tid { wall := wall })

/-- Node `n` registers and `m` is started at time 5; its auto-stop task is task 2. -/
def started : List Act :=
  [register "n" [1], .call (.start "m" 30)] ++ runs 0 1 0 ++ runs 1 7 5

end Sample
