/-
The schedulers of a node and their tasks (`node/scheduler.py`, `node/window.py`).

`start` creates one `_fire` task for every entry of the schedule.  A task sleeps,
decrypts its prompt, is suspended while the terminal is being opened and
registers its window; `stop` can run at any point between two of these.

* `Scheduling.step_tracked` — a task that can still run is in `_tasks`, a window
  that is or will be registered is in `_windows`;
* `Scheduling.step_silent` — a scheduler none of whose tasks can run stays so;
* `Scheduling.stop_silences_iff` — what `stop` guarantees from then on, and for
  which match ids.
-/
import AgenticJuggling.NodeResume
import AgenticJuggling.OrderedDict
import AgenticJuggling.Transition

/-- Schedulers are told apart by identity. -/
abbrev SchedulerId := ℕ

/-- An `AgentWindow`: the task that opens it, and its `terminal_id`. -/
structure WindowId where
  scheduler : SchedulerId
  entry : ℕ
  terminalId : String
  deriving DecidableEq

/-- `_registry`. -/
abbrev WindowRegistry := OrderedDict String WindowId

inductive JobPhase
  /-- The task has not run yet. -/
  | created
  /-- In `asyncio.sleep`. -/
  | sleeping
  /-- The sleep is over, but the task has not been resumed. -/
  | due
  /-- In `create_subprocess_exec`. -/
  | opening
  /-- That is done or has failed, but the task has not been resumed. -/
  | spawned (succeeds : Bool)
  | finished
  deriving DecidableEq

/-- A `_fire` task. -/
structure FireJob where
  task : FireTask
  phase : JobPhase := .created
  /-- `cancel` was called: when the task runs next it gets a `CancelledError`. -/
  cancelled : Bool := false

/-- What a task does when it is resumed. -/
inductive Turn
  | ends
  | sleeps
  | fires
  | registers
  deriving DecidableEq

namespace FireJob

/-- `if wait > 0`. -/
def waits (job : FireJob) : Bool :=
  match job.task.wait with
  | .fin wait => decide (0 < wait)
  | .posInf => true
  | _ => false

/-- `none` while there is nothing to resume the task for. -/
def turn (job : FireJob) : Option Turn :=
  if job.cancelled then (if job.phase = .finished then none else some .ends)
  else
    match job.phase with
    | .created => if job.waits then some .sleeps else some .fires
    | .due => some .fires
    | .spawned true => some .registers
    | .spawned false => some .ends
    | _ => none

/-- The task can still do something. -/
def Live (job : FireJob) : Prop := job.phase ≠ .finished ∧ job.cancelled = false

/-- The task has made its window and will register it. -/
def Opening (job : FireJob) : Prop := job.phase = .opening ∨ job.phase = .spawned true

/-- A task that can do nothing is resumed to end. -/
theorem turn_of_not_live {job : FireJob} (h : ¬ job.Live) :
    job.turn = none ∨ job.turn = some .ends := by
  rw [turn]
  by_cases hcancelled : job.cancelled = true
  · rw [if_pos hcancelled]
    split
    · exact .inl rfl
    · exact .inr rfl
  · have hfinished : job.phase = .finished := by
      by_contra hphase
      exact h ⟨hphase, by simpa using hcancelled⟩
    rw [if_neg hcancelled, hfinished]
    exact .inl rfl

theorem live_of_turn {job : FireJob} {turn : Turn} (h : job.turn = some turn)
    (hturn : turn ≠ .ends) : job.Live := by
  by_contra hlive
  obtain hnone | hends := turn_of_not_live hlive
  · rw [h] at hnone
    cases hnone
  · rw [h] at hends
    exact hturn (Option.some.inj hends)

theorem phase_ne_of_turn {job : FireJob} {turn : Turn} (h : job.turn = some turn) :
    job.phase ≠ .finished := by
  intro hfinished
  rw [FireJob.turn, hfinished] at h
  simp at h

/-- Only a window that has been made is registered. -/
theorem opening_of_turn {job : FireJob} (h : job.turn = some .registers) : job.Opening := by
  rw [turn] at h
  split at h
  · split at h
    · cases h
    · cases h
  · split at h
    · split at h
      · cases h
      · cases h
    · cases h
    · next hphase => exact .inr hphase
    · cases h
    · cases h

end FireJob

/-- A `MatchScheduler` and the tasks it has created. -/
structure SchedulerState where
  agentname : Json
  matchId : MatchId
  jobs : List FireJob
  /-- `_tasks`, as positions in `jobs`. -/
  tasks : List ℕ
  /-- `_windows`. -/
  windows : List WindowId

namespace SchedulerState

/-- The task of the `i`-th entry; `none` where the entry raises. -/
def fireTask (matchId : MatchId) (elapsed : PyFloat) (i : ℕ) (entry : Json) : Option FireTask := do
  let delay ← (← entry.get? "delay").asNumber
  let encryptedPrompt ← entry.get? "encrypted_prompt"
  some { delay := delay, wait := MatchScheduler.max0 (delay.sub elapsed),
         terminalId := matchId ++ "-t" ++ toString i, encryptedPrompt := encryptedPrompt }

/-- The tasks the loop of `start` creates, and whether it raises. -/
def createTasks (matchId : MatchId) (elapsed : PyFloat) : ℕ → List Json → List FireTask × Bool
  | _, [] => ([], false)
  | i, entry :: rest =>
    match fireTask matchId elapsed i entry with
    | none => ([], true)
    | some task =>
      (task :: (createTasks matchId elapsed (i + 1) rest).1,
        (createTasks matchId elapsed (i + 1) rest).2)

/-- A scheduler with these tasks. -/
def ofTasks (agentname : Json) (matchId : MatchId) (tasks : List FireTask) : SchedulerState where
  agentname := agentname
  matchId := matchId
  jobs := tasks.map fun task => { task := task }
  tasks := List.range tasks.length
  windows := []

/-- A new scheduler after its `start`, and whether that has raised. -/
def start (agentname : Json) (matchId : MatchId) (t0 schedule : Json) (now : ℚ) :
    SchedulerState × Bool :=
  match t0.asNumber, schedule.items with
  | some t0, some entries =>
    (ofTasks agentname matchId (createTasks matchId ((PyFloat.fin now).sub t0) 0 entries).1,
      (createTasks matchId ((PyFloat.fin now).sub t0) 0 entries).2)
  | _, _ => (ofTasks agentname matchId [], true)

def setPhase (o : SchedulerState) (i : ℕ) (phase : JobPhase) : SchedulerState :=
  { o with jobs := o.jobs.modify i fun job => { job with phase := phase } }

/-- `self._windows.append(window)`. -/
def appendWindow (o : SchedulerState) (window : WindowId) : SchedulerState :=
  { o with windows := o.windows ++ [window] }

/-- What `stop` does to the scheduler; to cancel a finished task has no effect. -/
def stopped (o : SchedulerState) : SchedulerState :=
  { o with
    jobs := o.jobs.mapIdx fun i job =>
      if i ∈ o.tasks ∧ job.phase ≠ .finished then { job with cancelled := true } else job
    tasks := []
    windows := [] }

/-- The tasks are those of the model without suspensions. -/
theorem createTasks_eq_iff {matchId : MatchId} {elapsed : PyFloat} {i : ℕ} {entries : List Json}
    {tasks : List FireTask} : createTasks matchId elapsed i entries = (tasks, false) ↔
      MatchScheduler.fireTasks matchId elapsed i entries = some tasks := by
  induction entries generalizing i tasks with
  | nil =>
    rw [createTasks, MatchScheduler.fireTasks]
    simp [eq_comm]
  | cons entry rest ih =>
    have hfire : MatchScheduler.fireTasks matchId elapsed i (entry :: rest) =
        (fireTask matchId elapsed i entry).bind fun task =>
          (MatchScheduler.fireTasks matchId elapsed (i + 1) rest).map fun tasks => task :: tasks := by
      rw [MatchScheduler.fireTasks, fireTask]
      cases entry.get? "delay" with
      | none => rfl
      | some delay =>
        cases hnumber : delay.asNumber with
        | none => simp [hnumber]
        | some delay =>
          cases entry.get? "encrypted_prompt" with
          | none => simp
          | some encryptedPrompt => simp [hnumber, Option.map_eq_bind]
    rw [createTasks, hfire]
    cases fireTask matchId elapsed i entry with
    | none => simp
    | some task =>
      rw [Option.bind_some, Option.map_eq_some_iff]
      constructor
      · intro h
        obtain ⟨rfl, hraised⟩ := Prod.mk.inj h
        exact ⟨_, ih.mp (Prod.ext rfl hraised), rfl⟩
      · rintro ⟨tasks, htasks, rfl⟩
        rw [ih.mpr htasks]

/-- The scheduler is that of the model without suspensions, where that does not raise. -/
theorem start_eq_of_start {agentname : Json} {matchId : MatchId} {t0 schedule : Json} {now : ℚ}
    {scheduler : MatchScheduler}
    (h : MatchScheduler.start agentname matchId t0 schedule now = some scheduler) :
    start agentname matchId t0 schedule now = (ofTasks agentname matchId scheduler.tasks, false) ∧
      scheduler.matchId = matchId ∧ scheduler.agentname = agentname := by
  simp only [MatchScheduler.start, Option.bind_eq_bind, Option.bind_eq_some_iff] at h
  obtain ⟨number, hnumber, entries, hentries, tasks, htasks, heq⟩ := h
  obtain rfl := Option.some.inj heq
  rw [start, hnumber, hentries]
  dsimp only
  rw [createTasks_eq_iff.mpr htasks]
  exact ⟨rfl, rfl, rfl⟩

theorem start_eq (agentname : Json) (matchId : MatchId) (t0 schedule : Json) (now : ℚ) :
    ∃ tasks, (start agentname matchId t0 schedule now).1 = ofTasks agentname matchId tasks := by
  rw [start]
  split
  · exact ⟨_, rfl⟩
  · exact ⟨[], rfl⟩

/-! ### One scheduler -/

/-- What `stop` relies on: a task that can still do something is in `_tasks`, its
window, once made, in `_windows`. -/
structure Tracked (id : SchedulerId) (o : SchedulerState) : Prop where
  tasks : ∀ i job, o.jobs[i]? = some job → job.Live → i ∈ o.tasks
  windows : ∀ i job, o.jobs[i]? = some job → job.Live → job.Opening →
    ⟨id, i, job.task.terminalId⟩ ∈ o.windows

/-- No task can do anything. -/
def Silent (o : SchedulerState) : Prop :=
  ∀ (i : ℕ) (job : FireJob), o.jobs[i]? = some job → ¬ job.Live

theorem getElem?_setPhase {o : SchedulerState} {i j : ℕ} {phase : JobPhase} {job' : FireJob} :
    (o.setPhase i phase).jobs[j]? = some job' ↔
      ∃ job, o.jobs[j]? = some job ∧ job' = if i = j then { job with phase := phase } else job := by
  rw [setPhase, List.getElem?_modify]
  simp [eq_comm]

theorem tracked_ofTasks (id : SchedulerId) (agentname : Json) (matchId : MatchId)
    (tasks : List FireTask) : (ofTasks agentname matchId tasks).Tracked id where
  tasks i job hjob _ := by
    have hlt := (List.getElem?_eq_some_iff.mp hjob).1
    rw [ofTasks, List.length_map] at hlt
    exact List.mem_range.mpr hlt
  windows i job hjob _ hopening := by
    rw [ofTasks, List.getElem?_map, Option.map_eq_some_iff] at hjob
    obtain ⟨task, -, rfl⟩ := hjob
    simp [FireJob.Opening] at hopening

theorem silent_stopped {id : SchedulerId} {o : SchedulerState} (h : o.Tracked id) :
    o.stopped.Silent := by
  intro i job' hjob hlive
  rw [stopped, List.getElem?_mapIdx, Option.map_eq_some_iff] at hjob
  obtain ⟨job, hjob, rfl⟩ := hjob
  split at hlive
  · simp [FireJob.Live] at hlive
  · next hclear => exact hclear ⟨h.tasks i job hjob hlive, hlive.1⟩

theorem Silent.tracked {o : SchedulerState} (h : o.Silent) (id : SchedulerId) : o.Tracked id where
  tasks i job hjob hlive := absurd hlive (h i job hjob)
  windows i job hjob hlive := absurd hlive (h i job hjob)

theorem Tracked.appendWindow {id : SchedulerId} {o : SchedulerState} (h : o.Tracked id)
    (window : WindowId) : (o.appendWindow window).Tracked id where
  tasks := h.tasks
  windows i job hjob hlive hopening :=
    List.mem_append_left _ (h.windows i job hjob hlive hopening)

/-- A task goes on; if it then has a window to register, that is in `_windows`. -/
theorem Tracked.setPhase {id : SchedulerId} {o : SchedulerState} {i : ℕ} {job : FireJob}
    {phase : JobPhase} (h : o.Tracked id) (hjob : o.jobs[i]? = some job)
    (hphase : job.phase ≠ .finished)
    (hopening : job.cancelled = false → phase = .opening ∨ phase = .spawned true →
      ⟨id, i, job.task.terminalId⟩ ∈ o.windows) : (o.setPhase i phase).Tracked id where
  tasks j job' hjob' hlive := by
    obtain ⟨job₀, hjob₀, rfl⟩ := getElem?_setPhase.mp hjob'
    split at hlive
    · next hij =>
      subst hij
      obtain rfl := Option.some.inj (hjob.symm.trans hjob₀)
      exact h.tasks i job hjob ⟨hphase, hlive.2⟩
    · exact h.tasks j job₀ hjob₀ hlive
  windows j job' hjob' hlive hopening' := by
    obtain ⟨job₀, hjob₀, rfl⟩ := getElem?_setPhase.mp hjob'
    split at hlive
    · next hij =>
      subst hij
      obtain rfl := Option.some.inj (hjob.symm.trans hjob₀)
      rw [if_pos rfl] at hopening' ⊢
      exact hopening hlive.2 hopening'
    · next hij =>
      rw [if_neg hij] at hopening' ⊢
      exact h.windows j job₀ hjob₀ hlive hopening'

theorem Silent.setPhase {o : SchedulerState} {i : ℕ} {job : FireJob} (h : o.Silent)
    (hjob : o.jobs[i]? = some job) (hphase : job.phase ≠ .finished) (phase : JobPhase) :
    (o.setPhase i phase).Silent := by
  intro j job' hjob' hlive
  obtain ⟨job₀, hjob₀, rfl⟩ := getElem?_setPhase.mp hjob'
  split at hlive
  · next hij =>
    subst hij
    obtain rfl := Option.some.inj (hjob.symm.trans hjob₀)
    exact h i job hjob ⟨hphase, hlive.2⟩
  · exact h j job₀ hjob₀ hlive

end SchedulerState

/-- The objects of a node process that schedule its prompts. -/
structure Scheduling where
  crypto : NodeCrypto
  registry : WindowRegistry
  schedulers : Dict SchedulerId SchedulerState

namespace Scheduling

/-- A node before its first `START`. -/
def boot (crypto : NodeCrypto) : Scheduling where
  crypto := crypto
  registry := ∅
  schedulers := Dict.empty

inductive Act
  /-- `unwrap_match_key`. -/
  | unwrap (matchId : MatchId) (encryptedMatchKey : Json)
  /-- A scheduler is made and its `start` called at time `now`. -/
  | start (id : SchedulerId) (agentname : Json) (matchId : MatchId) (t0 schedule : Json) (now : ℚ)
  | stop (id : SchedulerId)
  /-- The sleep of a task ends. -/
  | elapsed (id : SchedulerId) (i : ℕ)
  /-- The call of `create_subprocess_exec` ends. -/
  | spawned (id : SchedulerId) (i : ℕ) (succeeds : Bool)
  /-- A task is resumed; `binds` says whether the window it opens gets its socket. -/
  | resume (id : SchedulerId) (i : ℕ) (binds : Bool)

def put (s : Scheduling) (id : SchedulerId) (o : SchedulerState) : Scheduling :=
  { s with schedulers := s.schedulers.set id o }

/-- `close` of a window. -/
def close (registry : WindowRegistry) (window : WindowId) : WindowRegistry :=
  registry.pop window.terminalId

/-- `stop` of a scheduler.  No window is suspended while it closes. -/
def stop (s : Scheduling) (id : SchedulerId) (o : SchedulerState) : Scheduling where
  crypto := if o.matchId = "" then s.crypto else s.crypto.revokeMatchKey o.matchId
  registry := o.windows.foldl close s.registry
  schedulers := s.schedulers.set id o.stopped

theorem schedulers_put (s : Scheduling) (id id' : SchedulerId) (o : SchedulerState) :
    (s.put id o).schedulers id' = if id' = id then some o else s.schedulers id' :=
  Dict.set_apply s.schedulers id id' o

theorem schedulers_stop (s : Scheduling) (id id' : SchedulerId) (o : SchedulerState) :
    (s.stop id o).schedulers id' = if id' = id then some o.stopped else s.schedulers id' :=
  Dict.set_apply s.schedulers id id' o.stopped

variable (P : Primitives)

/-- `_fire` from its `decrypt_prompt` to the next suspension. -/
def fire (s : Scheduling) (id : SchedulerId) (o : SchedulerState) (i : ℕ) (job : FireJob)
    (binds : Bool) : Scheduling :=
  match job.task.fire P s.crypto o.matchId with
  | none => s.put id (o.setPhase i .finished)
  | some _ =>
    s.put id ((o.appendWindow ⟨id, i, job.task.terminalId⟩).setPhase i
      (if binds then .opening else .finished))

def take (s : Scheduling) (id : SchedulerId) (o : SchedulerState) (i : ℕ) (job : FireJob)
    (binds : Bool) : Turn → Scheduling
  | .ends => s.put id (o.setPhase i .finished)
  | .sleeps => s.put id (o.setPhase i .sleeping)
  | .fires => s.fire P id o i job binds
  | .registers =>
    { s.put id (o.setPhase i .finished) with
      registry := s.registry.set job.task.terminalId ⟨id, i, job.task.terminalId⟩ }

/-- The scheduler and one of its tasks. -/
def job (s : Scheduling) (id : SchedulerId) (i : ℕ) : Option (SchedulerState × FireJob) := do
  let o ← s.schedulers id
  let job ← o.jobs[i]?
  some (o, job)

def step (s : Scheduling) : Act → Option Scheduling
  | .unwrap matchId encryptedMatchKey =>
    (s.crypto.unwrapMatchKey P matchId encryptedMatchKey).map fun crypto =>
      { s with crypto := crypto }
  | .start id agentname matchId t0 schedule now =>
    if s.schedulers id = none then
      some (s.put id (SchedulerState.start agentname matchId t0 schedule now).1)
    else none
  | .stop id => (s.schedulers id).map fun o => s.stop id o
  | .elapsed id i => do
    let (o, job) ← s.job id i
    if job.phase = .sleeping then some (s.put id (o.setPhase i .due)) else none
  | .spawned id i succeeds => do
    let (o, job) ← s.job id i
    if job.phase = .opening then some (s.put id (o.setPhase i (.spawned succeeds))) else none
  | .resume id i binds => do
    let (o, job) ← s.job id i
    let turn ← job.turn
    some (s.take P id o i job binds turn)

/-- The scheduler that calls `decrypt_prompt`. -/
def fired (s : Scheduling) : Act → List SchedulerId
  | .resume id i _ =>
    match s.job id i with
    | none => []
    | some (_, job) => if job.turn = some .fires then [id] else []
  | _ => []

/-! ### One step -/

theorem job_eq_some {s : Scheduling} {id : SchedulerId} {i : ℕ} {o : SchedulerState}
    {job : FireJob} : s.job id i = some (o, job) ↔
      s.schedulers id = some o ∧ o.jobs[i]? = some job := by
  rw [Scheduling.job]
  cases s.schedulers id with
  | none => simp
  | some o' =>
    cases hjob : o'.jobs[i]? with
    | none => simp [hjob]; rintro rfl; simp [hjob]
    | some job' => simp [hjob]; rintro rfl; simp [hjob]

/-- What one step can do to the schedulers and the registry. -/
inductive Effect (s : Scheduling) : Scheduling → Prop
  | unwraps (crypto : NodeCrypto) : Effect s { s with crypto := crypto }
  | starts {id : SchedulerId} (agentname : Json) (matchId : MatchId) (tasks : List FireTask)
      (hnew : s.schedulers id = none) : Effect s (s.put id (.ofTasks agentname matchId tasks))
  | stops {id : SchedulerId} {o : SchedulerState} (ho : s.schedulers id = some o) :
      Effect s (s.stop id o)
  /-- A task goes on, without a new window. -/
  | proceeds {id : SchedulerId} {i : ℕ} {o : SchedulerState} {job : FireJob}
      (hjob : s.job id i = some (o, job)) (hphase : job.phase ≠ .finished) (phase : JobPhase)
      (hopening : phase = .opening ∨ phase = .spawned true → job.Opening) :
      Effect s (s.put id (o.setPhase i phase))
  /-- A task has made its window. -/
  | opens {id : SchedulerId} {i : ℕ} {o : SchedulerState} {job : FireJob}
      (hjob : s.job id i = some (o, job)) (hlive : job.Live) (phase : JobPhase) :
      Effect s
        (s.put id ((o.appendWindow ⟨id, i, job.task.terminalId⟩).setPhase i phase))
  /-- A task registers its window. -/
  | registers {id : SchedulerId} {i : ℕ} {o : SchedulerState} {job : FireJob}
      (hjob : s.job id i = some (o, job)) (hlive : job.Live) (hopening : job.Opening) :
      Effect s { s.put id (o.setPhase i .finished) with
        registry := s.registry.set job.task.terminalId ⟨id, i, job.task.terminalId⟩ }

variable {P}

theorem take_effect {s : Scheduling} {id : SchedulerId} {i : ℕ} {o : SchedulerState}
    {job : FireJob} {turn : Turn} (hjob : s.job id i = some (o, job)) (hturn : job.turn = some turn)
    (binds : Bool) : Effect s (s.take P id o i job binds turn) := by
  have hphase := FireJob.phase_ne_of_turn hturn
  cases turn with
  | ends => exact .proceeds hjob hphase .finished (by simp)
  | sleeps => exact .proceeds hjob hphase .sleeping (by simp)
  | fires =>
    rw [take, fire]
    split
    · exact .proceeds hjob hphase .finished (by simp)
    · exact .opens hjob (FireJob.live_of_turn hturn (by simp)) _
  | registers =>
    exact .registers hjob (FireJob.live_of_turn hturn (by simp)) (FireJob.opening_of_turn hturn)

/-- **What a step can do.** -/
theorem step_effect {s s' : Scheduling} {a : Act} (h : s.step P a = some s') : Effect s s' := by
  cases a with
  | unwrap matchId encryptedMatchKey =>
    obtain ⟨crypto, -, rfl⟩ := Option.map_eq_some_iff.mp h
    exact .unwraps crypto
  | start id agentname matchId t0 schedule now =>
    rw [step] at h
    split at h
    · next hnew =>
      obtain rfl := Option.some.inj h
      obtain ⟨tasks, htasks⟩ := SchedulerState.start_eq agentname matchId t0 schedule now
      rw [htasks]
      exact .starts agentname matchId tasks hnew
    · cases h
  | stop id =>
    obtain ⟨o, ho, rfl⟩ := Option.map_eq_some_iff.mp h
    exact .stops ho
  | elapsed id i =>
    obtain ⟨⟨o, job⟩, hjob, h⟩ := Option.bind_eq_some_iff.mp h
    dsimp only at h
    split at h
    · next hphase =>
      obtain rfl := Option.some.inj h
      exact .proceeds hjob (by simp [hphase]) .due (by simp)
    · cases h
  | spawned id i succeeds =>
    obtain ⟨⟨o, job⟩, hjob, h⟩ := Option.bind_eq_some_iff.mp h
    dsimp only at h
    split at h
    · next hphase =>
      obtain rfl := Option.some.inj h
      exact .proceeds hjob (by simp [hphase]) (.spawned succeeds) fun _ => .inl hphase
    · cases h
  | resume id i binds =>
    obtain ⟨⟨o, job⟩, hjob, h⟩ := Option.bind_eq_some_iff.mp h
    obtain ⟨turn, hturn, h⟩ := Option.bind_eq_some_iff.mp h
    obtain rfl := Option.some.inj h
    exact take_effect hjob hturn binds

/-- A step of a task, not of the handlers. -/
def Act.IsTask : Act → Prop
  | .elapsed _ _ => True
  | .spawned _ _ _ => True
  | .resume _ _ _ => True
  | _ => False

instance : ∀ a : Act, Decidable a.IsTask
  | .elapsed _ _ => .isTrue trivial
  | .spawned _ _ _ => .isTrue trivial
  | .resume _ _ _ => .isTrue trivial
  | .unwrap _ _ => .isFalse id
  | .start _ _ _ _ _ _ => .isFalse id
  | .stop _ => .isFalse id

theorem matchId_put {s : Scheduling} {id : SchedulerId} {o o' : SchedulerState}
    (ho : s.schedulers id = some o) (hmatch : o'.matchId = o.matchId) (id' : SchedulerId) :
    ((s.put id o').schedulers id').map SchedulerState.matchId =
      (s.schedulers id').map SchedulerState.matchId := by
  rw [schedulers_put]
  split
  · next hid => rw [hid, ho, Option.map_some, Option.map_some, hmatch]
  · rfl

/-- What no task changes: the keys, the schedulers there are and their matches. -/
theorem step_task {s s' : Scheduling} {a : Act} (ha : a.IsTask) (h : s.step P a = some s') :
    s'.crypto = s.crypto ∧ ∀ id, (s'.schedulers id).map SchedulerState.matchId =
      (s.schedulers id).map SchedulerState.matchId := by
  cases a with
  | unwrap matchId encryptedMatchKey => exact ha.elim
  | start id agentname matchId t0 schedule now => exact ha.elim
  | stop id => exact ha.elim
  | elapsed id i =>
    obtain ⟨⟨o, job⟩, hjob, h⟩ := Option.bind_eq_some_iff.mp h
    dsimp only at h
    split at h
    · obtain rfl := Option.some.inj h
      exact ⟨rfl, matchId_put (job_eq_some.mp hjob).1 rfl⟩
    · cases h
  | spawned id i succeeds =>
    obtain ⟨⟨o, job⟩, hjob, h⟩ := Option.bind_eq_some_iff.mp h
    dsimp only at h
    split at h
    · obtain rfl := Option.some.inj h
      exact ⟨rfl, matchId_put (job_eq_some.mp hjob).1 rfl⟩
    · cases h
  | resume id i binds =>
    obtain ⟨⟨o, job⟩, hjob, h⟩ := Option.bind_eq_some_iff.mp h
    obtain ⟨turn, -, h⟩ := Option.bind_eq_some_iff.mp h
    obtain rfl := Option.some.inj h
    have ho := (job_eq_some.mp hjob).1
    cases turn with
    | ends => exact ⟨rfl, matchId_put ho rfl⟩
    | sleeps => exact ⟨rfl, matchId_put ho rfl⟩
    | fires =>
      rw [take, fire]
      split
      · exact ⟨rfl, matchId_put ho rfl⟩
      · exact ⟨rfl, matchId_put ho rfl⟩
    | registers => exact ⟨rfl, matchId_put ho rfl⟩

/-! ### What stays true -/

/-- What `stop` relies on, of every scheduler and every window. -/
structure Tracked (s : Scheduling) : Prop where
  schedulers : ∀ id o, s.schedulers id = some o → o.Tracked id
  registry : ∀ terminalId window, s.registry.lookup terminalId = some window →
    window.terminalId = terminalId ∧
      ∃ o, s.schedulers window.scheduler = some o ∧ window ∈ o.windows

theorem tracked_boot (crypto : NodeCrypto) : (boot crypto).Tracked where
  schedulers id o h := by cases h
  registry terminalId window h := by cases h

/-- A scheduler is replaced by one that has its windows. -/
theorem Tracked.put {s : Scheduling} {id : SchedulerId} {o : SchedulerState} (h : s.Tracked)
    (ho : o.Tracked id)
    (hwindows : ∀ o₀, s.schedulers id = some o₀ → ∀ window ∈ o₀.windows, window ∈ o.windows) :
    (s.put id o).Tracked where
  schedulers id' o' h' := by
    rw [schedulers_put] at h'
    split at h'
    · next hid =>
      subst hid
      obtain rfl := Option.some.inj h'
      exact ho
    · exact h.schedulers id' o' h'
  registry terminalId window hwindow := by
    obtain ⟨hterminal, o₀, ho₀, hmem⟩ := h.registry terminalId window hwindow
    refine ⟨hterminal, ?_⟩
    rw [schedulers_put]
    split
    · next hid =>
      subst hid
      exact ⟨o, rfl, hwindows o₀ ho₀ window hmem⟩
    · exact ⟨o₀, ho₀, hmem⟩

/-- A window that is in `_windows` is registered. -/
theorem Tracked.register {s : Scheduling} {o : SchedulerState} (h : s.Tracked) (window : WindowId)
    (ho : s.schedulers window.scheduler = some o) (hwindow : window ∈ o.windows) :
    Tracked { s with registry := s.registry.set window.terminalId window } where
  schedulers := h.schedulers
  registry terminalId window' h' := by
    rw [OrderedDict.lookup_set] at h'
    split at h'
    · next hid =>
      obtain rfl := Option.some.inj h'
      exact ⟨hid.symm, o, ho, hwindow⟩
    · exact h.registry terminalId window' h'

/-- Closing windows removes the entries of their terminals. -/
theorem lookup_foldl_close {windows : List WindowId} {registry : WindowRegistry}
    {terminalId : String} {window : WindowId}
    (h : (windows.foldl close registry).lookup terminalId = some window) :
    registry.lookup terminalId = some window ∧ ∀ w ∈ windows, w.terminalId ≠ terminalId := by
  induction windows generalizing registry with
  | nil => exact ⟨h, by simp⟩
  | cons w windows ih =>
    obtain ⟨hlookup, hne⟩ := ih h
    rw [close, OrderedDict.lookup_pop] at hlookup
    split at hlookup
    · cases hlookup
    · next hid =>
      refine ⟨hlookup, fun w' hw' => ?_⟩
      obtain rfl | hw' := List.mem_cons.mp hw'
      · exact Ne.symm hid
      · exact hne w' hw'

/-- After `stop` no window of the scheduler is registered. -/
theorem lookup_stop {s : Scheduling} {id : SchedulerId} {o : SchedulerState} (h : s.Tracked)
    (ho : s.schedulers id = some o) {terminalId : String} {window : WindowId}
    (hwindow : (s.stop id o).registry.lookup terminalId = some window) :
    s.registry.lookup terminalId = some window ∧ window.scheduler ≠ id := by
  obtain ⟨hlookup, hclosed⟩ := lookup_foldl_close hwindow
  refine ⟨hlookup, fun hid => ?_⟩
  obtain ⟨hterminal, o', ho', hmem⟩ := h.registry terminalId window hlookup
  rw [hid, ho] at ho'
  obtain rfl := Option.some.inj ho'
  exact hclosed window hmem hterminal

theorem Tracked.stop {s : Scheduling} {id : SchedulerId} {o : SchedulerState} (h : s.Tracked)
    (ho : s.schedulers id = some o) : (s.stop id o).Tracked where
  schedulers id' o' h' := by
    rw [schedulers_stop] at h'
    split at h'
    · next hid =>
      subst hid
      obtain rfl := Option.some.inj h'
      exact (SchedulerState.silent_stopped (h.schedulers id' o ho)).tracked id'
    · exact h.schedulers id' o' h'
  registry terminalId window hwindow := by
    obtain ⟨hlookup, hne⟩ := lookup_stop h ho hwindow
    obtain ⟨hterminal, o', ho', hmem⟩ := h.registry terminalId window hlookup
    refine ⟨hterminal, o', ?_, hmem⟩
    rw [schedulers_stop, if_neg hne]
    exact ho'

theorem Effect.tracked {s s' : Scheduling} (h : Effect s s') (hs : s.Tracked) : s'.Tracked := by
  cases h with
  | unwraps crypto => exact ⟨hs.schedulers, hs.registry⟩
  | starts agentname matchId tasks hnew =>
    refine hs.put (SchedulerState.tracked_ofTasks _ agentname matchId tasks) fun o ho => ?_
    rw [hnew] at ho
    cases ho
  | stops ho => exact hs.stop ho
  | proceeds hjob hphase phase hopening =>
    obtain ⟨ho, hjob⟩ := job_eq_some.mp hjob
    have ho' := hs.schedulers _ _ ho
    -- Only the phase of a task changes; `_windows` stays.
    refine hs.put (ho'.setPhase hjob hphase fun hcancelled hnext => ?_) fun o₀ ho₀ window hw => ?_
    · exact ho'.windows _ _ hjob ⟨hphase, hcancelled⟩ (hopening hnext)
    · obtain rfl := Option.some.inj (ho.symm.trans ho₀)
      exact hw
  | opens hjob hlive phase =>
    obtain ⟨ho, hjob⟩ := job_eq_some.mp hjob
    have ho' := hs.schedulers _ _ ho
    refine hs.put ((ho'.appendWindow _).setPhase hjob hlive.1 fun _ _ => ?_)
      fun o₀ ho₀ window hw => ?_
    · exact List.mem_append_right _ List.mem_cons_self
    · obtain rfl := Option.some.inj (ho.symm.trans ho₀)
      exact List.mem_append_left _ hw
  | @registers id i o job hjob hlive hopening =>
    obtain ⟨ho, hjob⟩ := job_eq_some.mp hjob
    have ho' := hs.schedulers id o ho
    have hfinished : (o.setPhase i .finished).Tracked id :=
      ho'.setPhase hjob hlive.1 (by simp)
    have hput : (s.put id (o.setPhase i .finished)).Tracked := by
      refine hs.put hfinished fun o₀ ho₀ window hw => ?_
      obtain rfl := Option.some.inj (ho.symm.trans ho₀)
      exact hw
    -- The window has been in `_windows` since before its bridge was up.
    refine hput.register ⟨id, i, job.task.terminalId⟩ (o := o.setPhase i .finished) ?_
      (ho'.windows i job hjob hlive hopening)
    rw [schedulers_put, if_pos rfl]

theorem step_tracked {s s' : Scheduling} {a : Act} (hs : s.Tracked) (h : s.step P a = some s') :
    s'.Tracked := (step_effect h).tracked hs

/-- No task of the scheduler can do anything. -/
def Muted (id : SchedulerId) (s : Scheduling) : Prop :=
  ∃ o, s.schedulers id = some o ∧ o.Silent

/-- Besides, none of its windows is registered. -/
structure Silent (id : SchedulerId) (s : Scheduling) : Prop where
  muted : s.Muted id
  registry : ∀ terminalId window, s.registry.lookup terminalId = some window →
    window.scheduler ≠ id

/-- **`stop` silences the scheduler.** -/
theorem Tracked.silent_stop {s : Scheduling} {id : SchedulerId} {o : SchedulerState}
    (h : s.Tracked) (ho : s.schedulers id = some o) : (s.stop id o).Silent id where
  muted := by
    refine ⟨o.stopped, ?_, SchedulerState.silent_stopped (h.schedulers id o ho)⟩
    rw [schedulers_stop, if_pos rfl]
  registry _ _ hwindow := (lookup_stop h ho hwindow).2

theorem Muted.put {s : Scheduling} {id id' : SchedulerId} {o : SchedulerState} (h : s.Muted id)
    (ho : id' = id → o.Silent) : (s.put id' o).Muted id := by
  rw [Muted, schedulers_put]
  split
  · next hid => exact ⟨o, rfl, ho hid.symm⟩
  · exact h

theorem Muted.silent {s : Scheduling} {id : SchedulerId} {o : SchedulerState} (h : s.Muted id)
    (ho : s.schedulers id = some o) : o.Silent := by
  obtain ⟨o', ho', hsilent⟩ := h
  obtain rfl := Option.some.inj (ho.symm.trans ho')
  exact hsilent

/-- A live task belongs to another scheduler. -/
theorem Muted.ne_of_live {s : Scheduling} {id id' : SchedulerId} {i : ℕ} {o : SchedulerState}
    {job : FireJob} (h : s.Muted id) (hjob : s.job id' i = some (o, job)) (hlive : job.Live) :
    id' ≠ id := by
  rintro rfl
  obtain ⟨ho, hjob⟩ := job_eq_some.mp hjob
  exact h.silent ho i job hjob hlive

theorem Effect.muted {s s' : Scheduling} {id : SchedulerId} (h : Effect s s') (hs : s.Muted id) :
    s'.Muted id := by
  have hs' := hs
  obtain ⟨o₀, ho₀, hsilent⟩ := hs'
  cases h with
  | unwraps crypto => exact hs
  | starts agentname matchId tasks hnew =>
    refine hs.put ?_
    rintro rfl
    rw [hnew] at ho₀
    cases ho₀
  | @stops id' o ho =>
    rw [Muted, schedulers_stop]
    split
    · next hid =>
      subst hid
      obtain rfl := Option.some.inj (ho₀.symm.trans ho)
      exact ⟨o₀.stopped, rfl, SchedulerState.silent_stopped (hsilent.tracked id)⟩
    · exact hs
  | proceeds hjob hphase phase hopening =>
    obtain ⟨ho, hjob⟩ := job_eq_some.mp hjob
    refine hs.put ?_
    rintro rfl
    obtain rfl := Option.some.inj (ho₀.symm.trans ho)
    exact hsilent.setPhase hjob hphase phase
  | opens hjob hlive phase => exact hs.put fun hid => absurd hid (hs.ne_of_live hjob hlive)
  | registers hjob hlive hopening =>
    exact hs.put fun hid => absurd hid (hs.ne_of_live hjob hlive)

theorem Effect.silent {s s' : Scheduling} {id : SchedulerId} (h : Effect s s')
    (hs : s.Silent id) : s'.Silent id := by
  refine ⟨h.muted hs.muted, ?_⟩
  cases h with
  | unwraps crypto => exact hs.registry
  | starts agentname matchId tasks hnew => exact hs.registry
  | stops ho =>
    exact fun terminalId window hwindow =>
      hs.registry terminalId window (lookup_foldl_close hwindow).1
  | proceeds hjob hphase phase hopening => exact hs.registry
  | opens hjob hlive phase => exact hs.registry
  | registers hjob hlive hopening =>
    intro terminalId window hwindow
    rw [OrderedDict.lookup_set] at hwindow
    split at hwindow
    · obtain rfl := Option.some.inj hwindow
      exact hs.muted.ne_of_live hjob hlive
    · exact hs.registry terminalId window hwindow

open Relation in
theorem Effect.tracked_of_chain {s s' : Scheduling} (h : ReflTransGen Effect s s')
    (hs : s.Tracked) : s'.Tracked := by
  induction h with
  | refl => exact hs
  | tail _ heffect ih => exact heffect.tracked ih

open Relation in
theorem Effect.muted_of_chain {s s' : Scheduling} {id : SchedulerId} (h : ReflTransGen Effect s s')
    (hs : s.Muted id) : s'.Muted id := by
  induction h with
  | refl => exact hs
  | tail _ heffect ih => exact heffect.muted ih

theorem step_muted {s s' : Scheduling} {id : SchedulerId} {a : Act} (hs : s.Muted id)
    (h : s.step P a = some s') : s'.Muted id := (step_effect h).muted hs

theorem step_silent {s s' : Scheduling} {id : SchedulerId} {a : Act} (hs : s.Silent id)
    (h : s.step P a = some s') : s'.Silent id := (step_effect h).silent hs

/-- A muted scheduler decrypts nothing. -/
theorem Muted.not_fired {s : Scheduling} {id : SchedulerId} (hs : s.Muted id) (a : Act) :
    id ∉ s.fired a := by
  intro hmem
  cases a with
  | resume id' i binds =>
    rw [fired] at hmem
    split at hmem
    · exact absurd hmem List.not_mem_nil
    · next hjob =>
      split at hmem
      · next hturn =>
        obtain rfl := List.mem_singleton.mp hmem
        exact hs.ne_of_live hjob (FireJob.live_of_turn hturn (by simp)) rfl
      · exact absurd hmem List.not_mem_nil
  | unwrap matchId encryptedMatchKey => exact absurd hmem List.not_mem_nil
  | start id' agentname matchId t0 schedule now => exact absurd hmem List.not_mem_nil
  | stop id' => exact absurd hmem List.not_mem_nil
  | elapsed id' i => exact absurd hmem List.not_mem_nil
  | spawned id' i succeeds => exact absurd hmem List.not_mem_nil

/-! ### Runs -/

theorem run_tracked {crypto : NodeCrypto} {as : List Act} {s : Scheduling}
    (h : Transition.run (step P) (boot crypto) as = some s) : s.Tracked :=
  Transition.invariant_of_run (I := Tracked) (fun _ _ _ hs hstep => step_tracked hs hstep)
    (tracked_boot crypto) h

/-- Whatever follows, a silent scheduler decrypts nothing and registers nothing. -/
theorem run_silent {s t : Scheduling} {id : SchedulerId} {as : List Act} (hs : s.Silent id)
    (h : Transition.run (step P) s as = some t) :
    t.Silent id ∧ id ∉ Transition.observed (step P) fired s as := by
  have hinvariant := Transition.invariant_of_observed
    (I := fun (t : Scheduling) seen => t.Silent id ∧ id ∉ seen)
    (fun s seen a s' hs hstep => by
      refine ⟨step_silent hs.1 hstep, fun hmem => ?_⟩
      obtain hold | hnew := List.mem_append.mp hmem
      · exact hs.2 hold
      · exact hs.1.muted.not_fired a hnew)
    ⟨hs, List.not_mem_nil⟩ h
  rwa [List.nil_append] at hinvariant

theorem matchKeys_stop (s : Scheduling) (id : SchedulerId) (o : SchedulerState) :
    (s.stop id o).crypto.matchKeys o.matchId = none ↔
      o.matchId ≠ "" ∨ s.crypto.matchKeys o.matchId = none := by
  rw [stop]
  by_cases hempty : o.matchId = ""
  · rw [if_pos hempty]
    simp [hempty]
  · rw [if_neg hempty]
    simp [hempty, NodeCrypto.revokeMatchKey]

/-- **What `stop` guarantees.**  Wherever the tasks of the scheduler are when it is
stopped, it never decrypts a prompt again, and none of its windows is in the
registry or enters it; its match key is gone too just if its match id is not the
empty string or there was no key. -/
theorem stop_silences_iff {crypto : NodeCrypto} {as : List Act} {s t : Scheduling}
    {id : SchedulerId} {o : SchedulerState}
    (hrun : Transition.run (step P) (boot crypto) as = some s) (ho : s.schedulers id = some o)
    (hstop : s.step P (.stop id) = some t) :
    ((∀ bs u, Transition.run (step P) t bs = some u →
        id ∉ Transition.observed (step P) fired t bs ∧
          ∀ terminalId window, u.registry.lookup terminalId = some window →
            window.scheduler ≠ id) ∧
      t.crypto.matchKeys o.matchId = none) ↔
        o.matchId ≠ "" ∨ s.crypto.matchKeys o.matchId = none := by
  obtain ⟨o', ho', rfl⟩ := Option.map_eq_some_iff.mp hstop
  obtain rfl := Option.some.inj (ho.symm.trans ho')
  rw [matchKeys_stop]
  refine and_iff_right fun bs u hu => ?_
  obtain ⟨hsilent, hfired⟩ := run_silent ((run_tracked hrun).silent_stop ho) hu
  exact ⟨hfired, hsilent.registry⟩

/-- The match key `[7]`, wrapped for the node of `NodeProcess.sample`. -/
def sampleKey : Json := .str (Primitives.transparent.sealBlob [1] Nonce.zero [7] none)

/-- A match with two prompts: one is being opened, the other one sleeps. -/
def sampleRun : List Act :=
  [.unwrap "m" sampleKey,
    .start 0 (.str "claude") "m" (.int 5)
      (.arr [NodeProcess.sampleEntry 0 "go", NodeProcess.sampleEntry 9 "on"]) 5,
    .resume 0 0 true, .resume 0 1 true]

theorem stop_silences_opening : ∃ s t,
    Transition.run (step Primitives.transparent) (boot NodeProcess.sample.crypto) sampleRun
        = some s ∧
      s.step Primitives.transparent (.stop 0) = some t ∧
      (∀ bs u, Transition.run (step Primitives.transparent) t bs = some u →
        0 ∉ Transition.observed (step Primitives.transparent) fired t bs ∧
          ∀ terminalId window, u.registry.lookup terminalId = some window →
            window.scheduler ≠ 0) ∧
      t.crypto.matchKeys "m" = none := by
  obtain ⟨s, hs, hmatch⟩ := Option.map_eq_some_iff.mp
    (show (Transition.run (step Primitives.transparent) (boot NodeProcess.sample.crypto)
      sampleRun).map (fun s => (s.schedulers 0).map SchedulerState.matchId) = some (some "m") by
        decide +kernel)
  obtain ⟨o, ho, hmatch⟩ := Option.map_eq_some_iff.mp hmatch
  have hstop : s.step Primitives.transparent (.stop 0) = some (s.stop 0 o) := by
    rw [step, ho, Option.map_some]
  have hsilences := (stop_silences_iff hs ho hstop).mpr (.inl (by rw [hmatch]; decide))
  rw [hmatch] at hsilences
  exact ⟨s, s.stop 0 o, hs, hstop, hsilences⟩

/-- **A match whose id is the empty string.**  Its key outlives `stop`. -/
theorem stop_keeps_key :
    (Transition.run (step Primitives.transparent) (boot NodeProcess.sample.crypto)
      [.unwrap "" sampleKey, .start 0 (.str "claude") "" (.int 5) (.arr []) 5, .stop 0]).map
        (fun s => s.crypto.matchKeys "") = some (some [7]) := by
  decide +kernel

end Scheduling
