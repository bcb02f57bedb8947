/-
A schedule that is left alone (`_fire` of `node/scheduler.py`).

Between a `START` and the `STOP` of its match the tasks of a schedule interleave with
one another and with all else that happens.  None of this can take a prompt from a
task, make it fire twice, or leave it where it cannot go on.

* `Scheduling.task_cases` — what one step of a task does;
* `NodeMain.onCourse_run` — every entry has been fed once, or its task still waits;
* `Deployment.prompts_delivered` — the same in every run of a deployment, and how few
  steps a task that waits is away from its prompt.
-/
import AgenticJuggling.Acceptance
import AgenticJuggling.Parts
import AgenticJuggling.PromptLedger

open Transition

/-- A prompt that a task hands to its window. -/
structure Firing where
  scheduler : SchedulerId
  entry : ℕ
  prompt : String
  deriving DecidableEq

/-- The prompts that entry `i` of scheduler `id` has handed over. -/
def Firing.promptsOf (id : SchedulerId) (i : ℕ) (seen : List Firing) : List String :=
  seen.filterMap fun x => if x.scheduler = id ∧ x.entry = i then some x.prompt else none

namespace FireJob

/-- What becomes of a task in a step of its own, and the prompt it hands over. -/
inductive Moves (P : Primitives) (crypto : NodeCrypto) (m : MatchId) (job : FireJob) :
    JobPhase → Option String → Prop
  | elapses (hphase : job.phase = .sleeping) : Moves P crypto m job .due none
  | spawns (succeeds : Bool) (hphase : job.phase = .opening) :
      Moves P crypto m job (.spawned succeeds) none
  | ends (hturn : job.turn = some .ends) : Moves P crypto m job .finished none
  | sleeps (hturn : job.turn = some .sleeps) : Moves P crypto m job .sleeping none
  | fails (hturn : job.turn = some .fires) (hfire : job.task.fire P crypto m = none) :
      Moves P crypto m job .finished none
  | fires (prompt : String) (phase : JobPhase) (hturn : job.turn = some .fires)
      (hfire : job.task.fire P crypto m = some prompt)
      (hphase : phase = .opening ∨ phase = .finished) : Moves P crypto m job phase (some prompt)
  | registers (hturn : job.turn = some .registers) : Moves P crypto m job .finished none

/-- The task of `entry` has fed its prompt once, or not yet and still will. -/
structure OnCourse (P : Primitives) (crypto : NodeCrypto) (m : MatchId) (elapsed : ℚ)
    (entry : PromptEntry) (prompts : List String) (job : FireJob) : Prop where
  live : job.cancelled = false
  task : Fires P crypto m elapsed job.task entry
  fed : job.awaits = true ∧ prompts = [] ∨ job.awaits = false ∧ prompts = [entry.prompt]

variable {P : Primitives} {crypto : NodeCrypto} {m : MatchId}

theorem awaits_iff {job : FireJob} (h : job.cancelled = false) : job.awaits = true ↔
    job.phase = .created ∨ job.phase = .sleeping ∨ job.phase = .due := by
  rw [awaits_eq_true]
  exact and_iff_right h

theorem phase_of_ends {job : FireJob} (h : job.cancelled = false) (hturn : job.turn = some .ends) :
    job.phase = .spawned false := by
  rw [turn, h, if_neg Bool.false_ne_true] at hturn
  split at hturn
  · split at hturn
    · cases hturn
    · cases hturn
  · cases hturn
  · cases hturn
  · assumption
  · cases hturn

/-- **A step of its own keeps a task on course.** -/
theorem OnCourse.moves {elapsed : ℚ} {entry : PromptEntry} {prompts : List String} {job : FireJob}
    (h : job.OnCourse P crypto m elapsed entry prompts) {phase : JobPhase} {prompt : Option String}
    (hmoves : job.Moves P crypto m phase prompt) :
    ({ job with phase := phase } : FireJob).OnCourse P crypto m elapsed entry
      (prompts ++ prompt.toList) := by
  refine ⟨h.live, h.task, ?_⟩
  have hbefore := awaits_iff h.live
  have hafter : ({ job with phase := phase } : FireJob).awaits = true ↔
      phase = .created ∨ phase = .sleeping ∨ phase = .due := awaits_iff h.live
  -- A task that hands nothing over awaits afterwards if it did before.
  have hkept : (({ job with phase := phase } : FireJob).awaits = true ↔ job.awaits = true) →
      prompt = none → ({ job with phase := phase } : FireJob).awaits = true ∧
        prompts ++ prompt.toList = [] ∨ ({ job with phase := phase } : FireJob).awaits = false ∧
        prompts ++ prompt.toList = [entry.prompt] := by
    rintro hiff rfl
    rw [Option.toList_none, List.append_nil, Bool.eq_iff_iff.mpr hiff]
    exact h.fed
  cases hmoves with
  | elapses hphase => exact hkept (by rw [hafter, hbefore]; simp [hphase]) rfl
  | spawns succeeds hphase => exact hkept (by rw [hafter, hbefore]; simp [hphase]) rfl
  | ends hturn =>
    have hphase := phase_of_ends h.live hturn
    exact hkept (by rw [hafter, hbefore]; simp [hphase]) rfl
  | sleeps hturn => exact hkept (by rw [hafter]; simp [awaits_of_sleeps hturn]) rfl
  | fails hturn hfire =>
    rw [h.task.prompt] at hfire
    cases hfire
  | fires text _ hturn hfire hphase =>
    rw [h.task.prompt] at hfire
    obtain rfl := Option.some.inj hfire
    obtain ⟨-, hnone⟩ | ⟨hfalse, -⟩ := h.fed
    · refine .inr ⟨?_, by rw [hnone]; rfl⟩
      rw [Bool.eq_false_iff, ne_eq, hafter]
      obtain rfl | rfl := hphase
      · simp
      · simp
    · rw [awaits_of_fires hturn] at hfalse
      cases hfalse
  | registers hturn =>
    have hopening := opening_of_turn hturn
    refine hkept ?_ rfl
    rw [hafter, hbefore]
    obtain hphase | hphase := hopening
    · simp [hphase]
    · simp [hphase]

/-- Only the key of its match matters to a task. -/
theorem OnCourse.of_key {crypto' : NodeCrypto}
    (hkey : crypto'.matchKeys m = crypto.matchKeys m) {elapsed : ℚ} {entry : PromptEntry}
    {prompts : List String} {job : FireJob} (h : job.OnCourse P crypto m elapsed entry prompts) :
    job.OnCourse P crypto' m elapsed entry prompts := by
  refine ⟨h.live, ⟨h.task.delay, h.task.wait, ?_⟩, h.fed⟩
  rw [← h.task.prompt, FireTask.fire, FireTask.fire, NodeCrypto.decryptPrompt, hkey]
  rfl

end FireJob

namespace Scheduling

variable (P : Primitives)

/-- The prompts that a step of a task hands over. -/
def firings (s : Scheduling) : Act → List Firing
  | .resume id i _ =>
    match s.job id i with
    | none => []
    | some (o, job) =>
      if job.turn = some .fires then
        (job.task.fire P s.crypto o.matchId).toList.map fun prompt => ⟨id, i, prompt⟩
      else []
  | _ => []

variable {P}

/-- **What one step of a task does**: it moves one job on, and hands over a prompt or
nothing. -/
theorem task_cases {s s' : Scheduling} {a : Act} (ha : a.IsTask) (h : s.step P a = some s') :
    ∃ id i o job phase prompt windows, s.job id i = some (o, job) ∧
      job.Moves P s.crypto o.matchId phase prompt ∧
      s.firings P a = prompt.toList.map (⟨id, i, ·⟩) ∧ s'.crypto = s.crypto ∧
      ∀ id', s'.schedulers id' =
        if id' = id then some { o.setPhase i phase with windows := windows }
        else s.schedulers id' := by
  cases a with
  | unwrap matchId encryptedMatchKey => exact ha.elim
  | start id agentname matchId t0 schedule now => exact ha.elim
  | stop id => exact ha.elim
  | elapsed id i =>
    obtain ⟨⟨o, job⟩, hjob, h⟩ := Option.bind_eq_some_iff.mp h
    dsimp only at h
    split at h
    · next hphase =>
      obtain rfl := Option.some.inj h
      exact ⟨id, i, o, job, .due, none, o.windows, hjob, .elapses hphase, rfl, rfl,
        fun id' => schedulers_put ..⟩
    · cases h
  | spawned id i succeeds =>
    obtain ⟨⟨o, job⟩, hjob, h⟩ := Option.bind_eq_some_iff.mp h
    dsimp only at h
    split at h
    · next hphase =>
      obtain rfl := Option.some.inj h
      exact ⟨id, i, o, job, .spawned succeeds, none, o.windows, hjob, .spawns succeeds hphase, rfl,
        rfl, fun id' => schedulers_put ..⟩
    · cases h
  | resume id i binds =>
    obtain ⟨⟨o, job⟩, hjob, h⟩ := Option.bind_eq_some_iff.mp h
    obtain ⟨turn, hturn, h⟩ := Option.bind_eq_some_iff.mp h
    obtain rfl := Option.some.inj h
    have hnone : turn ≠ .fires → s.firings P (.resume id i binds) = [] := by
      intro hne
      rw [firings, hjob]
      exact if_neg fun heq => hne (Option.some.inj (hturn.symm.trans heq))
    cases turn with
    | ends =>
      exact ⟨id, i, o, job, .finished, none, o.windows, hjob, .ends hturn, hnone (by decide), rfl,
        fun id' => schedulers_put ..⟩
    | sleeps =>
      exact ⟨id, i, o, job, .sleeping, none, o.windows, hjob, .sleeps hturn, hnone (by decide), rfl,
        fun id' => schedulers_put ..⟩
    | registers =>
      exact ⟨id, i, o, job, .finished, none, o.windows, hjob, .registers hturn, hnone (by decide),
        rfl, fun id' => schedulers_put ..⟩
    | fires =>
      have hfirings : s.firings P (.resume id i binds) =
          (job.task.fire P s.crypto o.matchId).toList.map (⟨id, i, ·⟩) := by
        rw [firings, hjob]
        exact if_pos hturn
      rw [hfirings, take, fire]
      cases hfire : job.task.fire P s.crypto o.matchId with
      | none =>
        exact ⟨id, i, o, job, .finished, none, o.windows, hjob, .fails hturn hfire, rfl, rfl,
          fun id' => schedulers_put ..⟩
      | some prompt =>
        refine ⟨id, i, o, job, if binds then .opening else .finished, some prompt,
          o.windows ++ [⟨id, i, job.task.terminalId⟩], hjob, .fires prompt _ hturn hfire ?_, rfl,
          rfl, fun id' => schedulers_put ..⟩
        cases binds with
        | true => exact .inl rfl
        | false => exact .inr rfl

/-! ### A task that waits -/

theorem job_put {s : Scheduling} {id : SchedulerId} {i : ℕ} {o : SchedulerState} {job : FireJob}
    (hjob : s.job id i = some (o, job)) (phase : JobPhase) :
    (s.put id (o.setPhase i phase)).job id i =
      some (o.setPhase i phase, { job with phase := phase }) := by
  obtain ⟨-, hi⟩ := job_eq_some.mp hjob
  refine job_eq_some.mpr ⟨Dict.set_self .., ?_⟩
  exact SchedulerState.getElem?_setPhase.mpr ⟨job, hi, (if_pos rfl).symm⟩

/-- The steps `own` of a task hand over one prompt. -/
def FiresBy (P : Primitives) (s : Scheduling) (own : List Act) (x : Firing) : Prop :=
  (∀ a ∈ own, a.IsTask) ∧ ∃ s', run (step P) s own = some s' ∧
    observed (step P) (firings P) s own = [x]

theorem FiresBy.cons {s s₁ : Scheduling} {a : Act} {own : List Act} {x : Firing}
    (ha : a.IsTask) (hstep : s.step P a = some s₁) (hnone : s.firings P a = [])
    (h : s₁.FiresBy P own x) : s.FiresBy P (a :: own) x := by
  obtain ⟨htasks, s', hrun, hobserved⟩ := h
  refine ⟨List.forall_mem_cons.mpr ⟨ha, htasks⟩, s', run_cons_eq_some.mpr ⟨s₁, hstep, hrun⟩, ?_⟩
  rw [observed, hstep, hnone]
  exact hobserved

theorem firesBy_resume {s : Scheduling} {id : SchedulerId} {i : ℕ} {o : SchedulerState}
    {job : FireJob} (hjob : s.job id i = some (o, job)) (hturn : job.turn = some .fires)
    {prompt : String} (hfire : job.task.fire P s.crypto o.matchId = some prompt) :
    s.FiresBy P [.resume id i true] ⟨id, i, prompt⟩ := by
  have hstep : s.step P (.resume id i true) = some (s.take P id o i job true .fires) := by
    simp only [step, hjob, hturn, Option.bind_eq_bind, Option.bind_some]
  have hfirings : s.firings P (.resume id i true) = [⟨id, i, prompt⟩] := by
    rw [firings, hjob]
    dsimp only
    rw [if_pos hturn, hfire]
    rfl
  refine ⟨List.forall_mem_singleton.mpr trivial, _, run_cons_eq_some.mpr ⟨_, hstep, rfl⟩, ?_⟩
  rw [observed, hstep, hfirings]
  rfl

theorem firesBy_sleeping {s : Scheduling} {id : SchedulerId} {i : ℕ} {o : SchedulerState}
    {job : FireJob} (hjob : s.job id i = some (o, job)) (hlive : job.cancelled = false)
    (hphase : job.phase = .sleeping) {prompt : String}
    (hfire : job.task.fire P s.crypto o.matchId = some prompt) :
    s.FiresBy P [.elapsed id i, .resume id i true] ⟨id, i, prompt⟩ := by
  have hstep : s.step P (.elapsed id i) = some (s.put id (o.setPhase i .due)) := by
    simp only [step, hjob, hphase, Option.bind_eq_bind, Option.bind_some, if_true]
  refine .cons trivial hstep rfl (firesBy_resume (job_put hjob .due) ?_ hfire)
  rw [FireJob.turn, hlive]
  rfl

/-- **A task that waits is three steps away from its prompt at most.** -/
theorem firesBy_of_awaits {s : Scheduling} {id : SchedulerId} {i : ℕ} {o : SchedulerState}
    {job : FireJob} (hjob : s.job id i = some (o, job)) (hlive : job.cancelled = false)
    (hawaits : job.awaits = true) {prompt : String}
    (hfire : job.task.fire P s.crypto o.matchId = some prompt) :
    ∃ own, own.length ≤ 3 ∧ s.FiresBy P own ⟨id, i, prompt⟩ := by
  obtain hphase | hphase | hphase := (FireJob.awaits_iff hlive).mp hawaits
  · have hturn : job.turn = if job.waits = true then some .sleeps else some .fires := by
      rw [FireJob.turn, hlive, hphase]
      rfl
    by_cases hwaits : job.waits = true
    · rw [if_pos hwaits] at hturn
      have hstep : s.step P (.resume id i true) = some (s.put id (o.setPhase i .sleeping)) := by
        simp only [step, hjob, hturn, Option.bind_eq_bind, Option.bind_some, take]
      have hnone : s.firings P (.resume id i true) = [] := by
        rw [firings, hjob]
        dsimp only
        rw [hturn]
        rfl
      refine ⟨[.resume id i true, .elapsed id i, .resume id i true], by simp,
        .cons trivial hstep hnone ?_⟩
      exact firesBy_sleeping (job_put hjob .sleeping) hlive rfl hfire
    · rw [if_neg hwaits] at hturn
      exact ⟨_, by simp, firesBy_resume hjob hturn hfire⟩
  · exact ⟨_, by simp, firesBy_sleeping hjob hlive hphase hfire⟩
  · refine ⟨_, by simp, firesBy_resume hjob ?_ hfire⟩
    rw [FireJob.turn, hlive, hphase]
    rfl

end Scheduling

namespace NodeMain

variable (P : Primitives)

/-- The prompts that a step of a process hands over. -/
def firings (s : NodeMain) : Act → List Firing
  | .task a => s.scheduling.firings P a
  | _ => []

/-- Neither a `STOP` nor a `START` of match `m`. -/
def Act.Spares (m : MatchId) : Act → Prop
  | .start payload _ _ => Event.matchOf payload ≠ some m
  | .stop => False
  | _ => True

/-- Scheduler `id` goes through the schedule of match `m`: `seen` are the prompts that
have been handed over since its `START`. -/
structure OnCourse (s : NodeMain) (id : SchedulerId) (m : MatchId) (elapsed : ℚ)
    (schedule : List PromptEntry) (seen : List Firing) : Prop where
  sound : s.Sound
  scheduler : ∃ o, s.scheduling.schedulers id = some o ∧ o.matchId = m ∧
    ∀ i entry, schedule[i]? = some entry → ∃ job : FireJob, o.jobs[i]? = some job ∧
      job.OnCourse P s.scheduling.crypto m elapsed entry (Firing.promptsOf id i seen)

variable {P}

theorem OnCourse.of_same {s s' : NodeMain} {id : SchedulerId} {m : MatchId} {elapsed : ℚ}
    {schedule : List PromptEntry} {seen : List Firing}
    (h : s.OnCourse P id m elapsed schedule seen) (hsound : s'.Sound)
    (hschedulers : s'.scheduling.schedulers id = s.scheduling.schedulers id)
    (hkey : s'.scheduling.crypto.matchKeys m = s.scheduling.crypto.matchKeys m) :
    s'.OnCourse P id m elapsed schedule seen := by
  obtain ⟨o, ho, hm, hjobs⟩ := h.scheduler
  refine ⟨hsound, o, hschedulers.trans ho, hm, fun i entry hentry => ?_⟩
  obtain ⟨job, hjob, hcourse⟩ := hjobs i entry hentry
  exact ⟨job, hjob, hcourse.of_key hkey⟩

theorem OnCourse.start {agent : String} {s s' : NodeMain} {id : SchedulerId} {m : MatchId}
    {elapsed : ℚ} {schedule : List PromptEntry} {seen : List Firing}
    (h : s.OnCourse P id m elapsed schedule seen) {payload : Json} {now : ℚ} {saves : Bool}
    (hm : Event.matchOf payload ≠ some m)
    (hstep : s.step P agent (.start payload now saves) = some s') :
    s'.OnCourse P id m elapsed schedule seen := by
  have hsound := step_sound h.sound hstep
  have hid : id ≠ s.starts := by
    rintro rfl
    obtain ⟨o, ho, -⟩ := h.scheduler
    rw [h.sound.numbered _ le_rfl] at ho
    cases ho
  obtain rfl := step_start hstep
  have hkey : ∀ {f crypto}, StartFields.ofPayload agent payload = some f →
      s.scheduling.crypto.unwrapMatchKey P f.matchId f.encryptedMatchKey = some crypto →
      crypto.matchKeys m = s.scheduling.crypto.matchKeys m := by
    intro f crypto hf hcrypto
    obtain ⟨-, -, matchKey, -, -, -, rfl⟩ := unwrapMatchKey_eq_some hcrypto
    refine Dict.set_of_ne _ (fun heq => hm ?_) _
    rw [matchOf_ofPayload hf, heq]
  obtain heq | ⟨f, crypto, hf, hcrypto, ⟨-, heq⟩ | ⟨-, heq⟩⟩ :=
    onStart_cases (P := P) agent s payload now saves
  · rw [heq] at hsound ⊢
    exact h.of_same hsound rfl rfl
  · rw [heq] at hsound ⊢
    exact h.of_same hsound rfl (hkey hf hcrypto)
  · rw [heq] at hsound ⊢
    refine h.of_same hsound ?_ (hkey hf hcrypto)
    rw [schedulers_schedule]
    exact if_neg hid

theorem OnCourse.task {agent : String} {s s' : NodeMain} {id : SchedulerId} {m : MatchId}
    {elapsed : ℚ} {schedule : List PromptEntry} {seen : List Firing}
    (h : s.OnCourse P id m elapsed schedule seen) {a : Scheduling.Act}
    (hstep : s.step P agent (.task a) = some s') :
    s'.OnCourse P id m elapsed schedule (seen ++ s.scheduling.firings P a) := by
  have hsound := step_sound h.sound hstep
  obtain ⟨scheduling, htask, hscheduling, rfl⟩ := step_task hstep
  obtain ⟨id', j, o', job', phase, prompt, windows, hjob', hmoves, hfirings, hcrypto,
    hschedulers⟩ := Scheduling.task_cases htask hscheduling
  obtain ⟨ho', hj⟩ := Scheduling.job_eq_some.mp hjob'
  obtain ⟨o, ho, hm, hjobs⟩ := h.scheduler
  rw [hfirings]
  by_cases hid : id = id'
  · subst hid
    obtain rfl := Option.some.inj (ho.symm.trans ho')
    refine ⟨hsound, { o.setPhase j phase with windows := windows },
      (hschedulers id).trans (if_pos rfl), hm, fun i entry hentry => ?_⟩
    obtain ⟨job, hjob, hcourse⟩ := hjobs i entry hentry
    refine ⟨_, SchedulerState.getElem?_setPhase.mpr ⟨job, hjob, rfl⟩, ?_⟩
    have hcourse := hcourse.of_key (congrFun (congrArg NodeCrypto.matchKeys hcrypto) m)
    by_cases hij : j = i
    · subst hij
      obtain rfl := Option.some.inj (hj.symm.trans hjob)
      rw [if_pos rfl]
      have hprompts : Firing.promptsOf id j (seen ++ prompt.toList.map (⟨id, j, ·⟩)) =
          Firing.promptsOf id j seen ++ prompt.toList := by
        rw [Firing.promptsOf, List.filterMap_append]
        cases prompt with
        | none => rfl
        | some text => simp [Firing.promptsOf]
      rw [hprompts]
      rw [hm, ← hcrypto] at hmoves
      exact hcourse.moves hmoves
    · rw [if_neg hij]
      have hprompts : Firing.promptsOf id i (seen ++ prompt.toList.map (⟨id, j, ·⟩)) =
          Firing.promptsOf id i seen := by
        rw [Firing.promptsOf, List.filterMap_append]
        cases prompt with
        | none => simp [Firing.promptsOf]
        | some text => simp [Firing.promptsOf, hij]
      rw [hprompts]
      exact hcourse
  · refine ⟨hsound, o, ((hschedulers id).trans (if_neg hid)).trans ho, hm, fun i entry hentry => ?_⟩
    obtain ⟨job, hjob, hcourse⟩ := hjobs i entry hentry
    have hprompts : Firing.promptsOf id i (seen ++ prompt.toList.map (⟨id', j, ·⟩)) =
        Firing.promptsOf id i seen := by
      rw [Firing.promptsOf, List.filterMap_append]
      cases prompt with
      | none => simp [Firing.promptsOf]
      | some text => simp [Firing.promptsOf, Ne.symm hid]
    rw [hprompts]
    exact ⟨job, hjob, hcourse.of_key (congrFun (congrArg NodeCrypto.matchKeys hcrypto) m)⟩

/-- **Nothing but a `STOP` or a `START` of the match takes a schedule off its course.** -/
theorem OnCourse.step {agent : String} {s s' : NodeMain} {id : SchedulerId} {m : MatchId}
    {elapsed : ℚ} {schedule : List PromptEntry} {seen : List Firing}
    (h : s.OnCourse P id m elapsed schedule seen) {a : Act} (ha : a.Spares m)
    (hstep : s.step P agent a = some s') :
    s'.OnCourse P id m elapsed schedule (seen ++ s.firings P a) := by
  cases a with
  | start payload now saves =>
    have hnone : s.firings P (.start payload now saves) = [] := rfl
    rw [hnone, List.append_nil]
    exact h.start ha hstep
  | stop => exact ha.elim
  | task a => exact h.task hstep
  | raised id' =>
    have hnone : s.firings P (.raised id') = [] := rfl
    rw [hnone, List.append_nil]
    have hsound := step_sound h.sound hstep
    obtain rfl := Option.some.inj hstep
    exact h.of_same hsound rfl rfl

theorem onCourse_run {agent : String} {s s' : NodeMain} {id : SchedulerId} {m : MatchId}
    {elapsed : ℚ} {schedule : List PromptEntry} (h : s.OnCourse P id m elapsed schedule [])
    {acts : List Act} (hacts : ∀ a ∈ acts, a.Spares m)
    (hrun : run (step P agent) s acts = some s') :
    s'.OnCourse P id m elapsed schedule (observed (step P agent) (firings P) s acts) := by
  have hcourse : s'.OnCourse P id m elapsed schedule
      ([] ++ observed (step P agent) (firings P) s acts) :=
    invariant_of_guarded_observed
      (I := fun s₁ seen => s₁.OnCourse P id m elapsed schedule seen) (C := fun _ a => a.Spares m)
      (fun s₁ seen a s₂ h₁ ha hstep => h₁.step ha hstep) h (guarded_of_forall hacts _) hrun
  rwa [List.nil_append] at hcourse

/-- What the tasks do, the process does. -/
theorem run_tasks {agent : String} {own : List Scheduling.Act} :
    ∀ {s : NodeMain} {scheduling : Scheduling}, (∀ a ∈ own, a.IsTask) →
      run (Scheduling.step P) s.scheduling own = some scheduling →
      run (step P agent) s (own.map .task) = some { s with scheduling := scheduling } ∧
        observed (step P agent) (firings P) s (own.map .task) =
          observed (Scheduling.step P) (Scheduling.firings P) s.scheduling own := by
  induction own with
  | nil =>
    intro s scheduling _ h
    rw [run_nil, Option.some_inj] at h
    exact h ▸ ⟨rfl, rfl⟩
  | cons a own ih =>
    intro s scheduling htasks h
    obtain ⟨ha, htasks⟩ := List.forall_mem_cons.mp htasks
    obtain ⟨s₁, hstep, h⟩ := run_cons_eq_some.mp h
    have hstep' : s.step P agent (.task a) = some { s with scheduling := s₁ } := by
      rw [step, if_pos ha, hstep]
      rfl
    obtain ⟨hrun, hobserved⟩ := ih (s := { s with scheduling := s₁ }) htasks h
    refine ⟨run_cons_eq_some.mpr ⟨_, hstep', hrun⟩, ?_⟩
    simp only [List.map_cons, observed, hstep', hstep, hobserved]
    rfl

theorem onCourse_started {main main' : NodeMain} (hsound : main'.Sound) {m : MatchId} {t0 : ℚ}
    {na : NodeAssignment} {now : ℚ} (h : Deployment.Started P main main' m t0 na now) :
    main'.OnCourse P main.starts m (now - t0) na.schedule [] := by
  obtain ⟨tasks, hscheduler, hfires⟩ := h.schedules
  refine ⟨hsound, _, hscheduler, rfl, fun i entry hentry => ?_⟩
  obtain ⟨hi, rfl⟩ := List.getElem?_eq_some_iff.mp hentry
  have hi' : i < tasks.length := hfires.length_eq ▸ hi
  refine ⟨{ task := tasks[i] }, ?_, rfl, hfires.get hi' hi, .inl ⟨rfl, rfl⟩⟩
  rw [SchedulerState.ofTasks, List.getElem?_map, List.getElem?_eq_getElem hi']
  rfl

end NodeMain

namespace Deployment

variable {P : Platform}

/-- A process that serves can take steps of its own. -/
theorem run_node {identity : Bytes} {own : List NodeMain.Act} :
    ∀ {d : Deployment} {p : Peer} {main main' : NodeMain}, (∀ a ∈ own, a.isOwn = true) →
      d.peers identity = some p → p.phase = .serving main →
      run (NodeMain.step P.toPrimitives p.conf.agent) main own = some main' →
      ∃ d', run (step P) d (own.map (.node identity)) = some d' := by
  induction own with
  | nil => exact fun _ _ _ _ => ⟨_, rfl⟩
  | cons a own ih =>
    intro d p main main' hown hp hphase h
    obtain ⟨ha, hown⟩ := List.forall_mem_cons.mp hown
    obtain ⟨main₁, hstep, h⟩ := run_cons_eq_some.mp h
    have hmove : d.step P (.node identity a) = some (d.put identity (p.serve main₁)) := by
      simp only [step, hp, hphase, ha, hstep, Option.bind_eq_bind, Option.bind_some,
        Option.map_some, if_true]
    obtain ⟨d', hrun⟩ := ih (d := d.put identity (p.serve main₁)) (p := p.serve main₁) hown
      (Dict.set_self ..) rfl h
    exact ⟨d', run_cons_eq_some.mpr ⟨_, hmove, hrun⟩⟩

/-- The schedule is in good hands: the process behind `identity` has done `acts` since
the `START`, and every entry has been handed over, once, or a few steps of its own task
away from it. -/
def InHand (P : Platform) (identity : Bytes) (main : NodeMain) (agent : String)
    (acts : List NodeMain.Act) (d : Deployment) (main' : NodeMain) (id : SchedulerId)
    (schedule : List PromptEntry) : Prop :=
  ∀ i entry, schedule[i]? = some entry →
    Firing.promptsOf id i (observed (NodeMain.step P.toPrimitives agent)
      (NodeMain.firings P.toPrimitives) main acts) = [entry.prompt] ∨
    Firing.promptsOf id i (observed (NodeMain.step P.toPrimitives agent)
      (NodeMain.firings P.toPrimitives) main acts) = [] ∧
    ∃ own : List NodeMain.Act, own.length ≤ 3 ∧
      (∃ d', run (step P) d (own.map (.node identity)) = some d') ∧
      observed (NodeMain.step P.toPrimitives agent) (NodeMain.firings P.toPrimitives) main' own =
        [⟨id, i, entry.prompt⟩]

theorem inHand_of_onCourse {d : Deployment} {identity : Bytes} {p : Peer} {main main' : NodeMain}
    (hp : d.peers identity = some p) (hphase : p.phase = .serving main')
    {acts : List NodeMain.Act} {id : SchedulerId} {m : MatchId} {elapsed : ℚ}
    {schedule : List PromptEntry}
    (h : main'.OnCourse P.toPrimitives id m elapsed schedule
      (observed (NodeMain.step P.toPrimitives p.conf.agent) (NodeMain.firings P.toPrimitives) main
        acts)) :
    InHand P identity main p.conf.agent acts d main' id schedule := by
  intro i entry hentry
  obtain ⟨o, ho, rfl, hjobs⟩ := h.scheduler
  obtain ⟨job, hi, hcourse⟩ := hjobs i entry hentry
  obtain ⟨hawaits, hnone⟩ | ⟨-, hone⟩ := hcourse.fed
  · obtain ⟨own, hlength, htasks, scheduling, hrun, hobserved⟩ :=
      Scheduling.firesBy_of_awaits (Scheduling.job_eq_some.mpr ⟨ho, hi⟩) hcourse.live hawaits
        hcourse.task.prompt
    have htaken : run (NodeMain.step P.toPrimitives p.conf.agent) main' (own.map .task) =
          some { main' with scheduling := scheduling } ∧
        observed (NodeMain.step P.toPrimitives p.conf.agent) (NodeMain.firings P.toPrimitives)
            main' (own.map .task) =
          observed (Scheduling.step P.toPrimitives) (Scheduling.firings P.toPrimitives)
            main'.scheduling own :=
      NodeMain.run_tasks htasks hrun
    obtain ⟨hrun', hobserved'⟩ := htaken
    refine .inr ⟨hnone, own.map .task, (List.length_map ..).trans_le hlength, ?_, ?_⟩
    · refine run_node ?_ hp hphase hrun'
      rintro a ha
      obtain ⟨b, -, rfl⟩ := List.mem_map.mp ha
      rfl
    · rw [hobserved', hobserved]
  · exact .inl hone

variable {tokens : Dict NodeId String} {rows : Dict MatchId MatchRecord} {metrics : MetricsStore}

/-- **No prompt is lost or doubled.**  Once a process has taken a `START`, whatever
happens in the deployment, and as long as the process serves and handles neither a
`STOP` nor another `START` of the match, `window.open` has been called for every entry of
the schedule exactly once, whether it then fails or not, or not yet; and then three steps
of the entry's own task are enough. -/
theorem prompts_delivered (hP : P.toPrimitives.Lawful) {moves : List Move} {d : Deployment}
    (hrun : run (step P) (boot tokens rows metrics) moves = some d) {identity : Bytes} {p : Peer}
    {main : NodeMain} (hp : d.peers identity = some p) (hphase : p.phase = .serving main)
    {payload : Json}
    (hnext : (d.sys.server.inbox identity)[p.received]? = some (Peer.msgStart, payload))
    (now : ℚ) : ∃ d₁ main₁ m t0 na, d.step P (.deliver identity now true) = some d₁ ∧
      na ∈ d.sys.server.assignments m ∧ na.nodeId = p.conf.nodeId ∧
      Started P.toPrimitives main main₁ m t0 na now ∧
      ∀ later d₂ p₂ main₂, run (step P) d₁ later = some d₂ → d₂.peers identity = some p₂ →
        p₂.phase = .serving main₂ →
        (∀ a ∈ observed (step P) (acts identity) d₁ later, a.Spares m) →
          InHand P identity main₁ p.conf.agent (observed (step P) (acts identity) d₁ later) d₂
            main₂ main.starts na.schedule := by
  obtain ⟨main₁, m, t0, na, hstep, hna, hn, hstarted⟩ := start_taken hP hrun hp hphase hnext now
  refine ⟨_, main₁, m, t0, na, hstep, hna, hn, hstarted, ?_⟩
  intro later d₂ p₂ main₂ hlater hp₂ hphase₂ hspares
  have hwired := (run_wired hrun).step hstep
  have hp₁ : (d.put identity (p.taken.serve main₁)).peers identity = some (p.taken.serve main₁) :=
    Dict.set_self ..
  obtain ⟨hconf, hacts⟩ := run_of_serving hwired hlater hp₁ rfl hp₂ hphase₂
  have hsound := ((hwired.sound identity _ hp₁).main main₁ rfl).1
  have hagent : p₂.conf.agent = p.conf.agent := congrArg NodeConf.agent hconf
  have hcourse : main₂.OnCourse P.toPrimitives main.starts m (now - t0) na.schedule
      (observed (NodeMain.step P.toPrimitives p₂.conf.agent) (NodeMain.firings P.toPrimitives) main₁
        (observed (step P) (acts identity) (d.put identity (p.taken.serve main₁)) later)) := by
    rw [hagent]
    exact NodeMain.onCourse_run (NodeMain.onCourse_started hsound hstarted) hspares hacts
  rw [← hagent]
  exact inHand_of_onCourse hp₂ hphase₂ hcourse

/-- The task of the sample's prompt is resumed once. -/
theorem prompts_delivered_sample : ∃ d p main d₁ main₁ d₂ main₂, ∃ na : NodeAssignment,
    run (step Sample.platform) Sample.deployment Sample.registers = some d ∧
      d.serving [1] = some (p, main) ∧ d.step Sample.platform (.deliver [1] 5 true) = some d₁ ∧
      run (step Sample.platform) d₁ [.node [1] (.task (.resume 0 0 true))] = some d₂ ∧
      InHand Sample.platform [1] main₁ p.conf.agent [.task (.resume 0 0 true)] d₂ main₂ main.starts
        na.schedule := by
  let later : List Move := [.node [1] (.task (.resume 0 0 true))]
  have hruns : ((run (step Sample.platform) Sample.deployment Sample.registers).bind fun d =>
      (d.serving [1]).bind fun x => (d.step Sample.platform (.deliver [1] 5 true)).bind fun d₁ =>
        (run (step Sample.platform) d₁ later).bind fun d₂ => (d₂.serving [1]).map fun _ =>
          ((d.sys.server.inbox [1])[x.1.received]?).map Prod.fst) =
      some (some Peer.msgStart) := by decide +kernel
  obtain ⟨d, hd, h⟩ := Option.bind_eq_some_iff.mp hruns
  obtain ⟨⟨p, main⟩, hserving, h⟩ := Option.bind_eq_some_iff.mp h
  obtain ⟨d₁, hd₁, h⟩ := Option.bind_eq_some_iff.mp h
  obtain ⟨d₂, hd₂, h⟩ := Option.bind_eq_some_iff.mp h
  obtain ⟨⟨p₂, main₂⟩, hserving₂, h⟩ := Option.map_eq_some_iff.mp h
  obtain ⟨⟨msgType, payload⟩, hnext, htype⟩ := Option.map_eq_some_iff.mp h
  obtain rfl : msgType = Peer.msgStart := htype
  obtain ⟨hp, hphase⟩ := serving_eq_some.mp hserving
  obtain ⟨hp₂, hphase₂⟩ := serving_eq_some.mp hserving₂
  obtain ⟨d₁', main₁, m, t0, na, hd₁', -, -, -, hdelivered⟩ :=
    prompts_delivered Primitives.transparent_lawful hd hp hphase hnext 5
  obtain rfl := Option.some.inj (hd₁.symm.trans hd₁')
  obtain ⟨d₂', hmove, -⟩ := run_cons_eq_some.mp hd₂
  have hacts : observed (step Sample.platform) (acts [1]) d₁ later = [.task (.resume 0 0 true)] := by
    rw [observed, hmove]
    rfl
  have hinHand := hdelivered later d₂ p₂ main₂ hd₂ hp₂ hphase₂ (by
    rw [hacts]
    exact List.forall_mem_singleton.mpr trivial)
  rw [hacts] at hinHand
  exact ⟨d, p, main, d₁, main₁, d₂, main₂, na, hd, hserving, hd₁, hd₂, hinHand⟩

end Deployment
