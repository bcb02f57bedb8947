/-
The handlers of a node process (`run` of `node/main.py`).

`on_start` makes a scheduler and a reporter for every `START`; the closure keeps
the latest of each, and these are the ones `on_stop` stops.

* `NodeMain.onStart_accepted` — what a handled `START` leaves behind, compared
  with `NodeProcess.onStart`;
* `NodeMain.step_owned` — if every `START` finds nothing alive of an earlier one,
  all that is alive belongs to the latest scheduler and reporter;
* `NodeMain.stop_clears` — along such runs a `STOP` ends everything;
* `NodeMain.second_start_orphans` — two `START`s and a `STOP`.
-/
import AgenticJuggling.Scheduling

/-- Reporters are told apart by identity. -/
abbrev ReporterId := ℕ

structure NodeMain where
  scheduling : Scheduling
  /-- The reporters whose loop is running. -/
  reporters : Finset ReporterId
  /-- The variables of the closure. -/
  scheduler : Option SchedulerId
  reporter : Option ReporterId
  saved : Option Json
  /-- How many `START`s have been handled; the objects of one have its number. -/
  starts : ℕ

/-- What `on_start` reads of its payload. -/
structure StartFields where
  matchId : MatchId
  agentname : Json
  t0 : Json
  encryptedMatchKey : Json
  schedule : Json

namespace StartFields

/-- `agent` is the configured agent name; `none` where a field is missing. -/
def ofPayload (agent : String) (payload : Json) : Option StartFields := do
  let matchId ← (← payload.get? "match_id").asStr
  let t0 ← payload.get? "t0"
  let encryptedMatchKey ← payload.get? "encrypted_match_key"
  let schedule ← payload.get? "schedule"
  some { matchId := matchId, agentname := (payload.get? "agentname").getD (.str agent), t0 := t0,
         encryptedMatchKey := encryptedMatchKey, schedule := schedule }

/-- The dictionary `state.save` writes. -/
def saved (f : StartFields) : Json :=
  .obj [("match_id", .str f.matchId), ("t0", f.t0), ("agentname", f.agentname),
    ("schedule", f.schedule)]

end StartFields

namespace NodeMain

/-- After the registration, with the session key it has agreed on. -/
def boot (privateKey sessionKey : Bytes) : NodeMain where
  scheduling := Scheduling.boot { privateKey := privateKey, sessionKey := some sessionKey }
  reporters := ∅
  scheduler := none
  reporter := none
  saved := none
  starts := 0

inductive Act
  /-- `on_start`; `saves` says whether the state file can be written. -/
  | start (payload : Json) (now : ℚ) (saves : Bool)
  /-- `on_stop`. -/
  | stop
  /-- A step of a `_fire` task. -/
  | task (a : Scheduling.Act)
  /-- An exception ends the loop of a reporter. -/
  | raised (id : ReporterId)

/-- `scheduler.start` raises. -/
def startRaises (f : StartFields) (now : ℚ) : Bool :=
  (SchedulerState.start f.agentname f.matchId f.t0 f.schedule now).2

/-- `on_start` from `scheduler = MatchScheduler(crypto, agentname)` on; where
`scheduler.start` raises it ends there. -/
def schedule (s : NodeMain) (f : StartFields) (now : ℚ) : NodeMain where
  scheduling :=
    s.scheduling.put s.starts (SchedulerState.start f.agentname f.matchId f.t0 f.schedule now).1
  reporters := if startRaises f now then s.reporters else insert s.starts s.reporters
  scheduler := some s.starts
  reporter := if startRaises f now then s.reporter else some s.starts
  saved := s.saved
  starts := s.starts + 1

/-- The match key of a `START` is there. -/
def unwrapped (s : NodeMain) (crypto : NodeCrypto) : NodeMain :=
  { s with scheduling := { s.scheduling with crypto := crypto } }

/-- `state.save`. -/
def save (s : NodeMain) (f : StartFields) : NodeMain := { s with saved := some f.saved }

/-- An exception ends the handler of a `START`. -/
def givesUp (s : NodeMain) : NodeMain := { s with starts := s.starts + 1 }

variable (P : Primitives)

/-- `on_start`.  Where it raises, what it has done remains. -/
def onStart (agent : String) (s : NodeMain) (payload : Json) (now : ℚ) (saves : Bool) : NodeMain :=
  match StartFields.ofPayload agent payload with
  | none => s.givesUp
  | some f =>
    match s.scheduling.crypto.unwrapMatchKey P f.matchId f.encryptedMatchKey with
    | none => s.givesUp
    | some crypto =>
      if saves then ((s.unwrapped crypto).save f).schedule f now
      else (s.unwrapped crypto).givesUp

/-- `await scheduler.stop()`. -/
def stopScheduler (s : NodeMain) (id : SchedulerId) : Scheduling :=
  match s.scheduling.schedulers id with
  | none => s.scheduling
  | some o => s.scheduling.stop id o

/-- `on_stop`. -/
def onStop (s : NodeMain) : NodeMain :=
  { s with
    scheduling := (s.scheduler.map s.stopScheduler).getD s.scheduling
    reporters := (s.reporter.map s.reporters.erase).getD s.reporters
    saved := none }

/-- Match ids are strings, as the server sends them. -/
def stringId (payload : Json) : Prop := ∀ matchId ∈ payload.get? "match_id", matchId.asStr ≠ none

instance (payload : Json) : Decidable (stringId payload) :=
  inferInstanceAs (Decidable (∀ matchId ∈ payload.get? "match_id", matchId.asStr ≠ none))

def step (agent : String) (s : NodeMain) : Act → Option NodeMain
  | .start payload now saves =>
    if stringId payload then some (s.onStart P agent payload now saves) else none
  | .stop => some s.onStop
  | .task a =>
    if a.IsTask then
      (s.scheduling.step P a).map fun scheduling => { s with scheduling := scheduling }
    else none
  | .raised id => some { s with reporters := s.reporters.erase id }

/-- The scheduler that decrypts a prompt. -/
def fired (s : NodeMain) : Act → List SchedulerId
  | .task a => s.scheduling.fired a
  | _ => []

/-! ### One step -/

theorem schedulers_schedule (s : NodeMain) (f : StartFields) (now : ℚ) (id : SchedulerId) :
    (s.schedule f now).scheduling.schedulers id =
      if id = s.starts then
        some (SchedulerState.start f.agentname f.matchId f.t0 f.schedule now).1
      else s.scheduling.schedulers id :=
  Scheduling.schedulers_put ..

variable {P}

/-- How far `on_start` comes. -/
theorem onStart_cases (agent : String) (s : NodeMain) (payload : Json) (now : ℚ) (saves : Bool) :
    s.onStart P agent payload now saves = s.givesUp ∨
      ∃ f crypto, StartFields.ofPayload agent payload = some f ∧
        s.scheduling.crypto.unwrapMatchKey P f.matchId f.encryptedMatchKey = some crypto ∧
        (saves = false ∧ s.onStart P agent payload now saves = (s.unwrapped crypto).givesUp ∨
          saves = true ∧ s.onStart P agent payload now saves =
            ((s.unwrapped crypto).save f).schedule f now) := by
  rw [onStart]
  cases hf : StartFields.ofPayload agent payload with
  | none => exact .inl rfl
  | some f =>
    dsimp only
    cases hcrypto : s.scheduling.crypto.unwrapMatchKey P f.matchId f.encryptedMatchKey with
    | none => exact .inl rfl
    | some crypto =>
      cases saves with
      | false => exact .inr ⟨f, crypto, rfl, hcrypto, .inl ⟨rfl, rfl⟩⟩
      | true => exact .inr ⟨f, crypto, rfl, hcrypto, .inr ⟨rfl, rfl⟩⟩

theorem step_start {agent : String} {s s' : NodeMain} {payload : Json} {now : ℚ} {saves : Bool}
    (h : s.step P agent (.start payload now saves) = some s') :
    s' = s.onStart P agent payload now saves := by
  rw [step] at h
  split at h
  · exact (Option.some.inj h).symm
  · cases h

theorem step_task {agent : String} {s s' : NodeMain} {a : Scheduling.Act}
    (h : s.step P agent (.task a) = some s') :
    ∃ scheduling, a.IsTask ∧ s.scheduling.step P a = some scheduling ∧
      s' = { s with scheduling := scheduling } := by
  rw [step] at h
  split at h
  · next ha =>
    obtain ⟨scheduling, hstep, rfl⟩ := Option.map_eq_some_iff.mp h
    exact ⟨scheduling, ha, hstep, rfl⟩
  · cases h

theorem onStop_scheduling (s : NodeMain) :
    (s.onStop.scheduling = s.scheduling ∧
        ∀ id, s.scheduler = some id → s.scheduling.schedulers id = none) ∨
      ∃ id o, s.scheduler = some id ∧ s.scheduling.schedulers id = some o ∧
        s.onStop.scheduling = s.scheduling.stop id o := by
  rw [onStop]
  cases hscheduler : s.scheduler with
  | none => exact .inl ⟨rfl, by simp⟩
  | some id =>
    dsimp only [Option.map_some, Option.getD_some]
    rw [stopScheduler]
    cases ho : s.scheduling.schedulers id with
    | none =>
      refine .inl ⟨rfl, ?_⟩
      rintro id' hid
      rw [← Option.some.inj hid, ho]
    | some o => exact .inr ⟨id, o, rfl, ho, rfl⟩

/-- **A `START` that the node accepts.**  The handler leaves the key, the state file
and the tasks behind that `NodeProcess.onStart` has, and a reporter. -/
theorem onStart_accepted {agent : String} {s : NodeMain} {p p' : NodeProcess} {payload : Json}
    {now : ℚ} (hcrypto : s.scheduling.crypto = p.crypto)
    (h : p.onStart P agent payload now = some p') :
    ∃ scheduler, p'.scheduler = some scheduler ∧
      s.onStart P agent payload now true =
        { scheduling :=
            { crypto := p'.crypto
              registry := s.scheduling.registry
              schedulers := s.scheduling.schedulers.set s.starts
                (.ofTasks scheduler.agentname scheduler.matchId scheduler.tasks) }
          reporters := insert s.starts s.reporters
          scheduler := some s.starts
          reporter := some s.starts
          saved := p'.saved
          starts := s.starts + 1 } := by
  obtain ⟨matchId, t0, key, schedule, crypto, scheduler, hid, ht0, hkey, hschedule, hunwrap,
    hstart, rfl⟩ := NodeProcess.onStart_eq_some h
  obtain ⟨heq, hmatch, hagentname⟩ := SchedulerState.start_eq_of_start hstart
  have hfields : StartFields.ofPayload agent payload = some
      { matchId := matchId, agentname := (payload.get? "agentname").getD (.str agent), t0 := t0,
        encryptedMatchKey := key, schedule := schedule } := by
    simp [StartFields.ofPayload, hid, ht0, hkey, hschedule, Json.asStr]
  refine ⟨scheduler, rfl, ?_⟩
  rw [hmatch, hagentname, onStart, hfields]
  dsimp only
  rw [hcrypto, hunwrap]
  dsimp only
  rw [if_pos rfl, NodeMain.schedule, startRaises]
  dsimp only
  rw [heq]
  rfl

/-! ### What every run keeps -/

/-- The objects of the `START`s are there, under their numbers. -/
structure Sound (s : NodeMain) : Prop where
  tracked : s.scheduling.Tracked
  numbered : ∀ id, s.starts ≤ id → s.scheduling.schedulers id = none
  current : ∀ id, s.scheduler = some id → s.scheduling.schedulers id ≠ none

theorem sound_boot (privateKey sessionKey : Bytes) : (boot privateKey sessionKey).Sound where
  tracked := Scheduling.tracked_boot _
  numbered _ _ := rfl
  current id h := by cases h

open Relation in
/-- What a step does to the schedulers is done by steps of theirs. -/
theorem step_effects {agent : String} {s s' : NodeMain} {a : Act} (hs : s.Sound)
    (h : s.step P agent a = some s') :
    ReflTransGen Scheduling.Effect s.scheduling s'.scheduling := by
  cases a with
  | start payload now saves =>
    rw [step_start h]
    obtain hnone | ⟨f, crypto, -, -, ⟨-, heq⟩ | ⟨-, heq⟩⟩ :=
      onStart_cases (P := P) agent s payload now saves
    · rw [hnone]
      exact .refl
    · rw [heq]
      exact .single (.unwraps crypto)
    · obtain ⟨tasks, htasks⟩ :=
        SchedulerState.start_eq f.agentname f.matchId f.t0 f.schedule now
      rw [heq, schedule, htasks]
      exact (ReflTransGen.single (.unwraps crypto)).tail
        (.starts f.agentname f.matchId tasks (hs.numbered s.starts le_rfl))
  | stop =>
    obtain rfl := Option.some.inj h
    obtain ⟨heq, -⟩ | ⟨id, o, -, ho, heq⟩ := s.onStop_scheduling
    · rw [heq]
    · rw [heq]
      exact .single (.stops ho)
  | task a =>
    obtain ⟨scheduling, -, hstep, rfl⟩ := step_task h
    exact .single (Scheduling.step_effect hstep)
  | raised id =>
    obtain rfl := Option.some.inj h
    exact .refl

/-- All but a `START` keep the schedulers there are and their matches. -/
theorem step_schedulers {agent : String} {s s' : NodeMain} {a : Act}
    (ha : ∀ payload now saves, a ≠ .start payload now saves) (h : s.step P agent a = some s') :
    s'.starts = s.starts ∧ s'.scheduler = s.scheduler ∧
      ∀ id, (s'.scheduling.schedulers id).map SchedulerState.matchId =
        (s.scheduling.schedulers id).map SchedulerState.matchId := by
  cases a with
  | start payload now saves => exact absurd rfl (ha payload now saves)
  | stop =>
    obtain rfl := Option.some.inj h
    refine ⟨rfl, rfl, fun id => ?_⟩
    obtain ⟨heq, -⟩ | ⟨id', o, -, ho, heq⟩ := s.onStop_scheduling
    · rw [heq]
    · rw [heq, Scheduling.schedulers_stop]
      split
      · next hid =>
        rw [hid, ho]
        rfl
      · rfl
  | task a =>
    obtain ⟨scheduling, htask, hstep, rfl⟩ := step_task h
    exact ⟨rfl, rfl, (Scheduling.step_task htask hstep).2⟩
  | raised id =>
    obtain rfl := Option.some.inj h
    exact ⟨rfl, rfl, fun _ => rfl⟩

theorem step_sound {agent : String} {s s' : NodeMain} {a : Act} (hs : s.Sound)
    (h : s.step P agent a = some s') : s'.Sound := by
  have htracked := Scheduling.Effect.tracked_of_chain (step_effects hs h) hs.tracked
  -- Only a `START` makes a scheduler.
  by_cases ha : ∀ payload now saves, a ≠ .start payload now saves
  · obtain ⟨hstarts, hscheduler, hsame⟩ := step_schedulers ha h
    refine ⟨htracked, fun id hid => ?_, fun id hid => ?_⟩
    · rw [hstarts] at hid
      have hnone := hsame id
      rw [hs.numbered id hid, Option.map_none, Option.map_eq_none_iff] at hnone
      exact hnone
    · rw [hscheduler] at hid
      intro hnone
      have hsome := hsame id
      rw [hnone, Option.map_none, eq_comm, Option.map_eq_none_iff] at hsome
      exact hs.current id hid hsome
  · push Not at ha
    obtain ⟨payload, now, saves, rfl⟩ := ha
    have heq := step_start h
    obtain hnone | ⟨f, crypto, -, -, ⟨-, hgives⟩ | ⟨-, hschedules⟩⟩ :=
      onStart_cases (P := P) agent s payload now saves
    · rw [heq, hnone] at htracked ⊢
      exact ⟨htracked, fun id hid => hs.numbered id (Nat.le_of_succ_le hid), hs.current⟩
    · rw [heq, hgives] at htracked ⊢
      exact ⟨htracked, fun id hid => hs.numbered id (Nat.le_of_succ_le hid), hs.current⟩
    · rw [heq, hschedules] at htracked ⊢
      refine ⟨htracked, fun id hid => ?_, fun id hid => ?_⟩
      · have hlt : s.starts < id := hid
        rw [schedulers_schedule]
        exact (if_neg hlt.ne').trans (hs.numbered id hlt.le)
      · obtain rfl := Option.some.inj hid
        rw [schedulers_schedule, if_pos rfl]
        exact Option.some_ne_none _

/-- A muted scheduler stays so, whatever is handled. -/
theorem step_muted {agent : String} {s s' : NodeMain} {a : Act} {id : SchedulerId} (hs : s.Sound)
    (hmuted : s.scheduling.Muted id) (h : s.step P agent a = some s') : s'.scheduling.Muted id :=
  Scheduling.Effect.muted_of_chain (step_effects hs h) hmuted

/-! ### Runs in which a `START` finds nothing alive -/

/-- Nothing of any `START` is left: no prompt is pending, no reporter is running,
there is no match key. -/
structure Clear (s : NodeMain) : Prop where
  timers : ∀ id o, s.scheduling.schedulers id = some o → o.Silent
  reporters : s.reporters = ∅
  keys : ∀ m, s.scheduling.crypto.matchKeys m = none

/-- A `START` that unwraps its match key gets as far as its scheduler, for a match
id that is not empty, and finds no prompt pending, no key of another match, and no
reporter running if it makes one itself. -/
def Ready (P : Primitives) (agent : String) (s : NodeMain) : Act → Prop
  | .start payload now saves => ∀ f crypto, StartFields.ofPayload agent payload = some f →
      s.scheduling.crypto.unwrapMatchKey P f.matchId f.encryptedMatchKey = some crypto →
      saves = true ∧ f.matchId ≠ "" ∧
        (∀ id o, s.scheduling.schedulers id = some o → o.Silent) ∧
        (∀ m, s.scheduling.crypto.matchKeys m ≠ none → m = f.matchId) ∧
        (startRaises f now = false → s.reporters = ∅)
  | _ => True

/-- What is alive belongs to the scheduler and the reporter of the closure. -/
structure Owned (s : NodeMain) : Prop where
  timers : ∀ id, s.scheduling.schedulers id ≠ none → s.scheduler ≠ some id → s.scheduling.Muted id
  reporters : ∀ id ∈ s.reporters, s.reporter = some id
  keys : ∀ m, s.scheduling.crypto.matchKeys m ≠ none → m ≠ "" ∧ ∃ id, s.scheduler = some id ∧
    (s.scheduling.schedulers id).map SchedulerState.matchId = some m

theorem Clear.owned {s : NodeMain} (h : s.Clear) : s.Owned where
  timers id hid _ := by
    obtain ⟨o, ho⟩ := Option.ne_none_iff_exists'.mp hid
    exact ⟨o, ho, h.timers id o ho⟩
  reporters id hid := by
    rw [h.reporters] at hid
    exact absurd hid (Finset.notMem_empty id)
  keys m hm := absurd (h.keys m) hm

theorem clear_boot (privateKey sessionKey : Bytes) : (boot privateKey sessionKey).Clear where
  timers id o ho := by cases ho
  reporters := rfl
  keys _ := rfl

/-- After a `STOP`, every `START` is ready that is saved and names its match. -/
theorem Clear.ready {agent : String} {s : NodeMain} (h : s.Clear) {payload : Json}
    (hid : ∀ f, StartFields.ofPayload agent payload = some f → f.matchId ≠ "") (now : ℚ) :
    Ready P agent s (.start payload now true) :=
  fun f _ hf _ => ⟨rfl, hid f hf, h.timers, fun m hm => absurd (h.keys m) hm,
    fun _ => h.reporters⟩

/-- After a `STOP` no scheduler has a prompt pending. -/
theorem Owned.silent_onStop {s : NodeMain} (hs : s.Sound) (h : s.Owned) {id : SchedulerId}
    {o : SchedulerState} (ho : s.onStop.scheduling.schedulers id = some o) : o.Silent := by
  -- A scheduler that the closure does not know was muted before.
  have hothers : ∀ o, s.scheduling.schedulers id = some o → s.scheduler ≠ some id →
      o.Silent := fun o ho hid => (h.timers id (by simp [ho]) hid).silent ho
  obtain ⟨heq, hnone⟩ | ⟨id', o', hid', ho', heq⟩ := s.onStop_scheduling
  · rw [heq] at ho
    refine hothers o ho fun hid => ?_
    rw [hnone id hid] at ho
    cases ho
  · rw [heq, Scheduling.schedulers_stop] at ho
    split at ho
    · obtain rfl := Option.some.inj ho
      exact SchedulerState.silent_stopped (hs.tracked.schedulers id' o' ho')
    · next hne =>
      refine hothers o ho fun hid => hne ?_
      rw [hid'] at hid
      exact (Option.some.inj hid).symm

/-- The one reporter that can be running is the one `STOP` cancels. -/
theorem Owned.reporters_onStop {s : NodeMain} (h : s.Owned) : s.onStop.reporters = ∅ := by
  rw [Finset.eq_empty_iff_forall_notMem]
  intro id hid
  rw [onStop] at hid
  dsimp only at hid
  cases hreporter : s.reporter with
  | none =>
    rw [hreporter] at hid
    have hmem := h.reporters id hid
    rw [hreporter] at hmem
    cases hmem
  | some id' =>
    rw [hreporter] at hid
    obtain ⟨hne, hmem⟩ := Finset.mem_erase.mp hid
    have hlatest := h.reporters id hmem
    rw [hreporter] at hlatest
    exact hne (Option.some.inj hlatest).symm

/-- A `STOP` brings no key into being. -/
theorem matchKeys_ne_none_of_onStop {s : NodeMain} {m : MatchId}
    (h : s.onStop.scheduling.crypto.matchKeys m ≠ none) :
    s.scheduling.crypto.matchKeys m ≠ none := by
  obtain ⟨heq, -⟩ | ⟨id, o, -, -, heq⟩ := s.onStop_scheduling
  · rwa [heq] at h
  · rw [heq, Scheduling.stop] at h
    dsimp only at h
    split at h
    · exact h
    · intro hnone
      rw [NodeCrypto.revokeMatchKey] at h
      dsimp only at h
      rw [Dict.pop_apply, hnone, ite_self] at h
      exact h rfl

/-- The one match key that can be there is the one `STOP` revokes. -/
theorem Owned.matchKeys_onStop {s : NodeMain} (h : s.Owned) (m : MatchId) :
    s.onStop.scheduling.crypto.matchKeys m = none := by
  by_contra hm
  obtain ⟨hempty, id, hid, hmatch⟩ := h.keys m (matchKeys_ne_none_of_onStop hm)
  obtain ⟨-, hnone⟩ | ⟨id', o', hid', ho', heq⟩ := s.onStop_scheduling
  -- The key belongs to the scheduler of the closure, which is the one that is stopped.
  · rw [hnone id hid] at hmatch
    cases hmatch
  · rw [hid'] at hid
    obtain rfl := Option.some.inj hid
    rw [ho', Option.map_some, Option.some_inj] at hmatch
    subst hmatch
    rw [heq, Scheduling.stop] at hm
    dsimp only at hm
    rw [if_neg hempty, NodeCrypto.revokeMatchKey] at hm
    exact hm (Dict.pop_self _ _)

/-- **`STOP` ends what the closure knows of.** -/
theorem Owned.clear_onStop {s : NodeMain} (hs : s.Sound) (h : s.Owned) : s.onStop.Clear where
  timers _ _ ho := h.silent_onStop hs ho
  reporters := h.reporters_onStop
  keys := h.matchKeys_onStop

theorem matchKeys_unwrap {c crypto : NodeCrypto} {matchId : MatchId} {encryptedMatchKey : Json}
    (h : c.unwrapMatchKey P matchId encryptedMatchKey = some crypto) {m : MatchId}
    (hm : m ≠ matchId) : crypto.matchKeys m = c.matchKeys m := by
  simp only [NodeCrypto.unwrapMatchKey, Option.bind_eq_bind, Option.bind_eq_some_iff] at h
  obtain ⟨text, -, sessionKey, -, matchKey, -, heq⟩ := h
  obtain rfl := Option.some.inj heq
  exact Dict.set_of_ne _ hm _

/-- A `START` that finds nothing alive leaves a scheduler and a reporter that the
closure has. -/
theorem Owned.schedule {s : NodeMain} {f : StartFields} {crypto : NodeCrypto} {now : ℚ}
    (h : s.Owned)
    (hcrypto : s.scheduling.crypto.unwrapMatchKey P f.matchId f.encryptedMatchKey = some crypto)
    (hempty : f.matchId ≠ "")
    (hmuted : ∀ id, s.scheduling.schedulers id ≠ none →
      (((s.unwrapped crypto).save f).schedule f now).scheduling.Muted id)
    (hkeys : ∀ m, s.scheduling.crypto.matchKeys m ≠ none → m = f.matchId)
    (hreporters : startRaises f now = false → s.reporters = ∅) :
    (((s.unwrapped crypto).save f).schedule f now).Owned where
  timers id hsome hother := by
    rw [schedulers_schedule] at hsome
    split at hsome
    · next hid =>
      rw [hid] at hother
      exact absurd rfl hother
    · exact hmuted id hsome
  reporters id hmem := by
    rw [NodeMain.schedule] at hmem ⊢
    dsimp only at hmem ⊢
    split at hmem
    · next hraises =>
      rw [if_pos hraises]
      exact h.reporters id hmem
    · next hraises =>
      -- The reporter of this `START` is the only one.
      have hnone : s.reporters = ∅ := hreporters (by simpa using hraises)
      have hid : id ∈ insert s.starts s.reporters := hmem
      rw [hnone, insert_empty_eq, Finset.mem_singleton] at hid
      rw [if_neg hraises, hid]
      rfl
  keys m hm := by
    have hm : crypto.matchKeys m ≠ none := hm
    have hmatch : m = f.matchId := by
      -- Any other key was there before the unwrapping.
      by_contra hne
      rw [matchKeys_unwrap hcrypto hne] at hm
      exact hne (hkeys m hm)
    refine ⟨hmatch ▸ hempty, s.starts, rfl, ?_⟩
    obtain ⟨tasks, htasks⟩ := SchedulerState.start_eq f.agentname f.matchId f.t0 f.schedule now
    rw [schedulers_schedule, htasks, hmatch]
    exact (congrArg (Option.map SchedulerState.matchId) (if_pos rfl)).trans rfl

theorem step_owned {agent : String} {s s' : NodeMain} {a : Act} (hs : s.Sound) (h : s.Owned)
    (hready : s.Ready P agent a) (hstep : s.step P agent a = some s') : s'.Owned := by
  cases a with
  | start payload now saves =>
    have heq := step_start hstep
    obtain hgives | ⟨f, crypto, hf, hcrypto, ⟨hsaves, -⟩ | ⟨-, hschedules⟩⟩ :=
      onStart_cases (P := P) agent s payload now saves
    · rw [heq, hgives]
      exact ⟨h.timers, h.reporters, h.keys⟩
    · rw [(hready f crypto hf hcrypto).1] at hsaves
      cases hsaves
    · obtain ⟨-, hempty, htimers, hkeys, hreporters⟩ := hready f crypto hf hcrypto
      have hmuted : ∀ id, s.scheduling.schedulers id ≠ none → s'.scheduling.Muted id := by
        intro id hid
        obtain ⟨o, ho⟩ := Option.ne_none_iff_exists'.mp hid
        exact step_muted hs ⟨o, ho, htimers id o ho⟩ hstep
      rw [heq, hschedules] at hmuted ⊢
      exact h.schedule hcrypto hempty hmuted hkeys hreporters
  | stop =>
    obtain rfl := Option.some.inj hstep
    exact (h.clear_onStop hs).owned
  | task a =>
    obtain ⟨scheduling, htask, htaken, rfl⟩ := step_task hstep
    obtain ⟨hcrypto, hsame⟩ := Scheduling.step_task htask htaken
    refine ⟨fun id hsome hother => ?_, h.reporters, fun m hm => ?_⟩
    · have hbefore : s.scheduling.schedulers id ≠ none := by
        intro hnone
        have hid := hsame id
        rw [hnone, Option.map_none, Option.map_eq_none_iff] at hid
        exact hsome hid
      exact Scheduling.step_muted (h.timers id hbefore hother) htaken
    · dsimp only at hm
      rw [hcrypto] at hm
      obtain ⟨hempty, id, hid, hmatch⟩ := h.keys m hm
      exact ⟨hempty, id, hid, (hsame id).trans hmatch⟩
  | raised id =>
    obtain rfl := Option.some.inj hstep
    exact ⟨h.timers, fun id' hid' => h.reporters id' (Finset.mem_of_mem_erase hid'), h.keys⟩

theorem run_owned {agent : String} {privateKey sessionKey : Bytes} {as : List Act} {s : NodeMain}
    (hready : Transition.Guarded (step P agent) (Ready P agent) (boot privateKey sessionKey) as)
    (hrun : Transition.run (step P agent) (boot privateKey sessionKey) as = some s) :
    s.Sound ∧ s.Owned :=
  Transition.invariant_of_guarded (I := fun s : NodeMain => s.Sound ∧ s.Owned)
    (fun _ _ _ hs hready hstep => ⟨step_sound hs.1 hstep, step_owned hs.1 hs.2 hready hstep⟩)
    ⟨sound_boot privateKey sessionKey, (clear_boot privateKey sessionKey).owned⟩ hready hrun

theorem not_fired_of_muted {s : NodeMain} {id : SchedulerId} (h : s.scheduling.Muted id) (a : Act) :
    id ∉ s.fired a := by
  cases a with
  | task a => exact h.not_fired a
  | start payload now saves => exact List.not_mem_nil
  | stop => exact List.not_mem_nil
  | raised id' => exact List.not_mem_nil

/-- Whatever follows, a muted scheduler decrypts nothing. -/
theorem run_muted {agent : String} {s t : NodeMain} {id : SchedulerId} {as : List Act}
    (hs : s.Sound) (hmuted : s.scheduling.Muted id)
    (h : Transition.run (step P agent) s as = some t) :
    id ∉ Transition.observed (step P agent) fired s as := by
  have hinvariant := Transition.invariant_of_observed
    (I := fun (t : NodeMain) seen => t.Sound ∧ t.scheduling.Muted id ∧ id ∉ seen)
    (fun s seen a s' hs hstep => by
      obtain ⟨hsound, hmuted, hseen⟩ := hs
      refine ⟨step_sound hsound hstep, step_muted hsound hmuted hstep, fun hmem => ?_⟩
      obtain hold | hnew := List.mem_append.mp hmem
      · exact hseen hold
      · exact not_fired_of_muted hmuted a hnew)
    ⟨hs, hmuted, List.not_mem_nil⟩ h
  rw [List.nil_append] at hinvariant
  exact hinvariant.2.2

/-- **What a `STOP` ends.**  If every `START` so far found nothing alive of the
earlier ones, no prompt timer, no reporter and no match key of any of them is left
once a `STOP` is handled, and whatever is handled later, none of their prompts
fires. -/
theorem stop_clears {agent : String} {privateKey sessionKey : Bytes} {as : List Act}
    {s t : NodeMain}
    (hready : Transition.Guarded (step P agent) (Ready P agent) (boot privateKey sessionKey) as)
    (hrun : Transition.run (step P agent) (boot privateKey sessionKey) as = some s)
    (hstop : s.step P agent .stop = some t) :
    t.Clear ∧ ∀ bs u, Transition.run (step P agent) t bs = some u →
      ∀ id, t.scheduling.schedulers id ≠ none →
        id ∉ Transition.observed (step P agent) fired t bs := by
  obtain ⟨hsound, howned⟩ := run_owned hready hrun
  have ht : t.Sound := step_sound hsound hstop
  obtain rfl := Option.some.inj hstop
  have hclear := howned.clear_onStop hsound
  refine ⟨hclear, fun bs u hu id hid => ?_⟩
  obtain ⟨o, ho⟩ := Option.ne_none_iff_exists'.mp hid
  exact run_muted ht ⟨o, ho, hclear.timers id o ho⟩ hu

/-- The `START` of a match with one prompt, due 9 seconds after its start. -/
def samplePayload (matchId : MatchId) : Json :=
  MatchManager.startPayload matchId "claude" 5
    (Primitives.transparent.sealBlob [1] Nonce.zero [7] none) [NodeProcess.sampleEntry 9 "go"]

/-- The node of `NodeProcess.sample`. -/
def sample : NodeMain := boot [] [1]

theorem matchId_samplePayload {f : StartFields} {matchId : MatchId}
    (h : StartFields.ofPayload "claude" (samplePayload matchId) = some f) : f.matchId = matchId := by
  obtain rfl := Option.some.inj h
  rfl

/-- A `STOP` is handled between two `START`s. -/
theorem stop_clears_twice : ∃ s t,
    Transition.run (step Primitives.transparent "claude") sample
        [.start (samplePayload "m") 5 true, .stop, .start (samplePayload "n") 6 true] = some s ∧
      s.step Primitives.transparent "claude" .stop = some t ∧ t.Clear := by
  obtain ⟨s, hs, -⟩ := Option.map_eq_some_iff.mp
    (show (Transition.run (step Primitives.transparent "claude") sample
      [.start (samplePayload "m") 5 true, .stop, .start (samplePayload "n") 6 true]).map
        (fun s => s.starts) = some 2 by decide +kernel)
  have hclear : sample.Clear := clear_boot [] [1]
  have hready : ∀ matchId, matchId ≠ "" → ∀ {s : NodeMain}, s.Clear → ∀ now,
      s.Ready Primitives.transparent "claude" (.start (samplePayload matchId) now true) :=
    fun matchId hid s h now => h.ready (fun f hf => by rwa [matchId_samplePayload hf]) now
  have hguarded : Transition.Guarded (step Primitives.transparent "claude")
      (Ready Primitives.transparent "claude") sample
      [.start (samplePayload "m") 5 true, .stop, .start (samplePayload "n") 6 true] := by
    refine ⟨hready "m" (by decide) hclear 5, fun t ht => ⟨trivial, fun u hu => ⟨?_, fun _ _ => trivial⟩⟩⟩
    have hsound := step_sound (sound_boot [] [1]) ht
    have howned := step_owned (sound_boot [] [1]) hclear.owned (hready "m" (by decide) hclear 5) ht
    obtain rfl := Option.some.inj hu
    exact hready "n" (by decide) (howned.clear_onStop hsound) 6
  exact ⟨s, s.onStop, hs, rfl, (stop_clears hguarded hs rfl).1⟩

/-- **Two `START`s and a `STOP`.**  The reporter, the prompt timer and the match
key of the first are still there, and its prompt fires later. -/
theorem second_start_orphans :
    (Transition.run (step Primitives.transparent "claude") sample
      [.start (samplePayload "m") 5 true, .start (samplePayload "n") 6 true, .stop]).map
        (fun s => (s.reporters, (s.scheduling.job 0 0).bind (fun p => p.2.turn),
          s.scheduling.crypto.matchKeys "m")) = some ({0}, some .sleeps, some [7]) ∧
      Transition.observed (step Primitives.transparent "claude") fired sample
        [.start (samplePayload "m") 5 true, .start (samplePayload "n") 6 true, .stop,
          .task (.resume 0 0 true), .task (.elapsed 0 0), .task (.resume 0 0 true)] = [0] := by
  decide +kernel

end NodeMain
