/-
What the server keeps of the reports of the processes.

The `METRICS` of a process name its node and its terminal, but no match.  The
ingester then looks up the match `""`, finds none and drops the report.

* `Sys.Deaf.step` — a server whose messages name no match stores no row;
* `Deployment.reports_dropped` — in a deployment that nobody but node processes
  sends messages to, the tables of metrics and hooks never change.
-/
import AgenticJuggling.Parts

open Transition

namespace MatchManager

variable {P : Platform}

/-- A task comes to create a match only by being called to. -/
theorem resume_creates (tid fresh : TaskId) (s : Server) {t : ServerTask} (w : World)
    (hkind : t.pc.OfKind t.kind) (config : MatchConfig) :
    (resume P tid fresh s t w).pc ≠ .createCall config := by
  intro hpc
  have hcreate : t.kind = .create := by
    have hk := resume_ofKind (P := P) tid fresh s t w hkind
    rw [hpc] at hk
    exact hk
  have hcommit : ∀ (db : Connection) (outcome : Outcome),
      (commit w s db (.committing outcome)).pc ≠ .createCall config := by
    intro db outcome h
    obtain heq | heq := commit_pc w s db (.committing outcome)
    · rw [heq] at h
      cases h
    · rw [heq] at h
      cases h
  obtain ⟨kind, m, pc, mustCancel⟩ := t
  obtain rfl : kind = .create := hcreate
  cases pc with
  | createCall config' =>
    have hpc : (beginCreate tid w s config').pc = .createCall config := hpc
    unfold beginCreate at hpc
    split at hpc
    · split at hpc
      · cases hpc
      · cases hpc
    · cases hpc
  | wrote db outcome => exact hcommit db outcome hpc
  | committing outcome => cases hpc
  | done outcome => cases hpc
  | stopGet record => rcases hkind with hk | hk <;> cases hk
  | stopSent na rest => rcases hkind with hk | hk <;> cases hk
  | _ => cases hkind

end MatchManager

/-- Whatever the message reports is looked up under the match `""`. -/
def Nameless (P : Platform) (frames : List Frame) : Prop :=
  ∀ msgType kvs, reportOf msgType frames = some kvs → Ingester.matchId P kvs = some ""

namespace Sys

variable {P : Platform}

/-- There is no match `""`, and no message that names another one. -/
structure Deaf (P : Platform) (metrics : MetricsStore) (s : Sys) : Prop where
  sound : s.Sound
  row : s.server.store.rows "" = none
  creates : ∀ tid t config, s.tasks tid = some t → t.pc = .createCall config →
    config.matchId ≠ ""
  queued : ∀ tid frames, s.queued tid = some frames → Nameless P frames
  reading : ∀ tid t msgType n kvs record, s.tasks tid = some t →
    t.pc.reading = some (msgType, n, kvs, record) → record = none
  metrics : s.server.metrics = metrics

/-- What a step may ask of such a server: no match `""`, no message that names one. -/
def Mute (P : Platform) : Act → Prop
  | .call (.create config) => config.matchId ≠ ""
  | .call (.receive frames) => Nameless P frames
  | _ => True

variable {metrics : MetricsStore} {s s' : Sys} {a : Act}

theorem Deaf.creates_step (hs : s.Deaf P metrics) (ha : Mute P a) (h : step P s a = some s')
    {tid : TaskId} {t : ServerTask} {config : MatchConfig} (ht : s'.tasks tid = some t)
    (hpc : t.pc = .createCall config) : config.matchId ≠ "" := by
  rcases step_cases h with ⟨c, rfl, rfl⟩ | ⟨tid', w, u, rfl, hu, -, rfl⟩
  · have ht : s.tasks.set s.next c.task tid = some t := ht
    by_cases hn : tid = s.next
    · rw [hn, Dict.set_self, Option.some_inj] at ht
      subst ht
      cases c with
      | create config' =>
        obtain rfl := Pc.createCall.inj hpc
        exact ha
      | _ => cases hpc
    · rw [Dict.set_of_ne _ hn] at ht
      exact hs.creates tid t config ht hpc
  · rcases apply_tasks ht with ⟨rfl, rfl⟩ | ⟨-, delay, -, rfl⟩ | ⟨-, u', hu', rfl | ⟨-, rfl⟩⟩
    · rcases settle_pc tid u (MatchManager.resume P tid s.next s.server u w) with heq | heq
      · rw [heq] at hpc
        exact absurd hpc
          (MatchManager.resume_creates tid s.next s.server w (hs.sound.kind tid u hu) config)
      · rw [heq] at hpc
        cases hpc
    · cases hpc
    · exact hs.creates tid t config hu' hpc
    · rcases cancelTask_pc u' with heq | heq
      · rw [heq] at hpc
        exact hs.creates tid u' config hu' hpc
      · rw [heq] at hpc
        cases hpc

theorem Deaf.row_step (hs : s.Deaf P metrics) (h : step P s a = some s') :
    s'.server.store.rows "" = none := by
  rcases step_cases h with ⟨c, -, rfl⟩ | ⟨tid, w, t, -, ht, -, rfl⟩
  · exact hs.row
  · rw [apply_server]
    have hwrite := MatchManager.resume_rowWrite (P := P) tid s.next s.server t w
    generalize (MatchManager.resume P tid s.next s.server t w).server.store = db at hwrite
    cases hwrite with
    | same => exact hs.row
    | committed => exact hs.row
    | updated state t0 hpc =>
      rw [MatchStore.updateState_rows]
      split
      · next hm => rw [← hm, hs.row, Option.map_none]
      · exact hs.row
    | inserted config _ hpc hinsert =>
      obtain ⟨-, rfl⟩ := MatchStore.insert_eq_some.mp hinsert
      have hne := hs.creates tid t config ht hpc
      exact (Dict.set_of_ne _ hne.symm _).trans hs.row

theorem Deaf.queued_step (hs : s.Deaf P metrics) (ha : Mute P a) (h : step P s a = some s')
    {tid : TaskId} {frames : List Frame} (hq : s'.queued tid = some frames) :
    Nameless P frames := by
  obtain hold | rfl := queued_cases hs.sound h hq
  · exact hs.queued tid frames hold
  · exact ha

theorem Deaf.reading_step (hs : s.Deaf P metrics) (h : step P s a = some s') {tid : TaskId}
    {t : ServerTask} {msgType : String} {n : NodeId} {kvs : List (String × Json)}
    {record : Option MatchRecord} (ht : s'.tasks tid = some t)
    (hreading : t.pc.reading = some (msgType, n, kvs, record)) : record = none := by
  rcases reading_of_step hs.sound h ht hreading with
    ⟨u, hu, hold⟩ | ⟨frames, hhandles, hreport, -, -, hget⟩
  · exact hs.reading tid u msgType n kvs record hu hold
  · -- The message was there, and its match is looked up in vain.
    have hqueued : s.queued tid = some frames := by
      cases a with
      | call c => cases hhandles
      | run tid' w =>
        rw [handlesBy, handles] at hhandles
        have hmem : (tid, frames) ∈
            ((s.tasks tid').bind (·.pc.frames)).toList.map fun frames => (tid', frames) := by
          rw [hhandles]
          exact List.mem_singleton_self _
        obtain ⟨frames', hframes, heq⟩ := List.mem_map.mp hmem
        obtain ⟨rfl, rfl⟩ := Prod.mk.inj heq
        exact Option.mem_toList.mp hframes
    have hget : record = Ingester.getMatch P s.server.store kvs := hget
    rw [hget, Ingester.getMatch, hs.queued tid frames hqueued msgType kvs hreport]
    exact hs.row

theorem Deaf.metrics_step (hs : s.Deaf P metrics) (h : step P s a = some s') :
    s'.server.metrics = metrics := by
  rcases step_cases h with ⟨c, -, rfl⟩ | ⟨tid, w, t, -, ht, -, rfl⟩
  · exact hs.metrics
  · rw [apply_server]
    have hwrite := MatchManager.resume_metricsWrite (P := P) tid s.next s.server t w
    generalize (MatchManager.resume P tid s.next s.server t w).server.metrics = db at hwrite
    cases hwrite with
    | same => exact hs.metrics
    | metric n kvs record row hpc ht0 hrow => cases hs.reading tid t _ _ _ _ ht hpc
    | hook n kvs record event hpc ht0 hevent => cases hs.reading tid t _ _ _ _ ht hpc

/-- **Messages that name no match leave no trace in the tables.** -/
theorem Deaf.step (hs : s.Deaf P metrics) (ha : Mute P a) (h : Sys.step P s a = some s') :
    s'.Deaf P metrics where
  sound := hs.sound.step h
  row := hs.row_step h
  creates _ _ _ ht hpc := hs.creates_step ha h ht hpc
  queued _ _ hq := hs.queued_step ha h hq
  reading _ _ _ _ _ _ ht hreading := hs.reading_step h ht hreading
  metrics := hs.metrics_step h

end Sys

namespace Deployment

variable {P : Platform} {tokens : Dict NodeId String} {rows : Dict MatchId MatchRecord}
  {metrics : MetricsStore}

/-- No stranger sends anything, and matches are created with an id. -/
def Move.Closed : Move → Prop
  | .stranger _ => False
  | .server (.call (.create config)) => config.matchId ≠ ""
  | _ => True

/-- The messages of a process name no match. -/
theorem FromPeer.nameless {identity : Bytes} {p : Peer} {frames : List Frame}
    (h : FromPeer P.toPrimitives identity p frames) : Nameless P frames := by
  intro msgType kvs hreport
  cases h with
  | register =>
    rw [Peer.registerFrames, reportOf] at hreport
    split at hreport
    · obtain rfl := Option.some.inj hreport
      rfl
    · cases hreport
  | report terminalId idleSeconds tokensUsed now =>
    rw [Report.frames, reportOf] at hreport
    split at hreport
    · obtain rfl := Option.some.inj hreport
      rfl
    · cases hreport

/-- **The reports of node processes are all dropped.**  In every run of a deployment
that only node processes send messages to, where matches have ids, the tables of
metrics and hooks stay as they were when the server booted. -/
theorem reports_dropped (hrows : rows "" = none) {moves : List Move} {d : Deployment}
    (hmoves : ∀ a ∈ moves, a.Closed)
    (hrun : run (step P) (boot tokens rows metrics) moves = some d) :
    d.sys.server.metrics = metrics := by
  refine (invariant_of_guarded
    (I := fun d => Wired P tokens rows metrics d ∧ d.sys.Deaf P metrics)
    (fun d a d' hd ha h => ⟨hd.1.step h, ?_⟩) ⟨wired_boot, ?_⟩
    (guarded_of_forall hmoves _) hrun).2.metrics
  · obtain heq | ⟨b, rfl, hreceives, hstep⟩ | ⟨frames, rfl, -, -⟩ |
      ⟨identity, p, frames, hp, hmem, hstep⟩ := sys_of_step hd.1 h
    · rw [heq]
      exact hd.2
    · refine hd.2.step ?_ hstep
      cases b with
      | run tid w => trivial
      | call c =>
        cases c with
        | create config => exact ha
        | receive frames => cases hreceives
        | _ => trivial
    · exact ha.elim
    · have hmute : Sys.Mute P (.call (.receive frames)) :=
        (hd.1.outbox identity p hp frames hmem).nameless
      exact hd.2.step hmute hstep
  · exact ⟨Sys.sound_boot .., hrows, fun _ _ _ ht => (by cases ht), fun _ _ hq => (by cases hq),
      fun _ _ _ _ _ _ ht => (by cases ht), rfl⟩

theorem reports_dropped_sample : ∃ d,
    run (step Sample.framed) Sample.deployment Sample.reported = some d ∧
      (d.sys.tasks 3).map (·.pc.isDone) = some true ∧ d.sys.server.metrics = ⟨[], []⟩ := by
  have hruns : (run (step Sample.framed) Sample.deployment Sample.reported).map
      (fun d => (d.sys.tasks 3).map (·.pc.isDone)) = some (some true) := by decide +kernel
  obtain ⟨d, hd, hdone⟩ := Option.map_eq_some_iff.mp hruns
  refine ⟨d, hd, hdone, reports_dropped (by decide) ?_ hd⟩
  simp [Sample.reported, Sample.prompted, Sample.registers, Sample.runs, Move.Closed]

end Deployment
