/-
The server and its database when the process dies and is started again.

A crash takes everything but the committed table with it: the registry, the
sessions, the keys, the timers and all tasks.  Then the server boots from that
table, with the tokens of the configuration as it is then.

* `Life.create_durable` — a match whose `create` has returned stays, with what it
  was created with, whatever crashes;
* `Life.stranded` — a match that a crash finds past `LOBBY` is never started again,
  and only a `stop` changes its row.
-/
import AgenticJuggling.Delivery
import AgenticJuggling.Footprint

open Transition

/-- What the match was created with. -/
def MatchRecord.terms (record : MatchRecord) : MatchRecord :=
  { record with state := .lobby, t0 := none }

namespace MatchStore

@[simp] theorem terms_recordOf (config : MatchConfig) : (recordOf config).terms = recordOf config :=
  rfl

def termsOf (rows : Dict MatchId MatchRecord) (m : MatchId) : Option MatchRecord :=
  (rows m).map MatchRecord.terms

/-- What is committed is in the table. -/
def Stored (db : MatchStore) : Prop :=
  ∀ m terms, termsOf db.committed m = some terms → termsOf db.rows m = some terms

/-- No match is lost. -/
structure Lasts (db db' : MatchStore) : Prop where
  rows : ∀ m terms, termsOf db.rows m = some terms → termsOf db'.rows m = some terms
  committed : ∀ m terms, termsOf db.committed m = some terms →
    termsOf db'.committed m = some terms

theorem lasts_refl (db : MatchStore) : Lasts db db := ⟨fun _ _ h => h, fun _ _ h => h⟩

theorem termsOf_updateState (db : MatchStore) (m m' : MatchId) (state : MatchState)
    (t0 : Option ℚ) : termsOf (db.updateState m state t0).rows m' = termsOf db.rows m' := by
  rw [termsOf, termsOf, updateState_rows]
  split
  · next hm =>
    rw [hm, Option.map_map]
    rfl
  · rfl

/-- **No write loses a match.** -/
theorem stored_of_rowWrite {m : MatchId} {pc : Pc} {db db' : MatchStore}
    (h : MatchManager.RowWrite m pc db db') (hdb : db.Stored) : db'.Stored ∧ db.Lasts db' := by
  cases h with
  | same => exact ⟨hdb, lasts_refl db⟩
  | committed => exact ⟨fun _ _ h => h, fun _ _ h => h, hdb⟩
  | updated state t0 hpc =>
    refine ⟨fun m' terms h => ?_, fun m' terms h => ?_, fun _ _ h => h⟩
    · rw [termsOf_updateState]
      exact hdb m' terms h
    · rw [termsOf_updateState]
      exact h
  | inserted config _ hpc hinsert =>
    obtain ⟨hnone, rfl⟩ := insert_eq_some.mp hinsert
    have hkept : ∀ m' terms, termsOf db.rows m' = some terms →
        termsOf (db.rows.set config.matchId (recordOf config)) m' = some terms := by
      intro m' terms h
      have hne : m' ≠ config.matchId := by
        rintro rfl
        rw [termsOf, hnone] at h
        cases h
      rw [termsOf, Dict.set_of_ne _ hne]
      exact h
    exact ⟨fun m' terms h => hkept m' terms (hdb m' terms h), hkept, fun _ _ h => h⟩

end MatchStore

namespace Sys

variable {P : Platform}

open MatchStore in
theorem stored_of_step {s s' : Sys} {a : Act} (hs : s.server.store.Stored)
    (h : step P s a = some s') :
    s'.server.store.Stored ∧ s.server.store.Lasts s'.server.store := by
  rcases step_cases h with ⟨c, -, rfl⟩ | ⟨tid, w, t, -, -, -, rfl⟩
  · exact ⟨hs, lasts_refl _⟩
  · rw [apply_server]
    exact stored_of_rowWrite (MatchManager.resume_rowWrite tid s.next s.server t w) hs

/-! ### A create that returns -/

/-- The task of a `create`, and what is in the table by then. -/
inductive Creating (config : MatchConfig) (tid : TaskId) (s : Sys) : Prop
  | called (ht : s.tasks tid = some ⟨.create, config.matchId, .createCall config, false⟩)
  | wrote (ht : s.tasks tid = some ⟨.create, config.matchId, .wrote .matchDb .returned, false⟩)
      (hrow : MatchStore.termsOf s.server.store.rows config.matchId =
        some (MatchStore.recordOf config))
  | committed (pc : Pc) (ht : s.tasks tid = some ⟨.create, config.matchId, pc, false⟩)
      (hpc : pc = .committing .returned ∨ pc = .done .returned)
      (hrow : MatchStore.termsOf s.server.store.committed config.matchId =
        some (MatchStore.recordOf config))
  | failed (e : Raised)
      (ht : s.tasks tid = some ⟨.create, config.matchId, .done (.raised e), false⟩)

/-- A stretch of a task that touches no other. -/
theorem step_run_alone {s s' : Sys} {tid : TaskId} {k : TaskKind} {m : MatchId} {pc : Pc} {w : World}
    (ht : s.tasks tid = some ⟨k, m, pc, false⟩) (h : step P s (.run tid w) = some s')
    {r : Stretch} (hr : MatchManager.resume P tid s.next s.server ⟨k, m, pc, false⟩ w = r)
    (hcancels : r.cancels = none) (hspawns : r.spawns = none) :
    s'.server = r.server ∧ s'.tasks tid = some ⟨k, m, r.pc, false⟩ := by
  rcases step_cases h with ⟨c, hc, -⟩ | ⟨tid', w', t, heq, ht', -, rfl⟩
  · cases hc
  · obtain ⟨rfl, rfl⟩ := Act.run.inj heq
    obtain rfl := Option.some.inj (ht.symm.trans ht')
    subst hr
    rw [apply_alone s rfl hcancels hspawns]
    exact ⟨rfl, Dict.set_self ..⟩

theorem Creating.kept {config : MatchConfig} {tid : TaskId} {s s' : Sys} {a : Act}
    (hc : Creating config tid s) (hs : s.Sound) (hdb : s.server.store.Stored)
    (h : step P s a = some s') (ha : ∀ w, a ≠ .run tid w) : Creating config tid s' := by
  have hlasts := (stored_of_step hdb h).2
  have hkept : ∀ {pc}, s.tasks tid = some ⟨.create, config.matchId, pc, false⟩ →
      s'.tasks tid = some ⟨.create, config.matchId, pc, false⟩ :=
    fun ht => hs.task_kept h ht (by simp) ha
  cases hc with
  | called ht => exact .called (hkept ht)
  | wrote ht hrow => exact .wrote (hkept ht) (hlasts.rows _ _ hrow)
  | committed pc ht hpc hrow => exact .committed pc (hkept ht) hpc (hlasts.committed _ _ hrow)
  | failed e ht => exact .failed e (hkept ht)

theorem Creating.run {config : MatchConfig} {tid : TaskId} {s s' : Sys} {w : World}
    (hc : Creating config tid s) (h : step P s (.run tid w) = some s') :
    Creating config tid s' := by
  -- A task that has ended does not go on.
  have hended : ∀ {outcome}, s.tasks tid ≠ some ⟨.create, config.matchId, .done outcome, false⟩ := by
    intro outcome ht
    rw [step, ht] at h
    cases h
  cases hc with
  | called ht =>
    by_cases hok : w.dbOk = true
    · cases hinsert : s.server.store.insert config with
      | none =>
        obtain ⟨-, ht'⟩ := step_run_alone
          (r := ⟨s.server, .done (.raised .matchExists), true, none, none⟩) ht h
          (by simp [MatchManager.resume, MatchManager.beginCreate, hok, hinsert]) rfl rfl
        exact .failed _ ht'
      | some store =>
        obtain ⟨hserver, ht'⟩ := step_run_alone (r := ⟨{ s.server with
            store := store
            trace := s.server.trace ++ [.rowWritten tid config.matchId .lobby none] },
            .wrote .matchDb .returned, true, none, none⟩)
          ht h (by simp [MatchManager.resume, MatchManager.beginCreate, hok, hinsert]) rfl rfl
        refine .wrote ht' ?_
        obtain ⟨-, rfl⟩ := MatchStore.insert_eq_some.mp hinsert
        rw [hserver]
        show (s.server.store.rows.set config.matchId (MatchStore.recordOf config) _).map _ = _
        rw [Dict.set_self]
        rfl
    · obtain ⟨-, ht'⟩ := step_run_alone (r := MatchManager.dbError s.server) ht h
        (by simp [MatchManager.resume, MatchManager.beginCreate, hok]) rfl rfl
      exact .failed _ ht'
  | wrote ht hrow =>
    by_cases hok : w.dbOk = true
    · obtain ⟨hserver, ht'⟩ := step_run_alone (r := ⟨{ s.server with
          store := s.server.store.commit }, .committing .returned, true, none, none⟩)
        ht h (by simp [MatchManager.resume, MatchManager.commit, hok]) rfl rfl
      refine .committed _ ht' (.inl rfl) ?_
      rw [hserver]
      exact hrow
    · obtain ⟨-, ht'⟩ := step_run_alone (r := MatchManager.dbError s.server) ht h
        (by simp [MatchManager.resume, MatchManager.commit, hok]) rfl rfl
      exact .failed _ ht'
  | committed pc ht hpc hrow =>
    obtain rfl | rfl := hpc
    · obtain ⟨hserver, ht'⟩ := step_run_alone (r := MatchManager.finish s.server .returned) ht h
        (by simp [MatchManager.resume]) rfl rfl
      refine .committed _ ht' (.inr rfl) ?_
      rw [hserver]
      exact hrow
    · exact absurd ht hended
  | failed e ht => exact absurd ht hended

theorem Creating.step {config : MatchConfig} {tid : TaskId} {s s' : Sys} {a : Act}
    (hc : Creating config tid s) (hs : s.Sound) (hdb : s.server.store.Stored)
    (h : Sys.step P s a = some s') : Creating config tid s' := by
  by_cases ha : ∃ w, a = .run tid w
  · obtain ⟨w, rfl⟩ := ha
    exact hc.run h
  · exact hc.kept hs hdb h fun w heq => ha ⟨w, heq⟩

/-- **A `create` that has returned is committed.** -/
theorem created_of_returned {config : MatchConfig} {s s' : Sys} {acts : List Act} (hs : s.Sound)
    (hdb : s.server.store.Stored)
    (hrun : Transition.run (Sys.step P) s (.call (.create config) :: acts) = some s')
    (hreturned : s'.outcomeOf s.next = some .returned) :
    MatchStore.termsOf s'.server.store.committed config.matchId =
      some (MatchStore.recordOf config) := by
  obtain ⟨s₁, hcall, hrun⟩ := run_cons_eq_some.mp hrun
  have hdb₁ := (stored_of_step hdb hcall).1
  have hs₁ := hs.step hcall
  obtain rfl := Option.some.inj hcall
  have hcreating : Creating config s.next s' := by
    refine (invariant_of_run (I := fun t => (t.Sound ∧ t.server.store.Stored) ∧
      Creating config s.next t) (fun t a t' ht h => ?_) ⟨⟨hs₁, hdb₁⟩, .called ?_⟩ hrun).2
    · exact ⟨⟨ht.1.1.step h, (stored_of_step ht.1.2 h).1⟩, ht.2.step ht.1.1 ht.1.2 h⟩
    · exact Dict.set_self ..
  rw [outcomeOf] at hreturned
  cases hcreating with
  | called ht => rw [ht] at hreturned; cases hreturned
  | wrote ht hrow => rw [ht] at hreturned; cases hreturned
  | committed pc ht hpc hrow => exact hrow
  | failed e ht => rw [ht] at hreturned; cases hreturned

end Sys

/-! ### A match that a crash finds past `LOBBY` -/

namespace MatchStore

/-- Match `m` has a row, and is past `LOBBY`. -/
def Past (m : MatchId) (db : MatchStore) : Prop := ∃ r, db.rows m = some r ∧ r.state ≠ .lobby

variable {m : MatchId} {db db' : MatchStore}

theorem Past.state (h : db.Past m) : ∀ r ∈ db.rows m, r.state ≠ .lobby := by
  obtain ⟨r, hr, hstate⟩ := h
  intro r' hr'
  obtain rfl := Option.some.inj (hr.symm.trans hr')
  exact hstate

theorem Past.insert (h : db.Past m) {config : MatchConfig} (hinsert : db.insert config = some db') :
    db'.Past m := by
  obtain ⟨hnone, rfl⟩ := insert_eq_some.mp hinsert
  obtain ⟨r, hr, hstate⟩ := h
  refine ⟨r, (Dict.set_of_ne _ ?_ _).trans hr, hstate⟩
  rintro rfl
  rw [hnone] at hr
  cases hr

theorem Past.updateState_of_ne (h : db.Past m) {m' : MatchId} (hne : m ≠ m') (state : MatchState)
    (t0 : Option ℚ) : (db.updateState m' state t0).Past m := by
  obtain ⟨r, hr, hstate⟩ := h
  refine ⟨r, ?_, hstate⟩
  rw [updateState_rows, if_neg hne]
  exact hr

theorem Past.finished (h : db.Past m) : (db.updateState m .finished none).Past m := by
  obtain ⟨r, hr, -⟩ := h
  refine ⟨{ r with state := .finished }, ?_, by simp⟩
  rw [updateState_rows, if_pos rfl, hr]
  rfl

end MatchStore

/-- A `start` that has not read the row yet, or has read that it comes too late. -/
def Pc.Shut : Pc → Prop
  | .startCall _ => True
  | .startGet _ record => ∀ r ∈ record, r.state ≠ .lobby
  | .done _ => True
  | _ => False

namespace MatchManager

variable {P : Platform}

/-- What tasks other than a `start` do to the table of matches. -/
inductive PlainWrite (k : TaskKind) (m : MatchId) (db : MatchStore) : MatchStore → Prop
  | same : PlainWrite k m db db
  | committed : PlainWrite k m db db.commit
  | inserted (config : MatchConfig) (db' : MatchStore) (hinsert : db.insert config = some db') :
      PlainWrite k m db db'
  | finished (hk : k = .stop ∨ k = .autoStop) :
      PlainWrite k m db (db.updateState m .finished none)

theorem StopStretch.plainWrite {tid : TaskId} {w : World} {m : MatchId} {s : Server}
    {as : List NodeAssignment} {r : Stretch} (h : StopStretch tid w m s as r) {k : TaskKind}
    (hk : k = .stop ∨ k = .autoStop) : PlainWrite k m s.store r.server.store := by
  cases h with
  | ended hskip =>
    unfold updateState
    split
    · exact .finished hk
    · exact .same
  | sent skipped na rest identity has hskip hidentity => exact .same
  | failed hreach hok => exact .same

theorem resume_plainWrite (tid fresh : TaskId) (s : Server) {t : ServerTask} (w : World)
    (hkind : t.pc.OfKind t.kind) (hne : t.kind ≠ .start) :
    PlainWrite t.kind t.matchId s.store (resume P tid fresh s t w).server.store := by
  have hsame : ∀ {r : Stretch}, r.server.store = s.store →
      PlainWrite t.kind t.matchId s.store r.server.store := fun h => h ▸ .same
  obtain ⟨k, m, pc, mustCancel⟩ := t
  cases pc with
  | createCall config =>
    show PlainWrite k m s.store (beginCreate tid w s config).server.store
    unfold beginCreate
    split
    · split
      · exact .same
      · next store hinsert => exact .inserted config store hinsert
    · exact .same
  | stopCall => exact hsame (congrArg Server.store (beginStop_server w s m))
  | sleeping delay => exact hsame (congrArg Server.store (beginStop_server w s m))
  | received frames => exact hsame (dispatch_message (P := P) (s := s) (w := w) frames).store
  | metricsGet n kvs record =>
    exact hsame (ingestMetric_message (P := P) (s := s) (w := w) n kvs record).store
  | hookGet n kvs record =>
    exact hsame (ingestHook_message (P := P) (s := s) (w := w) n kvs record).store
  | stopGet record =>
    show PlainWrite k m s.store (stopGate tid k w s m record).server.store
    unfold stopGate
    split
    · exact .same
    · split
      · exact .same
      · split
        · exact .same
        · exact (stopLoop_stretch tid w m { s with timers := s.timers.pop m } _).plainWrite hkind
  | stopSent na rest =>
    have hwrite := (stopLoop_stretch tid w m (s.mark na.nodeId .ready) rest).plainWrite hkind
    rw [Server.mark_store] at hwrite
    exact hwrite
  | wrote db outcome =>
    show PlainWrite k m s.store (commit w s db (.committing outcome)).server.store
    unfold commit
    split
    · cases db with
      | matchDb => exact .committed
      | metricsDb => exact .same
    · exact .same
  | committing outcome => exact .same
  | done outcome => exact .same
  | _ => exact absurd hkind hne

/-- **A `start` that comes too late does nothing.** -/
theorem resume_shut (tid fresh : TaskId) (s : Server) {t : ServerTask} (w : World)
    (hshut : t.pc.Shut) (hrow : ∀ r ∈ s.store.rows t.matchId, r.state ≠ .lobby) :
    (resume P tid fresh s t w).server = s ∧ (resume P tid fresh s t w).spawns = none ∧
      (resume P tid fresh s t w).pc.Shut := by
  obtain ⟨k, m, pc, mustCancel⟩ := t
  cases pc with
  | startCall readyTimeout =>
    show (beginStart w s m readyTimeout).server = s ∧
      (beginStart w s m readyTimeout).spawns = none ∧ (beginStart w s m readyTimeout).pc.Shut
    unfold beginStart
    split
    · exact ⟨rfl, rfl, hrow⟩
    · exact ⟨rfl, rfl, trivial⟩
  | startGet readyTimeout record =>
    show (startGate tid w s m readyTimeout record).server = s ∧
      (startGate tid w s m readyTimeout record).spawns = none ∧
      (startGate tid w s m readyTimeout record).pc.Shut
    cases record with
    | none => exact ⟨rfl, rfl, trivial⟩
    | some r =>
      rw [startGate, if_neg (hshut r rfl)]
      exact ⟨rfl, rfl, trivial⟩
  | done outcome => exact ⟨rfl, rfl, trivial⟩
  | _ => exact hshut.elim

end MatchManager

namespace Sys

variable {P : Platform}

/-- Match `m` has been left behind with row `r`, or been stopped since, if `stopped`. -/
def LeftBehind (m : MatchId) (r : MatchRecord) (stopped : Prop)
    (rows : Dict MatchId MatchRecord) : Prop :=
  rows m = some r ∨ stopped ∧ rows m = some { r with state := .finished }

theorem LeftBehind.state {m : MatchId} {r : MatchRecord} {stopped : Prop}
    {rows : Dict MatchId MatchRecord} (h : LeftBehind m r stopped rows) (hr : r.state ≠ .lobby) :
    ∀ row ∈ rows m, row.state ≠ .lobby := by
  intro row hrow
  obtain heq | ⟨-, heq⟩ := h
  · rw [heq] at hrow
    rwa [← Option.some.inj hrow]
  · rw [heq] at hrow
    rw [← Option.some.inj hrow]
    simp

/-- A server on which match `m` has been left behind. -/
structure Stranded (m : MatchId) (r : MatchRecord) (stopped : Prop) (s : Sys) : Prop where
  sound : s.Sound
  rows : LeftBehind m r stopped s.server.store.rows
  committed : LeftBehind m r stopped s.server.store.committed
  start : ∀ tid t, s.tasks tid = some t → t.kind = .start → t.matchId = m → t.pc.Shut
  stop : ∀ tid t, s.tasks tid = some t → t.kind = .stop → t.matchId = m → stopped
  autoStop : ∀ tid t, s.tasks tid = some t → t.kind = .autoStop → t.matchId ≠ m

variable {m : MatchId} {r : MatchRecord} {stopped : Prop}

theorem LeftBehind.plainWrite {k : TaskKind} {m' : MatchId} {db db' : MatchStore}
    (h : MatchManager.PlainWrite k m' db db') (hrows : LeftBehind m r stopped db.rows)
    (hcommitted : LeftBehind m r stopped db.committed)
    (hstop : k = .stop ∨ k = .autoStop → m' = m → stopped) :
    LeftBehind m r stopped db'.rows ∧ LeftBehind m r stopped db'.committed := by
  cases h with
  | same => exact ⟨hrows, hcommitted⟩
  | committed => exact ⟨hrows, hrows⟩
  | inserted config _ hinsert =>
    obtain ⟨hnone, rfl⟩ := MatchStore.insert_eq_some.mp hinsert
    have hne : m ≠ config.matchId := by
      rintro rfl
      obtain heq | ⟨-, heq⟩ := hrows
      · rw [hnone] at heq
        cases heq
      · rw [hnone] at heq
        cases heq
    have hsame : (db.rows.set config.matchId (MatchStore.recordOf config)) m = db.rows m :=
      Dict.set_of_ne _ hne _
    refine ⟨?_, hcommitted⟩
    show LeftBehind m r stopped (db.rows.set config.matchId (MatchStore.recordOf config))
    rw [LeftBehind, hsame]
    exact hrows
  | finished hk =>
    refine ⟨?_, hcommitted⟩
    by_cases hm : m = m'
    · refine .inr ⟨hstop hk hm.symm, ?_⟩
      rw [MatchStore.updateState_rows, if_pos hm, ← hm]
      obtain heq | ⟨-, heq⟩ := hrows
      · rw [heq]
        rfl
      · rw [heq]
        rfl
    · rw [LeftBehind, MatchStore.updateState_rows, if_neg hm]
      exact hrows

/-- What a stretch does to such a server. -/
theorem Stranded.resume {s : Sys} (hs : s.Stranded m r stopped) (hr : r.state ≠ .lobby)
    {tid : TaskId} {t : ServerTask} (ht : s.tasks tid = some t) (w : World) :
    LeftBehind m r stopped (MatchManager.resume P tid s.next s.server t w).server.store.rows ∧
      LeftBehind m r stopped
        (MatchManager.resume P tid s.next s.server t w).server.store.committed := by
  have hkind := hs.sound.kind tid t ht
  by_cases hstart : t.kind = .start
  · by_cases hm : t.matchId = m
    · obtain ⟨hserver, -, -⟩ := MatchManager.resume_shut (P := P) tid s.next s.server w
        (hs.start tid t ht hstart hm) (hm ▸ hs.rows.state hr)
      rw [hserver]
      exact ⟨hs.rows, hs.committed⟩
    · -- A `start` of another match leaves the row alone.
      have hwrite := MatchManager.resume_rowWrite (P := P) tid s.next s.server t w
      generalize (MatchManager.resume P tid s.next s.server t w).server.store = db at hwrite
      cases hwrite with
      | same => exact ⟨hs.rows, hs.committed⟩
      | committed => exact ⟨hs.rows, hs.rows⟩
      | updated state t0 hpc =>
        refine ⟨?_, hs.committed⟩
        rw [LeftBehind, MatchStore.updateState_rows, if_neg fun h => hm h.symm]
        exact hs.rows
      | inserted config _ hpc hinsert =>
        rw [hpc] at hkind
        rw [hkind] at hstart
        cases hstart
  · refine LeftBehind.plainWrite
      (MatchManager.resume_plainWrite (P := P) tid s.next s.server w hkind hstart) hs.rows
      hs.committed ?_
    rintro (hk | hk) hm
    · exact hs.stop tid t ht hk hm
    · exact absurd hm (hs.autoStop tid t ht hk)

/-- A task after a step was there before, is called for or is a new timer. -/
theorem task_of_step {s s' : Sys} {a : Act} (h : step P s a = some s') {tid : TaskId}
    {u : ServerTask} (hu : s'.tasks tid = some u) :
    (∃ c, a = .call c ∧ u = c.task) ∨
      (∃ tid' t w delay, s.tasks tid' = some t ∧
        (MatchManager.resume P tid' s.next s.server t w).spawns = some delay ∧
        u = autoStopTask t.matchId delay) ∨
      (∃ t, s.tasks tid = some t ∧ u.kind = t.kind ∧ u.matchId = t.matchId ∧
        ((u.pc = t.pc ∨ ∃ outcome, u.pc = .done outcome) ∨
          ∃ w, u.pc = (MatchManager.resume P tid s.next s.server t w).pc)) := by
  rcases step_cases h with ⟨c, rfl, rfl⟩ | ⟨tid', w, t, rfl, ht, -, rfl⟩
  · have hu : s.tasks.set s.next c.task tid = some u := hu
    by_cases hn : tid = s.next
    · rw [hn, Dict.set_self, Option.some_inj] at hu
      exact .inl ⟨c, rfl, hu.symm⟩
    · rw [Dict.set_of_ne _ hn] at hu
      exact .inr (.inr ⟨u, hu, rfl, rfl, .inl (.inl rfl)⟩)
  · rcases apply_tasks hu with ⟨rfl, rfl⟩ | ⟨-, delay, hspawns, rfl⟩ | ⟨-, u', hu', rfl | ⟨-, rfl⟩⟩
    · refine .inr (.inr ⟨t, ht, settle_kind .., settle_matchId .., ?_⟩)
      rcases settle_pc tid t (MatchManager.resume P tid s.next s.server t w) with hpc | hpc
      · exact .inr ⟨w, hpc⟩
      · exact .inl (.inr ⟨_, hpc⟩)
    · exact .inr (.inl ⟨tid', t, w, delay, ht, hspawns, rfl⟩)
    · exact .inr (.inr ⟨u, hu', rfl, rfl, .inl (.inl rfl)⟩)
    · refine .inr (.inr ⟨u', hu', cancelTask_kind u', cancelTask_matchId u', .inl ?_⟩)
      rcases cancelTask_pc u' with hpc | hpc
      · exact .inl hpc
      · exact .inr ⟨_, hpc⟩

/-- The starts of match `m` are over: it is past `LOBBY`, and every `start` of it comes
too late. -/
structure Passed (m : MatchId) (s : Sys) : Prop where
  sound : s.Sound
  past : s.server.store.Past m
  start : ∀ tid t, s.tasks tid = some t → t.kind = .start → t.matchId = m → t.pc.Shut

/-- A match that is past `LOBBY` stays so. -/
theorem Passed.resume {s : Sys} (hs : s.Passed m) {tid : TaskId} {t : ServerTask}
    (ht : s.tasks tid = some t) (w : World) :
    (MatchManager.resume P tid s.next s.server t w).server.store.Past m := by
  have hkind := hs.sound.kind tid t ht
  by_cases hstart : t.kind = .start
  · by_cases hm : t.matchId = m
    · obtain ⟨hserver, -, -⟩ := MatchManager.resume_shut (P := P) tid s.next s.server w
        (hs.start tid t ht hstart hm) (hm ▸ hs.past.state)
      rw [hserver]
      exact hs.past
    · have hwrite := MatchManager.resume_rowWrite (P := P) tid s.next s.server t w
      generalize (MatchManager.resume P tid s.next s.server t w).server.store = db at hwrite
      cases hwrite with
      | same => exact hs.past
      | committed => exact hs.past
      | updated state t0 hpc => exact hs.past.updateState_of_ne (fun h => hm h.symm) ..
      | inserted config _ hpc hinsert => exact hs.past.insert hinsert
  · have hwrite := MatchManager.resume_plainWrite (P := P) tid s.next s.server w hkind hstart
    generalize (MatchManager.resume P tid s.next s.server t w).server.store = db at hwrite
    cases hwrite with
    | same => exact hs.past
    | committed => exact hs.past
    | inserted config _ hinsert => exact hs.past.insert hinsert
    | finished hk =>
      by_cases hm : m = t.matchId
      · rw [← hm]
        exact hs.past.finished
      · exact hs.past.updateState_of_ne hm ..

/-- No `start` of the match begins any more. -/
theorem Passed.step {s s' : Sys} {a : Act} (hs : s.Passed m) (h : Sys.step P s a = some s') :
    s'.Passed m := by
  refine ⟨hs.sound.step h, ?_, ?_⟩
  · rcases step_cases h with ⟨c, -, rfl⟩ | ⟨tid, w, t, -, ht, -, rfl⟩
    · exact hs.past
    · rw [apply_server]
      exact hs.resume ht w
  · intro tid u hu hkind hmatch
    obtain ⟨c, -, rfl⟩ | ⟨tid', t, w, delay, -, -, rfl⟩ | ⟨t, ht, hk, hm, hpc⟩ :=
      task_of_step h hu
    · cases c with
      | start m' readyTimeout => trivial
      | _ => cases hkind
    · cases hkind
    · rw [hk] at hkind
      rw [hm] at hmatch
      have hshut := hs.start tid t ht hkind hmatch
      obtain (heq | ⟨outcome, heq⟩) | ⟨w, heq⟩ := hpc
      · rw [heq]
        exact hshut
      · rw [heq]
        trivial
      · rw [heq]
        exact (MatchManager.resume_shut (P := P) tid s.next s.server w hshut
          (hmatch ▸ hs.past.state)).2.2

/-- A match that has been left behind is past `LOBBY`. -/
theorem Stranded.passed {s : Sys} (hs : s.Stranded m r stopped) (hr : r.state ≠ .lobby) :
    s.Passed m := by
  refine ⟨hs.sound, ?_, hs.start⟩
  obtain heq | ⟨-, heq⟩ := hs.rows
  · exact ⟨r, heq, hr⟩
  · exact ⟨_, heq, by simp⟩

theorem Stranded.step {s s' : Sys} {a : Act} (hs : s.Stranded m r stopped) (hr : r.state ≠ .lobby)
    (ha : a = .call (.stop m) → stopped) (h : Sys.step P s a = some s') :
    s'.Stranded m r stopped := by
  have hrows : LeftBehind m r stopped s'.server.store.rows ∧
      LeftBehind m r stopped s'.server.store.committed := by
    rcases step_cases h with ⟨c, -, rfl⟩ | ⟨tid, w, t, -, ht, -, rfl⟩
    · exact ⟨hs.rows, hs.committed⟩
    · rw [apply_server]
      exact hs.resume hr ht w
  refine ⟨hs.sound.step h, hrows.1, hrows.2, ((hs.passed hr).step h).start, ?_, ?_⟩
  · intro tid u hu hkind hmatch
    obtain ⟨c, rfl, rfl⟩ | ⟨tid', t, w, delay, -, -, rfl⟩ | ⟨t, ht, hk, hm, -⟩ :=
      task_of_step h hu
    · cases c with
      | stop m' =>
        obtain rfl : m' = m := hmatch
        exact ha rfl
      | _ => cases hkind
    · cases hkind
    · exact hs.stop tid t ht (hk.symm.trans hkind) (hm.symm.trans hmatch)
  · intro tid u hu hkind hmatch
    obtain ⟨c, -, rfl⟩ | ⟨tid', t, w, delay, ht, hspawns, rfl⟩ | ⟨t, ht, hk, hm, -⟩ :=
      task_of_step h hu
    · cases c <;> cases hkind
    · -- A new timer is set by a `start` that was not late.
      have hmatch : t.matchId = m := hmatch
      have hstart := hs.sound.kind_of_spawns ht hspawns
      have hnone := (MatchManager.resume_shut (P := P) tid' s.next s.server w
        (hs.start tid' t ht hstart hmatch) (hmatch ▸ hs.rows.state hr)).2.1
      rw [hnone] at hspawns
      cases hspawns
    · exact hs.autoStop tid t ht (hk.symm.trans hkind) (hm.symm.trans hmatch)

/-- No `START` of match `m` is among the events. -/
def NoStart (m : MatchId) (es : List Event) : Prop :=
  ∀ n identity payload, .sent n identity .start payload ∈ es → Event.matchOf payload ≠ some m

/-- No `START` of the match is sent. -/
theorem Passed.noStart {s s' : Sys} {a : Act} (hs : s.Passed m) (h : Sys.step P s a = some s') :
    ∃ es, s'.server.trace = s.server.trace ++ es ∧ NoStart m es := by
  rcases step_cases h with ⟨c, -, rfl⟩ | ⟨tid, w, t, -, ht, -, rfl⟩
  · exact ⟨[], (List.append_nil _).symm, fun _ _ _ h => absurd h List.not_mem_nil⟩
  · rw [apply_server]
    obtain ⟨es, htrace, hes⟩ :=
      (MatchManager.resume_stretch (P := P) tid s.next s.server t w).starts
    refine ⟨es, htrace, fun n identity payload hmem hmatch => ?_⟩
    obtain ⟨session, t0, na, -, -, ⟨as, hplan, -⟩, -, hwraps⟩ := hes n identity payload hmem
    obtain ⟨matchKey, nonce, nonces, encrypted, c, -, -, rfl⟩ := hwraps
    rw [Event.matchOf_startPayload, Option.some_inj] at hmatch
    have hstart : t.kind = .start := by
      have hkind := hs.sound.kind tid t ht
      cases hpc : t.pc with
      | startGet readyTimeout record => rw [hpc] at hkind; exact hkind
      | startingWrote readyTimeout record as => rw [hpc] at hkind; exact hkind
      | startingCommit readyTimeout record as => rw [hpc] at hkind; exact hkind
      | polling deadline record as => rw [hpc] at hkind; exact hkind
      | runningWrote t0 record as => rw [hpc] at hkind; exact hkind
      | runningCommit t0 record as => rw [hpc] at hkind; exact hkind
      | startSent t0 record na rest => rw [hpc] at hkind; exact hkind
      | _ => rw [hpc] at hplan; cases hplan
    obtain ⟨hserver, -, -⟩ := MatchManager.resume_shut (P := P) tid s.next s.server w
      (hs.start tid t ht hstart hmatch) (hmatch ▸ hs.past.state)
    rw [hserver] at htrace
    obtain rfl := List.self_eq_append_right.mp htrace
    exact List.not_mem_nil hmem

end Sys

/-! ### The incarnations of the server -/

/-- The server in all its incarnations. -/
structure Life where
  sys : Sys
  /-- The events of the incarnations that are over. -/
  past : List Event

inductive LifeAct
  | act (a : Act)
  /-- The process dies and is started again, with the reports that have survived. -/
  | crash (tokens : Dict NodeId String) (metrics : MetricsStore)

namespace Life

def boot (tokens : Dict NodeId String) (rows : Dict MatchId MatchRecord)
    (metrics : MetricsStore) : Life where
  sys := Sys.boot tokens rows metrics
  past := []

def step (P : Platform) (l : Life) : LifeAct → Option Life
  | .act a => (l.sys.step P a).map fun sys => { l with sys := sys }
  | .crash tokens metrics =>
    some { sys := Sys.boot tokens l.sys.server.store.committed metrics
           past := l.past ++ l.sys.server.trace }

/-- All that has happened. -/
def events (l : Life) : List Event := l.past ++ l.sys.server.trace

variable {P : Platform}

open MatchStore in
/-- **No crash loses what is committed.** -/
theorem stored_of_step {l l' : Life} {a : LifeAct}
    (hl : l.sys.Sound ∧ l.sys.server.store.Stored) (h : l.step P a = some l') :
    (l'.sys.Sound ∧ l'.sys.server.store.Stored) ∧
      ∀ m terms, termsOf l.sys.server.store.committed m = some terms →
        termsOf l'.sys.server.store.committed m = some terms := by
  cases a with
  | act a =>
    obtain ⟨sys, hstep, rfl⟩ := Option.map_eq_some_iff.mp h
    obtain ⟨hstored, hlasts⟩ := Sys.stored_of_step hl.2 hstep
    exact ⟨⟨hl.1.step hstep, hstored⟩, hlasts.committed⟩
  | crash tokens metrics =>
    obtain rfl := Option.some.inj h
    exact ⟨⟨Sys.sound_boot .., fun _ _ h => h⟩, fun _ _ h => h⟩

open MatchStore in
/-- **A match whose `create` has returned stays**, with what it was created with,
whatever else the server does and however often it crashes afterwards. -/
theorem create_durable {tokens : Dict NodeId String} {rows : Dict MatchId MatchRecord}
    {metrics : MetricsStore} {before after : List LifeAct} {during : List Act} {l l' : Life}
    {s : Sys} {config : MatchConfig}
    (hbefore : run (step P) (boot tokens rows metrics) before = some l)
    (hduring : run (Sys.step P) l.sys (.call (.create config) :: during) = some s)
    (hreturned : s.outcomeOf l.sys.next = some .returned)
    (hafter : run (step P) { l with sys := s } after = some l') :
    termsOf l'.sys.server.store.committed config.matchId = some (recordOf config) ∧
      termsOf l'.sys.server.store.rows config.matchId = some (recordOf config) := by
  obtain ⟨hsound, hstored⟩ := invariant_of_run
    (I := fun l => l.sys.Sound ∧ l.sys.server.store.Stored)
    (fun l a l' hl h => (stored_of_step hl h).1) ⟨Sys.sound_boot .., fun _ _ h => h⟩ hbefore
  have hcreated := Sys.created_of_returned hsound hstored hduring hreturned
  have hs : s.Sound ∧ s.server.store.Stored := invariant_of_run
    (I := fun s : Sys => s.Sound ∧ s.server.store.Stored)
    (fun s a s' hs h => ⟨hs.1.step h, (Sys.stored_of_step hs.2 h).1⟩) ⟨hsound, hstored⟩ hduring
  obtain ⟨⟨-, hstored'⟩, hcommitted⟩ := invariant_of_run
    (I := fun l => (l.sys.Sound ∧ l.sys.server.store.Stored) ∧
      termsOf l.sys.server.store.committed config.matchId = some (recordOf config))
    (fun l a l' hl h => ⟨(stored_of_step hl.1 h).1, (stored_of_step hl.1 h).2 _ _ hl.2⟩)
    ⟨hs, hcreated⟩ hafter
  exact ⟨hcommitted, hstored' _ _ hcommitted⟩

open MatchStore in
theorem create_durable_sample : ∃ s l',
    run (Sys.step Sample.platform) (Sample.boot [])
      (.call (.create (Sample.config "m" ["n"])) :: Sample.runs 0 3 0) = some s ∧
    run (step Sample.platform) ⟨s, []⟩
      [.crash (fun _ => none) ⟨[], []⟩, .act (.call (.start "m" 30))] = some l' ∧
    termsOf l'.sys.server.store.committed "m" = some (recordOf (Sample.config "m" ["n"])) := by
  have hruns : (run (Sys.step Sample.platform) (Sample.boot [])
      (.call (.create (Sample.config "m" ["n"])) :: Sample.runs 0 3 0)).map (·.outcomeOf 0) =
      some (some .returned) := by decide +kernel
  obtain ⟨s, hs, hreturned⟩ := Option.map_eq_some_iff.mp hruns
  obtain ⟨l', hl'⟩ : ∃ l', run (step Sample.platform) ⟨s, []⟩
      [.crash (fun _ => none) ⟨[], []⟩, .act (.call (.start "m" 30))] = some l' := ⟨_, rfl⟩
  exact ⟨s, l', hs, hl', (create_durable (run_nil _) hs hreturned hl').1⟩

/-- The match has been left behind, and no `START` of it is sent any more. -/
structure Adrift (m : MatchId) (r : MatchRecord) (stopped : Prop) (before : List Event)
    (l : Life) : Prop where
  sys : l.sys.Stranded m r stopped
  events : ∃ es, l.events = before ++ es ∧ Sys.NoStart m es

theorem Adrift.step {m : MatchId} {r : MatchRecord} {stopped : Prop} {before : List Event}
    {l l' : Life} {a : LifeAct} (hl : l.Adrift m r stopped before) (hr : r.state ≠ .lobby)
    (ha : a = .act (.call (.stop m)) → stopped) (h : l.step P a = some l') :
    l'.Adrift m r stopped before := by
  obtain ⟨hsys, es, hes, hno⟩ := hl
  cases a with
  | act a =>
    obtain ⟨sys, hstep, rfl⟩ := Option.map_eq_some_iff.mp h
    obtain ⟨new, htrace, hnew⟩ := (hsys.passed hr).noStart hstep
    refine ⟨hsys.step hr (fun heq => ha (congrArg LifeAct.act heq)) hstep, es ++ new, ?_, ?_⟩
    · show l.past ++ sys.server.trace = before ++ (es ++ new)
      rw [htrace, ← List.append_assoc, ← List.append_assoc, ← hes]
      rfl
    · intro n identity payload hmem
      obtain hmem | hmem := List.mem_append.mp hmem
      · exact hno n identity payload hmem
      · exact hnew n identity payload hmem
  | crash tokens metrics =>
    obtain rfl := Option.some.inj h
    refine ⟨⟨Sys.sound_boot .., hsys.committed, hsys.committed, ?_, ?_, ?_⟩, es, ?_, hno⟩
    · intro tid t ht
      cases ht
    · intro tid t ht
      cases ht
    · intro tid t ht
      cases ht
    · show (l.past ++ l.sys.server.trace) ++ [] = before ++ es
      rw [List.append_nil]
      exact hes

/-- **A match that a crash finds past `LOBBY` is stranded**: in that and every later
incarnation no `START` of it is ever sent, and its row stays as it is unless a `stop`
of the match is called; it then says `FINISHED` and is otherwise the same. -/
theorem stranded {l l' : Life} {m : MatchId} {r : MatchRecord}
    (hrow : l.sys.server.store.committed m = some r) (hr : r.state ≠ .lobby)
    {tokens : Dict NodeId String} {metrics : MetricsStore} {after : List LifeAct}
    (hrun : run (step P) l (.crash tokens metrics :: after) = some l') :
    (l'.sys.server.store.rows m = some r ∨ LifeAct.act (.call (.stop m)) ∈ after ∧
      l'.sys.server.store.rows m = some { r with state := .finished }) ∧
    ∃ es, l'.events = l.events ++ es ∧ Sys.NoStart m es := by
  obtain ⟨l₁, hcrash, hrun⟩ := run_cons_eq_some.mp hrun
  obtain rfl := Option.some.inj hcrash
  have hadrift := invariant_of_guarded
    (I := Adrift m r (LifeAct.act (.call (.stop m)) ∈ after) l.events)
    (C := fun _ a => a = .act (.call (.stop m)) → LifeAct.act (.call (.stop m)) ∈ after)
    (fun l a l' hl ha h => hl.step hr ha h) ?_
    (guarded_of_forall (fun a ha heq => heq ▸ ha) _) hrun
  · exact ⟨hadrift.sys.rows, hadrift.events⟩
  · refine ⟨⟨Sys.sound_boot .., .inl hrow, .inl hrow, ?_, ?_, ?_⟩, [], ?_, ?_⟩
    · intro tid t ht
      cases ht
    · intro tid t ht
      cases ht
    · intro tid t ht
      cases ht
    · show (l.past ++ l.sys.server.trace) ++ [] = l.events ++ []
      rfl
    · intro n identity payload hmem
      exact absurd hmem List.not_mem_nil

/-- The server dies while the match runs; a `start` of it is then refused. -/
theorem stranded_sample : ∃ l l' r,
    run (step Sample.platform) ⟨Sample.boot [("m", ["n"])], []⟩ (Sample.started.map .act) =
      some l ∧
    l.sys.server.store.committed "m" = some r ∧ r.state = .running ∧
    run (step Sample.platform) l (.crash (fun _ => some "token") ⟨[], []⟩ ::
      ((.call (.start "m" 30) :: Sample.runs 0 2 9).map .act)) = some l' ∧
    l'.sys.outcomeOf 0 = some (.raised (.wrongState .running)) ∧
    l'.sys.server.store.rows "m" = some r := by
  have hruns : ((run (step Sample.platform) ⟨Sample.boot [("m", ["n"])], []⟩
      (Sample.started.map .act)).bind fun l =>
        (run (step Sample.platform) l (.crash (fun _ => some "token") ⟨[], []⟩ ::
          ((.call (.start "m" 30) :: Sample.runs 0 2 9).map .act))).map fun l' =>
            ((l.sys.server.store.committed "m").map (·.state), l'.sys.outcomeOf 0)) =
      some (some .running, some (.raised (.wrongState .running))) := by decide +kernel
  obtain ⟨l, hl, h⟩ := Option.bind_eq_some_iff.mp hruns
  obtain ⟨l', hl', h⟩ := Option.map_eq_some_iff.mp h
  obtain ⟨hstate, houtcome⟩ := Prod.mk.inj h
  obtain ⟨r, hr, hrunning⟩ := Option.map_eq_some_iff.mp hstate
  refine ⟨l, l', r, hl, hr, hrunning, hl', houtcome, ?_⟩
  obtain ⟨hrow | ⟨hstop, -⟩, -⟩ := stranded hr (by rw [hrunning]; decide) hl'
  · exact hrow
  · simp [Sample.runs] at hstop

end Life
