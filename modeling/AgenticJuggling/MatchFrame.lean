/-
What belongs to one match: its row, its key and its timer.

* `resume_sameMatch`, `Sound.sameMatch` — only the tasks of a match, and a
  `create` of it, change them.
-/
import AgenticJuggling.Sessions

open Transition

/-- Match `m` has the same row, key and timer. -/
structure Server.SameMatch (m : MatchId) (s s' : Server) : Prop where
  row : s'.store.rows m = s.store.rows m
  key : s'.crypto.matchKeys m = s.crypto.matchKeys m
  timer : s'.timers m = s.timers m

theorem Server.SameMatch.refl (m : MatchId) (s : Server) : s.SameMatch m s := ⟨rfl, rfl, rfl⟩

namespace MatchManager

variable {P : Platform}

/-- The loop of `_dispatch_start` sets no timer but that of its match. -/
theorem DispatchStretch.timers_of_ne {fresh : TaskId} {w : World} {m m' : MatchId} {t0 : ℚ}
    {record : MatchRecord} {s : Server} {as : List NodeAssignment} {r : Stretch}
    (h : DispatchStretch P fresh w m t0 record s as r) (hne : m' ≠ m) :
    r.server.timers m' = s.timers m' := by
  rcases h.frame.2.2.2 with htimers | ⟨htimers, -⟩
  · rw [htimers]
  · rw [htimers]
    exact Dict.set_of_ne _ hne _

/-- The loop of `stop` revokes no key but that of its match. -/
theorem StopStretch.matchKeys_of_ne {tid : TaskId} {w : World} {m m' : MatchId} {s : Server}
    {as : List NodeAssignment} {r : Stretch} (h : StopStretch tid w m s as r) (hne : m' ≠ m) :
    r.server.crypto.matchKeys m' = s.crypto.matchKeys m' := by
  cases h with
  | ended hskip =>
    rw [(quiet_updateState tid w { s with crypto := s.crypto.revokeMatchKey m } m .finished none
      (.wrote .matchDb .returned)).crypto]
    exact Dict.pop_of_ne _ hne
  | sent skipped na rest identity has hskip hidentity => rfl
  | failed hreach hok => rfl

/-- The keys and timers that a stretch changes are those of its match. -/
theorem NodeStretch.keys_timers {tid fresh : TaskId} {s : Server} {t : ServerTask} {w : World}
    {r : Stretch} (h : NodeStretch P tid fresh s t w r) {m : MatchId}
    (hother : t.matchId ≠ m ∨ t.pc.OfKind .dispatch) :
    r.server.crypto.matchKeys m = s.crypto.matchKeys m ∧ r.server.timers m = s.timers m := by
  have hne : ¬t.pc.OfKind .dispatch → m ≠ t.matchId := fun hd => (hother.resolve_right hd).symm
  cases h with
  | quiet _ hquiet hduty hkind =>
    rw [hquiet.crypto, hquiet.timers]
    exact ⟨rfl, rfl⟩
  | register frames identity payload hpc hframes =>
    refine ⟨?_, ?_⟩
    · exact congrFun (s.handleRegister_frame identity payload w.priv).matchKeys m
    · exact congrFun (s.handleRegister_frame identity payload w.priv).timers m
  | launch _ t0 record as hpc hready hquiet hr =>
    rw [hquiet.crypto, hquiet.timers]
    exact ⟨rfl, rfl⟩
  | begin _ t0 record as hpc hkey hr =>
    have hm := hne (by rw [hpc]; exact fun h => by cases h)
    refine ⟨?_, hr.timers_of_ne hm⟩
    rw [hr.frame.2.1]
    exact Dict.set_of_ne _ hm _
  | next _ t0 record na rest hpc hr =>
    have hm := hne (by rw [hpc]; exact fun h => by cases h)
    refine ⟨?_, hr.timers_of_ne hm⟩
    rw [hr.frame.2.1]
    rfl
  | stopBegin r record as hpc hstate has hr =>
    have hm := hne (by rw [hpc]; exact fun h => by rcases h with h | h <;> cases h)
    refine ⟨hr.matchKeys_of_ne hm, ?_⟩
    show r.server.timers m = s.timers m
    rw [hr.frame.2.2.1]
    exact Dict.pop_of_ne _ hm
  | stopMalformed record hpc =>
    have hm := hne (by rw [hpc]; exact fun h => by rcases h with h | h <;> cases h)
    exact ⟨rfl, Dict.pop_of_ne _ hm⟩
  | stopNext _ na rest hpc hr =>
    have hm := hne (by rw [hpc]; exact fun h => by rcases h with h | h <;> cases h)
    refine ⟨hr.matchKeys_of_ne hm, ?_⟩
    rw [hr.frame.2.2.1]
    rfl

/-- A stretch of a task of another match, or of a message, leaves match `m` alone. -/
theorem resume_sameMatch (tid fresh : TaskId) (s : Server) (t : ServerTask) (w : World)
    {m : MatchId} (hrow : s.store.rows m ≠ none ∨ ∀ config, t.pc ≠ .createCall config)
    (hother : t.matchId ≠ m ∨ t.pc.OfKind .dispatch) :
    s.SameMatch m (resume P tid fresh s t w).server := by
  obtain ⟨hkey, htimer⟩ := (resume_stretch (P := P) tid fresh s t w).keys_timers hother
  exact ⟨(resume_rowWrite (P := P) tid fresh s t w).row hrow hother, hkey, htimer⟩

end MatchManager

namespace Sys

variable {P : Platform}

/-- No task of match `m` takes this step. -/
def Elsewhere (m : MatchId) (s : Sys) : Act → Prop
  | .call _ => True
  | .run tid _ => ∀ t ∈ s.tasks tid, t.matchId ≠ m ∨ t.kind = .dispatch

/-- **A step elsewhere leaves match `m` alone.** -/
theorem Sound.sameMatch {s s' : Sys} {a : Act} (hs : s.Sound) (h : Sys.step P s a = some s')
    {m : MatchId} (hrow : s.server.store.rows m ≠ none) (ha : s.Elsewhere m a) :
    s.server.SameMatch m s'.server := by
  rcases step_cases h with ⟨c, rfl, rfl⟩ | ⟨tid, w, t, rfl, ht, -, rfl⟩
  · exact .refl m _
  · rw [apply_server]
    refine MatchManager.resume_sameMatch tid s.next s.server t w (.inl hrow) ?_
    refine (ha t ht).imp_right fun hd => ?_
    rw [← hd]
    exact hs.kind tid t ht

end Sys
