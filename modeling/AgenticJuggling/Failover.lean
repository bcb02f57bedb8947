/-
What becomes of the prompts of a process that ends.

The prompts of a match go to the processes that its one `start` has sent a `START` to.
When such a process ends, no other takes its place: a `start` of the match comes too late
from then on, and what a process resumes from its state file lacks the key.

* `Deployment.silent_without_start` — a process that no `START` of a match has been sent to
  feeds no prompt of it;
* `Deployment.no_failover` — once the starts of a match are over, only the processes that
  have been sent a `START` of it and have not ended feed its prompts.
-/
import AgenticJuggling.Incarnations
import AgenticJuggling.Parts
import AgenticJuggling.PromptLedger

open Transition

namespace Deployment

variable {P : Platform} {tokens : Dict NodeId String} {rows : Dict MatchId MatchRecord}
  {metrics : MetricsStore} {m : MatchId}

/-! ### Processes that have ended -/

/-- The process behind `identity` has ended. -/
def Ended (d : Deployment) (identity : Bytes) : Prop :=
  ∃ p, d.peers identity = some p ∧ p.phase = .exited

theorem exit_phase (p : Peer) : p.exit.phase = .exited := by
  rw [Peer.exit]
  split <;> rfl

/-- What has ended does not begin again. -/
theorem PeerStep.exited {identity : Bytes} {inbox : List (Bytes × Json)} {p p' : Peer}
    (h : PeerStep P.toPrimitives identity inbox p p') (hs : p.Sound) (hphase : p.phase = .exited) :
    p'.phase = .exited := by
  cases h with
  | exits => exact exit_phase p
  | skips => exact hphase
  | receives msgType payload p' hnext hreceives =>
    have htaken : p.taken.phase = .exited := hphase
    cases hreceives hs.stateFile with
    | refused h => rfl
    | registered sessionKey h htype hderives => rw [htaken] at h; cases h
    | ignored => exact hphase
    | starts main main' now saves h htype hstep => rw [htaken] at h; cases h
    | stops main h htype => rw [htaken] at h; cases h
  | proceeds main main' a ha h hstep => rw [hphase] at h; cases h
  | reports terminalId idleSeconds tokensUsed now => exact hphase
  | drops => exact hphase

theorem Ended.step {d d' : Deployment} {a : Move} (hd : Wired P tokens rows metrics d)
    {identity : Bytes} (hended : d.Ended identity) (h : d.step P a = some d') :
    d'.Ended identity := by
  obtain ⟨p, hp, hphase⟩ := hended
  -- What another process does leaves this one as it is.
  have hput : ∀ {identity' : Bytes} {q : Peer} (q' : Peer), d.peers identity' = some q →
      (q.phase = .exited → q'.phase = .exited) → (d.put identity' q').Ended identity := by
    intro identity' q q' hq hkeeps
    by_cases hid : identity = identity'
    · subst hid
      obtain rfl := Option.some.inj (hp.symm.trans hq)
      exact ⟨q', Dict.set_self .., hkeeps hphase⟩
    · exact ⟨p, (Dict.set_of_ne _ hid _).trans hp, hphase⟩
  cases step_cases h with
  | launches identity' conf privateKey home stateFile hnew hfile =>
    refine ⟨p, (Dict.set_of_ne _ ?_ _).trans hp, hphase⟩
    rintro rfl
    exact hnew (hd.used identity p hp)
  | moves identity' q q' hq hstep => exact hput q' hq (hstep.exited (hd.sound _ q hq))
  | arrives identity' q frames rest hq houtbox => exact hput { q with outbox := rest } hq id
  | intrudes first rest hfirst hauth => exact ⟨p, hp, hphase⟩
  | serves b sys hb hstep => exact ⟨p, hp, hphase⟩

/-- A process that has ended feeds nothing. -/
theorem Ended.not_fed {d : Deployment} {a : Move} {x : Fed} (hx : x ∈ fed P d a) :
    ¬ d.Ended x.identity := by
  rintro ⟨p, hp, hphase⟩
  obtain ⟨q, main, -, -, -, hq, hserving, -⟩ := mem_fed hx
  obtain rfl := Option.some.inj (hp.symm.trans hq)
  rw [hphase] at hserving
  cases hserving

/-! ### Processes without a START -/

/-- Whether the server has sent `identity` a `START` of the match. -/
def Invited (d : Deployment) (identity : Bytes) (m : MatchId) : Prop :=
  ∃ e ∈ d.sys.server.trace, startsAt identity m e = true

theorem countP_startsAt {d : Deployment} {identity : Bytes} (h : ¬ d.Invited identity m) :
    d.sys.server.trace.countP (startsAt identity m) = 0 :=
  List.countP_eq_zero.mpr fun e he hstart => h ⟨e, he, hstart⟩

/-- **No `START`, no prompt.** -/
theorem silent_without_start {moves later : List Move} {d d' : Deployment}
    (hrun : run (step P) (boot tokens rows metrics) moves = some d)
    (hrun' : run (step P) d later = some d') {identity : Bytes} (h : ¬ d'.Invited identity m) :
    ∀ x ∈ observed (step P) (fed P) d later, x.identity = identity → x.matchId ≠ m := by
  intro x hx hidentity hmatch
  have hall : run (step P) (boot tokens rows metrics) (moves ++ later) = some d' :=
    run_append_eq_some.mpr ⟨d, hrun, hrun'⟩
  -- The whole run spends no more of the ledger than has come in, and that is nothing.
  have hledger : (observed (step P) (fed P) (boot tokens rows metrics) (moves ++ later)).countP
      (Fed.isEntry identity m x.entry) + d'.stock identity m x.entry + 0 ≤
        0 + d'.income identity m :=
    countP_observed_le (I := Wired P tokens rows metrics) (fun _ _ _ hd h => hd.step h)
      (fun d _ d' hd h => step_ledger hd h identity m x.entry) wired_boot hall
  have hincome := d'.income_le identity m
  rw [countP_startsAt h] at hincome
  have hnone : (observed (step P) (fed P) (boot tokens rows metrics) (moves ++ later)).countP
      (Fed.isEntry identity m x.entry) = 0 := by omega
  rw [observed_append hrun] at hnone
  refine List.countP_eq_zero.mp hnone x (List.mem_append_right _ hx) ?_
  exact decide_eq_true ⟨hidentity, hmatch, rfl⟩

/-! ### A match whose starts are over -/

/-- What a step of the deployment adds to the trace is no `START` of the match. -/
theorem passed_step {d d' : Deployment} {a : Move} (hd : Wired P tokens rows metrics d)
    (hs : d.sys.Passed m) (h : d.step P a = some d') : d'.sys.Passed m ∧
      ∃ es, d'.sys.server.trace = d.sys.server.trace ++ es ∧ Sys.NoStart m es := by
  have hstep : ∀ {b}, Sys.step P d.sys b = some d'.sys → d'.sys.Passed m ∧
      ∃ es, d'.sys.server.trace = d.sys.server.trace ++ es ∧ Sys.NoStart m es :=
    fun h => ⟨hs.step h, hs.noStart h⟩
  obtain hsame | ⟨b, -, -, hb⟩ | ⟨frames, -, -, hb⟩ | ⟨identity, p, frames, -, -, hb⟩ :=
    sys_of_step hd h
  · rw [hsame]
    exact ⟨hs, [], (List.append_nil _).symm, fun _ _ _ h => absurd h List.not_mem_nil⟩
  · exact hstep hb
  · exact hstep hb
  · exact hstep hb

theorem invited_of_passed {d d' : Deployment} {es : List Event}
    (htrace : d'.sys.server.trace = d.sys.server.trace ++ es) (hes : Sys.NoStart m es)
    {identity : Bytes} (h : d'.Invited identity m) : d.Invited identity m := by
  obtain ⟨e, he, hstart⟩ := h
  rw [htrace] at he
  obtain hold | hnew := List.mem_append.mp he
  · exact ⟨e, hold, hstart⟩
  · -- A new event is no `START` of the match.
    cases e with
    | sent n identity' msgType payload =>
      cases msgType with
      | start => exact absurd (of_decide_eq_true hstart).2 (hes n identity' payload hnew)
      | stop => cases hstart
    | _ => cases hstart

/-- **Nobody takes over.**  Once a match is past `LOBBY` and no `start` that has found it
there is under way, then whatever happens, its prompts are fed by the processes that have
been sent a `START` of it already and have not ended; what a process that has ended has not
fed is fed by nobody. -/
theorem no_failover {moves later : List Move} {d d' : Deployment}
    (hrun : run (step P) (boot tokens rows metrics) moves = some d)
    (hpast : d.sys.server.store.Past m)
    (hstarts : ∀ tid t, d.sys.tasks tid = some t → t.kind = .start → t.matchId = m → t.pc.Shut)
    (hrun' : run (step P) d later = some d') :
    ∀ x ∈ observed (step P) (fed P) d later, x.matchId = m →
      d.Invited x.identity m ∧ ¬ d.Ended x.identity := by
  have hwired := run_wired hrun
  obtain ⟨acts, hacts⟩ := hwired.reachable
  have hpassed : d.sys.Passed m :=
    ⟨Sys.sound_run (Sys.sound_boot ..) hacts, hpast, hstarts⟩
  intro x hx hmatch
  constructor
  · by_contra hnone
    have hlater : (Wired P tokens rows metrics d' ∧ d'.sys.Passed m) ∧
        ¬ d'.Invited x.identity m := by
      refine invariant_of_run (I := fun d' => (Wired P tokens rows metrics d' ∧
        d'.sys.Passed m) ∧ ¬ d'.Invited x.identity m) (fun e a e' he h => ?_)
        ⟨⟨hwired, hpassed⟩, hnone⟩ hrun'
      obtain ⟨hpassed', es, htrace, hes⟩ := passed_step he.1.1 he.1.2 h
      exact ⟨⟨he.1.1.step h, hpassed'⟩, fun hinvited =>
        he.2 (invited_of_passed htrace hes hinvited)⟩
    exact silent_without_start hrun hrun' hlater.2 x hx rfl hmatch
  · intro hended
    have hsilent : (Wired P tokens rows metrics d' ∧ d'.Ended x.identity) ∧
        ∀ y : Fed, y ∈ [] ++ observed (step P) (fed P) d later → y.identity ≠ x.identity := by
      refine invariant_of_observed (I := fun d' seen => (Wired P tokens rows metrics d' ∧
        d'.Ended x.identity) ∧ ∀ y : Fed, y ∈ seen → y.identity ≠ x.identity)
        (fun e seen a e' he h => ⟨⟨he.1.1.step h, he.1.2.step he.1.1 h⟩, fun y hy => ?_⟩)
        ⟨⟨hwired, hended⟩, fun y hy => absurd hy List.not_mem_nil⟩ hrun'
      obtain hold | hnew := List.mem_append.mp hy
      · exact he.2 y hold
      · exact fun heq => Ended.not_fed hnew (heq ▸ he.1.2)
    exact hsilent.2 x hx rfl

/-- The match has been started, and the process that has been sent the `START` feeds the
prompt. -/
theorem no_failover_sample : ∃ d d' x,
    run (step Sample.framed) Sample.deployment Sample.registers = some d ∧
      run (step Sample.framed) d [.deliver [1] 5 true, .node [1] (.task (.resume 0 0 true))] =
        some d' ∧
      x ∈ observed (step Sample.framed) (fed Sample.framed) d
        [.deliver [1] 5 true, .node [1] (.task (.resume 0 0 true))] ∧
      d.Invited x.identity "m" ∧ ¬ d.Ended x.identity := by
  have hruns : ((run (step Sample.framed) Sample.deployment Sample.registers).bind fun d =>
      (run (step Sample.framed) d
        [.deliver [1] 5 true, .node [1] (.task (.resume 0 0 true))]).map fun _ =>
        (observed (step Sample.framed) (fed Sample.framed) d
          [.deliver [1] 5 true, .node [1] (.task (.resume 0 0 true))],
          (d.sys.server.store.rows "m").map (·.state),
          (List.range d.sys.next).all fun tid => (d.sys.tasks tid).all fun t =>
            decide (t.kind ≠ .start) || t.pc.isDone)) =
      some ([⟨[1], "m", 0, "go"⟩], some .running, true) := by decide +kernel
  obtain ⟨d, hd, h⟩ := Option.bind_eq_some_iff.mp hruns
  obtain ⟨d', hd', heq⟩ := Option.map_eq_some_iff.mp h
  obtain ⟨hfed, hrest⟩ := Prod.mk.inj heq
  obtain ⟨hstate, htasks⟩ := Prod.mk.inj hrest
  obtain ⟨r, hr, hrunning⟩ := Option.map_eq_some_iff.mp hstate
  have hstarts : ∀ tid t, d.sys.tasks tid = some t → t.kind = .start → t.matchId = "m" →
      t.pc.Shut := by
    intro tid t ht hkind _
    obtain ⟨acts, hacts⟩ := (run_wired hd).reachable
    have hlt := (Sys.sound_run (Sys.sound_boot ..) hacts).lt_next ht
    have hdone := List.all_eq_true.mp htasks tid (List.mem_range.mpr hlt)
    rw [ht, Option.all_some, hkind] at hdone
    cases hpc : t.pc with
    | done outcome => trivial
    | _ => rw [hpc] at hdone; cases hdone
  have hmem : (⟨[1], "m", 0, "go"⟩ : Fed) ∈ observed (step Sample.framed) (fed Sample.framed) d
      [.deliver [1] 5 true, .node [1] (.task (.resume 0 0 true))] := by
    rw [hfed]
    exact List.mem_singleton_self _
  have hstate' : r.state ≠ .lobby := by
    rw [hrunning]
    decide
  exact ⟨d, d', _, hd, hd', hmem, no_failover hd ⟨r, hr, hstate'⟩ hstarts hd' _ hmem rfl⟩

end Deployment
