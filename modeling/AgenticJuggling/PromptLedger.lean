/-
How often a prompt is fed to an agent.

A `START` is good for one pass through its schedule.  The ledger of a process counts
the tasks that may still decrypt the prompt of an entry: a `START` adds one for every
scheduler it makes, a prompt that is fed takes one away, and nothing else adds any.

* `NodeMain.step_ledger` — what one step of a process feeds is taken from its ledger;
* `Deployment.prompts_once` — in every run of a deployment, an entry of a match is fed
  by a process at most as often as the server has sent it a `START` of that match.
-/
import AgenticJuggling.Provenance

open Transition

namespace FireJob

/-- The task may still decrypt its prompt. -/
def awaits (job : FireJob) : Bool :=
  !job.cancelled && decide (job.phase = .created ∨ job.phase = .sleeping ∨ job.phase = .due)

theorem awaits_eq_true {job : FireJob} : job.awaits = true ↔
    job.cancelled = false ∧ (job.phase = .created ∨ job.phase = .sleeping ∨ job.phase = .due) := by
  rw [awaits, Bool.and_eq_true, Bool.not_eq_true', decide_eq_true_eq]

theorem awaits_of_fires {job : FireJob} (h : job.turn = some .fires) : job.awaits = true := by
  rw [awaits_eq_true]
  rw [turn] at h
  split at h
  · split at h
    · cases h
    · cases h
  · next hcancelled =>
    refine ⟨by simpa using hcancelled, ?_⟩
    split at h
    · next hphase => exact .inl hphase
    · next hphase => exact .inr (.inr hphase)
    · cases h
    · cases h
    · cases h

theorem awaits_of_sleeps {job : FireJob} (h : job.turn = some .sleeps) : job.awaits = true := by
  rw [awaits_eq_true]
  rw [turn] at h
  split at h
  · split at h
    · cases h
    · cases h
  · next hcancelled =>
    refine ⟨by simpa using hcancelled, ?_⟩
    split at h
    · next hphase => exact .inl hphase
    · cases h
    · cases h
    · cases h
    · cases h

end FireJob

namespace SchedulerState

/-- Entry `i` of match `m` may still be fed by this scheduler. -/
def awaits (o : SchedulerState) (m : MatchId) (i : ℕ) : Bool :=
  decide (o.matchId = m) && (o.jobs[i]?).any FireJob.awaits

theorem awaits_eq_true {o : SchedulerState} {m : MatchId} {i : ℕ} : o.awaits m i = true ↔
    o.matchId = m ∧ ∃ job, o.jobs[i]? = some job ∧ job.awaits = true := by
  rw [awaits, Bool.and_eq_true, decide_eq_true_eq, Option.any_eq_true_iff_get]
  constructor
  · rintro ⟨hm, hsome, hjob⟩
    exact ⟨hm, _, (Option.some_get hsome).symm, hjob⟩
  · rintro ⟨hm, job, hjob, hawaits⟩
    refine ⟨hm, by rw [hjob]; rfl, ?_⟩
    simpa [hjob] using hawaits

/-- A task that goes on comes no nearer to its start. -/
theorem awaits_of_setPhase {o : SchedulerState} {j : ℕ} {job : FireJob} {phase : JobPhase}
    (hjob : o.jobs[j]? = some job)
    (hphase : ({ job with phase := phase } : FireJob).awaits = true → job.awaits = true)
    {m : MatchId} {i : ℕ} (h : (o.setPhase j phase).awaits m i = true) : o.awaits m i = true := by
  rw [awaits_eq_true] at h ⊢
  obtain ⟨hm, job', hjob', hawaits⟩ := h
  obtain ⟨job₀, hjob₀, rfl⟩ := getElem?_setPhase.mp hjob'
  refine ⟨hm, job₀, hjob₀, ?_⟩
  split at hawaits
  · next hij =>
    subst hij
    obtain rfl := Option.some.inj (hjob.symm.trans hjob₀)
    exact hphase hawaits
  · exact hawaits

/-- A task that has fired does not fire again. -/
theorem awaits_setPhase_self {o : SchedulerState} {i : ℕ} {phase : JobPhase} {m : MatchId}
    (hphase : phase = .opening ∨ phase = .finished) : (o.setPhase i phase).awaits m i = false := by
  by_contra h
  rw [Bool.not_eq_false, awaits_eq_true] at h
  obtain ⟨-, job', hjob', hawaits⟩ := h
  obtain ⟨job, -, rfl⟩ := getElem?_setPhase.mp hjob'
  rw [if_pos rfl, FireJob.awaits_eq_true] at hawaits
  obtain rfl | rfl := hphase
  · simp at hawaits
  · simp at hawaits

theorem awaits_of_stopped {o : SchedulerState} {m : MatchId} {i : ℕ}
    (h : o.stopped.awaits m i = true) : o.awaits m i = true := by
  rw [awaits_eq_true] at h ⊢
  obtain ⟨hm, job', hjob', hawaits⟩ := h
  rw [stopped, List.getElem?_mapIdx, Option.map_eq_some_iff] at hjob'
  obtain ⟨job, hjob, rfl⟩ := hjob'
  refine ⟨hm, job, hjob, ?_⟩
  split at hawaits
  · simp [FireJob.awaits] at hawaits
  · exact hawaits

end SchedulerState

namespace Scheduling

/-- Entry `i` of match `m` may still be fed by scheduler `id`. -/
def awaits (s : Scheduling) (m : MatchId) (i : ℕ) (id : SchedulerId) : Bool :=
  (s.schedulers id).any (·.awaits m i)

theorem awaits_of_schedulers {s : Scheduling} {id : SchedulerId} {o : SchedulerState}
    (ho : s.schedulers id = some o) (m : MatchId) (i : ℕ) : s.awaits m i id = o.awaits m i := by
  rw [awaits, ho]
  rfl

theorem awaits_put (s : Scheduling) (id id' : SchedulerId) (o : SchedulerState) (m : MatchId)
    (i : ℕ) : (s.put id o).awaits m i id' = if id' = id then o.awaits m i else s.awaits m i id' := by
  rw [awaits, schedulers_put]
  split
  · rfl
  · rfl

/-- A scheduler is replaced by one that awaits no more. -/
theorem awaits_of_put {s : Scheduling} {id id' : SchedulerId} {o o' : SchedulerState}
    (ho : s.schedulers id = some o) {m : MatchId} {i : ℕ}
    (hawaits : o'.awaits m i = true → o.awaits m i = true)
    (h : (s.put id o').awaits m i id' = true) : s.awaits m i id' = true := by
  rw [awaits_put] at h
  split at h
  · next hid =>
    rw [hid, awaits_of_schedulers ho]
    exact hawaits h
  · exact h

variable {P : Primitives}

/-- The prompt of an entry is decrypted by a task that awaited, and does no more. -/
theorem fire_awaits {s : Scheduling} {id : SchedulerId} {i : ℕ} {o : SchedulerState} {job : FireJob}
    (hjob : s.job id i = some (o, job)) (hturn : job.turn = some .fires) (binds : Bool) :
    s.awaits o.matchId i id = true ∧ (s.fire P id o i job binds).awaits o.matchId i id = false := by
  obtain ⟨ho, hi⟩ := job_eq_some.mp hjob
  constructor
  · rw [awaits_of_schedulers ho, SchedulerState.awaits_eq_true]
    exact ⟨rfl, job, hi, FireJob.awaits_of_fires hturn⟩
  · rw [fire]
    split
    · rw [awaits_put, if_pos rfl]
      exact SchedulerState.awaits_setPhase_self (.inr rfl)
    · rw [awaits_put, if_pos rfl]
      cases binds with
      | true => exact SchedulerState.awaits_setPhase_self (.inl rfl)
      | false => exact SchedulerState.awaits_setPhase_self (.inr rfl)

/-- No step of a task makes another one await. -/
theorem step_awaits {s s' : Scheduling} {a : Act} (ha : a.IsTask) (h : s.step P a = some s')
    {m : MatchId} {i : ℕ} {id : SchedulerId} (hawaits : s'.awaits m i id = true) :
    s.awaits m i id = true := by
  cases a with
  | unwrap matchId encryptedMatchKey => exact ha.elim
  | start id agentname matchId t0 schedule now => exact ha.elim
  | stop id => exact ha.elim
  | elapsed id' j =>
    obtain ⟨⟨o, job⟩, hjob, h⟩ := Option.bind_eq_some_iff.mp h
    dsimp only at h
    split at h
    · next hphase =>
      obtain rfl := Option.some.inj h
      obtain ⟨ho, hj⟩ := job_eq_some.mp hjob
      refine awaits_of_put ho (SchedulerState.awaits_of_setPhase hj fun hdue => ?_) hawaits
      rw [FireJob.awaits_eq_true] at hdue ⊢
      exact ⟨hdue.1, .inr (.inl hphase)⟩
    · cases h
  | spawned id' j succeeds =>
    obtain ⟨⟨o, job⟩, hjob, h⟩ := Option.bind_eq_some_iff.mp h
    dsimp only at h
    split at h
    · obtain rfl := Option.some.inj h
      obtain ⟨ho, hj⟩ := job_eq_some.mp hjob
      refine awaits_of_put ho (SchedulerState.awaits_of_setPhase hj fun hspawned => ?_) hawaits
      simp [FireJob.awaits] at hspawned
    · cases h
  | resume id' j binds =>
    obtain ⟨⟨o, job⟩, hjob, h⟩ := Option.bind_eq_some_iff.mp h
    obtain ⟨turn, hturn, h⟩ := Option.bind_eq_some_iff.mp h
    obtain rfl := Option.some.inj h
    obtain ⟨ho, hj⟩ := job_eq_some.mp hjob
    have hfinished : (s.put id' (o.setPhase j .finished)).awaits m i id = true →
        s.awaits m i id = true := by
      refine awaits_of_put ho (SchedulerState.awaits_of_setPhase hj fun hfinished => ?_)
      simp [FireJob.awaits] at hfinished
    cases turn with
    | ends => exact hfinished hawaits
    | registers => exact hfinished hawaits
    | sleeps =>
      exact awaits_of_put ho (SchedulerState.awaits_of_setPhase hj fun _ =>
        FireJob.awaits_of_sleeps hturn) hawaits
    | fires =>
      rw [take, fire] at hawaits
      split at hawaits
      · exact hfinished hawaits
      · exact awaits_of_put ho (fun h => SchedulerState.awaits_of_setPhase
          (o := o.appendWindow ⟨id', j, job.task.terminalId⟩) hj
          (fun _ => FireJob.awaits_of_fires hturn) h) hawaits

end Scheduling

namespace Deployment

/-- The prompt is that of entry `i` of match `m`, and fed by the process behind `identity`. -/
def Fed.isEntry (identity : Bytes) (m : MatchId) (i : ℕ) (x : Fed) : Bool :=
  decide (x.identity = identity ∧ x.matchId = m ∧ x.entry = i)

end Deployment

namespace NodeMain

/-- How many schedulers may still feed entry `i` of match `m`. -/
def ledger (s : NodeMain) (m : MatchId) (i : ℕ) : ℕ :=
  ((Finset.range s.starts).filter fun id => s.scheduling.awaits m i id = true).card

/-- A `START` of match `m`. -/
def Act.startsMatch (m : MatchId) : Act → Bool
  | .start payload _ _ => decide (Event.matchOf payload = some m)
  | _ => false

variable {P : Primitives}

theorem Sound.lt_of_awaits {s : NodeMain} (hs : s.Sound) {m : MatchId} {i : ℕ} {id : SchedulerId}
    (h : s.scheduling.awaits m i id = true) : id < s.starts := by
  by_contra hge
  rw [Scheduling.awaits, hs.numbered id (not_lt.mp hge)] at h
  cases h

/-- A step after which no other scheduler awaits adds nothing. -/
theorem ledger_le {s s' : NodeMain} (hs : s.Sound) {m : MatchId} {i : ℕ}
    (h : ∀ id, s'.scheduling.awaits m i id = true → s.scheduling.awaits m i id = true) :
    s'.ledger m i ≤ s.ledger m i := by
  refine Finset.card_le_card fun id hid => ?_
  have hawaits := h id (Finset.mem_filter.mp hid).2
  exact Finset.mem_filter.mpr ⟨Finset.mem_range.mpr (hs.lt_of_awaits hawaits), hawaits⟩

/-- A step after which one scheduler less awaits takes one away. -/
theorem ledger_lt {s s' : NodeMain} (hs : s.Sound) {m : MatchId} {i : ℕ}
    (h : ∀ id, s'.scheduling.awaits m i id = true → s.scheduling.awaits m i id = true)
    {id : SchedulerId} (hbefore : s.scheduling.awaits m i id = true)
    (hafter : s'.scheduling.awaits m i id = false) : s'.ledger m i < s.ledger m i := by
  refine Finset.card_lt_card (Finset.ssubset_iff_of_subset ?_ |>.mpr ⟨id, ?_, ?_⟩)
  · intro id hid
    have hawaits := h id (Finset.mem_filter.mp hid).2
    exact Finset.mem_filter.mpr ⟨Finset.mem_range.mpr (hs.lt_of_awaits hawaits), hawaits⟩
  · exact Finset.mem_filter.mpr ⟨Finset.mem_range.mpr (hs.lt_of_awaits hbefore), hbefore⟩
  · intro hid
    rw [(Finset.mem_filter.mp hid).2] at hafter
    cases hafter

theorem matchOf_ofPayload {agent : String} {payload : Json} {f : StartFields}
    (h : StartFields.ofPayload agent payload = some f) : Event.matchOf payload = some f.matchId := by
  obtain ⟨json, hjson, h⟩ := Option.bind_eq_some_iff.mp h
  obtain ⟨matchId, hmatch, h⟩ := Option.bind_eq_some_iff.mp h
  obtain ⟨t0, -, h⟩ := Option.bind_eq_some_iff.mp h
  obtain ⟨key, -, h⟩ := Option.bind_eq_some_iff.mp h
  obtain ⟨schedule, -, h⟩ := Option.bind_eq_some_iff.mp h
  obtain rfl := Option.some.inj h
  exact Option.bind_eq_some_iff.mpr ⟨json, hjson, hmatch⟩

/-- A `START` adds one scheduler at most, and of its own match only. -/
theorem ledger_start {agent : String} {s s' : NodeMain} {payload : Json} {now : ℚ} {saves : Bool}
    (hs : s.Sound) (h : s.step P agent (.start payload now saves) = some s') (m : MatchId) (i : ℕ) :
    s'.ledger m i ≤ s.ledger m i + if Event.matchOf payload = some m then 1 else 0 := by
  obtain rfl := step_start h
  have hgives : ∀ s'' : NodeMain, s''.scheduling.schedulers = s.scheduling.schedulers →
      s''.ledger m i ≤ s.ledger m i := by
    intro s'' heq
    refine ledger_le hs fun id hid => ?_
    rwa [Scheduling.awaits, heq] at hid
  obtain heq | ⟨f, crypto, hf, -, ⟨-, heq⟩ | ⟨-, heq⟩⟩ :=
    onStart_cases (P := P) agent s payload now saves
  · rw [heq]
    exact (hgives s.givesUp rfl).trans (Nat.le_add_right ..)
  · rw [heq]
    exact (hgives (s.unwrapped crypto).givesUp rfl).trans (Nat.le_add_right ..)
  · obtain ⟨tasks, htasks⟩ := SchedulerState.start_eq f.agentname f.matchId f.t0 f.schedule now
    rw [heq, matchOf_ofPayload hf]
    -- Of the schedulers there were, the same await as before; the new one is of this match.
    have hsubset : ((Finset.range (s.starts + 1)).filter fun id =>
        ((((s.unwrapped crypto).save f).schedule f now).scheduling.awaits m i id = true)) ⊆
        ((Finset.range s.starts).filter fun id => s.scheduling.awaits m i id = true) ∪
          if some f.matchId = some m then {s.starts} else ∅ := by
      intro id hid
      obtain ⟨-, hawaits⟩ := Finset.mem_filter.mp hid
      rw [schedule, Scheduling.awaits_put] at hawaits
      split at hawaits
      · next hnew =>
        rw [htasks, SchedulerState.awaits_eq_true] at hawaits
        have hmatch : f.matchId = m := hawaits.1
        refine Finset.mem_union_right _ ?_
        rw [if_pos (congrArg some hmatch)]
        exact Finset.mem_singleton.mpr hnew
      · refine Finset.mem_union_left _ (Finset.mem_filter.mpr ⟨?_, hawaits⟩)
        exact Finset.mem_range.mpr (hs.lt_of_awaits hawaits)
    refine (Finset.card_le_card hsubset).trans ((Finset.card_union_le ..).trans ?_)
    refine Nat.add_le_add_left ?_ _
    split
    · exact (Finset.card_singleton _).le
    · exact Finset.card_empty.le

theorem feeds_of_ne_task {identity : Bytes} {s : NodeMain} {a : Act} (ha : ∀ b, a ≠ .task b) :
    Deployment.feeds P identity s a = [] := by
  cases a with
  | task b => exact absurd rfl (ha b)
  | _ => rfl

/-- **What a step feeds is taken from the ledger.** -/
theorem step_ledger {agent : String} {s s' : NodeMain} {a : Act} (hs : s.Sound)
    (h : s.step P agent a = some s') (identity : Bytes) (m : MatchId) (i : ℕ) :
    (Deployment.feeds P identity s a).countP (Deployment.Fed.isEntry identity m i) + s'.ledger m i ≤
      s.ledger m i + if a.startsMatch m then 1 else 0 := by
  cases a with
  | start payload now saves =>
    rw [feeds_of_ne_task (by simp), List.countP_nil, Nat.zero_add]
    simpa [Act.startsMatch] using ledger_start hs h m i
  | stop =>
    obtain rfl := Option.some.inj h
    rw [feeds_of_ne_task (by simp), List.countP_nil, Nat.zero_add]
    refine (ledger_le hs fun id hid => ?_).trans (Nat.le_add_right ..)
    obtain ⟨heq, -⟩ | ⟨id', o, -, ho, heq⟩ := s.onStop_scheduling
    · rwa [heq] at hid
    · have hstop : (s.scheduling.stop id' o).awaits m i id =
          (s.scheduling.put id' o.stopped).awaits m i id := rfl
      rw [heq, hstop] at hid
      exact Scheduling.awaits_of_put ho SchedulerState.awaits_of_stopped hid
  | raised id =>
    obtain rfl := Option.some.inj h
    rw [feeds_of_ne_task (by simp), List.countP_nil, Nat.zero_add]
    exact (ledger_le hs fun id hid => hid).trans (Nat.le_add_right ..)
  | task b =>
    obtain ⟨scheduling, htask, hstep, rfl⟩ := step_task h
    have hkept : ∀ id, scheduling.awaits m i id = true → s.scheduling.awaits m i id = true :=
      fun id => Scheduling.step_awaits htask hstep
    have hle : ({ s with scheduling := scheduling } : NodeMain).ledger m i ≤ s.ledger m i :=
      ledger_le hs hkept
    refine le_trans ?_ (Nat.le_add_right ..)
    by_cases hzero :
        (Deployment.feeds P identity s (.task b)).countP (Deployment.Fed.isEntry identity m i) = 0
    · rw [hzero, Nat.zero_add]
      exact hle
    · -- A prompt of this entry is fed: its task awaited, and does no more.
      obtain ⟨x, hx, hentry⟩ := List.countP_pos_iff.mp (Nat.pos_of_ne_zero hzero)
      cases b with
      | resume id j binds =>
        obtain ⟨⟨o, job⟩, hjob, hstep⟩ := Option.bind_eq_some_iff.mp hstep
        obtain ⟨turn, hturn, hstep⟩ := Option.bind_eq_some_iff.mp hstep
        obtain rfl := Option.some.inj hstep
        rw [Deployment.feeds, hjob] at hx hzero ⊢
        dsimp only at hx hzero ⊢
        rw [hturn] at hx hzero ⊢
        split at hx
        · next hfires =>
          obtain rfl := Option.some.inj hfires
          obtain ⟨prompt, -, rfl⟩ := List.mem_map.mp hx
          obtain ⟨-, hm, hi⟩ := of_decide_eq_true hentry
          subst hm hi
          dsimp only at hkept ⊢
          obtain ⟨hbefore, hafter⟩ := Scheduling.fire_awaits (P := P) hjob hturn binds
          have hlt : ({ s with scheduling := s.scheduling.take P id o j job binds .fires } :
              NodeMain).ledger o.matchId j < s.ledger o.matchId j :=
            ledger_lt hs hkept hbefore hafter
          have hone : (((job.task.fire P s.scheduling.crypto o.matchId).toList.map fun prompt =>
              (⟨identity, o.matchId, j, prompt⟩ : Deployment.Fed)).countP
              (Deployment.Fed.isEntry identity o.matchId j)) ≤ 1 := by
            refine List.countP_le_length.trans ?_
            rw [List.length_map]
            exact Option.length_toList_le
          rw [if_pos rfl]
          omega
        · exact absurd hx List.not_mem_nil
      | _ => exact absurd hx List.not_mem_nil

end NodeMain

/-- How many schedulers of the process may still feed entry `i` of match `m`. -/
def Peer.ledger (p : Peer) (m : MatchId) (i : ℕ) : ℕ :=
  match p.phase with
  | .serving main => main.ledger m i
  | _ => 0

/-- A `START` of match `m`, as a process receives it. -/
def Peer.isStart (m : MatchId) (message : Bytes × Json) : Bool :=
  decide (message.1 = msgStart ∧ Event.matchOf message.2 = some m)

/-- How many `START`s of match `m` are gone from the socket of the process. -/
def Peer.income (inbox : List (Bytes × Json)) (p : Peer) (m : MatchId) : ℕ :=
  (inbox.take p.received).countP (isStart m)

namespace Deployment

theorem ledger_of_phase {p : Peer} {main : NodeMain} (h : p.phase = .serving main) (m : MatchId)
    (i : ℕ) : p.ledger m i = main.ledger m i := by
  rw [Peer.ledger, h]

theorem ledger_exit (p : Peer) (m : MatchId) (i : ℕ) : p.exit.ledger m i = 0 := by
  rw [Peer.exit]
  split
  · rfl
  · rfl

theorem income_exit (inbox : List (Bytes × Json)) (p : Peer) (m : MatchId) :
    p.exit.income inbox m = p.income inbox m := by
  rw [Peer.exit]
  split
  · rfl
  · rfl

theorem income_taken (inbox : List (Bytes × Json)) (p : Peer) (m : MatchId) :
    p.taken.income inbox m =
      p.income inbox m + (inbox[p.received]?).toList.countP (Peer.isStart m) := by
  rw [Peer.income, Peer.taken, List.take_add_one, List.countP_append]
  rfl

theorem startsMatch_of_isOwn {a : NodeMain.Act} (ha : a.isOwn = true) (m : MatchId) :
    a.startsMatch m = false := by
  cases a with
  | start payload now saves => cases ha
  | _ => rfl

variable {P : Platform}

/-- What a step of a process adds to its ledger has come in. -/
theorem PeerStep.ledger {identity : Bytes} {inbox : List (Bytes × Json)} {p p' : Peer}
    (h : PeerStep P.toPrimitives identity inbox p p') (hs : p.Sound) (m : MatchId) (i : ℕ) :
    p'.ledger m i + p.income inbox m ≤ p.ledger m i + p'.income inbox m := by
  have htaken := income_taken inbox p m
  -- What the handlers of a process that serves take from its ledger.
  have hmain : ∀ {main main' : NodeMain} {a : NodeMain.Act}, p.phase = .serving main →
      main.step P.toPrimitives p.conf.agent a = some main' →
      main'.ledger m i ≤ p.ledger m i + if a.startsMatch m then 1 else 0 := by
    intro main main' a hphase hstep
    rw [ledger_of_phase hphase]
    exact (Nat.le_add_left ..).trans
      (NodeMain.step_ledger (hs.main main hphase).1 hstep identity m i)
  cases h with
  | exits =>
    rw [ledger_exit, income_exit]
    omega
  | skips =>
    show p.ledger m i + p.income inbox m ≤ p.ledger m i + p.taken.income inbox m
    omega
  | receives msgType payload _ hnext hreceives =>
    rw [hnext, Option.toList_some, List.countP_singleton] at htaken
    cases hreceives hs.stateFile with
    | refused hphase =>
      show 0 + p.income inbox m ≤ p.ledger m i + p.taken.income inbox m
      omega
    | registered sessionKey hphase htype hderives =>
      show 0 + p.income inbox m ≤ p.ledger m i + p.taken.income inbox m
      omega
    | ignored =>
      show p.ledger m i + p.income inbox m ≤ p.ledger m i + p.taken.income inbox m
      omega
    | starts main main' now saves hphase htype hstep =>
      show main'.ledger m i + p.income inbox m ≤ p.ledger m i + p.taken.income inbox m
      have hledger := hmain hphase hstep
      have hstart : (NodeMain.Act.start payload now saves).startsMatch m =
          Peer.isStart m (msgType, payload) := by
        simp [NodeMain.Act.startsMatch, Peer.isStart, htype]
      rw [hstart] at hledger
      omega
    | stops main hphase htype =>
      show main.onStop.ledger m i + p.income inbox m ≤ p.ledger m i + p.taken.income inbox m
      have hledger : main.onStop.ledger m i ≤ p.ledger m i := hmain (a := .stop) hphase rfl
      omega
  | proceeds main main' a ha hphase hstep =>
    have hledger := hmain hphase hstep
    rw [startsMatch_of_isOwn ha] at hledger
    exact Nat.add_le_add_right hledger _
  | reports terminalId idleSeconds tokensUsed now => exact le_rfl
  | drops => exact le_rfl

variable {tokens : Dict NodeId String} {rows : Dict MatchId MatchRecord} {metrics : MetricsStore}

/-- How many schedulers of the process behind `identity` may still feed the entry. -/
def stock (d : Deployment) (identity : Bytes) (m : MatchId) (i : ℕ) : ℕ :=
  ((d.peers identity).map (·.ledger m i)).getD 0

def income (d : Deployment) (identity : Bytes) (m : MatchId) : ℕ :=
  ((d.peers identity).map (·.income (d.sys.server.inbox identity) m)).getD 0

/-- A server that goes on has sent no less. -/
theorem income_mono {s s' : Server} {es : List Event} (h : s'.trace = s.trace ++ es)
    (identity : Bytes) (p : Peer) (m : MatchId) :
    p.income (s.inbox identity) m ≤ p.income (s'.inbox identity) m := by
  rw [Peer.income, Peer.income, Server.inbox, Server.inbox, h, List.filterMap_append,
    List.take_append, List.countP_append]
  exact Nat.le_add_right ..

/-- What a step adds to the ledger of a process has come in. -/
theorem Effect.ledger {d d' : Deployment} (hd : Wired P tokens rows metrics d) (h : Effect P d d')
    (identity : Bytes) (m : MatchId) (i : ℕ) :
    d'.stock identity m i + d.income identity m ≤ d.stock identity m i + d'.income identity m := by
  -- What one process does is seen by nobody else.
  have hother : ∀ {identity' : Bytes} (p' : Peer), identity ≠ identity' →
      (d.put identity' p').stock identity m i = d.stock identity m i ∧
        (d.put identity' p').income identity m = d.income identity m := by
    intro identity' p' hne
    have hpeers : (d.put identity' p').peers identity = d.peers identity := Dict.set_of_ne _ hne _
    constructor
    · rw [stock, hpeers, stock]
    · rw [income, hpeers, income]
      rfl
  have hself : ∀ {p : Peer} (p' : Peer), d.peers identity = some p →
      p'.ledger m i + p.income (d.sys.server.inbox identity) m ≤
        p.ledger m i + p'.income (d.sys.server.inbox identity) m →
      (d.put identity p').stock identity m i + d.income identity m ≤
        d.stock identity m i + (d.put identity p').income identity m := by
    intro p p' hp hle
    have hpeers : (d.put identity p').peers identity = some p' := Dict.set_self ..
    rw [stock, income, stock, income, hpeers, hp]
    exact hle
  cases h with
  | launches identity' conf privateKey home stateFile hnew hfile =>
    by_cases hid : identity = identity'
    · subst hid
      have hnone : d.peers identity = none := by
        by_contra hsome
        obtain ⟨p, hp⟩ := Option.ne_none_iff_exists'.mp hsome
        exact hnew (hd.used identity p hp)
      have hpeers : (d.put identity (.launched P.toPrimitives identity conf privateKey
          stateFile)).peers identity = some _ := Dict.set_self ..
      rw [stock, income, stock, hnone]
      show ((((d.put identity _).peers identity).map _).getD 0) + 0 ≤ 0 + _
      rw [hpeers]
      exact Nat.zero_le _
    · obtain ⟨hstock, hincome⟩ := hother (.launched P.toPrimitives identity' conf privateKey
        stateFile) hid
      exact (congrArg₂ (· + ·) hstock hincome.symm).le
  | moves identity' p p' hp hstep =>
    by_cases hid : identity = identity'
    · subst hid
      exact hself p' hp (hstep.ledger (hd.sound identity p hp) m i)
    · obtain ⟨hstock, hincome⟩ := hother p' hid
      rw [hstock, hincome]
  | arrives identity' p frames rest hp houtbox =>
    by_cases hid : identity = identity'
    · subst hid
      exact hself { p with outbox := rest } hp le_rfl
    · obtain ⟨hstock, hincome⟩ := hother { p with outbox := rest } hid
      exact (congrArg₂ (· + ·) hstock hincome.symm).le
  | intrudes first rest hp hauth => exact le_rfl
  | serves a sys ha hstep =>
    refine Nat.add_le_add_left ?_ _
    obtain ⟨es, htrace, -⟩ := Sys.registers_of_step hstep
    rw [income, income]
    cases hp : d.peers identity with
    | none => exact le_rfl
    | some p => exact income_mono htrace identity p m

theorem identity_of_mem_feeds {P : Primitives} {identity : Bytes} {main : NodeMain}
    {a : NodeMain.Act} {x : Fed} (h : x ∈ feeds P identity main a) : x.identity = identity := by
  cases a with
  | task b =>
    cases b with
    | resume id i binds =>
      rw [feeds] at h
      split at h
      · exact absurd h List.not_mem_nil
      · split at h
        · obtain ⟨prompt, -, rfl⟩ := List.mem_map.mp h
          rfl
        · exact absurd h List.not_mem_nil
    | _ => exact absurd h List.not_mem_nil
  | _ => exact absurd h List.not_mem_nil

/-- **What a step feeds is taken from the ledger of its process.** -/
theorem step_ledger {d d' : Deployment} {a : Move} (hd : Wired P tokens rows metrics d)
    (h : d.step P a = some d') (identity : Bytes) (m : MatchId) (i : ℕ) :
    (fed P d a).countP (Fed.isEntry identity m i) + d'.stock identity m i + d.income identity m ≤
      d.stock identity m i + d'.income identity m := by
  have hledger := (step_cases h).ledger hd identity m i
  have hnone : (fed P d a).countP (Fed.isEntry identity m i) = 0 →
      (fed P d a).countP (Fed.isEntry identity m i) + d'.stock identity m i +
        d.income identity m ≤ d.stock identity m i + d'.income identity m := by
    intro hzero
    rw [hzero, Nat.zero_add]
    exact hledger
  cases a with
  | node identity' b =>
    obtain ⟨p, hp, h⟩ := Option.bind_eq_some_iff.mp h
    split at h
    · next main hphase =>
      split at h
      · next hown =>
        obtain ⟨main', hstep, rfl⟩ := Option.map_eq_some_iff.mp h
        have hfed : fed P d (.node identity' b) = feeds P.toPrimitives identity' main b := by
          rw [fed, hp]
          dsimp only
          rw [hphase]
        rw [hfed] at hnone ⊢
        by_cases hid : identity' = identity
        · subst hid
          have hstep := NodeMain.step_ledger (hd.sound identity' p hp |>.main main hphase).1 hstep
            identity' m i
          have hstock : (d.put identity' (p.serve main')).stock identity' m i = main'.ledger m i := by
            have hpeers : (d.put identity' (p.serve main')).peers identity' = some _ :=
              Dict.set_self ..
            rw [stock, hpeers]
            rfl
          have hincome : (d.put identity' (p.serve main')).income identity' m =
              d.income identity' m := by
            have hpeers : (d.put identity' (p.serve main')).peers identity' = some _ :=
              Dict.set_self ..
            rw [income, income, hpeers, hp]
            rfl
          have hbefore : d.stock identity' m i = main.ledger m i := by
            rw [stock, hp, Option.map_some, Option.getD_some, ledger_of_phase hphase]
          rw [startsMatch_of_isOwn hown] at hstep
          simp only [Bool.false_eq_true, if_false, Nat.add_zero] at hstep
          rw [hstock, hincome, hbefore]
          exact Nat.add_le_add_right hstep _
        · refine hnone (List.countP_eq_zero.mpr fun x hx hentry => hid ?_)
          exact (identity_of_mem_feeds hx).symm.trans (of_decide_eq_true hentry).1
      · cases h
    · cases h
  | _ => exact hnone rfl

/-- The event is a `START` of match `m` that is sent to `identity`. -/
def startsAt (identity : Bytes) (m : MatchId) : Event → Bool
  | .sent _ identity' .start payload =>
    decide (identity' = identity ∧ Event.matchOf payload = some m)
  | _ => false

theorem countP_inbox (s : Server) (identity : Bytes) (m : MatchId) :
    (s.inbox identity).countP (Peer.isStart m) = s.trace.countP (startsAt identity m) := by
  have hstop : Peer.msgStop ≠ Peer.msgStart := by decide
  have hok : ServerConnection.msgRegisterOk ≠ Peer.msgStart := by decide
  have hfail : ServerConnection.msgRegisterFail ≠ Peer.msgStart := by decide
  rw [Server.inbox, List.countP_filterMap]
  refine List.countP_congr fun e _ => ?_
  cases e with
  | sent n identity' msgType payload =>
    by_cases hid : identity' = identity
    · cases msgType with
      | start => simp [Event.message, startsAt, Peer.isStart, MsgType.bytes, hid]
      | stop => simp [Event.message, startsAt, Peer.isStart, MsgType.bytes, hid, hstop]
    · cases msgType with
      | start => simp [Event.message, startsAt, hid]
      | stop => simp [Event.message, startsAt, hid]
  | registered n identity' pk reply =>
    by_cases hid : identity' = identity
    · simp [Event.message, startsAt, Peer.isStart, hid, hok]
    · simp [Event.message, startsAt, hid]
  | rejected identity' reason =>
    by_cases hid : identity' = identity
    · simp [Event.message, startsAt, Peer.isStart, hid, hfail]
    · simp [Event.message, startsAt, hid]
  | rowWritten tid matchId state t0 => simp [Event.message, startsAt]
  | marked n state => simp [Event.message, startsAt]

theorem income_le (d : Deployment) (identity : Bytes) (m : MatchId) :
    d.income identity m ≤ d.sys.server.trace.countP (startsAt identity m) := by
  rw [income, ← countP_inbox]
  cases d.peers identity with
  | none => exact Nat.zero_le _
  | some p => exact (List.take_sublist ..).countP_le

/-- **No `START` is worth a prompt twice**: in every run of a deployment, a process
feeds the prompt of an entry of a match at most as often as the server has sent the
process a `START` of that match, however its tasks, `STOP`s and further `START`s
interleave. -/
theorem prompts_once {moves : List Move} {d : Deployment}
    (hrun : run (step P) (boot tokens rows metrics) moves = some d) (identity : Bytes)
    (m : MatchId) (i : ℕ) :
    (observed (step P) (fed P) (boot tokens rows metrics) moves).countP (Fed.isEntry identity m i) ≤
      d.sys.server.trace.countP (startsAt identity m) := by
  -- The process behind `identity` has nothing to begin with.
  have hledger : (observed (step P) (fed P) (boot tokens rows metrics) moves).countP
      (Fed.isEntry identity m i) + d.stock identity m i + 0 ≤ 0 + d.income identity m :=
    countP_observed_le (I := Wired P tokens rows metrics) (fun _ _ _ hd h => hd.step h)
      (fun d _ d' hd h => step_ledger hd h identity m i) wired_boot hrun
  have hle := d.income_le identity m
  omega

theorem prompts_once_sample : ∃ d,
    run (step Sample.framed) Sample.deployment Sample.prompted = some d ∧
      (observed (step Sample.framed) (fed Sample.framed) Sample.deployment Sample.prompted).countP
        (Fed.isEntry [1] "m" 0) = 1 ∧ 1 ≤ d.sys.server.trace.countP (startsAt [1] "m") := by
  obtain ⟨d, hd⟩ := Option.isSome_iff_exists.mp
    (show (run (step Sample.framed) Sample.deployment Sample.prompted).isSome by decide +kernel)
  have hone : (observed (step Sample.framed) (fed Sample.framed) Sample.deployment
      Sample.prompted).countP (Fed.isEntry [1] "m" 0) = 1 := by decide +kernel
  exact ⟨d, hd, hone, hone ▸ prompts_once hd [1] "m" 0⟩

end Deployment
