/-
A node that restarts in the middle of a match (`node/state.py`, `node/main.py`,
`node/scheduler.py`).

`on_start` saves what it takes from a `START`; after a restart the node
registers with a new key pair and hands what it saved to `on_start` again.

* `NodeProcess.resume_never` — `on_start` raises on what it saved itself;
* `MatchScheduler.prompts_once_iff` — a scheduler that is started again with the
  same schedule fires every prompt once and on time just if no prompt is due
  before one of the crashes.
-/
import AgenticJuggling.Delivery
import AgenticJuggling.Restarts

/-! ### Resuming from the saved state -/

namespace NodeProcess

/-- The process that takes over after a crash: its keys are new, the state file
is still there. -/
def restart (p : NodeProcess) (privateKey : Bytes) : NodeProcess where
  crypto := { privateKey := privateKey }
  saved := p.saved

/-- `state.load`. -/
def load (p : NodeProcess) : Option Json := p.saved

variable (P : Primitives)

/-- `resume_if_needed`; `none` where it raises. -/
def resumeIfNeeded (agent : String) (p : NodeProcess) (wasRunning : Json) (now : ℚ) :
    Option NodeProcess :=
  if wasRunning.truthy then
    match p.load with
    | none => some p
    | some saved => if saved.truthy then p.onStart P agent saved now else some p
  else some p

/-- What `connect_and_register` returns of the reply. -/
def wasRunning (response : Json) : Json := (response.get? "was_running").getD (.bool false)

variable {P}

/-- What `on_start` reads of a payload that it accepts, and what it saves. -/
theorem onStart_eq_some {agent : String} {p p' : NodeProcess} {payload : Json} {now : ℚ}
    (h : p.onStart P agent payload now = some p') :
    ∃ matchId t0 key schedule crypto scheduler,
      payload.get? "match_id" = some (.str matchId) ∧ payload.get? "t0" = some t0 ∧
      payload.get? "encrypted_match_key" = some key ∧ payload.get? "schedule" = some schedule ∧
      p.crypto.unwrapMatchKey P matchId key = some crypto ∧
      MatchScheduler.start ((payload.get? "agentname").getD (.str agent)) matchId t0 schedule now
        = some scheduler ∧
      p' = { crypto := crypto
             saved := some (.obj [("match_id", .str matchId), ("t0", t0),
               ("agentname", (payload.get? "agentname").getD (.str agent)), ("schedule", schedule)])
             scheduler := some scheduler } := by
  simp only [onStart, Option.bind_eq_bind, Option.bind_eq_some_iff] at h
  obtain ⟨id, hid, matchId, hmatchId, t0, ht0, key, hkey, schedule, hschedule, crypto, hcrypto,
    scheduler, hscheduler, heq⟩ := h
  obtain rfl : id = .str matchId := by
    cases id <;> simp_all [Json.asStr]
  exact ⟨matchId, t0, key, schedule, crypto, scheduler, hid, ht0, hkey, hschedule, hcrypto,
    hscheduler, (Option.some.inj heq).symm⟩

/-- The saved dictionary has everything that `on_start` reads of the payload but
the match key. -/
theorem onStart_saved {agent : String} {p p' : NodeProcess} {payload : Json} {now : ℚ}
    (h : p.onStart P agent payload now = some p') : ∃ saved, p'.load = some saved ∧
      saved.truthy = true ∧ (∀ field ∈ ["match_id", "t0", "schedule"],
        saved.get? field = payload.get? field) ∧ saved.get? "encrypted_match_key" = none := by
  obtain ⟨matchId, t0, key, schedule, crypto, scheduler, hid, ht0, -, hschedule, -, -, rfl⟩ :=
    onStart_eq_some h
  refine ⟨_, rfl, rfl, ?_, by simp [Json.lookup]⟩
  intro field hfield
  simp only [List.mem_cons, List.not_mem_nil, or_false] at hfield
  rcases hfield with rfl | rfl | rfl
  · simp [Json.lookup, hid]
  · simp [Json.lookup, ht0]
  · simp [Json.lookup, hschedule]

/-- A payload without a wrapped match key is not accepted. -/
theorem onStart_eq_none {agent : String} {p : NodeProcess} {payload : Json} {now : ℚ}
    (h : payload.get? "encrypted_match_key" = none) : p.onStart P agent payload now = none := by
  rw [← Option.not_isSome_iff_eq_none, Option.isSome_iff_exists]
  rintro ⟨p', hp'⟩
  obtain ⟨matchId, t0, key, schedule, crypto, scheduler, -, -, hkey, -⟩ := onStart_eq_some hp'
  rw [h] at hkey
  cases hkey

/-- Process `q` goes on with the match of `payload` at time `now`: it has the
match key that `p` had, and a scheduler for the whole schedule against the same
`t0`. -/
def Resumes (P : Primitives) (agent : String) (payload : Json) (p q : NodeProcess) (now : ℚ) :
    Prop :=
  ∃ q' scheduler matchId t0 schedule, q.resumeIfNeeded P agent (.bool true) now = some q' ∧
    payload.get? "match_id" = some (.str matchId) ∧ payload.get? "t0" = some t0 ∧
    payload.get? "schedule" = some schedule ∧
    q'.crypto.matchKeys matchId = p.crypto.matchKeys matchId ∧
    MatchScheduler.start ((payload.get? "agentname").getD (.str agent)) matchId t0 schedule now
      = some scheduler ∧
    q'.scheduler = some scheduler

/-- **No node ever resumes a match**: whatever `START` it has accepted, once it
has restarted and is told that it was running, `on_start` raises on the saved
dictionary. -/
theorem resume_never {agent : String} {p p₁ p₂ : NodeProcess} {payload reply : Json}
    {privateKey : Bytes} {now now' : ℚ} (hstart : p.onStart P agent payload now = some p₁)
    (hregistered : (p₁.restart privateKey).registered P reply = some p₂) :
    p₂.resumeIfNeeded P agent (.bool true) now' = none ∧ ¬ Resumes P agent payload p₁ p₂ now' := by
  obtain ⟨saved, hsaved, htruthy, -, hkey⟩ := onStart_saved hstart
  have hload : p₂.load = some saved := by
    simp only [registered, Option.bind_eq_bind, Option.bind_eq_some_iff] at hregistered
    obtain ⟨pubkey, -, crypto, -, heq⟩ := hregistered
    rw [← Option.some.inj heq]
    exact hsaved
  have hnone : p₂.resumeIfNeeded P agent (.bool true) now' = none := by
    have htrue : (Json.bool true).truthy = true := rfl
    rw [resumeIfNeeded, if_pos htrue, hload]
    dsimp only
    rw [if_pos htruthy, onStart_eq_none hkey]
  refine ⟨hnone, ?_⟩
  rintro ⟨q', scheduler, matchId, t0, schedule, hresume, -⟩
  rw [hnone] at hresume
  cases hresume

/-- A node with session key `[1]`. -/
def sample : NodeProcess where
  crypto := { privateKey := [], sessionKey := some [1] }

/-- An entry of a schedule for match `"m"`, under the match key `[7]`. -/
def sampleEntry (delay : ℚ) (prompt : String) : Json :=
  .obj [("delay", .float (.fin delay)), ("encrypted_prompt", .str
    (Primitives.transparent.sealBlob [7] Nonce.zero (utf8 prompt) (some (utf8 "m"))))]

/-- The `START` of match `"m"`, with one prompt. -/
def samplePayload : Json :=
  MatchManager.startPayload "m" "claude" 5 (Primitives.transparent.sealBlob [1] Nonce.zero [7] none)
    [sampleEntry 0 "go"]

/-- The reply to the node's second registration. -/
def sampleReply : Json := Server.registerOk true true
  (Base64.b64encode (Primitives.transparent.publicKey [3]))

theorem resume_never_sample : ∃ p₁ p₂,
    sample.onStart Primitives.transparent "claude" samplePayload 5 = some p₁ ∧
      (p₁.restart [2]).registered Primitives.transparent sampleReply = some p₂ ∧
      ¬ Resumes Primitives.transparent "claude" samplePayload p₁ p₂ 6 := by
  obtain ⟨p₁, hp₁, h⟩ := Option.map_eq_some_iff.mp
    (show (sample.onStart Primitives.transparent "claude" samplePayload 5).map
      (fun p₁ => ((p₁.restart [2]).registered Primitives.transparent sampleReply).isSome)
        = some true by decide +kernel)
  obtain ⟨p₂, hp₂⟩ := Option.isSome_iff_exists.mp h
  exact ⟨p₁, p₂, hp₁, hp₂, (resume_never hp₁ hp₂).2⟩

/-- The node accepts the `START`, restarts and registers again, and raises where
it should resume. -/
theorem restarted_node_raises : ∃ p₁ p₂,
    sample.onStart Primitives.transparent "claude" samplePayload 5 = some p₁ ∧
      (p₁.restart [2]).registered Primitives.transparent sampleReply = some p₂ ∧
      (wasRunning sampleReply).truthy = true ∧ p₂.load.isSome = true ∧
      p₂.resumeIfNeeded Primitives.transparent "claude" (wasRunning sampleReply) 6 = none := by
  obtain ⟨p₁, hp₁, h⟩ := Option.map_eq_some_iff.mp
    (show (sample.onStart Primitives.transparent "claude" samplePayload 5).map
      (fun p₁ => ((p₁.restart [2]).registered Primitives.transparent sampleReply).map fun p₂ =>
        (p₂.load.isSome, (p₂.resumeIfNeeded Primitives.transparent "claude"
          (wasRunning sampleReply) 6).isNone)) = some (some (true, true)) by decide +kernel)
  obtain ⟨p₂, hp₂, h⟩ := Option.map_eq_some_iff.mp h
  obtain ⟨hload, hnone⟩ := Prod.mk.inj h
  exact ⟨p₁, p₂, hp₁, hp₂, by decide +kernel, hload, Option.isNone_iff_eq_none.mp hnone⟩

end NodeProcess

/-! ### Starting the scheduler again -/

/-- The prompt of a `_fire` task that goes off in the spell, with the time. -/
def FireTask.firesIn (P : Primitives) (crypto : NodeCrypto) (matchId : MatchId) (spell : Spell ℚ)
    (task : FireTask) : Option (ℚ × Option String) :=
  match task.wait with
  | .fin wait =>
    if spell.start + wait < spell.stop then
      some (spell.start + wait, task.fire P crypto matchId)
    else none
  | _ => none

/-- A process of the node while it runs, with the keys it has then. -/
structure Incarnation where
  spell : Spell ℚ
  crypto : NodeCrypto

namespace MatchScheduler

variable (P : Primitives)

/-- What the `i`-th entry of the schedule has fired in one incarnation, which
starts a scheduler for it. -/
def fired (agentname : Json) (matchId : MatchId) (t0 : ℚ) (schedule : List Json) (i : ℕ)
    (inc : Incarnation) : Option (ℚ × Option String) := do
  let scheduler ← start agentname matchId (.float (.fin t0)) (.arr schedule) inc.spell.start
  let task ← scheduler.tasks[i]?
  task.firesIn P inc.crypto matchId inc.spell

/-- All the times at which it has fired, with the prompts. -/
def prompts (agentname : Json) (matchId : MatchId) (t0 : ℚ) (schedule : List Json) (i : ℕ)
    (incs : List Incarnation) : List (ℚ × Option String) :=
  incs.filterMap (fired P agentname matchId t0 schedule i)

variable {P}

/-- An incarnation that has the match key fires an entry of an encrypted
schedule when its timer goes off. -/
theorem fired_eq (hP : P.Lawful) {c : CryptoManager} {m : MatchId} {matchKey : Bytes}
    (hkey : c.matchKeys m = some matchKey) {schedule : List PromptEntry} {nonces : ℕ → Nonce}
    {encrypted : List Json} (hencrypted : c.encryptSchedule P m nonces schedule = some encrypted)
    (agentname : Json) (t0 : ℚ) {inc : Incarnation}
    (hcrypto : inc.crypto.matchKeys m = some matchKey) {i : ℕ} {entry : PromptEntry}
    (hentry : schedule[i]? = some entry) :
    fired P agentname m t0 encrypted i inc
      = (inc.spell.fires (t0 + entry.delay)).map fun t => (t, some entry.prompt) := by
  obtain ⟨tasks, htasks, hfires⟩ :=
    fireTasks_encryptSchedule hP hkey hcrypto (inc.spell.start - t0) 0 hencrypted
  obtain ⟨task, htask, hfire⟩ : ∃ task, tasks[i]? = some task ∧
      Fires P inc.crypto m (inc.spell.start - t0) task entry := by
    obtain ⟨hi, rfl⟩ := List.getElem?_eq_some_iff.mp hentry
    have hi' : i < tasks.length := hfires.length_eq ▸ hi
    exact ⟨tasks[i], List.getElem?_eq_getElem hi', hfires.get hi' hi⟩
  have hstart : start agentname m (.float (.fin t0)) (.arr encrypted) inc.spell.start
      = some { agentname := agentname, matchId := m, t0 := .fin t0, tasks := tasks } := by
    simp [start, Json.asNumber, Json.items, htasks]
  -- The wait is counted from the start of the spell.
  have htime : inc.spell.start + max 0 (entry.delay - (inc.spell.start - t0))
      = max inc.spell.start (t0 + entry.delay) := by
    rw [← max_add_add_left, add_zero]
    congr 1
    ring
  simp only [fired, hstart, Option.bind_eq_bind, Option.bind_some, htask, FireTask.firesIn,
    hfire.wait, htime, hfire.prompt, Spell.fires]
  split <;> rfl

theorem prompts_eq (hP : P.Lawful) {c : CryptoManager} {m : MatchId} {matchKey : Bytes}
    (hkey : c.matchKeys m = some matchKey) {schedule : List PromptEntry} {nonces : ℕ → Nonce}
    {encrypted : List Json} (hencrypted : c.encryptSchedule P m nonces schedule = some encrypted)
    (agentname : Json) (t0 : ℚ) {incs : List Incarnation}
    (hcrypto : ∀ inc ∈ incs, inc.crypto.matchKeys m = some matchKey) {i : ℕ} {entry : PromptEntry}
    (hentry : schedule[i]? = some entry) :
    prompts P agentname m t0 encrypted i incs
      = (Spell.firings (incs.map (·.spell)) (t0 + entry.delay)).map fun t =>
          (t, some entry.prompt) := by
  induction incs with
  | nil => rfl
  | cons inc incs ih =>
    have hhead := fired_eq hP hkey hencrypted agentname t0 (hcrypto inc List.mem_cons_self) hentry
    have htail := ih fun inc' h => hcrypto inc' (List.mem_cons_of_mem _ h)
    rw [prompts, Spell.firings] at *
    rw [List.map_cons, List.filterMap_cons, List.filterMap_cons, hhead]
    cases inc.spell.fires (t0 + entry.delay) with
    | none => exact htail
    | some t =>
      rw [Option.map_some, List.map_cons, ← htail]

/-- **Every prompt is fired once and when it should be**, by a scheduler that is
started again and again with the same schedule and the match key, just if no
entry is due before one of the crashes. -/
theorem prompts_once_iff (hP : P.Lawful) {c : CryptoManager} {m : MatchId} {matchKey : Bytes}
    (hkey : c.matchKeys m = some matchKey) {schedule : List PromptEntry} {nonces : ℕ → Nonce}
    {encrypted : List Json} (hencrypted : c.encryptSchedule P m nonces schedule = some encrypted)
    (agentname : Json) (t0 : ℚ) {crashed : List Incarnation} {last : Incarnation}
    (hcrypto : ∀ inc ∈ crashed ++ [last], inc.crypto.matchKeys m = some matchKey) :
    (∀ i entry, schedule[i]? = some entry → t0 + entry.delay < last.spell.stop →
      ∃ t, Spell.whenDue ((crashed ++ [last]).map (·.spell)) (t0 + entry.delay) = some t ∧
        prompts P agentname m t0 encrypted i (crashed ++ [last]) = [(t, some entry.prompt)]) ↔
      ∀ entry ∈ schedule, t0 + entry.delay < last.spell.stop →
        ∀ inc ∈ crashed, inc.spell.stop ≤ t0 + entry.delay := by
  -- Entry by entry this is a fact about the spells of the incarnations alone.
  have hentry : ∀ i entry, schedule[i]? = some entry → t0 + entry.delay < last.spell.stop →
      ((∃ t, Spell.whenDue ((crashed ++ [last]).map (·.spell)) (t0 + entry.delay) = some t ∧
        prompts P agentname m t0 encrypted i (crashed ++ [last]) = [(t, some entry.prompt)]) ↔
      ∀ inc ∈ crashed, inc.spell.stop ≤ t0 + entry.delay) := by
    intro i entry hi hdue
    have hiff : Spell.firings (crashed.map (·.spell) ++ [last.spell]) (t0 + entry.delay)
        = (Spell.whenDue (crashed.map (·.spell) ++ [last.spell]) (t0 + entry.delay)).toList ↔
          ∀ spell ∈ crashed.map (·.spell), spell.stop ≤ t0 + entry.delay :=
      Spell.firings_eq_iff hdue
    rw [List.forall_mem_map] at hiff
    rw [← hiff, prompts_eq hP hkey hencrypted agentname t0 hcrypto hi, List.map_append,
      List.map_singleton]
    constructor
    · rintro ⟨t, ht, hfired⟩
      obtain ⟨t', hfirings, heq⟩ := List.map_eq_singleton_iff.mp hfired
      rw [ht, hfirings, (Prod.mk.inj heq).1]
      rfl
    · intro heq
      cases hwhen : Spell.whenDue (crashed.map (·.spell) ++ [last.spell]) (t0 + entry.delay) with
      | none =>
        rw [hwhen, Spell.firings_concat hdue] at heq
        simp at heq
      | some t =>
        rw [hwhen] at heq
        exact ⟨t, rfl, by rw [heq]; rfl⟩
  constructor
  · intro h entry hmem hdue
    obtain ⟨i, hi⟩ := List.mem_iff_getElem?.mp hmem
    exact (hentry i entry hi hdue).mp (h i entry hi hdue)
  · intro h i entry hi hdue
    exact (hentry i entry hi hdue).mpr (h entry (List.mem_of_getElem? hi) hdue)

/-- An incarnation with the match key. -/
def sampleIncarnation (spell : Spell ℚ) : Incarnation where
  spell := spell
  crypto := { privateKey := [], matchKeys := Dict.empty.set "m" [7] }

/-- The prompt is due while the node is down, and fired when it is back. -/
theorem prompts_once_iff_overdue :
    prompts Primitives.transparent .null "m" 0 [NodeProcess.sampleEntry 10 "on"] 0
      [sampleIncarnation ⟨1, 5, by decide⟩, sampleIncarnation ⟨12, 20, by decide⟩]
        = [(12, some "on")] := by
  have hkey : (CryptoManager.mk Dict.empty (Dict.empty.set "m" [7])).matchKeys "m" = some [7] := rfl
  have hencrypted : (CryptoManager.mk Dict.empty (Dict.empty.set "m" [7])).encryptSchedule
      Primitives.transparent "m" (fun _ => Nonce.zero) [⟨10, "on"⟩]
        = some [NodeProcess.sampleEntry 10 "on"] := rfl
  have hcrypto : ∀ inc ∈ [sampleIncarnation ⟨1, 5, by decide⟩]
      ++ [sampleIncarnation ⟨12, 20, by decide⟩], inc.crypto.matchKeys "m" = some [7] := by
    intro inc hinc
    rcases List.mem_cons.mp hinc with rfl | hinc
    · rfl
    · rw [List.mem_singleton.mp hinc]
      rfl
  obtain ⟨t, ht, h⟩ := (prompts_once_iff Primitives.transparent_lawful hkey hencrypted .null 0
    hcrypto).mpr (by decide +kernel) 0 ⟨10, "on"⟩ rfl (by decide +kernel)
  have hwhen : t = 12 := Option.some.inj (ht.symm.trans (by decide +kernel))
  rw [hwhen] at h
  exact h

/-- The prompt was fired before the crash, and is fired again. -/
theorem prompt_fired_twice :
    prompts Primitives.transparent .null "m" 0 [NodeProcess.sampleEntry 0 "go"] 0
      [sampleIncarnation ⟨1, 5, by decide⟩, sampleIncarnation ⟨6, 20, by decide⟩]
        = [(1, some "go"), (6, some "go")] := by
  decide +kernel

end MatchScheduler
