/-
The life of one match, abstractly.

`Shared` is all of the server that the starts and stops of one match race for:
the state and start time in its row, whether it has a key, and the history of
its row writes and `START` packets.  A `View` adds how far each `start` has
come.  `Core` lists what the acting task can do to a view and `Step` is `Core`
up to tasks that end; the labels `gate` and `close` mark the two steps whose
timing decides the races.

* `Ordered.step` — if `LOBBY` is never read while another `start` has read it
  and not yet written, and `FINISHED` never written while a `start` has a row
  write to come, then the row follows the lifecycle edges;
* `Single.step` — the first condition alone makes at most one `start` get past
  the gate, `t0` be written once and every `START` carry it;
* `Closed.step`, `closed_step` — if `FINISHED` is never written while a `start` is on its way
  to generating the key, then a finished match stays finished, without a key
  and without another `START`.
-/
import AgenticJuggling.Router

namespace Lifecycle

/-- The edges of the lifecycle; any state may be finished. -/
def Edge : MatchState → MatchState → Prop
  | .lobby, .starting => True
  | .starting, .running => True
  | .starting, .lobby => True
  | _, .finished => True
  | _, _ => False

instance : DecidableRel Edge := fun a b => by
  cases a <;> cases b <;> unfold Edge <;> infer_instance

theorem Edge.to_finished (st : MatchState) : Edge st .finished := by
  cases st <;> trivial

/-- How far a `start` has come. -/
inductive Phase
  | idle
  /-- It has read `LOBBY` and not yet written `STARTING`. -/
  | gated
  /-- It has written `STARTING` and waits for the nodes. -/
  | starting
  /-- It has written `RUNNING` and not yet generated the key. -/
  | launching (t0 : ℚ)
  /-- It has generated the key and sends the `START` packets. -/
  | dispatching (t0 : ℚ)
  deriving DecidableEq

namespace Phase

/-- Past the gate and with a row write still to come. -/
def racing : Phase → Bool
  | gated => true
  | starting => true
  | _ => false

/-- Past the gate and before the key is generated. -/
def beforeKey : Phase → Bool
  | gated => true
  | starting => true
  | launching _ => true
  | _ => false

/-- The state a `start` of this phase has seen or left in the row. -/
def leaves : Phase → Option MatchState
  | idle => none
  | gated => some .lobby
  | starting => some .starting
  | launching _ => some .running
  | dispatching _ => some .running

/-- The start time it has written. -/
def launchTime : Phase → Option ℚ
  | launching t0 => some t0
  | dispatching t0 => some t0
  | _ => none

theorem eq_of_racing {p : Phase} (h : p.racing = true) :
    p = .gated ∨ p = .starting := by
  cases p with
  | gated => exact .inl rfl
  | starting => exact .inr rfl
  | idle => cases h
  | launching t0 => cases h
  | dispatching t0 => cases h

end Phase

inductive Happening
  | wrote (state : MatchState) (t0 : Option ℚ)
  | started (nodeId : NodeId) (t0 : ℚ)
  deriving DecidableEq

structure Shared where
  row : Option MatchState
  t0 : Option ℚ
  key : Bool
  history : List Happening

/-- An update of the row; without a row it writes nothing. -/
def Shared.write (c : Shared) (state : MatchState) (t0 : Option ℚ) : Shared :=
  if c.row.isSome then
    { c with row := some state, t0 := t0.or c.t0, history := c.history ++ [.wrote state t0] }
  else c

theorem Shared.write_of_row {c : Shared} {st : MatchState} (h : c.row = some st)
    (state : MatchState) (t0 : Option ℚ) : c.write state t0
      = { c with row := some state, t0 := t0.or c.t0,
                 history := c.history ++ [.wrote state t0] } := by
  rw [write, if_pos (by rw [h]; rfl)]

theorem Shared.write_of_none {c : Shared} (h : c.row = none) (state : MatchState)
    (t0 : Option ℚ) : c.write state t0 = c := by
  rw [write, if_neg (by rw [h]; exact Bool.false_ne_true)]

theorem Shared.mem_write {c : Shared} {state : MatchState} {t0 : Option ℚ} {e : Happening}
    (h : e ∈ (c.write state t0).history) : e ∈ c.history ∨ e = .wrote state t0 := by
  rw [write] at h
  by_cases hrow : c.row.isSome
  · rw [if_pos hrow] at h
    exact (List.mem_append.mp h).imp_right List.mem_singleton.mp
  · rw [if_neg hrow] at h
    exact .inl h

/-- A `stop` revokes the key and writes `FINISHED`. -/
def Shared.close (c : Shared) : Shared := Shared.write { c with key := false } .finished none

theorem Shared.close_of_row {c : Shared} {st : MatchState} (h : c.row = some st) : c.close
      = { c with row := some .finished, key := false,
                 history := c.history ++ [.wrote .finished none] } := by
  rw [close, Shared.write_of_row (c := { c with key := false }) h]
  rfl

theorem Shared.close_of_none {c : Shared} (h : c.row = none) :
    c.close = { c with key := false } := by
  rw [close, Shared.write_of_none (c := { c with key := false }) h]

structure View extends Shared where
  phase : TaskId → Phase

namespace View

/-- Task `tid` is now at `p`. -/
def enter (v : View) (tid : TaskId) (p : Phase) : View :=
  { v with phase := Function.update v.phase tid p }

@[simp] theorem enter_toShared (v : View) (tid : TaskId) (p : Phase) :
    (v.enter tid p).toShared = v.toShared := rfl

theorem enter_phase (v : View) (tid tid' : TaskId) (p : Phase) :
    (v.enter tid p).phase tid' = if tid' = tid then p else v.phase tid' :=
  Function.update_apply ..

/-- The shared state is now `c`. -/
def put (v : View) (c : Shared) : View := { v with toShared := c }

@[simp] theorem put_toShared (v : View) (c : Shared) : (v.put c).toShared = c := rfl
@[simp] theorem put_phase (v : View) (c : Shared) : (v.put c).phase = v.phase := rfl
@[simp] theorem put_self (v : View) : v.put v.toShared = v := rfl

end View

inductive Label
  | stay
  | gate
  | claim
  | launch
  | rollback
  | dispatch
  | send
  | close
  | revoke
  | insert
  deriving DecidableEq

/-- No `START` packet, or one that carries `t0`. -/
def AtMostOne (t0 : ℚ) (hs : List Happening) : Prop := hs = [] ∨ ∃ n, hs = [.started n t0]

/-- What the acting task does. -/
inductive Core (v : View) : Label → View → Prop
  | stay : Core v .stay v
  | gate (tid : TaskId) (hrow : v.row = some .lobby) : Core v .gate (v.enter tid .gated)
  | claim (tid : TaskId) (hp : v.phase tid = .gated) :
      Core v .claim ((v.put (v.write .starting none)).enter tid .starting)
  | launch (tid : TaskId) (t0 : ℚ) (hp : v.phase tid = .starting) :
      Core v .launch ((v.put (v.write .running (some t0))).enter tid (.launching t0))
  | rollback (tid : TaskId) (hp : v.phase tid = .starting) :
      Core v .rollback ((v.put (v.write .lobby none)).enter tid .idle)
  | dispatch (tid : TaskId) (t0 : ℚ) (hs : List Happening) (hp : v.phase tid = .launching t0)
      (hkey : v.key = false) (hone : AtMostOne t0 hs) :
      Core v .dispatch
        ((v.put { v.toShared with key := true, history := v.history ++ hs }).enter tid
          (.dispatching t0))
  | send (tid : TaskId) (t0 : ℚ) (hs : List Happening) (hp : v.phase tid = .dispatching t0)
      (hone : AtMostOne t0 hs) (hkey : hs ≠ [] → v.key = true) :
      Core v .send (v.put { v.toShared with history := v.history ++ hs })
  | close : Core v .close (v.put v.close)
  | revoke : Core v .revoke (v.put { v.toShared with key := false })
  | insert (hrow : v.row = none) :
      Core v .insert
        (v.put { v.toShared with
          row := some .lobby, t0 := none, history := v.history ++ [.wrote .lobby none] })

/-- `v'` is `v`, except that some tasks have ended. -/
structure Drops (v v' : View) : Prop where
  shared : v'.toShared = v.toShared
  phase : ∀ tid, v'.phase tid = v.phase tid ∨ v'.phase tid = .idle

theorem Drops.refl (v : View) : Drops v v := ⟨rfl, fun _ => .inl rfl⟩

theorem Drops.trans {u v w : View} (h : Drops u v) (h' : Drops v w) : Drops u w := by
  refine ⟨h'.shared.trans h.shared, fun tid => ?_⟩
  rcases h'.phase tid with he | he
  · rw [he]
    exact h.phase tid
  · exact .inr he

theorem Drops.enter_idle (v : View) (tid : TaskId) : Drops v (v.enter tid .idle) := by
  refine ⟨rfl, fun tid' => ?_⟩
  rw [View.enter_phase]
  by_cases h : tid' = tid
  · exact .inr (if_pos h)
  · exact .inl (if_neg h)

/-- A task that has not ended is where it was. -/
theorem Drops.eq_of_ne_idle {u v : View} (h : Drops u v) {tid : TaskId}
    (hne : v.phase tid ≠ .idle) : v.phase tid = u.phase tid :=
  (h.phase tid).resolve_right hne

/-- One atomic step of the server, seen from one match. -/
def Step (l : Label) (v v' : View) : Prop := ∃ u, Core v l u ∧ Drops u v'

/-- The states written to the row, in order. -/
def states (history : List Happening) : List MatchState :=
  history.filterMap fun
    | .wrote state _ => some state
    | .started _ _ => none

/-- The start times written to the row, in order. -/
def startTimes (history : List Happening) : List ℚ :=
  history.filterMap fun
    | .wrote _ t0 => t0
    | .started _ _ => none

/-- The `START` packets, in order. -/
def starts (history : List Happening) : List Happening :=
  history.filter fun
    | .wrote _ _ => false
    | .started _ _ => true

@[simp] theorem states_append (h h' : List Happening) :
    states (h ++ h') = states h ++ states h' :=
  List.filterMap_append

@[simp] theorem startTimes_append (h h' : List Happening) :
    startTimes (h ++ h') = startTimes h ++ startTimes h' :=
  List.filterMap_append

@[simp] theorem starts_append (h h' : List Happening) :
    starts (h ++ h') = starts h ++ starts h' :=
  List.filter_append ..

theorem AtMostOne.states_eq {t0 : ℚ} {hs : List Happening} (h : AtMostOne t0 hs) :
    states hs = [] := by
  rcases h with rfl | ⟨n, rfl⟩
  · rfl
  · rfl

theorem AtMostOne.startTimes_eq {t0 : ℚ} {hs : List Happening} (h : AtMostOne t0 hs) :
    startTimes hs = [] := by
  rcases h with rfl | ⟨n, rfl⟩
  · rfl
  · rfl

theorem AtMostOne.not_wrote {t0 : ℚ} {hs : List Happening} (h : AtMostOne t0 hs)
    {state : MatchState} {t : Option ℚ} : .wrote state t ∉ hs := by
  rcases h with rfl | ⟨n, rfl⟩
  · simp
  · simp

theorem AtMostOne.time_eq {t0 t : ℚ} {hs : List Happening} (h : AtMostOne t0 hs) {n : NodeId}
    (hmem : .started n t ∈ hs) : t = t0 := by
  rcases h with rfl | ⟨n', rfl⟩
  · cases hmem
  · rw [List.mem_singleton, Happening.started.injEq] at hmem
    exact hmem.2

/-! ### The row follows the lifecycle -/

/-- `LOBBY` is not read while another `start` has read it and not yet written. -/
def GateClear (l : Label) (v : View) : Prop := l = .gate → ∀ tid, v.phase tid ≠ .gated

/-- `FINISHED` is not written while a `start` has a row write to come. -/
def CloseClear (l : Label) (v : View) : Prop := l = .close → ∀ tid, (v.phase tid).racing = false

/-- At most one `start` is between its gate and its last row write, the row is
as that `start` left it, and the states written so far, after the initial one,
follow the edges. -/
structure Ordered (r0 : Option MatchState) (v : View) : Prop where
  unique : ∀ tid tid', (v.phase tid).racing = true → (v.phase tid').racing = true → tid = tid'
  row : ∀ tid, (v.phase tid).racing = true → v.row = (v.phase tid).leaves
  last : (r0.toList ++ states v.history).getLast? = v.row
  chain : (r0.toList ++ states v.history).IsChain Edge

theorem isChain_concat {r0 row : Option MatchState} {h : List Happening} (state : MatchState)
    (t0 : Option ℚ) (hlast : (r0.toList ++ states h).getLast? = row)
    (hchain : (r0.toList ++ states h).IsChain Edge) (hedge : ∀ st ∈ row, Edge st state) :
    (r0.toList ++ states (h ++ [.wrote state t0])).getLast? = some state ∧
      (r0.toList ++ states (h ++ [.wrote state t0])).IsChain Edge := by
  have hstates : r0.toList ++ states (h ++ [.wrote state t0])
      = (r0.toList ++ states h) ++ [state] := by
    rw [states_append, List.append_assoc]
    rfl
  rw [hstates]
  refine ⟨List.getLast?_concat .., ?_⟩
  rw [List.isChain_append]
  refine ⟨hchain, List.isChain_singleton _, fun x hx y hy => ?_⟩
  rw [List.head?_cons, Option.mem_some_iff] at hy
  rw [hlast] at hx
  exact hy ▸ hedge x hx

/-- A task that moves on alone in the race, or without entering it, keeps the
invariant if the row it leaves behind fits. -/
private theorem Ordered.enter {r0 : Option MatchState} {v : View} {c : Shared} {tid : TaskId}
    {p : Phase} (hv : Ordered r0 v)
    (halone : (∀ tid', tid' ≠ tid → (v.phase tid').racing = false) ∨
      (p.racing = false ∧ c.row = v.row))
    (hrow : p.racing = true → c.row = p.leaves)
    (hlast : (r0.toList ++ states c.history).getLast? = c.row)
    (hchain : (r0.toList ++ states c.history).IsChain Edge) :
    Ordered r0 ((v.put c).enter tid p) := by
  have hother : ∀ tid', tid' ≠ tid → (v.phase tid').racing = true →
      p.racing = false ∧ c.row = v.row := by
    intro tid' hne ho
    rcases halone with h | h
    · rw [h tid' hne] at ho
      exact absurd ho Bool.false_ne_true
    · exact h
  refine ⟨fun a b ha hb => ?_, fun a ha => ?_, hlast, hchain⟩
  · rw [View.enter_phase, View.put_phase] at ha hb
    by_cases hat : a = tid
    · by_cases hbt : b = tid
      · rw [hat, hbt]
      · rw [if_pos hat] at ha
        rw [if_neg hbt] at hb
        rw [(hother b hbt hb).1] at ha
        exact absurd ha Bool.false_ne_true
    · rw [if_neg hat] at ha
      by_cases hbt : b = tid
      · rw [if_pos hbt] at hb
        rw [(hother a hat ha).1] at hb
        exact absurd hb Bool.false_ne_true
      · rw [if_neg hbt] at hb
        exact hv.unique a b ha hb
  · rw [View.enter_phase, View.put_phase] at ha ⊢
    by_cases hat : a = tid
    · rw [if_pos hat] at ha ⊢
      exact hrow ha
    · rw [if_neg hat] at ha ⊢
      rw [View.enter_toShared, View.put_toShared, (hother a hat ha).2]
      exact hv.row a ha

theorem Ordered.alone {r0 : Option MatchState} {v : View} (hv : Ordered r0 v) {tid : TaskId}
    (h : (v.phase tid).racing = true) : ∀ tid', tid' ≠ tid → (v.phase tid').racing = false := by
  intro tid' hne
  rw [← Bool.not_eq_true]
  exact fun ho => hne (hv.unique tid' tid ho h)

/-- What a `start` that is alone in the race writes. -/
private theorem Ordered.write_enter {r0 : Option MatchState} {v : View} {tid : TaskId}
    {p : Phase} (hv : Ordered r0 v) (old new : MatchState) (t0 : Option ℚ)
    (hopen : (v.phase tid).racing = true) (hleaves : (v.phase tid).leaves = some old)
    (hedge : Edge old new) (hp : p.racing = true → p.leaves = some new) :
    Ordered r0 ((v.put (v.write new t0)).enter tid p) := by
  have hrow : v.row = some old := (hv.row tid hopen).trans hleaves
  rw [Shared.write_of_row hrow]
  obtain ⟨hlast, hchain⟩ := isChain_concat new t0 hv.last hv.chain fun st hst => by
    rw [hrow, Option.mem_some_iff] at hst
    exact hst ▸ hedge
  exact hv.enter (.inl (hv.alone hopen)) (fun h => (hp h).symm) hlast hchain

private theorem Ordered.core {r0 : Option MatchState} {l : Label} {v u : View}
    (hv : Ordered r0 v) (hgate : GateClear l v) (hclose : CloseClear l v) (h : Core v l u) :
    Ordered r0 u := by
  cases h with
  | stay => exact hv
  | gate tid hrow =>
    refine hv.enter (c := v.toShared) (.inl fun tid' _ => ?_) (fun _ => hrow) hv.last hv.chain
    rw [← Bool.not_eq_true]
    intro ho
    have hleaves := hv.row tid' ho
    rcases Phase.eq_of_racing ho with hp | hp
    · exact hgate rfl tid' hp
    · -- A `start` that waits for the nodes has left the lobby.
      rw [hp, hrow] at hleaves
      cases hleaves
  | claim tid hp =>
    exact hv.write_enter .lobby .starting none (by rw [hp]; rfl) (by rw [hp]; rfl) trivial
      fun _ => rfl
  | launch tid t0 hp =>
    exact hv.write_enter .starting .running (some t0) (by rw [hp]; rfl) (by rw [hp]; rfl) trivial
      (by intro h; cases h)
  | rollback tid hp =>
    exact hv.write_enter .starting .lobby none (by rw [hp]; rfl) (by rw [hp]; rfl) trivial
      (by intro h; cases h)
  | dispatch tid t0 hs hp hkey hone =>
    refine hv.enter (.inr ⟨rfl, rfl⟩) (by intro h; cases h) ?_ ?_
    · rw [states_append, hone.states_eq, List.append_nil]
      exact hv.last
    · rw [states_append, hone.states_eq, List.append_nil]
      exact hv.chain
  | send tid t0 hs hp hone hkey =>
    refine ⟨hv.unique, hv.row, ?_, ?_⟩
    · rw [View.put_toShared, states_append, hone.states_eq, List.append_nil]
      exact hv.last
    · rw [View.put_toShared, states_append, hone.states_eq, List.append_nil]
      exact hv.chain
  | close =>
    have hnone := hclose rfl
    have hno : ∀ tid, (v.phase tid).racing = true → False := fun tid ho => by
      rw [hnone tid] at ho
      exact Bool.false_ne_true ho
    rcases Option.eq_none_or_eq_some v.row with hrow | ⟨st, hrow⟩
    · rw [Shared.close_of_none hrow]
      exact ⟨hv.unique, hv.row, hv.last, hv.chain⟩
    · rw [Shared.close_of_row hrow]
      obtain ⟨hlast, hchain⟩ := isChain_concat .finished none hv.last hv.chain
        fun st _ => Edge.to_finished st
      exact ⟨hv.unique, fun tid ho => (hno tid ho).elim, hlast, hchain⟩
  | revoke => exact ⟨hv.unique, hv.row, hv.last, hv.chain⟩
  | insert hrow =>
    obtain ⟨hlast, hchain⟩ := isChain_concat .lobby none hv.last hv.chain
      fun st hst => by rw [hrow] at hst; cases hst
    refine ⟨hv.unique, fun tid ho => ?_, hlast, hchain⟩
    -- A `start` past the gate has seen a row.
    have hleaves := hv.row tid ho
    rw [hrow] at hleaves
    rcases Phase.eq_of_racing ho with hp | hp
    · rw [View.put_phase] at hp
      rw [hp] at hleaves
      cases hleaves
    · rw [View.put_phase] at hp
      rw [hp] at hleaves
      cases hleaves

private theorem Ordered.drops {r0 : Option MatchState} {u v : View} (hu : Ordered r0 u)
    (h : Drops u v) : Ordered r0 v := by
  have hphase : ∀ tid, (v.phase tid).racing = true → v.phase tid = u.phase tid := by
    intro tid ho
    refine h.eq_of_ne_idle fun he => ?_
    rw [he] at ho
    exact Bool.false_ne_true ho
  refine ⟨fun a b ha hb => ?_, fun a ha => ?_, ?_, ?_⟩
  · exact hu.unique a b (hphase a ha ▸ ha) (hphase b hb ▸ hb)
  · rw [h.shared, hphase a ha]
    exact hu.row a (hphase a ha ▸ ha)
  · rw [h.shared]
    exact hu.last
  · rw [h.shared]
    exact hu.chain

/-- **An undisturbed step keeps the row on the lifecycle.** -/
theorem Ordered.step {r0 : Option MatchState} {l : Label} {v v' : View} (hv : Ordered r0 v)
    (hgate : GateClear l v) (hclose : CloseClear l v) (h : Step l v v') : Ordered r0 v' := by
  obtain ⟨u, hc, hd⟩ := h
  exact (hv.core hgate hclose hc).drops hd

/-! ### One start, one start time -/

/-- After a write of `RUNNING` only `FINISHED` is written. -/
def Absorbs (e e' : Happening) : Prop :=
  ∀ t state t', e = .wrote .running t → e' = .wrote state t' → state = .finished

/-- At most one `start` is past the gate, at most one start time has been
written, and every `START` carries it. -/
structure Single (v : View) : Prop where
  unique : ∀ tid tid', v.phase tid ≠ .idle → v.phase tid' ≠ .idle → tid = tid'
  row : ∀ tid st, (v.phase tid).leaves = some st → v.row = some st ∨ v.row = some .finished
  launched : ∀ tid t0, (v.phase tid).launchTime = some t0 → startTimes v.history = [t0]
  settled : startTimes v.history ≠ [] →
    (v.row = some .running ∨ v.row = some .finished) ∧ ∀ tid, (v.phase tid).racing = false
  time : ∀ t0 ∈ startTimes v.history, v.t0 = some t0
  once : (startTimes v.history).length ≤ 1
  carried : ∀ n t0, .started n t0 ∈ v.history → startTimes v.history = [t0]
  running : ∀ t, .wrote .running t ∈ v.history → startTimes v.history ≠ []
  later : v.history.Pairwise Absorbs

theorem Single.alone {v : View} (hv : Single v) {tid : TaskId} (h : v.phase tid ≠ .idle) :
    ∀ tid', tid' ≠ tid → v.phase tid' = .idle :=
  fun tid' hne => not_not.mp fun hidle => hne (hv.unique tid' tid hidle h)

/-- If all but one are idle, one is past the gate at most. -/
theorem unique_of_alone {v : View} {tid : TaskId} (h : ∀ tid', tid' ≠ tid → v.phase tid' = .idle)
    (a b : TaskId) (ha : v.phase a ≠ .idle) (hb : v.phase b ≠ .idle) : a = b := by
  have heq : ∀ c, v.phase c ≠ .idle → c = tid := fun c hc => not_not.mp fun hne => hc (h c hne)
  rw [heq a ha, heq b hb]

/-- Before a launch the row is neither `RUNNING` nor `FINISHED`. -/
theorem Single.startTimes_eq_nil_of_row {v : View} (hv : Single v) (hrunning : v.row ≠ some .running)
    (hfinished : v.row ≠ some .finished) : startTimes v.history = [] := by
  by_contra hne
  exact (hv.settled hne).1.elim hrunning hfinished

/-- Before the launch no start time has been written. -/
theorem Single.startTimes_eq_nil {v : View} (hv : Single v) {tid : TaskId}
    (h : (v.phase tid).racing = true) : startTimes v.history = [] := by
  by_contra hne
  have hfalse := (hv.settled hne).2 tid
  rw [h] at hfalse
  cases hfalse

theorem later_append {h hs : List Happening} (hlater : h.Pairwise Absorbs)
    (hhs : ∀ e ∈ hs, ∀ state t, e = .wrote state t →
      state = .finished ∨ ∀ t', .wrote .running t' ∉ h)
    (hone : hs.length ≤ 1) : (h ++ hs).Pairwise Absorbs := by
  rw [List.pairwise_append]
  refine ⟨hlater, ?_, fun a ha b hb t state t' hra hrb => ?_⟩
  · match hs, hone with
    | [], _ => exact List.Pairwise.nil
    | [e], _ => exact List.pairwise_singleton _ _
  · rcases hhs b hb state t' hrb with hfin | hno
    · exact hfin
    · exact absurd (hra ▸ ha) (hno t)

/-- Before the launch a write can come next. -/
theorem Single.later_wrote {v : View} (hv : Single v) (hnil : startTimes v.history = [])
    (new : MatchState) (t0 : Option ℚ) :
    (v.history ++ [Happening.wrote new t0]).Pairwise Absorbs := by
  refine later_append hv.later (fun e _ state t _ => .inr fun t' h => ?_) (Nat.le_refl 1)
  exact hv.running t' h hnil

theorem Single.not_started_wrote {v : View} (hv : Single v) (hnil : startTimes v.history = [])
    (new : MatchState) (t0 : Option ℚ) (n : NodeId) (t : ℚ) :
    Happening.started n t ∉ v.history ++ [.wrote new t0] := by
  intro hmem
  rcases List.mem_append.mp hmem with h | h
  · rw [hv.carried n t h] at hnil
    cases hnil
  · simp at h

theorem AtMostOne.length_le {t0 : ℚ} {hs : List Happening} (h : AtMostOne t0 hs) :
    hs.length ≤ 1 := by
  rcases h with rfl | ⟨n, rfl⟩
  · exact Nat.zero_le 1
  · exact Nat.le_refl 1

/-- A `start` before its launch writes the row. -/
private theorem Single.write_enter {v : View} (hv : Single v) {tid : TaskId}
    (hracing : (v.phase tid).racing = true) (new : MatchState) (t0 : Option ℚ) (p : Phase)
    (hleaves : ∀ st, p.leaves = some st → st = new) (hlaunch : p.launchTime = t0)
    (hnew : new = .running ↔ t0 ≠ none) : Single ((v.put (v.write new t0)).enter tid p) := by
  have hidle : v.phase tid ≠ .idle := fun he => by rw [he] at hracing; cases hracing
  -- Before the gate is passed nothing has been launched, and there is a row.
  have hnil := hv.startTimes_eq_nil hracing
  obtain ⟨old, hrow⟩ : ∃ old, v.row = some old := by
    rcases Phase.eq_of_racing hracing with hp | hp
    · rcases hv.row tid .lobby (by rw [hp]; rfl) with h | h
      · exact ⟨_, h⟩
      · exact ⟨_, h⟩
    · rcases hv.row tid .starting (by rw [hp]; rfl) with h | h
      · exact ⟨_, h⟩
      · exact ⟨_, h⟩
  have htimes : startTimes (v.history ++ [.wrote new t0]) = t0.toList := by
    rw [startTimes_append, hnil, List.nil_append]
    cases t0 <;> rfl
  -- The task that writes is the only one that is not idle.
  have hphase : ∀ a, a ≠ tid →
      ((v.put (v.write new t0)).enter tid p).phase a = .idle := by
    intro a ha
    rw [View.enter_phase, if_neg ha]
    exact hv.alone hidle a ha
  have hself : ((v.put (v.write new t0)).enter tid p).phase tid = p := by
    rw [View.enter_phase, if_pos rfl]
  rw [Shared.write_of_row hrow] at hphase hself ⊢
  constructor
  case unique => exact unique_of_alone hphase
  case row =>
    intro a st ha
    by_cases hat : a = tid
    · rw [hat, hself] at ha
      exact .inl (congrArg some (hleaves st ha).symm)
    · rw [hphase a hat] at ha
      cases ha
  case launched =>
    intro a t ha
    by_cases hat : a = tid
    · rw [hat, hself, hlaunch] at ha
      exact htimes.trans (by rw [ha]; rfl)
    · rw [hphase a hat] at ha
      cases ha
  case settled =>
    intro hne
    have ht0 : t0 ≠ none := by
      rintro rfl
      exact hne htimes
    refine ⟨.inl (congrArg some (hnew.mpr ht0)), fun a => ?_⟩
    by_cases hat : a = tid
    · rw [hat, hself]
      cases p with
      | launching t => rfl
      | dispatching t => rfl
      | idle => rfl
      | gated => exact absurd hlaunch.symm ht0
      | starting => exact absurd hlaunch.symm ht0
    · rw [hphase a hat]
      rfl
  case time =>
    intro t ht
    have ht : t ∈ startTimes (v.history ++ [.wrote new t0]) := ht
    rw [htimes, Option.mem_toList] at ht
    show t0.or v.t0 = some t
    rw [ht]
    rfl
  case once =>
    show (startTimes (v.history ++ [.wrote new t0])).length ≤ 1
    rw [htimes]
    cases t0 <;> simp
  case carried => exact fun n t hmem => absurd hmem (hv.not_started_wrote hnil _ _ n t)
  case running =>
    intro t hmem
    show startTimes (v.history ++ [.wrote new t0]) ≠ []
    rw [htimes]
    rcases List.mem_append.mp hmem with h | h
    · exact absurd hnil (hv.running t h)
    · rw [List.mem_singleton, Happening.wrote.injEq] at h
      have ht0 := hnew.mp h.1.symm
      cases t0 with
      | none => exact absurd rfl ht0
      | some t => exact List.cons_ne_nil _ _
  case later => exact hv.later_wrote hnil _ _

/-- A `start` that has launched goes on to send `START` packets. -/
private theorem Single.send {v : View} (hv : Single v) {tid : TaskId} {t0 : ℚ}
    {hs : List Happening} (key : Bool) (hlaunch : (v.phase tid).launchTime = some t0)
    (hone : AtMostOne t0 hs) :
    Single (v.put { v.toShared with key := key, history := v.history ++ hs }) := by
  have htimes : startTimes (v.history ++ hs) = startTimes v.history := by
    rw [startTimes_append, hone.startTimes_eq, List.append_nil]
  constructor
  case unique => exact hv.unique
  case row => exact hv.row
  case launched => intro a t ha; exact htimes.trans (hv.launched a t ha)
  case settled => intro hne; exact hv.settled fun h => hne (htimes.trans h)
  case time => intro t ht; exact hv.time t (htimes ▸ ht)
  case once => exact htimes ▸ hv.once
  case carried =>
    intro n t hmem
    refine htimes.trans ?_
    rcases List.mem_append.mp hmem with h | h
    · exact hv.carried n t h
    · rw [hone.time_eq h]
      exact hv.launched tid t0 hlaunch
  case running =>
    intro t hmem
    rcases List.mem_append.mp hmem with h | h
    · exact fun he => hv.running t h (htimes.symm.trans he)
    · exact absurd h hone.not_wrote
  case later =>
    refine later_append hv.later (fun e he state t hw => ?_) hone.length_le
    rw [hw] at he
    exact absurd he hone.not_wrote

/-- A `start` reads `LOBBY`; no other one is past the gate then. -/
private theorem Single.gate {v : View} (hv : Single v) (hgate : ∀ tid, v.phase tid ≠ .gated)
    (tid : TaskId) (hrow : v.row = some .lobby) : Single (v.enter tid .gated) := by
  have hidle : ∀ tid', v.phase tid' = .idle := by
    intro tid'
    have hleaves := hv.row tid'
    cases hp : v.phase tid' with
    | idle => rfl
    | gated => exact absurd hp (hgate tid')
    | starting => simp [hp, hrow, Phase.leaves] at hleaves
    | launching t0 => simp [hp, hrow, Phase.leaves] at hleaves
    | dispatching t0 => simp [hp, hrow, Phase.leaves] at hleaves
  have hnil : startTimes v.history = [] :=
    hv.startTimes_eq_nil_of_row (by simp [hrow]) (by simp [hrow])
  have hphase : ∀ a, a ≠ tid → (v.enter tid .gated).phase a = .idle := fun a ha => by
    rw [View.enter_phase, if_neg ha]
    exact hidle a
  have hself : (v.enter tid .gated).phase tid = .gated := by
    rw [View.enter_phase, if_pos rfl]
  refine ⟨unique_of_alone hphase, fun a st ha => ?_, fun a t ha => ?_,
    fun hne => absurd hnil hne, hv.time, hv.once, hv.carried, hv.running, hv.later⟩
  · by_cases hat : a = tid
    · rw [hat, hself] at ha
      exact .inl (hrow.trans ha)
    · rw [hphase a hat] at ha
      cases ha
  · by_cases hat : a = tid
    · rw [hat, hself] at ha
      cases ha
    · rw [hphase a hat] at ha
      cases ha

/-- Entering `dispatching` changes neither what a launched `start` leaves nor its time. -/
private theorem Single.enter_dispatching {v : View} (hv : Single v) {tid : TaskId} {t0 : ℚ}
    (hp : v.phase tid = .launching t0) : Single (v.enter tid (.dispatching t0)) := by
  have hphase := View.enter_phase v tid
  have hidle : ∀ a, (v.enter tid (.dispatching t0)).phase a ≠ .idle → v.phase a ≠ .idle := by
    intro a ha
    by_cases hat : a = tid
    · rw [hat, hp]
      simp
    · rw [hphase, if_neg hat] at ha
      exact ha
  refine ⟨fun a b ha hb => hv.unique a b (hidle a ha) (hidle b hb), fun a st ha => ?_,
    fun a t ha => ?_, fun hne => ⟨(hv.settled hne).1, fun a => ?_⟩, hv.time, hv.once, hv.carried,
    hv.running, hv.later⟩
  · refine hv.row a st ?_
    by_cases hat : a = tid
    · rw [hphase, if_pos hat] at ha
      rw [hat, hp]
      exact ha
    · rw [hphase, if_neg hat] at ha
      exact ha
  · refine hv.launched a t ?_
    by_cases hat : a = tid
    · rw [hphase, if_pos hat] at ha
      rw [hat, hp]
      exact ha
    · rw [hphase, if_neg hat] at ha
      exact ha
  · rw [hphase]
    by_cases hat : a = tid
    · rw [if_pos hat]
      rfl
    · rw [if_neg hat]
      exact (hv.settled hne).2 a

/-- A `stop` writes `FINISHED`, if there is a row. -/
private theorem Single.close {v : View} (hv : Single v) : Single (v.put v.close) := by
  rcases Option.eq_none_or_eq_some v.row with hrow | ⟨st, hrow⟩
  · rw [Shared.close_of_none hrow]
    exact ⟨hv.unique, hv.row, hv.launched, hv.settled, hv.time, hv.once, hv.carried, hv.running,
      hv.later⟩
  rw [Shared.close_of_row hrow]
  have htimes : startTimes (v.history ++ [.wrote .finished none]) = startTimes v.history := by
    rw [startTimes_append]
    exact List.append_nil _
  constructor
  case unique => exact hv.unique
  case row => exact fun _ _ _ => .inr rfl
  case launched => intro a t ha; exact htimes.trans (hv.launched a t ha)
  case settled =>
    intro hne
    exact ⟨.inr rfl, (hv.settled fun h => hne (htimes.trans h)).2⟩
  case time => intro t ht; exact hv.time t (htimes ▸ ht)
  case once => exact htimes ▸ hv.once
  case carried =>
    intro n t hmem
    rcases List.mem_append.mp hmem with h | h
    · exact htimes.trans (hv.carried n t h)
    · simp at h
  case running =>
    intro t hmem
    rcases List.mem_append.mp hmem with h | h
    · exact fun he => hv.running t h (htimes.symm.trans he)
    · simp at h
  case later =>
    refine later_append hv.later (fun e he state t hw => .inl ?_) (Nat.le_refl 1)
    rw [List.mem_singleton, hw, Happening.wrote.injEq] at he
    exact he.1

/-- The match is created. -/
private theorem Single.insert {v : View} (hv : Single v) (hrow : v.row = none) :
    Single (v.put { v.toShared with
      row := some .lobby, t0 := none, history := v.history ++ [.wrote .lobby none] }) := by
  have hnil : startTimes v.history = [] :=
    hv.startTimes_eq_nil_of_row (by simp [hrow]) (by simp [hrow])
  -- Without a row no task is past the gate.
  have hleaves : ∀ tid st, (v.phase tid).leaves ≠ some st := by
    intro tid st hp
    have := hv.row tid st hp
    simp [hrow] at this
  have htimes : startTimes (v.history ++ [.wrote .lobby none]) = [] := by
    rw [startTimes_append, hnil]
    rfl
  constructor
  case unique => exact hv.unique
  case row => exact fun tid st hp => absurd hp (hleaves tid st)
  case launched =>
    intro tid t0 hp
    rw [hv.launched tid t0 hp] at hnil
    cases hnil
  case settled => exact fun hne => absurd htimes hne
  case time =>
    intro t ht
    have ht : t ∈ startTimes (v.history ++ [.wrote .lobby none]) := ht
    rw [htimes] at ht
    cases ht
  case once =>
    show (startTimes (v.history ++ [.wrote .lobby none])).length ≤ 1
    rw [htimes]
    exact Nat.zero_le 1
  case carried => exact fun n t hmem => absurd hmem (hv.not_started_wrote hnil _ _ n t)
  case running =>
    intro t hmem
    rcases List.mem_append.mp hmem with h | h
    · exact absurd hnil (hv.running t h)
    · simp at h
  case later => exact hv.later_wrote hnil _ _

private theorem Single.core {l : Label} {v u : View} (hv : Single v) (hgate : GateClear l v)
    (h : Core v l u) : Single u := by
  cases h with
  | stay => exact hv
  | gate tid hrow => exact hv.gate (hgate rfl) tid hrow
  | claim tid hp =>
    exact hv.write_enter (by rw [hp]; rfl) .starting none .starting
      (fun st h => (Option.some.inj h).symm) rfl (by simp)
  | launch tid t0 hp =>
    exact hv.write_enter (by rw [hp]; rfl) .running (some t0) (.launching t0)
      (fun st h => (Option.some.inj h).symm) rfl (by simp)
  | rollback tid hp =>
    exact hv.write_enter (by rw [hp]; rfl) .lobby none .idle (fun st h => by cases h) rfl (by simp)
  | dispatch tid t0 hs hp hkey hone =>
    exact (hv.send true (by rw [hp]; rfl) hone).enter_dispatching hp
  | send tid t0 hs hp hone hkey => exact hv.send v.key (by rw [hp]; rfl) hone
  | close => exact hv.close
  | revoke =>
    exact ⟨hv.unique, hv.row, hv.launched, hv.settled, hv.time, hv.once, hv.carried, hv.running,
      hv.later⟩
  | insert hrow => exact hv.insert hrow

private theorem Single.drops {u v : View} (hu : Single u) (h : Drops u v) : Single v := by
  have hleaves : ∀ tid st, (v.phase tid).leaves = some st → v.phase tid = u.phase tid := by
    intro tid st hp
    refine h.eq_of_ne_idle fun he => ?_
    rw [he] at hp
    cases hp
  have hlaunch : ∀ tid t0, (v.phase tid).launchTime = some t0 → v.phase tid = u.phase tid := by
    intro tid t0 hp
    refine h.eq_of_ne_idle fun he => ?_
    rw [he] at hp
    cases hp
  have hracing : ∀ tid, (u.phase tid).racing = false → (v.phase tid).racing = false := by
    intro tid hp
    rcases h.phase tid with he | he
    · rw [he, hp]
    · rw [he]
      rfl
  constructor
  case unique =>
    intro a b ha hb
    exact hu.unique a b (h.eq_of_ne_idle ha ▸ ha) (h.eq_of_ne_idle hb ▸ hb)
  case row =>
    intro tid st hp
    rw [h.shared]
    exact hu.row tid st (hleaves tid st hp ▸ hp)
  case launched =>
    intro tid t0 hp
    rw [h.shared]
    exact hu.launched tid t0 (hlaunch tid t0 hp ▸ hp)
  case settled =>
    rw [h.shared]
    exact fun hne => ⟨(hu.settled hne).1, fun tid => hracing tid ((hu.settled hne).2 tid)⟩
  case time => rw [h.shared]; exact hu.time
  case once => rw [h.shared]; exact hu.once
  case carried => rw [h.shared]; exact hu.carried
  case running => rw [h.shared]; exact hu.running
  case later => rw [h.shared]; exact hu.later

/-- **A step with a clear gate keeps the `start` single.** -/
theorem Single.step {l : Label} {v v' : View} (hv : Single v) (hgate : GateClear l v)
    (h : Step l v v') : Single v' := by
  obtain ⟨u, hc, hd⟩ := h
  exact (hv.core hgate hc).drops hd

/-! ### A finished match stays finished -/

/-- `FINISHED` is not written while a `start` is on its way to the key. -/
def KeyClear (l : Label) (v : View) : Prop := l = .close → ∀ tid, (v.phase tid).beforeKey = false

/-- Finished, without a key, and without a `start` that could still write the
row or generate a key. -/
structure Closed (v : View) : Prop where
  row : v.row = some .finished
  key : v.key = false
  phase : ∀ tid, (v.phase tid).beforeKey = false

/-- **A closed match stays closed**, and no `START` is sent for it. -/
theorem Closed.step {l : Label} {v v' : View} (hv : Closed v) (h : Step l v v') :
    Closed v' ∧ starts v'.history = starts v.history := by
  have hcore : ∀ {u : View}, Core v l u → Closed u ∧ starts u.history = starts v.history := by
    have hphase := hv.phase
    have hrow := hv.row
    intro u hc
    cases hc with
    | stay => exact ⟨hv, rfl⟩
    | gate tid hr => rw [hrow] at hr; cases hr
    | claim tid hp => have := hphase tid; rw [hp] at this; cases this
    | launch tid t0 hp => have := hphase tid; rw [hp] at this; cases this
    | rollback tid hp => have := hphase tid; rw [hp] at this; cases this
    | dispatch tid t0 hs hp hkey hone => have := hphase tid; rw [hp] at this; cases this
    | send tid t0 hs hp hone hkey =>
      have hnil : hs = [] := by
        by_contra hne
        have := hkey hne
        rw [hv.key] at this
        cases this
      rw [hnil, List.append_nil]
      exact ⟨hv, rfl⟩
    | close =>
      rw [Shared.close_of_row hrow]
      refine ⟨⟨rfl, rfl, hphase⟩, ?_⟩
      rw [View.put_toShared, starts_append]
      exact List.append_nil _
    | revoke => exact ⟨⟨hrow, rfl, hphase⟩, rfl⟩
    | insert hr => rw [hrow] at hr; cases hr
  obtain ⟨u, hc, hd⟩ := h
  obtain ⟨hu, hs⟩ := hcore hc
  rw [hd.shared]
  refine ⟨⟨hd.shared ▸ hu.row, hd.shared ▸ hu.key, fun tid => ?_⟩, hs⟩
  rcases hd.phase tid with he | he
  · rw [he]
    exact hu.phase tid
  · rw [he]
    rfl

/-- **Writing `FINISHED` closes the match**, and nothing reopens it. -/
theorem closed_step {l : Label} {v v' : View}
    (hv : ∀ t, .wrote .finished t ∈ v.history → Closed v) (hclear : KeyClear l v)
    (h : Step l v v') : ∀ t, .wrote .finished t ∈ v'.history → Closed v' := by
  intro t hmem
  by_cases hold : .wrote .finished t ∈ v.history
  · exact ((hv t hold).step h).1
  obtain ⟨u, hc, hd⟩ := h
  rw [hd.shared] at hmem
  have hwrite : ∀ state t0, state ≠ .finished →
      .wrote .finished t ∉ (v.write state t0).history := by
    intro state t0 hne hw
    rcases Shared.mem_write hw with h | h
    · exact hold h
    · exact hne (Happening.wrote.inj h).1.symm
  -- Only `close` writes `FINISHED`.
  cases hc with
  | stay => exact absurd hmem hold
  | gate tid hr => exact absurd hmem hold
  | claim tid hp => exact absurd hmem (hwrite .starting none (fun h => by cases h))
  | launch tid t0 hp => exact absurd hmem (hwrite .running (some t0) (fun h => by cases h))
  | rollback tid hp => exact absurd hmem (hwrite .lobby none (fun h => by cases h))
  | dispatch tid t0 hs hp hkey hone =>
    rcases List.mem_append.mp hmem with h | h
    · exact absurd h hold
    · exact absurd h hone.not_wrote
  | send tid t0 hs hp hone hkey =>
    rcases List.mem_append.mp hmem with h | h
    · exact absurd h hold
    · exact absurd h hone.not_wrote
  | close =>
    have hphase := hclear rfl
    rcases Option.eq_none_or_eq_some v.row with hrow | ⟨st, hrow⟩
    · rw [View.put_toShared, Shared.close_of_none hrow] at hmem
      exact absurd hmem hold
    · rw [Shared.close_of_row hrow] at hd
      refine ⟨by rw [hd.shared]; rfl, by rw [hd.shared]; rfl, fun tid => ?_⟩
      rcases hd.phase tid with he | he
      · rw [he]
        exact hphase tid
      · rw [he]
        rfl
  | revoke => exact absurd hmem hold
  | insert hr =>
    rcases List.mem_append.mp hmem with h | h
    · exact absurd h hold
    · simp at h

/-! ### Where a start time comes from -/

/-- The start time in the row was there from the beginning, or it was written
together with `RUNNING`. -/
def Shared.Timed (t : Option ℚ) (c : Shared) : Prop :=
  c.t0 ≠ none → t ≠ none ∨ ∃ t0, .wrote .running (some t0) ∈ c.history

theorem Shared.Timed.append {t : Option ℚ} {c : Shared} (h : c.Timed t) {c' : Shared}
    {hs : List Happening} (ht0 : c'.t0 = c.t0) (hhistory : c'.history = c.history ++ hs) :
    c'.Timed t := by
  intro hne
  rw [ht0] at hne
  refine (h hne).imp_right fun ⟨t0, hmem⟩ => ⟨t0, ?_⟩
  rw [hhistory]
  exact List.mem_append_left _ hmem

theorem Shared.Timed.write {t : Option ℚ} {c : Shared} (h : c.Timed t) (state : MatchState)
    (t0 : Option ℚ) (hstate : t0 ≠ none → state = .running) : (c.write state t0).Timed t := by
  rcases Option.eq_none_or_eq_some c.row with hrow | ⟨st, hrow⟩
  · rw [Shared.write_of_none hrow]
    exact h
  · rw [Shared.write_of_row hrow]
    cases t0 with
    | none => exact h.append rfl rfl
    | some t0 =>
      rw [hstate (Option.some_ne_none _)]
      exact fun _ => .inr ⟨t0, by simp⟩

/-- **A start time is written with `RUNNING` only.** -/
theorem Shared.Timed.step {t : Option ℚ} {l : Label} {v v' : View} (hv : v.Timed t)
    (h : Step l v v') : v'.Timed t := by
  obtain ⟨u, hc, hd⟩ := h
  rw [hd.shared]
  cases hc with
  | stay => exact hv
  | gate tid hrow => exact hv
  | claim tid hp => exact hv.write .starting none fun h => absurd rfl h
  | launch tid t0 hp => exact hv.write .running (some t0) fun _ => rfl
  | rollback tid hp => exact hv.write .lobby none fun h => absurd rfl h
  | dispatch tid t0 hs hp hkey hone => exact hv.append rfl rfl
  | send tid t0 hs hp hone hkey => exact hv.append rfl rfl
  | close =>
    have hrevoked : Shared.Timed t { v.toShared with key := false } := hv
    exact hrevoked.write .finished none fun h => absurd rfl h
  | revoke => exact hv
  | insert hrow => exact fun h => absurd rfl h

end Lifecycle
