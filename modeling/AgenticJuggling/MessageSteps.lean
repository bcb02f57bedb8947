/-
What one stretch of the task of a message does.

`_dispatch` hands a message to the registry or reads the match that a report
names; the ingester then stores the report or drops it.  `MessageStretch` says
so once, for every analysis of the tasks.

* `dispatch_message`, `ingestMetric_message`, `ingestHook_message` — the
  stretches of a message are of this kind;
* `MessageStretch.store` — they write no row of a match.
-/
import AgenticJuggling.MatchManager

/-- The pairs of a message of this type. -/
def reportOf (msgType : String) : List Frame → Option (List (String × Json))
  | _ :: ty :: raw :: _ => if ty.bytes = utf8 msgType then raw.json.bind (·.asObj) else none
  | _ => none

namespace MatchManager

variable {P : Platform}

/-- The `REGISTER` a message is: the identity it came from and its payload. -/
def registerOf : List Frame → Option (Bytes × Json)
  | identity :: msgType :: raw :: _ =>
    if msgType.bytes = utf8 "REGISTER" then raw.json.map fun payload => (identity.bytes, payload)
    else none
  | _ => none

/-- What a stretch of the task of a message can be, from where the task stands. -/
inductive MessageStretch (P : Platform) (s : Server) (w : World) : Pc → Stretch → Prop
  | ended {pc : Pc} (outcome : Outcome) : MessageStretch P s w pc (finish s outcome)
  | failed {pc : Pc} : MessageStretch P s w pc (dbError s)
  | register (frames : List Frame) (identity : Bytes) (payload : Json)
      (hframes : registerOf frames = some (identity, payload)) :
      MessageStretch P s w (.received frames)
        (finish (s.handleRegister P.toPrimitives identity payload w.priv).1
          (s.handleRegister P.toPrimitives identity payload w.priv).2)
  | readMetrics (frames : List Frame) (n : NodeId) (kvs : List (String × Json))
      (hreport : reportOf "METRICS" frames = some kvs)
      (hn : Json.getD kvs "node_id" (.str "") = .str n)
      (hnode : (s.registry.nodes n).isSome = true) :
      MessageStretch P s w (.received frames)
        { server := s, pc := .metricsGet n kvs (Ingester.getMatch P s.store kvs) }
  | readHook (frames : List Frame) (n : NodeId) (kvs : List (String × Json))
      (hreport : reportOf "HOOK" frames = some kvs)
      (hn : Json.getD kvs "node_id" (.str "") = .str n)
      (hnode : (s.registry.nodes n).isSome = true) :
      MessageStretch P s w (.received frames)
        { server := s, pc := .hookGet n kvs (Ingester.getMatch P s.store kvs) }
  | metric (n : NodeId) (kvs : List (String × Json)) (record : MatchRecord) (row : MetricRow)
      (ht0 : record.t0 ≠ none) (hrow : Ingester.metricRow P record n kvs w.wall = some row) :
      MessageStretch P s w (.metricsGet n kvs (some record))
        { server := { s with metrics := s.metrics.insertMetric row }
          pc := .wrote .metricsDb .returned }
  | hook (n : NodeId) (kvs : List (String × Json)) (record : MatchRecord) (event : HookEvent)
      (ht0 : record.t0 ≠ none) (hevent : Ingester.hookEvent P record n kvs w.wall = some event) :
      MessageStretch P s w (.hookGet n kvs (some record))
        { server := { s with metrics := s.metrics.insertHook event }
          pc := .wrote .metricsDb .returned }

section Cases

variable {s : Server} {w : World}

/-- A report is dropped, its request fails, or its match is read. -/
theorem handleReport_cases (payload : Json)
    (pc : NodeId → List (String × Json) → Option MatchRecord → Pc) :
    (∃ outcome, handleReport P w s payload pc = finish s outcome) ∨
      handleReport P w s payload pc = dbError s ∨
      ∃ kvs n, payload.asObj = some kvs ∧ Json.getD kvs "node_id" (.str "") = .str n ∧
        (s.registry.nodes n).isSome = true ∧
        handleReport P w s payload pc
          = { server := s, pc := pc n kvs (Ingester.getMatch P s.store kvs) } := by
  rw [handleReport]
  split
  · exact .inl ⟨_, rfl⟩
  · rename_i kvs hkvs
    split
    · rename_i n hn
      split
      · exact .inl ⟨_, rfl⟩
      · rename_i record hrecord
        split
        · exact .inr (.inr ⟨kvs, n, hkvs, hn, Option.isSome_of_eq_some hrecord, rfl⟩)
        · exact .inr (.inl rfl)
    · exact .inl ⟨_, rfl⟩

theorem dispatch_message (frames : List Frame) :
    MessageStretch P s w (.received frames) (dispatch P w s frames) := by
  unfold dispatch
  split
  · rename_i identity msgType raw rest
    split
    · exact .ended _
    · rename_i payload hraw
      have hreport : ∀ {type : String} {kvs : List (String × Json)},
          msgType.bytes = utf8 type → payload.asObj = some kvs →
          reportOf type (identity :: msgType :: raw :: rest) = some kvs := by
        intro type kvs htype hkvs
        rw [reportOf, if_pos htype, hraw, Option.bind_some, hkvs]
      split
      · rename_i hregister
        refine .register _ identity.bytes payload ?_
        rw [registerOf, if_pos hregister, hraw]
        rfl
      · split
        · rename_i htype
          rcases handleReport_cases payload .metricsGet (P := P) with
            ⟨outcome, h⟩ | h | ⟨kvs, n, hkvs, hn, hnode, h⟩
          · rw [h]
            exact .ended _
          · rw [h]
            exact .failed
          · rw [h]
            exact .readMetrics _ n kvs (hreport htype hkvs) hn hnode
        · split
          · rename_i htype
            rcases handleReport_cases payload .hookGet (P := P) with
              ⟨outcome, h⟩ | h | ⟨kvs, n, hkvs, hn, hnode, h⟩
            · rw [h]
              exact .ended _
            · rw [h]
              exact .failed
            · rw [h]
              exact .readHook _ n kvs (hreport htype hkvs) hn hnode
          · exact .ended _
  · exact .ended _

theorem ingestMetric_message (n : NodeId) (kvs : List (String × Json))
    (record : Option MatchRecord) :
    MessageStretch P s w (.metricsGet n kvs record) (ingestMetric P w s n kvs record) := by
  cases record with
  | none => exact .ended _
  | some record =>
    rw [ingestMetric]
    split
    · exact .ended _
    · rename_i ht0
      split
      · exact .ended _
      · rename_i row hrow
        split
        · exact .metric n kvs record row ht0 hrow
        · exact .failed

theorem ingestHook_message (n : NodeId) (kvs : List (String × Json))
    (record : Option MatchRecord) :
    MessageStretch P s w (.hookGet n kvs record) (ingestHook P w s n kvs record) := by
  cases record with
  | none => exact .ended _
  | some record =>
    rw [ingestHook]
    split
    · exact .ended _
    · rename_i ht0
      split
      · exact .ended _
      · rename_i event hevent
        split
        · exact .hook n kvs record event ht0 hevent
        · exact .failed

/-- A message writes no row. -/
theorem MessageStretch.store {pc : Pc} {r : Stretch} (h : MessageStretch P s w pc r) :
    r.server.store = s.store := by
  cases h with
  | register frames identity payload hframes => exact (s.handleRegister_frame _ _ _).store
  | _ => rfl

end Cases

end MatchManager
