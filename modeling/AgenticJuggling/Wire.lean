/-
The texts of JSON values.

`Json` is a value as the program handles it, `JsonText.Value` one as it stands in a
text, where a number is a text and a string a list of code points.  How a float is
written and read is left to `Numerals`: `float.__repr__` writes a text that `float` reads
back.  An `int` of too many digits is neither written nor read.

* `JsonText.ofValue_toValue` — a value comes back from its text as it was;
* `Json.loads_bytes` — and so it does from the bytes of the text, in which there is no
  newline.
-/
import AgenticJuggling.RunnerPrompt

namespace JsonText

open PyStr

/-! ### Numbers -/

/-- `str(n)`. -/
def natText (n : ℕ) : PyStr :=
  if n = 0 then [0x30] else (Nat.digits 10 n).reverse.map (0x30 + ·)

/-- `int` of a text of digits. -/
def natValue (text : PyStr) : ℕ := Nat.ofDigits 10 (text.reverse.map (· - 0x30))

def intText (i : ℤ) : PyStr := if i < 0 then 0x2D :: natText i.natAbs else natText i.natAbs

def intValue (text : PyStr) : ℤ :=
  if text.head? = some 0x2D then -(natValue text.tail : ℤ) else natValue text

/-- The text of a number has a fraction or an exponent. -/
def isFloatText (text : PyStr) : Bool := text.any fun c => decide (c ∈ [0x2E, 0x45, 0x65])

theorem natValue_natText (n : ℕ) : natValue (natText n) = n := by
  rw [natText]
  split
  · next h => rw [h]; rfl
  · rw [natValue, ← List.map_reverse, List.reverse_reverse, List.map_map]
    have hid : (fun c => c - 0x30) ∘ (fun d => 0x30 + d) = id := by
      funext d
      exact Nat.add_sub_cancel_left ..
    rw [hid, List.map_id, Nat.ofDigits_digits]

theorem isDigit_of_mem_natText {n c : ℕ} (h : c ∈ natText n) : isDigit c = true := by
  rw [natText] at h
  split at h
  · rw [List.mem_singleton.mp h]
    rfl
  · obtain ⟨d, hd, rfl⟩ := List.mem_map.mp h
    have hlt := Nat.digits_lt_base (by decide) (List.mem_reverse.mp hd)
    exact decide_eq_true ⟨by omega, by omega⟩

/-- A number begins with a digit, which is zero for zero only. -/
theorem natText_eq_cons (n : ℕ) : ∃ c s, natText n = c :: s ∧ (c = 0x30 → s = []) := by
  rw [natText]
  split
  · exact ⟨0x30, [], rfl, fun _ => rfl⟩
  · next hn =>
    have hne : Nat.digits 10 n ≠ [] := Nat.digits_ne_nil_iff_ne_zero.mpr hn
    have hlast := Nat.getLast_digit_ne_zero 10 hn
    obtain ⟨digits, d, hdigits⟩ := List.eq_nil_or_concat (Nat.digits 10 n) |>.resolve_left hne
    refine ⟨0x30 + d, digits.reverse.map (0x30 + ·), ?_, fun hzero => ?_⟩
    · rw [hdigits, List.concat_eq_append, List.reverse_append]
      rfl
    · simp only [hdigits, List.concat_eq_append, List.getLast_append_singleton] at hlast
      omega

theorem intValue_intText (i : ℤ) : intValue (intText i) = i := by
  rw [intText]
  split
  · next h =>
    have hminus : (0x2D :: natText i.natAbs).head? = some 0x2D := rfl
    rw [intValue, if_pos hminus, List.tail_cons, natValue_natText]
    omega
  · next h =>
    have hhead : (natText i.natAbs).head? ≠ some 0x2D := by
      intro hhead
      have hdigit := isDigit_of_mem_natText (List.mem_of_mem_head? hhead)
      cases hdigit
    rw [intValue, if_neg hhead, natValue_natText]
    omega

theorem takeWhile_natText (n : ℕ) {rest : PyStr} (hrest : ∀ c ∈ rest.head?, isDigit c = false) :
    (natText n ++ rest).takeWhile isDigit = natText n ∧
      (natText n ++ rest).dropWhile isDigit = rest := by
  have hall : ∀ c ∈ natText n, isDigit c = true := fun c hc => isDigit_of_mem_natText hc
  rw [List.takeWhile_append_of_pos hall, List.dropWhile_append_of_pos hall]
  cases rest with
  | nil => exact ⟨List.append_nil _, rfl⟩
  | cons c rest =>
    have hc := hrest c rfl
    rw [List.takeWhile_cons_of_neg (by simp [hc]), List.dropWhile_cons_of_neg (by simp [hc])]
    exact ⟨List.append_nil _, rfl⟩

theorem scanInt_natText (n : ℕ) {rest : PyStr} (hrest : ∀ c ∈ rest.head?, isDigit c = false) :
    scanInt (natText n ++ rest) = some (natText n, rest) := by
  obtain ⟨c, s, heq, hzero⟩ := natText_eq_cons n
  obtain ⟨htake, hdrop⟩ := takeWhile_natText n hrest
  have hc : isDigit c = true := isDigit_of_mem_natText (heq ▸ List.mem_cons_self)
  rw [heq, List.cons_append, List.takeWhile_cons_of_pos hc] at htake
  rw [heq, List.cons_append, List.dropWhile_cons_of_pos hc] at hdrop
  rw [heq, List.cons_append, scanInt]
  split
  · next h =>
    rw [hzero h]
    rfl
  · rw [htake, hdrop]

/-- A number without exponent. -/
theorem scanNumber_intText (i : ℤ) {tail : PyStr} (htail : ∀ c ∈ tail.head?, isDigit c = false)
    (hfraction : scanFraction tail = (tail, [])) :
    scanNumber (intText i ++ tail) = some (intText i ++ tail, []) := by
  have hint := scanInt_natText i.natAbs htail
  rw [scanNumber_eq, intText]
  split
  · have hsign : scanSign [0x2D] ((0x2D :: natText i.natAbs) ++ tail) =
        ([0x2D], natText i.natAbs ++ tail) := rfl
    rw [hsign]
    dsimp only
    rw [hint, Option.map_some]
    dsimp only
    rw [hfraction]
    dsimp only
    rw [scanExponent, List.append_nil]
    rfl
  · have hsign : scanSign [0x2D] (natText i.natAbs ++ tail) = ([], natText i.natAbs ++ tail) := by
      obtain ⟨c, s, heq, -⟩ := natText_eq_cons i.natAbs
      have hc : isDigit c = true := isDigit_of_mem_natText (heq ▸ List.mem_cons_self)
      rw [heq]
      refine if_neg fun hmem => ?_
      rw [List.mem_singleton.mp hmem] at hc
      cases hc
    rw [hsign]
    dsimp only
    rw [hint, Option.map_some]
    dsimp only
    rw [hfraction]
    dsimp only
    rw [scanExponent, List.append_nil]
    rfl

theorem numberText_of_scanNumber {text : PyStr} (h : scanNumber text = some (text, [])) :
    NumberText text := by
  rw [NumberText, scanScalar, find_constants_number h, h]
  rfl

theorem numberText_intText (i : ℤ) : NumberText (intText i) := by
  have h : scanNumber (intText i ++ []) = some (intText i ++ [], []) :=
    scanNumber_intText i (by simp) rfl
  rw [List.append_nil] at h
  exact numberText_of_scanNumber h

theorem mem_intText {i : ℤ} {c : ℕ} (h : c ∈ intText i) : isDigit c = true ∨ c = 0x2D := by
  rw [intText] at h
  split at h
  · obtain h | h := List.mem_cons.mp h
    · exact .inr h
    · exact .inl (isDigit_of_mem_natText h)
  · exact .inl (isDigit_of_mem_natText h)

theorem not_isFloatText_intText (i : ℤ) : isFloatText (intText i) = false := by
  rw [isFloatText, List.any_eq_false]
  intro c hc hpoint
  have hpoint : c ∈ [0x2E, 0x45, 0x65] := of_decide_eq_true hpoint
  simp only [List.mem_cons, List.not_mem_nil, or_false] at hpoint
  obtain hdigit | rfl := mem_intText hc
  · have hrange : 0x30 ≤ c ∧ c ≤ 0x39 := of_decide_eq_true hdigit
    omega
  · omega

theorem digits_intText (i : ℤ) : (intText i).filter isDigit = natText i.natAbs := by
  have hdigits : (natText i.natAbs).filter isDigit = natText i.natAbs :=
    List.filter_eq_self.mpr fun c hc => isDigit_of_mem_natText hc
  rw [intText]
  split
  · exact hdigits
  · exact hdigits

theorem intText_not_mem_nonFinite (i : ℤ) : intText i ∉ nonFinite := by
  intro h
  have hletter : ∃ c ∈ intText i, 0x39 < c := by
    simp only [nonFinite, List.mem_cons, List.not_mem_nil, or_false] at h
    rcases h with h | h | h
    · exact ⟨0x61, by simp [h], by decide⟩
    · exact ⟨0x6E, by simp [h], by decide⟩
    · exact ⟨0x6E, by simp [h], by decide⟩
  obtain ⟨c, hc, hlt⟩ := hletter
  obtain hdigit | rfl := mem_intText hc
  · have hrange : 0x30 ≤ c ∧ c ≤ 0x39 := of_decide_eq_true hdigit
    omega
  · omega

theorem not_isFloatText_nonFinite {text : PyStr} (h : text ∈ nonFinite) :
    isFloatText text = false := by
  simp only [nonFinite, List.mem_cons, List.not_mem_nil, or_false] at h
  rcases h with rfl | rfl | rfl
  · rfl
  · rfl
  · rfl

/-- How Python writes and reads numbers. -/
structure Numerals where
  /-- `float.__repr__` of a finite float. -/
  repr : ℚ → PyStr
  /-- `float` of the text of a number. -/
  float : PyStr → PyFloat
  /-- How many digits an `int` may have to be written or read as a text. -/
  maxDigits : ℕ

namespace Numerals

/-- What `json` relies on: a float is written as a number with a fraction or an exponent, which
`float` reads back. -/
structure Lawful (N : Numerals) : Prop where
  number : ∀ q, NumberText (N.repr q)
  point : ∀ q, isFloatText (N.repr q) = true
  float_repr : ∀ q, N.float (N.repr q) = .fin q

variable (N : Numerals)

def floatText : PyFloat → PyStr
  | .fin q => N.repr q
  | .nan => [0x4E, 0x61, 0x4E]
  | .posInf => [0x49, 0x6E, 0x66, 0x69, 0x6E, 0x69, 0x74, 0x79]
  | .negInf => [0x2D, 0x49, 0x6E, 0x66, 0x69, 0x6E, 0x69, 0x74, 0x79]

/-- What `json.loads` makes of the text of a number; `none` where `int` raises. -/
def number (text : PyStr) : Option Json :=
  if text = N.floatText .nan then some (.float .nan)
  else if text = N.floatText .posInf then some (.float .posInf)
  else if text = N.floatText .negInf then some (.float .negInf)
  else if isFloatText text then some (.float (N.float text))
  else if (text.filter isDigit).length ≤ N.maxDigits then some (.int (intValue text))
  else none

variable {N}

/-- The text of a number that is not one of the constants. -/
theorem number_of_not_mem {text : PyStr} (h : text ∉ nonFinite) : N.number text =
    if isFloatText text then some (.float (N.float text))
    else if (text.filter isDigit).length ≤ N.maxDigits then some (.int (intValue text))
    else none := by
  have hne : ∀ x, N.floatText x ∈ nonFinite → text ≠ N.floatText x := by
    rintro x hx rfl
    exact h hx
  rw [number, if_neg (hne .nan (by simp [nonFinite, floatText])),
    if_neg (hne .posInf (by simp [nonFinite, floatText])),
    if_neg (hne .negInf (by simp [nonFinite, floatText]))]

theorem number_floatText (hN : N.Lawful) (x : PyFloat) :
    N.number (N.floatText x) = some (.float x) := by
  cases x with
  | fin q =>
    have hpoint : isFloatText (N.floatText (.fin q)) = true := hN.point q
    have hfinite : N.floatText (.fin q) ∉ nonFinite := by
      intro h
      rw [not_isFloatText_nonFinite h] at hpoint
      cases hpoint
    rw [number_of_not_mem hfinite, if_pos hpoint]
    exact congrArg (some ∘ Json.float) (hN.float_repr q)
  | nan => rfl
  | posInf => rfl
  | negInf => rfl

theorem numberText_floatText (hN : N.Lawful) (x : PyFloat) : NumberText (N.floatText x) := by
  cases x with
  | fin q => exact hN.number q
  | nan => rfl
  | posInf => rfl
  | negInf => rfl

theorem number_intText {i : ℤ} (h : (natText i.natAbs).length ≤ N.maxDigits) :
    N.number (intText i) = some (.int i) := by
  rw [number_of_not_mem (intText_not_mem_nonFinite i), not_isFloatText_intText, digits_intText,
    if_neg Bool.false_ne_true, if_pos h, intValue_intText]

end Numerals

end JsonText

/-! ### Strings -/

namespace PyStr

/-- The character of a code point; `none` for a surrogate. -/
def char? (c : ℕ) : Option Char := if c.isValidChar then some (Char.ofNat c) else none

/-- The text, if there is no surrogate in it. -/
def toString? (s : PyStr) : Option String := (s.mapM char?).map String.ofList

theorem char?_toNat (c : Char) : char? c.toNat = some c := by
  have hvalid : c.toNat.isValidChar := c.valid
  rw [char?, if_pos hvalid, Char.ofNat_toNat]

theorem toString?_ofString (s : String) : toString? (ofString s) = some s := by
  have hchars : (ofString s).mapM char? = some s.toList := by
    rw [ofString, List.mapM_map]
    have hpure : char? ∘ Char.toNat = pure := funext char?_toNat
    rw [hpure, List.mapM_pure, List.map_id']
    rfl
  rw [toString?, hchars, Option.map_some, String.ofList_toList]

end PyStr

namespace JsonText

variable (N : Numerals)

/-! ### Values -/

mutual

/-- What `json.dumps` writes of a value. -/
def toValue : Json → Value
  | .null => .null
  | .bool b => .bool b
  | .int i => .number (intText i)
  | .float x => .number (N.floatText x)
  | .str s => .str (PyStr.ofString s)
  | .arr items => .arr (toValues items)
  | .obj kvs => .obj (toMembers kvs)

def toValues : List Json → List Value
  | [] => []
  | j :: items => toValue j :: toValues items

def toMembers : List (String × Json) → List (PyStr × Value)
  | [] => []
  | (key, j) :: kvs => (PyStr.ofString key, toValue j) :: toMembers kvs

end

mutual

/-- The value that `json.loads` makes; `none` where an `int` is too long, and for a string
with a surrogate in it. -/
def ofValue : Value → Option Json
  | .null => some .null
  | .bool b => some (.bool b)
  | .number text => N.number text
  | .str s => s.toString?.map .str
  | .arr items => (ofValues items).map .arr
  | .obj members => (ofMembers members).map .obj

def ofValues : List Value → Option (List Json)
  | [] => some []
  | v :: items => do
    let j ← ofValue v
    let items ← ofValues items
    some (j :: items)

def ofMembers : List (PyStr × Value) → Option (List (String × Json))
  | [] => some []
  | (key, v) :: members => do
    let key ← key.toString?
    let j ← ofValue v
    let kvs ← ofMembers members
    some ((key, j) :: kvs)

end

end JsonText

/-- A value as the program builds it: no `int` is too long, and the keys of a dictionary are
listed once each. -/
inductive Json.Plain (N : JsonText.Numerals) : Json → Prop
  | null : Plain N .null
  | bool (b : Bool) : Plain N (.bool b)
  | int {i : ℤ} (h : (JsonText.natText i.natAbs).length ≤ N.maxDigits) : Plain N (.int i)
  | float (x : PyFloat) : Plain N (.float x)
  | str (s : String) : Plain N (.str s)
  | arr {items : List Json} (h : ∀ j ∈ items, Plain N j) : Plain N (.arr items)
  | obj {kvs : List (String × Json)} (hkeys : (kvs.map Prod.fst).Nodup)
      (h : ∀ p ∈ kvs, Plain N p.2) : Plain N (.obj kvs)

namespace Json

variable {N : JsonText.Numerals}

@[simp] theorem plain_bool (b : Bool) : (bool b).Plain N := .bool b

@[simp] theorem plain_float (x : PyFloat) : (float x).Plain N := .float x

@[simp] theorem plain_str (s : String) : (str s).Plain N := .str s

@[simp] theorem plain_int {i : ℤ} :
    (int i).Plain N ↔ (JsonText.natText i.natAbs).length ≤ N.maxDigits := by
  refine ⟨fun h => ?_, .int⟩
  cases h with
  | int h => exact h

@[simp] theorem plain_arr {items : List Json} : (arr items).Plain N ↔ ∀ j ∈ items, j.Plain N := by
  refine ⟨fun h => ?_, .arr⟩
  cases h with
  | arr h => exact h

@[simp] theorem plain_obj {kvs : List (String × Json)} :
    (obj kvs).Plain N ↔ (kvs.map Prod.fst).Nodup ∧ ∀ p ∈ kvs, p.2.Plain N := by
  refine ⟨fun h => ?_, fun h => .obj h.1 h.2⟩
  cases h with
  | obj hkeys h => exact ⟨hkeys, h⟩

end Json

namespace JsonText

variable {N : Numerals}

theorem toValues_eq (items : List Json) : toValues N items = items.map (toValue N) := by
  induction items with
  | nil => rfl
  | cons j items ih => rw [toValues, ih, List.map_cons]

theorem toMembers_eq (kvs : List (String × Json)) :
    toMembers N kvs = kvs.map fun p => (PyStr.ofString p.1, toValue N p.2) := by
  induction kvs with
  | nil => rfl
  | cons p kvs ih => rw [toMembers, ih, List.map_cons]

theorem ofValues_toValues {items : List Json}
    (h : ∀ j ∈ items, ofValue N (toValue N j) = some j) :
    ofValues N (toValues N items) = some items := by
  induction items with
  | nil => rfl
  | cons j items ih =>
    obtain ⟨hj, hitems⟩ := List.forall_mem_cons.mp h
    rw [toValues, ofValues, hj, ih hitems]
    rfl

theorem ofMembers_toMembers {kvs : List (String × Json)}
    (h : ∀ p ∈ kvs, ofValue N (toValue N p.2) = some p.2) :
    ofMembers N (toMembers N kvs) = some kvs := by
  induction kvs with
  | nil => rfl
  | cons p kvs ih =>
    obtain ⟨hp, hkvs⟩ := List.forall_mem_cons.mp h
    rw [toMembers, ofMembers, PyStr.toString?_ofString, hp, ih hkvs]
    rfl

/-- **A value comes back from its text.** -/
theorem ofValue_toValue (hN : N.Lawful) {j : Json} (h : j.Plain N) :
    ofValue N (toValue N j) = some j := by
  induction h with
  | null => rfl
  | bool b => rfl
  | int h => exact Numerals.number_intText h
  | float x => exact Numerals.number_floatText hN x
  | str s =>
    rw [toValue, ofValue, PyStr.toString?_ofString]
    rfl
  | arr h ih =>
    rw [toValue, ofValue, ofValues_toValues ih]
    rfl
  | obj hkeys h ih =>
    rw [toValue, ofValue, ofMembers_toMembers ih]
    rfl

/-- What is written can be read. -/
theorem dumpable_toValue (hN : N.Lawful) {j : Json} (h : j.Plain N) : Dumpable (toValue N j) := by
  induction h with
  | null => exact .null
  | bool b => exact .bool b
  | int h => exact .number (numberText_intText _)
  | float x => exact .number (Numerals.numberText_floatText hN x)
  | str s => exact .str (PyStr.unpaired_ofString s)
  | arr h ih =>
    rw [toValue, toValues_eq]
    refine .arr fun v hv => ?_
    obtain ⟨j, hj, rfl⟩ := List.mem_map.mp hv
    exact ih j hj
  | obj hkeys h ih =>
    rw [toValue, toMembers_eq]
    refine .obj (fun p hp => ?_) fun p hp => ?_
    · obtain ⟨kv, -, rfl⟩ := List.mem_map.mp hp
      exact PyStr.unpaired_ofString kv.1
    · obtain ⟨kv, hkv, rfl⟩ := List.mem_map.mp hp
      exact ih kv hkv

end JsonText

namespace Json

open JsonText

variable (N : Numerals)

/-- `json.dumps(value).encode()`; a text of `json.dumps` is ASCII. -/
def bytes (j : Json) : Bytes := PyStr.asciiBytes (dumps (toValue N j))

/-- `loads` is `json.loads`, as far as what it returns is one of these values. -/
def Reads (loads : Bytes → Except LoadsError Json) : Prop :=
  ∀ raw v j, AgentRunner.loads raw = .ok v → ofValue N v = some j → loads raw = .ok j

variable {N}

/-- These are the bytes that are sent. -/
theorem encode_dumps (hN : N.Lawful) {j : Json} (h : j.Plain N) :
    PyStr.encode (dumps (toValue N j)) = some (j.bytes N) :=
  PyStr.encode_ascii (printable_dumps (dumpable_toValue hN h)).ascii

/-- The bytes of a value are read back as the value. -/
theorem loads_bytes (hN : N.Lawful) {loads : Bytes → Except LoadsError Json}
    (hloads : Reads N loads) {j : Json} (h : j.Plain N) : loads (j.bytes N) = .ok j := by
  have hdump := dumpable_toValue hN h
  refine hloads _ (toValue N j) j ?_ (ofValue_toValue hN h)
  rw [AgentRunner.loads, bytes, PyStr.decodeBytes_ascii (printable_dumps hdump).ascii]
  dsimp only
  rw [loadsText_dumps hdump]

/-- **A value survives the wire**: what is sent of it is read back as the value. -/
theorem survives (hN : N.Lawful) {loads : Bytes → Except LoadsError Json}
    (hloads : Reads N loads) {j : Json} (h : j.Plain N) :
    ∃ raw, PyStr.encode (dumps (toValue N j)) = some raw ∧ loads raw = .ok j :=
  ⟨_, encode_dumps hN h, loads_bytes hN hloads h⟩

/-- There is no newline in the bytes of a value. -/
theorem newline_not_mem_bytes (hN : N.Lawful) {j : Json} (h : j.Plain N) :
    Collector.newline ∉ j.bytes N := by
  have hprint := printable_dumps (dumpable_toValue hN h)
  intro hmem
  obtain ⟨c, hc, heq⟩ := List.mem_map.mp hmem
  have hnat := PyStr.ofNat_toNat (hprint.ascii c hc).2
  rw [heq] at hnat
  have hle := (hprint c hc).1
  have hten : Collector.newline.toNat = 10 := rfl
  omega

end Json

/-! ### Sample -/

namespace Sample

open JsonText

/-- Whole numbers as Python writes them; of any other the numerator and the denominator. -/
def numerals : Numerals where
  repr q := intText q.num ++ 0x2E :: natText (q.den - 1)
  float text := .fin (intValue (text.takeWhile (· ≠ 0x2E)) /
    (natValue (text.dropWhile (· ≠ 0x2E)).tail + 1))
  maxDigits := 4300

theorem numerals_lawful : numerals.Lawful where
  number q := by
    refine numberText_of_scanNumber (scanNumber_intText q.num (by simp [isDigit]) ?_)
    have hdigits : ∀ c ∈ natText (q.den - 1), isDigit c = true :=
      fun c hc => isDigit_of_mem_natText hc
    have htake := List.takeWhile_eq_self_iff.mpr hdigits
    have hdrop := List.dropWhile_eq_nil_iff.mpr hdigits
    obtain ⟨c, s, heq, -⟩ := natText_eq_cons (q.den - 1)
    rw [scanFraction, htake, hdrop]
    exact if_pos ⟨rfl, by simp [heq]⟩
  point q := by
    rw [isFloatText, List.any_eq_true]
    exact ⟨0x2E, by simp [numerals], by decide⟩
  float_repr q := by
    have hpoint : ∀ c ∈ intText q.num, decide (c ≠ 0x2E) = true := by
      intro c hc
      obtain hdigit | rfl := mem_intText hc
      · have hrange : 0x30 ≤ c ∧ c ≤ 0x39 := of_decide_eq_true hdigit
        exact decide_eq_true (by omega)
      · rfl
    have htake : (numerals.repr q).takeWhile (· ≠ 0x2E) = intText q.num := by
      rw [numerals, List.takeWhile_append_of_pos hpoint]
      simp
    have hdrop : (numerals.repr q).dropWhile (· ≠ 0x2E) = 0x2E :: natText (q.den - 1) := by
      rw [numerals, List.dropWhile_append_of_pos hpoint]
      simp
    have hden : ((q.den - 1 : ℕ) : ℚ) + 1 = q.den := by
      have hpos := q.den_pos
      push_cast [Nat.cast_sub hpos]
      ring
    have hfloat : numerals.float (numerals.repr q) =
        .fin (intValue (intText q.num) / (natValue (natText (q.den - 1)) + 1)) := by
      rw [← htake]
      show PyFloat.fin (_ / (natValue ((numerals.repr q).dropWhile (· ≠ 0x2E)).tail + 1)) = _
      rw [hdrop]
      rfl
    rw [hfloat, intValue_intText, natValue_natText, hden, Rat.num_div_den]

def loads (raw : Bytes) : Except LoadsError Json :=
  match AgentRunner.loads raw with
  | .error e => .error e
  | .ok v =>
    match ofValue numerals v with
    | none => .error .other
    | some j => .ok j

theorem reads_loads : Json.Reads numerals loads := by
  intro raw v j hv hj
  rw [loads, hv]
  dsimp only
  rw [hj]

end Sample
