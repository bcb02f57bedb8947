/-
The strings of a JSON text, as Python's `json` module writes and reads them.

`encodeBasestringAscii` leaves printable ASCII alone and escapes everything
else, so that what it writes is ASCII without control characters; a code point
that does not fit in one `\u` escape is written as two surrogates.
`scanString` reads a string up to its closing quote.

* `scanString_escape` — a string that is written and read comes back with its
  neighbouring surrogates joined;
* `printable_escape` — what is written;
* `scanString_length` — reading takes something off the text.
-/
import AgenticJuggling.PyText

namespace JsonText

open PyStr

/-! ### Writing -/

def hexDigit (d : ℕ) : ℕ := if d < 10 then 0x30 + d else 0x57 + d

/-- Four hexadecimal digits. -/
def hex4 (n : ℕ) : PyStr :=
  [hexDigit (n / 0x1000), hexDigit (n / 0x100 % 0x10), hexDigit (n / 0x10 % 0x10),
    hexDigit (n % 0x10)]

/-- `\uXXXX`. -/
def unicodeEscape (n : ℕ) : PyStr := 0x5C :: 0x75 :: hex4 n

/-- The letters behind the backslash, for the characters that have one. -/
def escapes : List (ℕ × ℕ) :=
  [(0x5C, 0x5C), (0x22, 0x22), (0x08, 0x62), (0x0C, 0x66), (0x0A, 0x6E), (0x0D, 0x72),
    (0x09, 0x74)]

/-- What is written for a character. -/
def escapeChar (c : ℕ) : PyStr :=
  match escapes.lookup c with
  | some letter => [0x5C, letter]
  | none =>
    if 0x20 ≤ c ∧ c ≤ 0x7E then [c]
    else if c < 0x10000 then unicodeEscape c
    else unicodeEscape (highOf c) ++ unicodeEscape (lowOf c)

def escape (s : PyStr) : PyStr := s.flatMap escapeChar

/-- `json.dumps` of a string. -/
def encodeBasestringAscii (s : PyStr) : PyStr := 0x22 :: (escape s ++ [0x22])

/-! ### Reading -/

/-- The value of a hexadecimal digit, in either case. -/
def hexValue (c : ℕ) : Option ℕ :=
  if 0x30 ≤ c ∧ c ≤ 0x39 then some (c - 0x30)
  else if 0x61 ≤ c ∧ c ≤ 0x66 then some (c - 0x57)
  else if 0x41 ≤ c ∧ c ≤ 0x46 then some (c - 0x37)
  else none

/-- Four hexadecimal digits. -/
def scanHex : PyStr → Option (ℕ × PyStr)
  | a :: b :: c :: d :: rest => do
    let a ← hexValue a
    let b ← hexValue b
    let c ← hexValue c
    let d ← hexValue d
    some (((a * 0x10 + b) * 0x10 + c) * 0x10 + d, rest)
  | _ => none

/-- What follows `\u`.  A second escape is read only behind a high surrogate, and
taken only if it is a low one. -/
def scanUnicode (s : PyStr) : Option (ℕ × PyStr) := do
  let (c, rest) ← scanHex s
  if isHigh c ∧ [0x5C, 0x75].isPrefixOf rest then
    let (d, rest') ← scanHex (rest.drop 2)
    if isLow d then some (pair c d, rest') else some (c, rest)
  else some (c, rest)

/-- The characters that the letters behind a backslash stand for. -/
def backslash : List (ℕ × ℕ) :=
  [(0x22, 0x22), (0x5C, 0x5C), (0x2F, 0x2F), (0x62, 0x08), (0x66, 0x0C), (0x6E, 0x0A),
    (0x72, 0x0D), (0x74, 0x09)]

/-- What follows a backslash. -/
def scanEscape : PyStr → Option (ℕ × PyStr)
  | [] => none
  | c :: rest =>
    if c = 0x75 then scanUnicode rest else (backslash.lookup c).map fun x => (x, rest)

theorem scanHex_length {s rest : PyStr} {c : ℕ} (h : scanHex s = some (c, rest)) :
    rest.length < s.length := by
  unfold scanHex at h
  split at h
  · next a b c d rest' =>
    simp only [Option.bind_eq_bind, Option.bind_eq_some_iff, Option.some.injEq,
      Prod.mk.injEq] at h
    obtain ⟨-, -, -, -, -, -, -, -, -, rfl⟩ := h
    simp only [List.length_cons]
    omega
  · cases h

theorem scanUnicode_length {s rest : PyStr} {c : ℕ} (h : scanUnicode s = some (c, rest)) :
    rest.length < s.length := by
  rw [scanUnicode, Option.bind_eq_bind, Option.bind_eq_some_iff] at h
  obtain ⟨⟨c₁, rest₁⟩, hfirst, h⟩ := h
  have hlt := scanHex_length hfirst
  dsimp only at h
  split at h
  · obtain ⟨⟨c₂, rest₂⟩, hsecond, h⟩ := Option.bind_eq_some_iff.mp h
    have hlt' := scanHex_length hsecond
    rw [List.length_drop] at hlt'
    dsimp only at h
    split at h
    · obtain ⟨-, rfl⟩ := Prod.mk.inj (Option.some.inj h)
      omega
    · obtain ⟨-, rfl⟩ := Prod.mk.inj (Option.some.inj h)
      exact hlt
  · obtain ⟨-, rfl⟩ := Prod.mk.inj (Option.some.inj h)
    exact hlt

theorem scanEscape_length {s rest : PyStr} {c : ℕ} (h : scanEscape s = some (c, rest)) :
    rest.length < s.length := by
  cases s with
  | nil => cases h
  | cons x s =>
    rw [scanEscape] at h
    rw [List.length_cons]
    split at h
    · have hlt := scanUnicode_length h
      omega
    · obtain ⟨y, -, heq⟩ := Option.map_eq_some_iff.mp h
      obtain ⟨-, rfl⟩ := Prod.mk.inj heq
      omega

/-- A string up to its closing quote, and what follows it; `none` where
`JSONDecodeError` is raised. -/
def scanString : PyStr → Option (PyStr × PyStr)
  | [] => none
  | c :: rest =>
    if c = 0x22 then some ([], rest)
    else if c = 0x5C then
      match _h : scanEscape rest with
      | none => none
      | some (x, rest') => (scanString rest').map fun p => (x :: p.1, p.2)
    -- A control character must be escaped.
    else if c < 0x20 then none
    else (scanString rest).map fun p => (c :: p.1, p.2)
  termination_by s => s.length
  decreasing_by
    · have hlt := scanEscape_length _h
      simp only [List.length_cons]
      omega
    · simp only [List.length_cons]
      omega

theorem scanString_quote (rest : PyStr) : scanString (0x22 :: rest) = some ([], rest) := by
  rw [scanString, if_pos rfl]

theorem scanString_escaped {s rest : PyStr} {x : ℕ} (h : scanEscape s = some (x, rest)) :
    scanString (0x5C :: s) = (scanString rest).map fun p => (x :: p.1, p.2) := by
  rw [scanString, if_neg (by decide), if_pos rfl]
  split
  · next hnone =>
    rw [hnone] at h
    cases h
  · next x' rest' hsome =>
    rw [hsome] at h
    obtain ⟨rfl, rfl⟩ := Prod.mk.inj (Option.some.inj h)
    rfl

theorem scanString_plain {c : ℕ} (hquote : c ≠ 0x22) (hbackslash : c ≠ 0x5C) (hc : 0x20 ≤ c)
    (rest : PyStr) :
    scanString (c :: rest) = (scanString rest).map fun p => (c :: p.1, p.2) := by
  rw [scanString, if_neg hquote, if_neg hbackslash, if_neg (not_lt.mpr hc)]

theorem scanString_length {s t rest : PyStr} (h : scanString s = some (t, rest)) :
    rest.length < s.length := by
  induction hn : s.length using Nat.strong_induction_on generalizing s t with
  | _ n ih =>
    subst hn
    -- A character that is read before the rest of the string.
    have hmap : ∀ {x : ℕ} {s' : PyStr}, s'.length < s.length →
        (scanString s').map (fun p => (x :: p.1, p.2)) = some (t, rest) →
        rest.length < s.length := by
      intro x s' hlt hs'
      obtain ⟨⟨t', rest'⟩, hscan, heq⟩ := Option.map_eq_some_iff.mp hs'
      obtain ⟨-, rfl⟩ := Prod.mk.inj heq
      exact (ih _ hlt hscan rfl).trans hlt
    cases s with
    | nil => simp [scanString] at h
    | cons c s =>
      have hs : s.length < (c :: s).length := by simp
      rw [scanString] at h
      split at h
      · obtain ⟨-, rfl⟩ := Prod.mk.inj (Option.some.inj h)
        exact hs
      · split at h
        · split at h
          · cases h
          · next x rest' hescape => exact hmap ((scanEscape_length hescape).trans hs) h
        · split at h
          · cases h
          · exact hmap hs h

/-! ### Reading what was written -/

theorem hexValue_hexDigit : ∀ d < 0x10, hexValue (hexDigit d) = some d := by decide

theorem scanHex_hex4 {n : ℕ} (h : n < 0x10000) (rest : PyStr) :
    scanHex (hex4 n ++ rest) = some (n, rest) := by
  have hvalue : ((n / 0x1000 * 0x10 + n / 0x100 % 0x10) * 0x10 + n / 0x10 % 0x10) * 0x10
      + n % 0x10 = n := by omega
  simp only [hex4, List.cons_append, List.nil_append, scanHex]
  rw [hexValue_hexDigit (n / 0x1000) (by omega), hexValue_hexDigit (n / 0x100 % 0x10) (by omega),
    hexValue_hexDigit (n / 0x10 % 0x10) (by omega), hexValue_hexDigit (n % 0x10) (by omega)]
  simp only [Option.bind_eq_bind, Option.bind_some, hvalue]

/-- A high surrogate before `s` stays alone: no escape of a low one follows. -/
def KeepsHigh (s : PyStr) : Prop :=
  ∀ s', s = 0x5C :: 0x75 :: s' → ∃ d rest, scanHex s' = some (d, rest) ∧ ¬isLow d

theorem scanUnicode_single {n : ℕ} (hn : n < 0x10000) {s : PyStr} (h : isHigh n → KeepsHigh s) :
    scanUnicode (hex4 n ++ s) = some (n, s) := by
  rw [scanUnicode, scanHex_hex4 hn, Option.bind_eq_bind, Option.bind_some]
  dsimp only
  split
  · next hpair =>
    obtain ⟨hhigh, hprefix⟩ := hpair
    obtain ⟨s', rfl⟩ := List.isPrefixOf_iff_prefix.mp hprefix
    obtain ⟨d, rest, hd, hlow⟩ := h hhigh s' rfl
    have hdrop : ([0x5C, 0x75] ++ s').drop 2 = s' := rfl
    rw [hdrop, hd, Option.bind_some]
    exact if_neg hlow
  · rfl

theorem scanUnicode_pair {c d : ℕ} (hc : isHigh c) (hd : isLow d) (rest : PyStr) :
    scanUnicode (hex4 c ++ (unicodeEscape d ++ rest)) = some (pair c d, rest) := by
  have hc' : c < 0x10000 := by
    unfold isHigh at hc
    omega
  have hd' : d < 0x10000 := by
    unfold isLow at hd
    omega
  rw [scanUnicode, scanHex_hex4 hc', Option.bind_eq_bind, Option.bind_some]
  dsimp only
  have hdrop : (unicodeEscape d ++ rest).drop 2 = hex4 d ++ rest := rfl
  rw [if_pos ⟨hc, rfl⟩, hdrop, scanHex_hex4 hd', Option.bind_some]
  exact if_pos hd

theorem escapes_backslash : ∀ p ∈ escapes, p.2 ≠ 0x75 ∧ backslash.lookup p.2 = some p.1 := by
  decide

theorem mem_escapes {c letter : ℕ} (h : escapes.lookup c = some letter) :
    (c, letter) ∈ escapes := by
  obtain ⟨l₁, l₂, heq, -⟩ := List.lookup_eq_some_iff.mp h
  rw [heq]
  exact List.mem_append_right _ List.mem_cons_self

/-- The four ways a character is written. -/
theorem escapeChar_cases (c : ℕ) :
    (∃ letter, (c, letter) ∈ escapes ∧ escapeChar c = [0x5C, letter]) ∨
      ((0x20 ≤ c ∧ c ≤ 0x7E) ∧ c ≠ 0x22 ∧ c ≠ 0x5C ∧ escapeChar c = [c]) ∨
      (c < 0x10000 ∧ escapeChar c = unicodeEscape c) ∨
      (0x10000 ≤ c ∧ escapeChar c = unicodeEscape (highOf c) ++ unicodeEscape (lowOf c)) := by
  rw [escapeChar]
  cases hl : escapes.lookup c with
  | some letter => exact .inl ⟨letter, mem_escapes hl, rfl⟩
  | none =>
    dsimp only
    by_cases hprint : 0x20 ≤ c ∧ c ≤ 0x7E
    · -- The quote and the backslash have letters of their own.
      refine .inr (.inl ⟨hprint, ?_, ?_, if_pos hprint⟩)
      · rintro rfl
        cases hl
      · rintro rfl
        cases hl
    · rw [if_neg hprint]
      by_cases hbmp : c < 0x10000
      · exact .inr (.inr (.inl ⟨hbmp, if_pos hbmp⟩))
      · exact .inr (.inr (.inr ⟨not_lt.mp hbmp, if_neg hbmp⟩))

theorem escapeChar_surrogate {c : ℕ} (h : isHigh c ∨ isLow c) :
    escapeChar c = unicodeEscape c := by
  unfold isHigh isLow at h
  obtain ⟨letter, hmem, -⟩ | ⟨hprint, -⟩ | ⟨-, heq⟩ | ⟨hle, -⟩ := escapeChar_cases c
  · have hlt : ∀ p ∈ escapes, p.1 < 0x7F := by decide
    have := hlt _ hmem
    omega
  · omega
  · exact heq
  · omega

theorem highOf_isHigh {c : ℕ} (h : 0x10000 ≤ c) (hc : c < 0x110000) : isHigh (highOf c) := by
  unfold isHigh highOf
  omega

theorem lowOf_isLow (c : ℕ) : isLow (lowOf c) := by
  unfold isLow lowOf
  omega

theorem pair_highOf_lowOf {c : ℕ} (h : 0x10000 ≤ c) : pair (highOf c) (lowOf c) = c := by
  unfold pair highOf lowOf
  omega

theorem scanString_unicode {n : ℕ} (hn : n < 0x10000) {s : PyStr} (h : isHigh n → KeepsHigh s) :
    scanString (unicodeEscape n ++ s) = (scanString s).map fun p => (n :: p.1, p.2) := by
  refine scanString_escaped (s := 0x75 :: (hex4 n ++ s)) ?_
  rw [scanEscape, if_pos rfl]
  exact scanUnicode_single hn h

theorem scanString_pair {c d : ℕ} (hc : isHigh c) (hd : isLow d) (s : PyStr) :
    scanString (unicodeEscape c ++ (unicodeEscape d ++ s)) =
      (scanString s).map fun p => (pair c d :: p.1, p.2) := by
  refine scanString_escaped (s := 0x75 :: (hex4 c ++ (unicodeEscape d ++ s))) ?_
  rw [scanEscape, if_pos rfl]
  exact scanUnicode_pair hc hd s

/-- **One character.** -/
theorem scanString_escapeChar {c : ℕ} (hc : c < 0x110000) {s : PyStr}
    (h : isHigh c → KeepsHigh s) :
    scanString (escapeChar c ++ s) = (scanString s).map fun p => (c :: p.1, p.2) := by
  obtain ⟨letter, hmem, heq⟩ | ⟨hprint, hquote, hbackslash, heq⟩ | ⟨hbmp, heq⟩ | ⟨hle, heq⟩ :=
    escapeChar_cases c
  · obtain ⟨hu, hletter⟩ := escapes_backslash _ hmem
    rw [heq]
    refine scanString_escaped (s := letter :: s) ?_
    rw [scanEscape, if_neg hu, hletter, Option.map_some]
  · rw [heq]
    exact scanString_plain hquote hbackslash hprint.1 s
  · rw [heq]
    exact scanString_unicode hbmp h
  · rw [heq, List.append_assoc, scanString_pair (highOf_isHigh hle hc) (lowOf_isLow c),
      pair_highOf_lowOf hle]

theorem keepsHigh_quote (s : PyStr) : KeepsHigh (0x22 :: s) := by
  rintro s' h
  cases h

theorem keepsHigh_unicode {n : ℕ} (hn : n < 0x10000) (hlow : ¬isLow n) (s : PyStr) :
    KeepsHigh (unicodeEscape n ++ s) := by
  rintro s' h
  have hs' : s' = hex4 n ++ s := (List.cons.inj (List.cons.inj h).2).2.symm
  exact ⟨n, s, by rw [hs', scanHex_hex4 hn], hlow⟩

/-- Only a low surrogate is written as the escape of one. -/
theorem keepsHigh_escapeChar {c : ℕ} (hc : c < 0x110000) (hlow : ¬isLow c) (s : PyStr) :
    KeepsHigh (escapeChar c ++ s) := by
  obtain ⟨letter, hmem, heq⟩ | ⟨-, -, hbackslash, heq⟩ | ⟨hbmp, heq⟩ | ⟨hle, heq⟩ :=
    escapeChar_cases c
  · rw [heq]
    rintro s' h
    exact absurd (List.cons.inj (List.cons.inj h).2).1 (escapes_backslash _ hmem).1
  · rw [heq]
    rintro s' h
    exact absurd (List.cons.inj h).1 hbackslash
  · rw [heq]
    exact keepsHigh_unicode hbmp hlow s
  · have hhigh := highOf_isHigh hle hc
    rw [heq, List.append_assoc]
    unfold isHigh at hhigh
    refine keepsHigh_unicode (by omega) ?_ _
    unfold isLow
    omega

/-- **What is read of what was written.**  A string comes back with its
neighbouring surrogates joined. -/
theorem scanString_escape {s : PyStr} (h : ∀ c ∈ s, c < 0x110000) (rest : PyStr) :
    scanString (escape s ++ 0x22 :: rest) = some (joinSurrogates s, rest) := by
  induction s using joinSurrogates.induct with
  | case1 => exact scanString_quote rest
  | case2 c =>
    have hc : c < 0x110000 := h c (List.mem_singleton_self c)
    rw [escape, List.flatMap_singleton, scanString_escapeChar hc fun _ => keepsHigh_quote rest,
      scanString_quote]
    rfl
  | case3 c d s hpair ih =>
    -- Both surrogates are written as escapes, which are read together.
    have hs : ∀ x ∈ s, x < 0x110000 :=
      fun x hx => h x (List.mem_cons_of_mem _ (List.mem_cons_of_mem _ hx))
    rw [escape, List.flatMap_cons, List.flatMap_cons, escapeChar_surrogate (.inl hpair.1),
      escapeChar_surrogate (.inr hpair.2), List.append_assoc, List.append_assoc,
      scanString_pair hpair.1 hpair.2, ← escape, ih hs, joinSurrogates, if_pos hpair]
    rfl
  | case4 c d s hpair ih =>
    obtain ⟨hc, hs⟩ := List.forall_mem_cons.mp h
    have hd : d < 0x110000 := hs d List.mem_cons_self
    -- If `c` is a high surrogate, `d` is not a low one.
    have hkeeps : isHigh c → KeepsHigh (escape (d :: s) ++ 0x22 :: rest) := by
      intro hhigh
      rw [escape, List.flatMap_cons, List.append_assoc]
      exact keepsHigh_escapeChar hd (fun hlow => hpair ⟨hhigh, hlow⟩) _
    rw [escape, List.flatMap_cons, List.append_assoc, ← escape, scanString_escapeChar hc hkeeps,
      ih hs, joinSurrogates, if_neg hpair]
    rfl

/-! ### What is written -/

/-- Printable ASCII. -/
def Printable (s : PyStr) : Prop := ∀ c ∈ s, 0x20 ≤ c ∧ c ≤ 0x7E

theorem Printable.append {s t : PyStr} (hs : Printable s) (ht : Printable t) :
    Printable (s ++ t) := by
  intro c hc
  exact (List.mem_append.mp hc).elim (hs c) (ht c)

theorem printable_hexDigit : ∀ d < 0x10, 0x20 ≤ hexDigit d ∧ hexDigit d ≤ 0x7E := by decide

theorem printable_unicodeEscape {n : ℕ} (hn : n < 0x10000) : Printable (unicodeEscape n) := by
  intro c hc
  simp only [unicodeEscape, hex4, List.mem_cons, List.not_mem_nil, or_false] at hc
  -- The backslash, the letter and the four digits.
  rcases hc with rfl | rfl | rfl | rfl | rfl | rfl
  · decide
  · decide
  all_goals exact printable_hexDigit _ (by omega)

theorem printable_escapeChar {c : ℕ} (hc : c < 0x110000) : Printable (escapeChar c) := by
  obtain ⟨letter, hmem, heq⟩ | ⟨hprint, -, -, heq⟩ | ⟨hbmp, heq⟩ | ⟨hle, heq⟩ :=
    escapeChar_cases c
  · have hletters : ∀ p ∈ escapes, Printable [0x5C, p.2] := by
      unfold Printable
      decide
    rw [heq]
    exact hletters _ hmem
  · rw [heq]
    exact List.forall_mem_singleton.mpr hprint
  · rw [heq]
    exact printable_unicodeEscape hbmp
  · have hhigh := highOf_isHigh hle hc
    have hlow := lowOf_isLow c
    unfold isHigh at hhigh
    unfold isLow at hlow
    rw [heq]
    exact (printable_unicodeEscape (by omega)).append (printable_unicodeEscape (by omega))

/-- A string is written in printable ASCII, whatever it holds. -/
theorem printable_escape {s : PyStr} (h : ∀ c ∈ s, c < 0x110000) : Printable (escape s) := by
  intro c hc
  obtain ⟨x, hx, hcx⟩ := List.mem_flatMap.mp hc
  exact printable_escapeChar (h x hx) c hcx

end JsonText
