/-
What `json.dumps` writes, `json.loads` reads back.

A string survives unless a low surrogate follows a high one in it, for these
two come back as one code point; so a value is *dumpable* when its strings and
keys are `Unpaired` and its numbers are texts of numbers.

* `loadsText_dumps` — reading inverts writing;
* `printable_dumps` — what is written is printable ASCII, a newline least of all.
-/
import AgenticJuggling.JsonText

namespace JsonText

open PyStr

/-! ### Numbers -/

/-- The characters that could go on with a number. -/
def InNumber (c : ℕ) : Prop :=
  isDigit c = true ∨ c = 0x2B ∨ c = 0x2D ∨ c = 0x2E ∨ c = 0x45 ∨ c = 0x65

/-- No number that ends before `rest` goes on in it. -/
def Ends (rest : PyStr) : Prop := ∀ c s, rest = c :: s → ¬InNumber c

theorem ends_nil : Ends [] := by
  intro c s h
  cases h

theorem ends_cons {c : ℕ} (h : ¬InNumber c) (s : PyStr) : Ends (c :: s) := by
  intro d t heq
  obtain ⟨rfl, -⟩ := List.cons.inj heq
  exact h

section Numbers

variable {rest : PyStr}

theorem takeWhile_digits (h : Ends rest) (s : PyStr) :
    (s ++ rest).takeWhile isDigit = s.takeWhile isDigit ∧
      (s ++ rest).dropWhile isDigit = s.dropWhile isDigit ++ rest := by
  induction s with
  | nil =>
    cases rest with
    | nil => exact ⟨rfl, rfl⟩
    | cons c rest =>
      have hc : isDigit c = false := Bool.eq_false_iff.mpr fun hd => h c rest rfl (.inl hd)
      simp [hc]
  | cons c s ih =>
    rw [List.cons_append, List.takeWhile_cons, List.dropWhile_cons, List.takeWhile_cons,
      List.dropWhile_cons]
    split
    · exact ⟨congrArg (c :: ·) ih.1, ih.2⟩
    · exact ⟨rfl, rfl⟩

theorem scanSign_append (h : Ends rest) {signs : List ℕ} (hsigns : ∀ c ∈ signs, InNumber c)
    (s : PyStr) : scanSign signs (s ++ rest) =
      ((scanSign signs s).1, (scanSign signs s).2 ++ rest) := by
  cases s with
  | nil =>
    cases rest with
    | nil => rfl
    | cons c rest => exact if_neg fun hc => h c rest rfl (hsigns c hc)
  | cons c s =>
    rw [List.cons_append, scanSign, scanSign]
    split
    · rfl
    · rfl

theorem scanInt_append (h : Ends rest) {s text s' : PyStr} (hs : scanInt s = some (text, s')) :
    scanInt (s ++ rest) = some (text, s' ++ rest) := by
  cases s with
  | nil => cases hs
  | cons c s =>
    rw [scanInt] at hs
    rw [List.cons_append, scanInt, (takeWhile_digits h s).1, (takeWhile_digits h s).2]
    split at hs
    · next hc =>
      obtain ⟨rfl, rfl⟩ := Prod.mk.inj (Option.some.inj hs)
      exact if_pos hc
    · next hc =>
      rw [if_neg hc]
      split at hs
      · next hd =>
        obtain ⟨rfl, rfl⟩ := Prod.mk.inj (Option.some.inj hs)
        exact if_pos hd
      · cases hs

theorem scanFraction_append (h : Ends rest) (s : PyStr) : scanFraction (s ++ rest) =
    ((scanFraction s).1, (scanFraction s).2 ++ rest) := by
  cases s with
  | nil =>
    cases rest with
    | nil => rfl
    | cons c rest => exact if_neg fun hc => h c rest rfl (by simp [InNumber, hc.1])
  | cons c s =>
    rw [List.cons_append, scanFraction, scanFraction, (takeWhile_digits h s).1,
      (takeWhile_digits h s).2]
    split
    · rfl
    · rfl

theorem scanExponent_append (h : Ends rest) (s : PyStr) : scanExponent (s ++ rest) =
    ((scanExponent s).1, (scanExponent s).2 ++ rest) := by
  cases s with
  | nil =>
    cases rest with
    | nil => rfl
    | cons c rest =>
      refine if_neg fun hc => h c rest rfl ?_
      rcases hc.1 with rfl | rfl
      · simp [InNumber]
      · simp [InNumber]
  | cons c s =>
    have hsign : ∀ c ∈ [0x2B, 0x2D], InNumber c := by simp [InNumber]
    rw [List.cons_append, scanExponent, scanExponent, scanSign_append h hsign]
    dsimp only
    rw [(takeWhile_digits h _).1, (takeWhile_digits h _).2]
    split
    · rfl
    · rfl

theorem scanNumber_append (h : Ends rest) {s text s' : PyStr}
    (hs : scanNumber s = some (text, s')) : scanNumber (s ++ rest) = some (text, s' ++ rest) := by
  rw [scanNumber_eq] at hs ⊢
  obtain ⟨⟨int, s₁⟩, hint, heq⟩ := Option.map_eq_some_iff.mp hs
  obtain ⟨rfl, rfl⟩ := Prod.mk.inj heq
  have hsign : ∀ c ∈ [0x2D], InNumber c := by simp [InNumber]
  rw [scanSign_append h hsign]
  dsimp only
  rw [scanInt_append h hint, Option.map_some]
  dsimp only
  rw [scanFraction_append h, scanExponent_append h]

/-- A number begins with a digit, behind its sign if it has one. -/
theorem scanNumber_head {s : PyStr} {p : PyStr × PyStr} (h : scanNumber s = some p) :
    ∃ c t, s = c :: t ∧ (isDigit c = true ∨ c = 0x2D ∧ ∃ d u, t = d :: u ∧ isDigit d = true) := by
  have hint : ∀ {t : PyStr} {q : PyStr × PyStr}, scanInt t = some q →
      ∃ d u, t = d :: u ∧ isDigit d = true := by
    intro t q hq
    cases t with
    | nil => cases hq
    | cons d u =>
      refine ⟨d, u, rfl, ?_⟩
      rw [scanInt] at hq
      split at hq
      · next hzero =>
        rw [hzero]
        rfl
      · split at hq
        · next hd => exact hd
        · cases hq
  rw [scanNumber_eq] at h
  obtain ⟨q, hq, -⟩ := Option.map_eq_some_iff.mp h
  cases s with
  | nil => cases hq
  | cons c s =>
    by_cases hc : c ∈ [0x2D]
    · -- A minus: the digit comes behind it.
      have hsign : scanSign [0x2D] (c :: s) = ([c], s) := if_pos hc
      rw [hsign] at hq
      exact ⟨c, s, rfl, .inr ⟨List.mem_singleton.mp hc, hint hq⟩⟩
    · have hsign : scanSign [0x2D] (c :: s) = ([], c :: s) := if_neg hc
      rw [hsign] at hq
      obtain ⟨d, u, heq, hd⟩ := hint hq
      obtain ⟨rfl, rfl⟩ := List.cons.inj heq
      exact ⟨c, s, rfl, .inl hd⟩

/-- No constant looks like a number. -/
theorem find_constants_number {s : PyStr} {p : PyStr × PyStr} (h : scanNumber s = some p) :
    constants.find? (fun q => q.1.isPrefixOf s) = none := by
  obtain ⟨c, t, rfl, hc⟩ := scanNumber_head h
  have hdigit : ∀ {d : ℕ}, isDigit d = true → 0x30 ≤ d ∧ d ≤ 0x39 := of_decide_eq_true
  rw [List.find?_eq_none]
  intro q hq hprefix
  simp only [constants, nonFinite, List.map_cons, List.map_nil, List.cons_append, List.nil_append,
    List.mem_cons, List.not_mem_nil, or_false] at hq
  -- The first character tells, and behind a minus the second one.
  rcases hc with hc | ⟨rfl, d, u, rfl, hd⟩
  · have hc := hdigit hc
    rcases hq with rfl | rfl | rfl | rfl | rfl | rfl
    all_goals
      rw [List.isPrefixOf_cons_cons, Bool.and_eq_true, beq_iff_eq] at hprefix
      omega
  · have hd := hdigit hd
    rcases hq with rfl | rfl | rfl | rfl | rfl | rfl
    all_goals
      rw [List.isPrefixOf_cons_cons, List.isPrefixOf_cons_cons, Bool.and_eq_true, Bool.and_eq_true,
        beq_iff_eq, beq_iff_eq] at hprefix
      omega

/-- The text of a number, on its own. -/
def NumberText (text : PyStr) : Prop := scanScalar text = some (.number text, [])

theorem numberText_cases {text : PyStr} (h : NumberText text) :
    text ∈ nonFinite ∨ scanNumber text = some (text, []) := by
  rw [NumberText, scanScalar] at h
  split at h
  · next name v hfind =>
    obtain ⟨rfl, hdrop⟩ := Prod.mk.inj (Option.some.inj h)
    have hfound := List.find?_some hfind
    have hprefix : name <+: text := List.isPrefixOf_iff_prefix.mp hfound
    -- The constant is the whole text.
    obtain rfl : name = text :=
      hprefix.eq_of_length_le (List.drop_eq_nil_iff.mp hdrop)
    have hmem := List.mem_of_find?_eq_some hfind
    simp only [constants, List.mem_append, List.mem_cons, List.not_mem_nil, or_false,
      Prod.mk.injEq, reduceCtorEq, and_false, false_or, List.mem_map, Value.number.injEq] at hmem
    obtain ⟨t, ht, rfl, -⟩ := hmem
    exact .inl ht
  · obtain ⟨⟨t, rest⟩, hnumber, heq⟩ := Option.map_eq_some_iff.mp h
    obtain ⟨hvalue, rfl⟩ := Prod.mk.inj heq
    obtain rfl := Value.number.inj hvalue
    exact .inr hnumber

theorem scanScalar_number {text : PyStr} (h : NumberText text) (hrest : Ends rest) :
    scanScalar (text ++ rest) = some (.number text, rest) := by
  rcases numberText_cases h with hname | hnumber
  · simp only [nonFinite, List.mem_cons, List.not_mem_nil, or_false] at hname
    rcases hname with rfl | rfl | rfl
    · rfl
    · rfl
    · rfl
  · have happend := scanNumber_append hrest hnumber
    rw [scanScalar, find_constants_number happend, happend]
    rfl

/-- A number begins with a character of its own. -/
theorem numberText_head {text : PyStr} (h : NumberText text) :
    ∃ c t, text = c :: t ∧ c ∉ [0x20, 0x09, 0x0A, 0x0D, 0x22, 0x5B, 0x5D, 0x7B] := by
  rcases numberText_cases h with hname | hnumber
  · have hhead : ∀ name ∈ nonFinite, ∃ c t, name = c :: t ∧
        c ∉ [0x20, 0x09, 0x0A, 0x0D, 0x22, 0x5B, 0x5D, 0x7B] := by simp [nonFinite]
    exact hhead text hname
  · obtain ⟨c, t, rfl, hc⟩ := scanNumber_head hnumber
    refine ⟨c, t, rfl, ?_⟩
    rcases hc with hc | ⟨rfl, -⟩
    · have hdigit : 0x30 ≤ c ∧ c ≤ 0x39 := of_decide_eq_true hc
      simp only [List.mem_cons, List.not_mem_nil, or_false]
      omega
    · decide

end Numbers

/-! ### Values -/

/-- What `dumps` can write so that `loads` reads it back. -/
inductive Dumpable : Value → Prop
  | null : Dumpable .null
  | bool (b : Bool) : Dumpable (.bool b)
  | number {text : PyStr} (h : NumberText text) : Dumpable (.number text)
  | str {s : PyStr} (h : s.Unpaired) : Dumpable (.str s)
  | arr {items : List Value} (h : ∀ v ∈ items, Dumpable v) : Dumpable (.arr items)
  | obj {members : List (PyStr × Value)} (hkeys : ∀ p ∈ members, p.1.Unpaired)
      (h : ∀ p ∈ members, Dumpable p.2) : Dumpable (.obj members)

theorem scanString_unpaired {s : PyStr} (h : s.Unpaired) (rest : PyStr) :
    scanString (escape s ++ 0x22 :: rest) = some (s, rest) := by
  rw [scanString_escape h.lt, h.joined]

theorem skip_of_not_space {c : ℕ} (h : isSpace c = false) (s : PyStr) : skip (c :: s) = c :: s := by
  rw [skip, List.dropWhile_cons_of_neg (by simp [h])]

theorem skip_space (s : PyStr) : skip (0x20 :: s) = skip s := rfl

section Bodies

variable {value : PyStr → Option (Value × PyStr)}
  {members : PyStr → Option (List (PyStr × Value) × PyStr)}
  {items : PyStr → Option (List Value × PyStr)} {s rest : PyStr}

theorem valueWith_string : valueWith members items (0x22 :: s) =
    (scanString s).map fun p => (.str p.1, p.2) := rfl

theorem valueWith_brace (h : expect 0x7D (skip s) = none) :
    valueWith members items (0x7B :: s) = (members (skip s)).map fun p => (.obj p.1, p.2) := by
  rw [valueWith, expect_of_ne (by decide), expect_self]
  dsimp only
  rw [h]

theorem valueWith_bracket (h : expect 0x5D (skip s) = none) :
    valueWith members items (0x5B :: s) = (items (skip s)).map fun p => (.arr p.1, p.2) := by
  rw [valueWith, expect_of_ne (by decide), expect_of_ne (by decide), expect_self]
  dsimp only
  rw [h]

theorem valueWith_scalar {c : ℕ} (h : c ∉ [0x22, 0x5B, 0x7B]) :
    valueWith members items (c :: s) = scanScalar (c :: s) := by
  simp only [List.mem_cons, List.not_mem_nil, or_false, not_or] at h
  rw [valueWith, expect_of_ne h.1, expect_of_ne h.2.1, expect_of_ne h.2.2]

/-- The last item, behind which the bracket closes. -/
theorem itemsWith_last {v : Value} (hv : value s = some (v, 0x5D :: rest)) :
    itemsWith value items s = some ([v], rest) := by
  rw [itemsWith, hv]
  rfl

/-- An item with more behind it. -/
theorem itemsWith_comma {v : Value} {t : PyStr} (hv : value s = some (v, 0x2C :: t)) :
    itemsWith value items s = (items (skip t)).map fun p => (v :: p.1, p.2) := by
  rw [itemsWith, hv]
  rfl

theorem membersWith_key {key : PyStr} (hkey : key.Unpaired) (t : PyStr) :
    membersWith value members (encodeBasestringAscii key ++ 0x3A :: t) =
      (value (skip t)).bind fun p =>
        if let some rest := expect 0x7D (skip p.2) then some ([(key, p.1)], rest)
        else (expect 0x2C (skip p.2)).bind fun rest =>
          (members (skip rest)).map fun q => ((key, p.1) :: q.1, q.2) := by
  rw [encodeBasestringAscii, List.cons_append, List.append_assoc, membersWith, expect_self,
    Option.bind_eq_bind, Option.bind_some, List.singleton_append, scanString_unpaired hkey]
  rfl

theorem membersWith_last {key : PyStr} {v : Value} {t : PyStr} (hkey : key.Unpaired)
    (hv : value (skip t) = some (v, 0x7D :: rest)) :
    membersWith value members (encodeBasestringAscii key ++ 0x3A :: t) =
      some ([(key, v)], rest) := by
  rw [membersWith_key hkey, hv]
  rfl

theorem membersWith_comma {key : PyStr} {v : Value} {t u : PyStr} (hkey : key.Unpaired)
    (hv : value (skip t) = some (v, 0x2C :: u)) :
    membersWith value members (encodeBasestringAscii key ++ 0x3A :: t) =
      (members (skip u)).map fun p => ((key, v) :: p.1, p.2) := by
  rw [membersWith_key hkey, hv]
  rfl

end Bodies

theorem skip_string (s t : PyStr) :
    skip (encodeBasestringAscii s ++ t) = encodeBasestringAscii s ++ t := by
  rw [encodeBasestringAscii, List.cons_append, skip_of_not_space (by decide)]

/-- `P` holds whenever there is enough fuel. -/
def Enough (P : ℕ → Prop) : Prop := ∃ n, ∀ fuel, n ≤ fuel → P fuel

theorem enough_of_succ {P : ℕ → Prop} {n : ℕ} (h : ∀ fuel, n ≤ fuel → P (fuel + 1)) :
    Enough P := by
  refine ⟨n + 1, fun fuel hfuel => ?_⟩
  obtain ⟨k, rfl⟩ : ∃ k, fuel = k + 1 := ⟨fuel - 1, by omega⟩
  exact h k (by omega)

/-- A value that is written is read back, whatever ends it. -/
structure Readable (v : Value) : Prop where
  head : ∃ c t, dumps v = c :: t ∧ isSpace c = false ∧ c ≠ 0x5D
  reads : Enough fun fuel => ∀ rest, Ends rest → scanOnce fuel (dumps v ++ rest) = some (v, rest)

theorem Readable.skip {v : Value} (hv : Readable v) (rest : PyStr) :
    skip (dumps v ++ rest) = dumps v ++ rest := by
  obtain ⟨c, t, heq, hspace, -⟩ := hv.head
  rw [heq, List.cons_append, skip_of_not_space hspace]

theorem ends_comma (s : PyStr) : Ends (0x2C :: s) :=
  ends_cons (by simp [InNumber, isDigit]) s

theorem ends_bracket (s : PyStr) : Ends (0x5D :: s) :=
  ends_cons (by simp [InNumber, isDigit]) s

theorem ends_brace (s : PyStr) : Ends (0x7D :: s) :=
  ends_cons (by simp [InNumber, isDigit]) s

/-- The items of a list, from `v` on. -/
theorem scanItems_dumps {items : List Value} : ∀ {v : Value}, Readable v →
    (∀ w ∈ items, Readable w) → Enough fun fuel => ∀ rest,
      scanItems fuel (dumps v ++ (dumpsItems items ++ rest)) = some (v :: items, rest) := by
  induction items with
  | nil =>
    intro v hv _
    obtain ⟨n, hn⟩ := hv.reads
    refine enough_of_succ (n := n) fun fuel hfuel rest => ?_
    exact itemsWith_last (hn fuel hfuel _ (ends_bracket rest))
  | cons w items ih =>
    intro v hv hitems
    obtain ⟨hw, hitems⟩ := List.forall_mem_cons.mp hitems
    -- `n` units read the item, `k` the items behind it.
    obtain ⟨n, hn⟩ := hv.reads
    obtain ⟨k, hk⟩ := ih hw hitems
    refine enough_of_succ (n := n + k) fun fuel hfuel rest => ?_
    have hlist : dumpsItems (w :: items) ++ rest =
        0x2C :: 0x20 :: (dumps w ++ (dumpsItems items ++ rest)) := by
      simp [dumpsItems]
    have hvalue := hn fuel (by omega) (dumpsItems (w :: items) ++ rest)
      (by rw [hlist]; exact ends_comma _)
    rw [hlist] at hvalue ⊢
    rw [scanItems, itemsWith_comma hvalue, skip_space, hw.skip, hk fuel (by omega)]
    rfl

/-- The members of a dictionary, from the pair of `key` and `v` on. -/
theorem scanMembers_dumps {members : List (PyStr × Value)} : ∀ {key : PyStr} {v : Value},
    key.Unpaired → Readable v → (∀ p ∈ members, p.1.Unpaired) → (∀ p ∈ members, Readable p.2) →
    Enough fun fuel => ∀ rest,
      scanMembers fuel (encodeBasestringAscii key ++ 0x3A :: 0x20 ::
        (dumps v ++ (dumpsMembers members ++ rest))) = some ((key, v) :: members, rest) := by
  induction members with
  | nil =>
    intro key v hkey hv _ _
    obtain ⟨n, hn⟩ := hv.reads
    refine enough_of_succ (n := n) fun fuel hfuel rest => membersWith_last hkey ?_
    rw [skip_space, hv.skip]
    exact hn fuel hfuel _ (ends_brace rest)
  | cons p members ih =>
    obtain ⟨key', w⟩ := p
    intro key v hkey hv hkeys hmembers
    obtain ⟨hkey', hkeys⟩ := List.forall_mem_cons.mp hkeys
    obtain ⟨hw, hmembers⟩ := List.forall_mem_cons.mp hmembers
    obtain ⟨n, hn⟩ := hv.reads
    obtain ⟨k, hk⟩ := ih hkey' hw hkeys hmembers
    refine enough_of_succ (n := n + k) fun fuel hfuel rest => ?_
    have hlist : dumpsMembers ((key', w) :: members) ++ rest =
        0x2C :: 0x20 :: (encodeBasestringAscii key' ++ 0x3A :: 0x20 ::
          (dumps w ++ (dumpsMembers members ++ rest))) := by
      simp [dumpsMembers]
    have hvalue := hn fuel (by omega) (dumpsMembers ((key', w) :: members) ++ rest)
      (by rw [hlist]; exact ends_comma _)
    rw [← hv.skip, ← skip_space, hlist] at hvalue
    rw [hlist, scanMembers, membersWith_comma hkey hvalue, skip_space, skip_string,
      hk fuel (by omega)]
    rfl

/-- **Reading inverts writing**, for a value among others. -/
theorem Dumpable.readable {v : Value} (h : Dumpable v) : Readable v := by
  induction h with
  | null =>
    exact ⟨⟨_, _, rfl, by decide, by decide⟩, enough_of_succ (n := 0) fun fuel _ rest _ => rfl⟩
  | bool b =>
    cases b with
    | true =>
      exact ⟨⟨_, _, rfl, by decide, by decide⟩, enough_of_succ (n := 0) fun fuel _ rest _ => rfl⟩
    | false =>
      exact ⟨⟨_, _, rfl, by decide, by decide⟩, enough_of_succ (n := 0) fun fuel _ rest _ => rfl⟩
  | number htext =>
    -- Its first character leads to `scanScalar`.
    obtain ⟨c, t, rfl, hc⟩ := numberText_head htext
    simp only [List.mem_cons, List.not_mem_nil, or_false, not_or] at hc
    refine ⟨⟨c, t, rfl, decide_eq_false (by omega), by omega⟩,
      enough_of_succ (n := 0) fun fuel _ rest hrest => ?_⟩
    refine (valueWith_scalar ?_).trans (scanScalar_number htext hrest)
    simp only [List.mem_cons, List.not_mem_nil, or_false]
    omega
  | str hs =>
    refine ⟨⟨_, _, rfl, by decide, by decide⟩,
      enough_of_succ (n := 0) fun fuel _ rest _ => ?_⟩
    rw [dumps, encodeBasestringAscii, List.cons_append, List.append_assoc, scanOnce,
      valueWith_string, List.singleton_append, scanString_unpaired hs]
    rfl
  | @arr items h ih =>
    cases items with
    | nil =>
      exact ⟨⟨_, _, rfl, by decide, by decide⟩, enough_of_succ (n := 0) fun fuel _ rest _ => rfl⟩
    | cons v items =>
      obtain ⟨hv, hitems⟩ := List.forall_mem_cons.mp ih
      obtain ⟨n, hn⟩ := scanItems_dumps hv hitems
      refine ⟨⟨_, _, rfl, by decide, by decide⟩,
        enough_of_succ (n := n) fun fuel hfuel rest _ => ?_⟩
      -- No value begins like the end of a list, which is looked for first.
      have hclose : expect 0x5D (skip (dumps v ++ (dumpsItems items ++ rest))) = none := by
        obtain ⟨c, t, heq, -, hc⟩ := hv.head
        rw [hv.skip, heq, List.cons_append, expect_of_ne hc]
      rw [dumps, List.cons_append, List.append_assoc, scanOnce, valueWith_bracket hclose, hv.skip,
        hn fuel hfuel]
      rfl
  | @obj members hkeys h ih =>
    cases members with
    | nil =>
      exact ⟨⟨_, _, rfl, by decide, by decide⟩, enough_of_succ (n := 0) fun fuel _ rest _ => rfl⟩
    | cons p members =>
      obtain ⟨key, v⟩ := p
      obtain ⟨hkey, hkeys⟩ := List.forall_mem_cons.mp hkeys
      obtain ⟨hv, hmembers⟩ := List.forall_mem_cons.mp ih
      obtain ⟨n, hn⟩ := scanMembers_dumps hkey hv hkeys hmembers
      refine ⟨⟨_, _, rfl, by decide, by decide⟩,
        enough_of_succ (n := n) fun fuel hfuel rest _ => ?_⟩
      have htext : dumps (.obj ((key, v) :: members)) ++ rest =
          0x7B :: (encodeBasestringAscii key ++ 0x3A :: 0x20 ::
            (dumps v ++ (dumpsMembers members ++ rest))) := by
        simp [dumps]
      rw [htext, scanOnce, valueWith_brace, skip_string, hn fuel hfuel]
      · rfl
      · rw [skip_string, encodeBasestringAscii, List.cons_append, expect_of_ne (by decide)]

/-- **Reading inverts writing.** -/
theorem loadsText_dumps {v : Value} (h : Dumpable v) : loadsText (dumps v) = some v := by
  obtain ⟨n, hn⟩ := h.readable.reads
  have hskip := h.readable.skip []
  rw [List.append_nil] at hskip
  -- The fuel that `loadsText` starts with reads what any larger fuel does.
  have hscan : scanOnce (2 * (dumps v).length + 1) (dumps v) = some (v, []) := by
    have hlt : 2 * (dumps v).length < n + (2 * (dumps v).length + 1) := by omega
    have hread := hn (n + (2 * (dumps v).length + 1)) (by omega) [] ends_nil
    rw [List.append_nil] at hread
    rw [← scanOnce_fuel hlt, hread]
  rw [loadsText, hskip, hscan]
  rfl

/-! ### What is written -/

theorem printable_string {s : PyStr} (h : ∀ c ∈ s, c < 0x110000) :
    Printable (encodeBasestringAscii s) := by
  have hquote : Printable [0x22] := by simp [Printable]
  exact hquote.append ((printable_escape h).append hquote)

theorem printable_digit {c : ℕ} (h : isDigit c = true) : 0x20 ≤ c ∧ c ≤ 0x7E := by
  have hdigit : 0x30 ≤ c ∧ c ≤ 0x39 := of_decide_eq_true h
  omega

theorem printable_digits (s : PyStr) : Printable (s.takeWhile isDigit) :=
  fun _ hc => printable_digit (List.mem_takeWhile_imp hc)

theorem printable_nil : Printable [] := fun _ hc => absurd hc List.not_mem_nil

theorem Printable.cons {c : ℕ} {s : PyStr} (hc : 0x20 ≤ c ∧ c ≤ 0x7E) (hs : Printable s) :
    Printable (c :: s) := List.forall_mem_cons.mpr ⟨hc, hs⟩

theorem printable_scanSign {signs : List ℕ} (h : Printable signs) (s : PyStr) :
    Printable (scanSign signs s).1 := by
  cases s with
  | nil => exact printable_nil
  | cons c s =>
    rw [scanSign]
    split
    · next hc => exact printable_nil.cons (h c hc)
    · exact printable_nil

theorem printable_scanInt {s text rest : PyStr} (h : scanInt s = some (text, rest)) :
    Printable text := by
  cases s with
  | nil => cases h
  | cons c s =>
    rw [scanInt] at h
    split at h
    · next hc =>
      obtain ⟨rfl, -⟩ := Prod.mk.inj (Option.some.inj h)
      exact printable_nil.cons (by omega)
    · split at h
      · next hc =>
        obtain ⟨rfl, -⟩ := Prod.mk.inj (Option.some.inj h)
        exact (printable_digits s).cons (printable_digit hc)
      · cases h

theorem printable_scanFraction (s : PyStr) : Printable (scanFraction s).1 := by
  cases s with
  | nil => exact printable_nil
  | cons c s =>
    rw [scanFraction]
    split
    · next hc => exact (printable_digits s).cons (by omega)
    · exact printable_nil

theorem printable_scanExponent (s : PyStr) : Printable (scanExponent s).1 := by
  cases s with
  | nil => exact printable_nil
  | cons c s =>
    have hsigns : Printable [0x2B, 0x2D] := by simp [Printable]
    rw [scanExponent]
    dsimp only
    split
    · next hc =>
      exact ((printable_scanSign hsigns s).append (printable_digits _)).cons (by omega)
    · exact printable_nil

theorem printable_number {text : PyStr} (h : NumberText text) : Printable text := by
  rcases numberText_cases h with hname | hnumber
  · have hnames : ∀ name ∈ nonFinite, Printable name := by simp [nonFinite, Printable]
    exact hnames text hname
  · have hsigns : Printable [0x2D] := by simp [Printable]
    rw [scanNumber_eq] at hnumber
    obtain ⟨⟨int, rest⟩, hint, heq⟩ := Option.map_eq_some_iff.mp hnumber
    rw [← (Prod.mk.inj heq).1]
    exact (printable_scanSign hsigns text).append ((printable_scanInt hint).append
      ((printable_scanFraction rest).append (printable_scanExponent _)))

theorem printable_dumpsItems {items : List Value} (h : ∀ v ∈ items, Printable (dumps v)) :
    Printable (dumpsItems items) := by
  induction items with
  | nil => exact printable_nil.cons (by decide)
  | cons v items ih =>
    obtain ⟨hv, hitems⟩ := List.forall_mem_cons.mp h
    exact ((hv.append (ih hitems)).cons (by decide)).cons (by decide)

theorem printable_member {key t : PyStr} (hkey : key.Unpaired) (ht : Printable t) :
    Printable (encodeBasestringAscii key ++ 0x3A :: 0x20 :: t) := by
  have hcolon : Printable (0x3A :: 0x20 :: t) := (ht.cons (by decide)).cons (by decide)
  exact (printable_string hkey.lt).append hcolon

theorem printable_dumpsMembers {members : List (PyStr × Value)}
    (hkeys : ∀ p ∈ members, p.1.Unpaired) (h : ∀ p ∈ members, Printable (dumps p.2)) :
    Printable (dumpsMembers members) := by
  induction members with
  | nil => exact printable_nil.cons (by decide)
  | cons p members ih =>
    obtain ⟨hkey, hkeys⟩ := List.forall_mem_cons.mp hkeys
    obtain ⟨hv, hmembers⟩ := List.forall_mem_cons.mp h
    have hpair := printable_member hkey (hv.append (ih hkeys hmembers))
    exact (hpair.cons (by decide)).cons (by decide)

/-- What is written is printable ASCII. -/
theorem printable_dumps {v : Value} (h : Dumpable v) : Printable (dumps v) := by
  induction h with
  | null => simp [dumps, Printable]
  | bool b =>
    cases b with
    | true => simp [dumps, Printable]
    | false => simp [dumps, Printable]
  | number htext => exact printable_number htext
  | str hs => exact printable_string hs.lt
  | @arr items h ih =>
    cases items with
    | nil => simp [dumps, Printable]
    | cons v items =>
      obtain ⟨hv, hitems⟩ := List.forall_mem_cons.mp ih
      exact (hv.append (printable_dumpsItems hitems)).cons (by decide)
  | @obj members hkeys h ih =>
    cases members with
    | nil => simp [dumps, Printable]
    | cons p members =>
      obtain ⟨hkey, hkeys⟩ := List.forall_mem_cons.mp hkeys
      obtain ⟨hv, hmembers⟩ := List.forall_mem_cons.mp ih
      have hpair := printable_member hkey (hv.append (printable_dumpsMembers hkeys hmembers))
      exact hpair.cons (by decide)

/-- Printable text is its bytes, and these are taken for what they are. -/
theorem Printable.ascii {s : PyStr} (h : Printable s) : Ascii s := by
  intro c hc
  have := h c hc
  omega

end JsonText
