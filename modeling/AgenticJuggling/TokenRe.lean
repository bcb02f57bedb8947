/-
How a runner counts tokens (`TOKEN_RE` and the read loop of
`node/agent_runner.py`), for ASCII output.

The runner looks for `TOKEN_RE` in every chunk on its own.  A chunk has at most
4096 bytes, which keeps the digits of a match within what `int` accepts.

* `TokenRe.first_eq_some_iff` — a match is a keyword, separators and a run of
  digits that is not followed by another digit;
* `AgentRunner.tokens_eq_whole_iff` — the count is that of the whole text exactly
  if no boundary between chunks lies inside a match with a number other than
  zero.
-/
import AgenticJuggling.Regex
import AgenticJuggling.NodeMetrics

/-- The characters of ASCII text. -/
abbrev Ascii := Fin 128

namespace TokenRe

def chr (c : Char) : Ascii := Fin.ofNat 128 c.toNat

def lower (c : Ascii) : Ascii := if 65 ≤ c ∧ c ≤ 90 then c + 32 else c

/-- `[\s:]`: tab to carriage return, the four separators 28 to 31, blank, colon. -/
def isSep (c : Ascii) : Bool :=
  decide (9 ≤ c ∧ c ≤ 13 ∨ 28 ≤ c ∧ c ≤ 32 ∨ c = chr ':')

/-- `\d`. -/
def isDigit (c : Ascii) : Bool := decide (48 ≤ c ∧ c ≤ 57)

/-- One letter, in either case. -/
def letter (c : Char) (x : Ascii) : Bool := decide (lower x = chr c)

def word (cs : List Char) : Regex Ascii := Regex.word (cs.map letter)

/-- `(?:tokens?[\s:]+|input[\s:]+)(\d+)`, ignoring case. -/
def tokenRe : Regex.Pattern Ascii where
  lead := .alt
    (.seq (word ['t', 'o', 'k', 'e', 'n']) (.seq (.opt (.char (letter 's'))) (.plus isSep)))
    (.seq (word ['i', 'n', 'p', 'u', 't']) (.plus isSep))
  group := isDigit

/-- `int(digits)`. -/
def int (digits : List Ascii) : ℕ := digits.foldl (fun n d => 10 * n + (d.val - 48)) 0

/-- The numbers `TOKEN_RE` finds in a text. -/
def numbers (text : List Ascii) : List ℕ := (tokenRe.finditer text).map fun m => int m.group

example : numbers (['T', 'o', 'k', 'e', 'n', ':', ' ', '1', '2', 'x'].map chr) = [12] := by decide

/-! ### The matches of the expression -/

/-- `token`, `tokens` and `input`. -/
def keywords : List (List Ascii) :=
  [['t', 'o', 'k', 'e', 'n'], ['t', 'o', 'k', 'e', 'n', 's'], ['i', 'n', 'p', 'u', 't']].map
    (List.map chr)

/-- A keyword in any case, and the separators after it. -/
structure IsLead (kw seps : List Ascii) : Prop where
  keyword : kw.map lower ∈ keywords
  ne_nil : seps ≠ []
  sep : ∀ c ∈ seps, isSep c

theorem spells_word {cs : List Char} {m : List Ascii} :
    (word cs).Spells m ↔ m.map lower = cs.map chr := by
  induction cs generalizing m with
  | nil => exact List.map_eq_nil_iff.symm
  | cons c cs ih =>
    constructor
    · rintro ⟨a, b, ⟨x, hx, rfl⟩, hb, rfl⟩
      rw [List.map_append, ih.mp hb, List.map_singleton, of_decide_eq_true hx]
      rfl
    · intro h
      cases m with
      | nil => cases h
      | cons x m =>
        obtain ⟨hx, hm⟩ := List.cons.inj h
        exact ⟨[x], m, ⟨x, decide_eq_true hx, rfl⟩, ih.mpr hm, rfl⟩

theorem spells_lead {m : List Ascii} :
    tokenRe.lead.Spells m ↔ ∃ kw seps, IsLead kw seps ∧ m = kw ++ seps := by
  constructor
  · rintro (⟨a, b, ha, ⟨c, seps, hc, hseps, rfl⟩, rfl⟩ | ⟨a, seps, ha, hseps, rfl⟩)
    · rw [spells_word] at ha
      refine ⟨a ++ c, seps, ⟨?_, hseps.1, hseps.2⟩, (List.append_assoc ..).symm⟩
      rw [List.map_append, ha]
      obtain ⟨x, hx, rfl⟩ | rfl := hc
      · rw [List.map_singleton, of_decide_eq_true hx]
        decide
      · decide
    · rw [spells_word] at ha
      exact ⟨a, seps, ⟨by rw [ha]; decide, hseps.1, hseps.2⟩, rfl⟩
  · rintro ⟨kw, seps, ⟨hkw, hne, hsep⟩, rfl⟩
    obtain h | h | h : kw.map lower = ['t', 'o', 'k', 'e', 'n'].map chr ∨
        kw.map lower = ['t', 'o', 'k', 'e', 'n', 's'].map chr ∨
          kw.map lower = ['i', 'n', 'p', 'u', 't'].map chr := by
      simpa [keywords] using hkw
    · exact .inl ⟨kw, seps, spells_word.mpr h, ⟨[], seps, .inr rfl, ⟨hne, hsep⟩, rfl⟩, rfl⟩
    · -- The optional letter is the last of the word.
      obtain ⟨a, b, rfl, ha, hb⟩ := List.map_eq_append_iff.mp
        (h.trans (by rfl : _ = ['t', 'o', 'k', 'e', 'n'].map chr ++ [chr 's']))
      obtain ⟨x, rfl, hx⟩ := List.map_eq_singleton_iff.mp hb
      exact .inl ⟨a, x :: seps, spells_word.mpr ha,
        ⟨[x], seps, .inl ⟨x, decide_eq_true hx, rfl⟩, ⟨hne, hsep⟩, rfl⟩,
        List.append_assoc ..⟩
    · exact .inr ⟨kw, seps, spells_word.mpr h, ⟨hne, hsep⟩, rfl⟩

/-- The characters of a keyword are neither separators nor digits. -/
theorem not_sep_of_keyword {kw : List Ascii} (h : kw.map lower ∈ keywords) :
    ∀ c ∈ kw, isSep c = false ∧ isDigit c = false := by
  have hletter : ∀ word ∈ keywords, ∀ x ∈ word, 97 ≤ x := by decide
  have hlower : ∀ c : Ascii, 97 ≤ lower c → isSep c = false ∧ isDigit c = false := by decide
  exact fun c hc => hlower c (hletter _ h _ (List.mem_map_of_mem hc))

theorem not_sep_of_digit : ∀ c : Ascii, isDigit c = true → isSep c = false := by decide

/-- A text that begins with a digit. -/
def AtDigit (v : List Ascii) : Prop := ∃ c ∈ v.head?, tokenRe.group c

theorem takeWhile_not_sep {a seps v : List Ascii} (ha : ∀ c ∈ a, isSep c = false)
    (hne : seps ≠ []) (hsep : ∀ c ∈ seps, isSep c) :
    (a ++ seps ++ v).takeWhile (fun c => !isSep c) = a := by
  obtain ⟨c, seps, rfl⟩ := List.exists_cons_of_ne_nil hne
  rw [List.append_assoc,
    List.takeWhile_append_of_pos fun c hc => by rw [ha c hc, Bool.not_false],
    List.cons_append, List.takeWhile_cons_of_neg (by simp [hsep c List.mem_cons_self]),
    List.append_nil]

theorem IsLead.takeWhile {kw seps : List Ascii} (h : IsLead kw seps) (v : List Ascii) :
    (kw ++ seps ++ v).takeWhile (fun c => !isSep c) = kw :=
  takeWhile_not_sep (fun c hc => (not_sep_of_keyword h.keyword c hc).1) h.ne_nil h.sep

theorem takeWhile_sep {seps v : List Ascii} (h : ∀ c ∈ seps, isSep c) (hv : AtDigit v) :
    (seps ++ v).takeWhile isSep = seps := by
  obtain ⟨c, hc, hdigit⟩ := hv
  obtain ⟨v, rfl⟩ := List.head?_eq_some_iff.mp hc
  rw [List.takeWhile_append_of_pos h,
    List.takeWhile_cons_of_neg (by simp [not_sep_of_digit c hdigit]), List.append_nil]

/-- A text has one keyword, one run of separators and one rest at most. -/
theorem lead_unique {kw seps v kw' seps' v' : List Ascii} (h : IsLead kw seps) (hv : AtDigit v)
    (h' : IsLead kw' seps') (hv' : AtDigit v')
    (heq : kw ++ seps ++ v = kw' ++ seps' ++ v') : kw = kw' ∧ seps = seps' ∧ v = v' := by
  have hkw : kw = kw' := by
    rw [← h.takeWhile v, heq, h'.takeWhile]
  subst hkw
  rw [List.append_assoc, List.append_assoc, List.append_cancel_left_eq] at heq
  have hseps : seps = seps' := by
    rw [← takeWhile_sep h.sep hv, heq, takeWhile_sep h'.sep hv']
  subst hseps
  exact ⟨rfl, rfl, List.append_cancel_left heq⟩

/-- **The matches of `TOKEN_RE`.** -/
theorem first_eq_some_iff {s : List Ascii} {p : List Ascii × List Ascii} :
    tokenRe.first s = some p ↔ ∃ kw seps v, IsLead kw seps ∧ AtDigit v ∧ s = kw ++ seps ++ v ∧
      p = (v.takeWhile isDigit, v.dropWhile isDigit) := by
  have hdecomp : ∀ {s p}, tokenRe.first s = some p → ∃ kw seps v, IsLead kw seps ∧ AtDigit v ∧
      s = kw ++ seps ++ v ∧ p = (v.takeWhile isDigit, v.dropWhile isDigit) := by
    intro s p h
    obtain ⟨m, v, hm, rfl, hv, rfl⟩ := Regex.Pattern.first_eq_some h
    obtain ⟨kw, seps, hlead, rfl⟩ := spells_lead.mp hm
    exact ⟨kw, seps, v, hlead, hv, rfl, rfl⟩
  refine ⟨hdecomp, ?_⟩
  rintro ⟨kw, seps, v, hlead, hv, rfl, rfl⟩
  have hm : tokenRe.lead.Spells (kw ++ seps) := spells_lead.mpr ⟨kw, seps, hlead, rfl⟩
  obtain ⟨p, hp⟩ := Option.ne_none_iff_exists'.mp (Regex.Pattern.first_ne_none hm hv)
  obtain ⟨kw', seps', v', hlead', hv', heq, rfl⟩ := hdecomp hp
  obtain ⟨-, -, rfl⟩ := lead_unique hlead hv hlead' hv' heq
  exact hp

/-- No keyword begins inside a keyword, nor at a separator or a digit. -/
theorem separate : tokenRe.Separate := by
  intro s p hp k hpos hk
  obtain ⟨kw, seps, v, hlead, hv, rfl, rfl⟩ := first_eq_some_iff.mp hp
  by_contra hne
  obtain ⟨p', hp'⟩ := Option.ne_none_iff_exists'.mp hne
  obtain ⟨kw', seps', v', hlead', -, heq, -⟩ := first_eq_some_iff.mp hp'
  by_cases hin : k < kw.length
  · -- The rest of a keyword is no keyword.
    have hkw' : kw' = kw.drop k := by
      rw [← hlead'.takeWhile v', ← heq, List.append_assoc, List.drop_append_of_le_length hin.le,
        ← List.append_assoc]
      exact takeWhile_not_sep
        (fun c hc => (not_sep_of_keyword hlead.keyword c (List.mem_of_mem_drop hc)).1)
        hlead.ne_nil hlead.sep
    have hdrop : ∀ word ∈ keywords, ∀ k < word.length, 0 < k → word.drop k ∉ keywords := by
      decide
    refine hdrop _ hlead.keyword k (by rwa [List.length_map]) hpos ?_
    rw [← List.map_drop, ← hkw']
    exact hlead'.keyword
  · -- A keyword does not begin with a separator or a digit.
    have hsplit : kw ++ seps ++ v =
        kw ++ ((seps ++ v.takeWhile isDigit) ++ v.dropWhile isDigit) := by
      rw [List.append_assoc, List.append_assoc, List.takeWhile_append_dropWhile]
    rw [hsplit] at heq hk
    rw [List.drop_append, List.drop_eq_nil_of_le (not_lt.mp hin), List.nil_append] at heq
    have hlt : k - kw.length < (seps ++ v.takeWhile isDigit).length := by
      simp only [List.length_append] at hk ⊢
      omega
    rw [List.drop_append_of_le_length hlt.le, List.drop_eq_getElem_cons hlt] at heq
    set c := (seps ++ v.takeWhile isDigit)[k - kw.length] with hc
    have hmem : c ∈ seps ++ v.takeWhile isDigit := List.getElem_mem hlt
    have hne' : kw' ≠ [] := by
      have hnil : ([] : List Ascii) ∉ keywords := by decide
      rintro rfl
      exact hnil hlead'.keyword
    obtain ⟨x, kw', rfl⟩ := List.exists_cons_of_ne_nil hne'
    have hx := not_sep_of_keyword hlead'.keyword x List.mem_cons_self
    obtain rfl : c = x := (List.cons.inj heq).1
    obtain hmem | hmem := List.mem_append.mp hmem
    · exact Bool.false_ne_true (hx.1.symm.trans (hlead.sep c hmem))
    · exact Bool.false_ne_true (hx.2.symm.trans (List.mem_takeWhile_imp hmem))

/-! ### Texts cut short -/

theorem int_append (a b : List Ascii) : int (a ++ b) = int a * 10 ^ b.length + int b := by
  have key : ∀ (b : List Ascii) (n : ℕ), b.foldl (fun n d => 10 * n + (d.val - 48)) n =
      n * 10 ^ b.length + int b := by
    intro b
    induction b with
    | nil =>
      intro n
      simp [int]
    | cons d b ih =>
      intro n
      have hcons : int (d :: b) = (10 * 0 + (d.val - 48)) * 10 ^ b.length + int b := ih _
      rw [List.foldl_cons, ih, hcons, List.length_cons, pow_succ]
      ring
  rw [int, List.foldl_append, key]
  rfl

/-- Nothing is taken from the front of a text exactly where nothing is dropped. -/
theorem takeWhile_eq_nil_iff {q : Ascii → Bool} {u : List Ascii} :
    u.takeWhile q = [] ↔ u.length ≤ (u.dropWhile q).length := by
  have hsplit := congrArg List.length (List.takeWhile_append_dropWhile (p := q) (l := u))
  rw [List.length_append] at hsplit
  rw [← List.length_eq_zero_iff]
  omega

/-- What the text after it can add to a match. -/
theorem first_append {t : List Ascii} {p : List Ascii × List Ascii} (h : tokenRe.first t = some p)
    (u : List Ascii) :
    tokenRe.first (t ++ u) = some (p.1, p.2 ++ u) ∨
      p.2 = [] ∧ tokenRe.first (t ++ u) =
        some (p.1 ++ u.takeWhile isDigit, u.dropWhile isDigit) := by
  obtain ⟨kw, seps, v, hlead, ⟨c, hc, hdigit⟩, rfl, rfl⟩ := first_eq_some_iff.mp h
  have hv : AtDigit (v ++ u) := by
    obtain ⟨v, rfl⟩ := List.head?_eq_some_iff.mp hc
    exact ⟨c, rfl, hdigit⟩
  have hfirst := first_eq_some_iff.mpr ⟨kw, seps, v ++ u, hlead, hv, rfl, rfl⟩
  rw [← List.append_assoc] at hfirst
  rw [hfirst]
  by_cases hnil : v.dropWhile isDigit = []
  · have hdigits : ∀ c ∈ v, isDigit c := List.dropWhile_eq_nil_iff.mp hnil
    refine .inr ⟨hnil, ?_⟩
    rw [List.takeWhile_append_of_pos hdigits, List.dropWhile_append_of_pos hdigits,
      List.takeWhile_eq_self_iff.mpr hdigits]
  · refine .inl ?_
    have hlen : (v.takeWhile isDigit).length ≠ v.length := by
      intro hlen
      have hsplit := congrArg List.length (List.takeWhile_append_dropWhile (p := isDigit) (l := v))
      rw [List.length_append, hlen] at hsplit
      exact hnil (List.length_eq_zero_iff.mp (by omega))
    rw [List.takeWhile_append, if_neg hlen, List.dropWhile_append, if_neg (by simpa using hnil)]

/-- A match the text after it does not reach is there without it. -/
theorem first_of_append {t u : List Ascii} {p : List Ascii × List Ascii}
    (h : tokenRe.first (t ++ u) = some p) (hle : u.length ≤ p.2.length) :
    ∃ q, tokenRe.first t = some q ∧ q.1 = p.1 := by
  obtain ⟨kw, seps, v, hlead, ⟨c, hc, hdigit⟩, heq, rfl⟩ := first_eq_some_iff.mp h
  obtain ⟨v, rfl⟩ := List.head?_eq_some_iff.mp hc
  -- The keyword, the separators and the first digit belong to `t`.
  have hpre : kw ++ seps ++ [c] <+: t := by
    have hwhole : kw ++ seps ++ [c] <+: t ++ u := ⟨v, by rw [heq]; simp⟩
    refine List.prefix_of_prefix_length_le hwhole (List.prefix_append ..) ?_
    have hlen := congrArg List.length heq
    have hdrop : ((c :: v).dropWhile isDigit).length ≤ v.length := by
      have hd : isDigit c = true := hdigit
      rw [List.dropWhile_cons_of_pos hd]
      exact (List.dropWhile_suffix _).length_le
    simp only [List.length_append, List.length_cons, List.length_nil] at hle hlen ⊢
    omega
  obtain ⟨w, rfl⟩ := hpre
  have hsome : tokenRe.first (kw ++ seps ++ (c :: w)) ≠ none :=
    Regex.Pattern.first_ne_none (spells_lead.mpr ⟨kw, seps, hlead, rfl⟩) ⟨c, rfl, hdigit⟩
  obtain ⟨q, hq⟩ := Option.ne_none_iff_exists'.mp hsome
  rw [← List.singleton_append, ← List.append_assoc] at hq
  refine ⟨q, hq, ?_⟩
  obtain happ | ⟨-, happ⟩ := first_append hq u
  · have hp := Option.some.inj (happ.symm.trans h)
    exact (Prod.mk.inj hp).1
  · have hp := Option.some.inj (happ.symm.trans h)
    have hnil : u.takeWhile isDigit = [] := by
      rw [← hp] at hle
      exact takeWhile_eq_nil_iff.mpr hle
    have hfst := congrArg Prod.fst hp
    rwa [hnil, List.append_nil] at hfst

theorem worth_le_append (t u : List Ascii) : tokenRe.worth int t ≤ tokenRe.worth int (t ++ u) := by
  unfold Regex.Pattern.worth
  cases ht : tokenRe.first t with
  | none => exact Nat.zero_le _
  | some q =>
    obtain happ | ⟨-, happ⟩ := first_append ht u
    · rw [happ]
      exact le_rfl
    · rw [happ, Option.elim_some, Option.elim_some, int_append]
      have hpow : 0 < 10 ^ (u.takeWhile isDigit).length := by positivity
      exact (Nat.le_mul_of_pos_right _ hpow).trans (Nat.le_add_right _ _)

/-- Only zero is not raised by more digits. -/
theorem int_append_eq_zero {a b : List Ascii} (hne : b ≠ []) (h : int a = int (a ++ b)) :
    int (a ++ b) = 0 := by
  rw [int_append] at h ⊢
  have hpow : 2 ≤ 10 ^ b.length :=
    (by norm_num : 2 ≤ 10 ^ 1).trans
      (Nat.pow_le_pow_right (by norm_num) (List.length_pos_iff.mpr hne))
  have hzero : int a = 0 := by nlinarith
  omega

/-- A cut can only lower the number of a match, and lowers every number but zero. -/
theorem growing : tokenRe.Growing int := by
  refine ⟨worth_le_append, fun t u => ⟨fun heq p hp hcut => ?_, fun h => ?_⟩⟩
  · rw [Regex.Pattern.worth, Regex.Pattern.worth, hp, Option.elim_some] at heq
    cases ht : tokenRe.first t with
    | none =>
      rw [ht, Option.elim_none] at heq
      exact heq.symm
    | some q =>
      rw [ht, Option.elim_some] at heq
      obtain happ | ⟨-, happ⟩ := first_append ht u
      · obtain rfl := Option.some.inj (happ.symm.trans hp)
        rw [List.length_append] at hcut
        omega
      · obtain rfl := Option.some.inj (happ.symm.trans hp)
        -- At least one digit was cut off.
        have hne : u.takeWhile isDigit ≠ [] := fun hnil =>
          absurd (takeWhile_eq_nil_iff.mp hnil) (not_le.mpr hcut)
        exact int_append_eq_zero hne heq
  · by_cases hw : tokenRe.worth int (t ++ u) = 0
    · have hle := worth_le_append t u
      omega
    · unfold Regex.Pattern.worth at hw ⊢
      cases hp : tokenRe.first (t ++ u) with
      | none =>
        rw [hp] at hw
        exact (hw rfl).elim
      | some p =>
        rw [hp, Option.elim_some] at hw
        have hlong : u.length ≤ p.2.length := by
          by_contra hcut
          exact hw (h p hp (not_le.mp hcut))
        obtain ⟨q, hq, heq⟩ := first_of_append hp hlong
        rw [hq, Option.elim_some, Option.elim_some, heq]

end TokenRe

namespace AgentRunner

/-- **The count is that of the whole text exactly if no boundary between chunks
lies inside a match with a number other than zero.** -/
theorem tokens_eq_whole_iff (terminalId : String) (lastOutput lastPush : ℚ)
    (reads : List (List Ascii × RunnerClock)) :
    (readAll TokenRe.numbers terminalId { lastOutput := lastOutput, lastPush := lastPush }
        reads).tokensUsed =
        (TokenRe.numbers (reads.map Prod.fst).flatten).sum ↔
      ∀ m ∈ TokenRe.tokenRe.finditer (reads.map Prod.fst).flatten, TokenRe.int m.group ≠ 0 →
        ¬ Regex.Pattern.Cut (reads.map Prod.fst) m := by
  rw [readAll_tokensUsed, Nat.zero_add]
  exact Regex.Pattern.sum_pieces_eq_iff TokenRe.separate TokenRe.growing _

/-- A boundary inside the digits: `tokens: 12` is read first, `34` after it. -/
theorem tokens_cut_short :
    let clock : RunnerClock := { output := 0, check := 0, push := 0, pushed := 0 }
    let chunks := [['t', 'o', 'k', 'e', 'n', 's', ':', ' ', '1', '2'], ['3', '4']].map
      (List.map TokenRe.chr)
    (readAll TokenRe.numbers "m-t0" { lastOutput := 0, lastPush := 0 }
        (chunks.map fun chunk => (chunk, clock))).tokensUsed ≠
      (TokenRe.numbers chunks.flatten).sum := by
  intro clock chunks
  rw [readAll_tokensUsed, List.map_map]
  decide

end AgentRunner
