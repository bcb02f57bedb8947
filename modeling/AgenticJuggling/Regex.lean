/-
Backtracking regular expressions with one group at the end, and texts that are
matched piece by piece.

`ends` lists the ways an expression can match the beginning of a text in the
order a backtracking engine tries them; a pattern `lead(class+)` takes the
first one that leaves a run of the class.

* `mem_ends` — the ways found are those of the language of the expression;
* `Pattern.finditer_eq_allMatches` — where no match begins inside another one, a
  scan finds the match at every position;
* `Pattern.sum_pieces_eq_iff` — a weight that a cut can only lower adds up to
  the same over the pieces of a text exactly if the cuts lower no match.
-/
import Mathlib

/-- Expressions over single characters; only classes are repeated. -/
inductive Regex (α : Type*)
  | empty
  | char (p : α → Bool)
  /-- `r?`, greedy. -/
  | opt (r : Regex α)
  /-- `p+`, greedy. -/
  | plus (p : α → Bool)
  | seq (r q : Regex α)
  | alt (r q : Regex α)

namespace Regex

variable {α : Type*}

/-- What `p+` can leave of a text, the longest match first. -/
def plusEnds (p : α → Bool) : List α → List (List α)
  | [] => []
  | c :: s => if p c then plusEnds p s ++ [s] else []

/-- What a match at the beginning of a text can leave of it, in the order of preference. -/
def ends : Regex α → List α → List (List α)
  | empty, s => [s]
  | char _, [] => []
  | char p, c :: s => if p c then [s] else []
  | opt r, s => r.ends s ++ [s]
  | plus p, s => plusEnds p s
  | seq r q, s => (r.ends s).flatMap q.ends
  | alt r q, s => r.ends s ++ q.ends s

/-- A word of characters, one after the other. -/
def word : List (α → Bool) → Regex α
  | [] => empty
  | p :: ps => seq (char p) (word ps)

/-- The language of an expression. -/
def Spells : Regex α → List α → Prop
  | empty, m => m = []
  | char p, m => ∃ c, p c ∧ m = [c]
  | opt r, m => r.Spells m ∨ m = []
  | plus p, m => m ≠ [] ∧ ∀ c ∈ m, p c
  | seq r q, m => ∃ a b, r.Spells a ∧ q.Spells b ∧ m = a ++ b
  | alt r q, m => r.Spells m ∨ q.Spells m

theorem mem_plusEnds {p : α → Bool} {s rest : List α} :
    rest ∈ plusEnds p s ↔ ∃ m, (m ≠ [] ∧ ∀ c ∈ m, p c) ∧ s = m ++ rest := by
  induction s with
  | nil =>
    constructor
    · intro h
      exact (List.not_mem_nil h).elim
    · rintro ⟨m, ⟨hm, -⟩, heq⟩
      exact (hm (List.append_eq_nil_iff.mp heq.symm).1).elim
  | cons c s ih =>
    rw [plusEnds]
    constructor
    · intro h
      split at h
      · next hc =>
        obtain h | h := List.mem_append.mp h
        · obtain ⟨m, ⟨-, hm⟩, rfl⟩ := ih.mp h
          exact ⟨c :: m, ⟨List.cons_ne_nil _ _, List.forall_mem_cons.mpr ⟨hc, hm⟩⟩, rfl⟩
        · rw [List.mem_singleton] at h
          exact ⟨[c], ⟨List.cons_ne_nil _ _, by simpa using hc⟩, by rw [h]; rfl⟩
      · exact (List.not_mem_nil h).elim
    · rintro ⟨m, ⟨hne, hm⟩, heq⟩
      obtain ⟨c', m, rfl⟩ := List.exists_cons_of_ne_nil hne
      obtain ⟨rfl, rfl⟩ := List.cons.inj heq
      obtain ⟨hc, hm⟩ := List.forall_mem_cons.mp hm
      rw [if_pos hc, List.mem_append]
      by_cases hnil : m = []
      · exact .inr (by simp [hnil])
      · exact .inl (ih.mpr ⟨m, ⟨hnil, hm⟩, rfl⟩)

/-- **The engine finds the matches of the language and no others.** -/
theorem mem_ends {r : Regex α} {s rest : List α} :
    rest ∈ r.ends s ↔ ∃ m, r.Spells m ∧ s = m ++ rest := by
  induction r generalizing s rest with
  | empty => simp [ends, Spells, eq_comm]
  | char p =>
    cases s with
    | nil => simp [ends, Spells]
    | cons c s =>
      rw [ends]
      constructor
      · intro h
        split at h
        · next hc => exact ⟨[c], ⟨c, hc, rfl⟩, by rw [List.mem_singleton.mp h]; rfl⟩
        · exact (List.not_mem_nil h).elim
      · rintro ⟨m, ⟨c', hc, rfl⟩, heq⟩
        obtain ⟨rfl, rfl⟩ := List.cons.inj heq
        rw [if_pos hc, List.mem_singleton]
  | opt r ih =>
    rw [ends, List.mem_append, List.mem_singleton, ih]
    constructor
    · rintro (⟨m, hm, heq⟩ | rfl)
      · exact ⟨m, .inl hm, heq⟩
      · exact ⟨[], .inr rfl, rfl⟩
    · rintro ⟨m, hm | rfl, heq⟩
      · exact .inl ⟨m, hm, heq⟩
      · exact .inr heq.symm
  | plus p => exact mem_plusEnds
  | seq r q ihr ihq =>
    rw [ends, List.mem_flatMap]
    constructor
    · rintro ⟨mid, hmid, hrest⟩
      obtain ⟨a, ha, rfl⟩ := ihr.mp hmid
      obtain ⟨b, hb, rfl⟩ := ihq.mp hrest
      exact ⟨a ++ b, ⟨a, b, ha, hb, rfl⟩, (List.append_assoc ..).symm⟩
    · rintro ⟨m, ⟨a, b, ha, hb, rfl⟩, rfl⟩
      exact ⟨b ++ rest, ihr.mpr ⟨a, ha, List.append_assoc ..⟩, ihq.mpr ⟨b, hb, rfl⟩⟩
  | alt r q ihr ihq =>
    rw [ends, List.mem_append, ihr, ihq]
    simp only [Spells, or_and_right, exists_or]

/-- A greedy run is as long as it can be. -/
theorem plusEnds_head {p : α → Bool} {s rest : List α} (h : (plusEnds p s).head? = some rest) :
    rest = s.dropWhile p := by
  induction s with
  | nil => cases h
  | cons c s ih =>
    rw [plusEnds] at h
    split at h
    · next hc =>
      rw [List.dropWhile_cons_of_pos hc]
      rw [List.head?_append] at h
      cases hs : (plusEnds p s).head? with
      | some rest' =>
        rw [hs, Option.some_or] at h
        exact ih (hs.trans h)
      | none =>
        -- No longer run: the text after the character does not begin with the class.
        rw [hs, Option.none_or, List.head?_cons, Option.some_inj] at h
        subst h
        cases s with
        | nil => rfl
        | cons c' s =>
          rw [List.head?_eq_none_iff, plusEnds] at hs
          split at hs
          · exact (List.append_ne_nil_of_right_ne_nil _ (List.cons_ne_nil _ _) hs).elim
          · next hc' => rw [List.dropWhile_cons_of_neg hc']
    · cases h

/-! ### Patterns with a group -/

/-- `lead(group+)`. -/
structure Pattern (α : Type*) where
  lead : Regex α
  group : α → Bool

/-- A match: where it begins and ends, and the text of its group. -/
structure Match (α : Type*) where
  start : ℕ
  stop : ℕ
  group : List α
  deriving DecidableEq

namespace Pattern

variable (re : Pattern α)

/-- The match at the beginning of a text: its group and what it leaves. -/
def first (s : List α) : Option (List α × List α) :=
  ((re.lead.ends s).flatMap fun mid =>
    (plusEnds re.group mid).map fun rest => (mid.take (mid.length - rest.length), rest)).head?

/-- The matches from position `pos` on, where the next `skip` characters belong
to the match before. -/
def scan : (pos skip : ℕ) → List α → List (Match α)
  | _, _, [] => []
  | pos, skip + 1, _ :: s => scan (pos + 1) skip s
  | pos, 0, c :: s =>
    match re.first (c :: s) with
    | none => scan (pos + 1) 0 s
    | some (group, rest) =>
      { start := pos, stop := pos + ((c :: s).length - rest.length), group := group } ::
        scan (pos + 1) (s.length - rest.length) s

def finditer (s : List α) : List (Match α) := re.scan 0 0 s

variable {re}

theorem first_eq_some {s : List α} {p : List α × List α} (h : re.first s = some p) :
    ∃ m v, re.lead.Spells m ∧ s = m ++ v ∧ (∃ c ∈ v.head?, re.group c) ∧
      p = (v.takeWhile re.group, v.dropWhile re.group) := by
  obtain ⟨mid, hmid, hp⟩ := List.exists_of_findSome?_eq_some (l := re.lead.ends s)
    (f := fun mid => ((plusEnds re.group mid).map fun rest =>
      (mid.take (mid.length - rest.length), rest)).head?) (b := p) (by
        rw [first, List.head?_flatMap] at h
        exact h)
  obtain ⟨m, hm, rfl⟩ := mem_ends.mp hmid
  rw [List.head?_map, Option.map_eq_some_iff] at hp
  obtain ⟨rest, hrest, rfl⟩ := hp
  have hdrop := plusEnds_head hrest
  have hmem : rest ∈ plusEnds re.group mid := List.mem_of_mem_head? hrest
  obtain ⟨run, ⟨hne, hrun⟩, hmid⟩ := mem_plusEnds.mp hmem
  obtain ⟨c, run, rfl⟩ := List.exists_cons_of_ne_nil hne
  refine ⟨m, mid, hm, rfl, ⟨c, by rw [hmid]; rfl, hrun c List.mem_cons_self⟩, ?_⟩
  rw [hdrop]
  congr 1
  have hlen := congrArg List.length (List.takeWhile_append_dropWhile (p := re.group) (l := mid))
  rw [List.length_append] at hlen
  have htake : mid.length - (mid.dropWhile re.group).length = (mid.takeWhile re.group).length := by
    omega
  rw [htake]
  exact (List.prefix_iff_eq_take.mp (List.takeWhile_prefix _)).symm

theorem first_ne_none {m v : List α} (hm : re.lead.Spells m) (hv : ∃ c ∈ v.head?, re.group c) :
    re.first (m ++ v) ≠ none := by
  obtain ⟨c, hc, hgroup⟩ := hv
  rw [first, ne_eq, List.head?_eq_none_iff, List.flatMap_eq_nil_iff]
  intro h
  have hnil := h v (mem_ends.mpr ⟨m, hm, rfl⟩)
  rw [List.map_eq_nil_iff] at hnil
  obtain ⟨c', v, rfl⟩ : ∃ c' v', v = c' :: v' := by
    cases v with
    | nil => cases hc
    | cons c' v => exact ⟨c', v, rfl⟩
  have hmem : v ∈ plusEnds re.group (c' :: v) :=
    mem_plusEnds.mpr ⟨[c'], ⟨List.cons_ne_nil _ _, by
      rw [List.head?_cons, Option.mem_some] at hc
      simpa [hc] using hgroup⟩, rfl⟩
  rw [hnil] at hmem
  exact List.not_mem_nil hmem

/-! ### Matches at every position -/

variable (re)

/-- The match at position `pos`, where the text `s` begins. -/
def matchAt (pos : ℕ) (s : List α) : Option (Match α) :=
  (re.first s).map fun p =>
    { start := pos, stop := pos + (s.length - p.2.length), group := p.1 }

/-- The matches at all positions, overlapping or not. -/
def allMatches : ℕ → List α → List (Match α)
  | _, [] => []
  | pos, c :: s => (re.matchAt pos (c :: s)).toList ++ allMatches (pos + 1) s

/-- No match begins inside another one. -/
def Separate : Prop :=
  ∀ s p, re.first s = some p → ∀ k, 0 < k → k < s.length - p.2.length → re.first (s.drop k) = none

variable {re}

theorem scan_eq_allMatches (hsep : re.Separate) {s : List α} {pos skip : ℕ}
    (h : ∀ k < skip, re.first (s.drop k) = none) : re.scan pos skip s = re.allMatches pos s := by
  induction s generalizing pos skip with
  | nil => rw [scan, allMatches]
  | cons c s ih =>
    rw [allMatches, matchAt]
    cases skip with
    | succ skip =>
      have hnone : re.first (c :: s) = none := h 0 (by omega)
      rw [scan, hnone, Option.map_none, Option.toList_none, List.nil_append]
      exact ih fun k hk => h (k + 1) (by omega)
    | zero =>
      rw [scan]
      cases hfirst : re.first (c :: s) with
      | none =>
        rw [Option.map_none, Option.toList_none, List.nil_append]
        exact ih fun k hk => absurd hk (by omega)
      | some p =>
        obtain ⟨group, rest⟩ := p
        rw [Option.map_some, Option.toList_some, List.singleton_append]
        refine congrArg (List.cons _) (ih fun k hk => ?_)
        exact hsep _ _ hfirst (k + 1) (by omega) (by simp only [List.length_cons]; omega)

/-- **A scan finds the match at every position.** -/
theorem finditer_eq_allMatches (hsep : re.Separate) (s : List α) :
    re.finditer s = re.allMatches 0 s :=
  scan_eq_allMatches hsep fun k hk => absurd hk (by omega)

theorem mem_allMatches {s : List α} {pos : ℕ} {m : Match α} :
    m ∈ re.allMatches pos s ↔ ∃ k < s.length, re.matchAt (pos + k) (s.drop k) = some m := by
  induction s generalizing pos with
  | nil => simp [allMatches]
  | cons c s ih =>
    rw [allMatches, List.mem_append, Option.mem_toList, ih]
    constructor
    · rintro (h | ⟨k, hk, h⟩)
      · exact ⟨0, by simp, h⟩
      · refine ⟨k + 1, by simpa using hk, ?_⟩
        rw [← Nat.add_assoc, Nat.add_right_comm]
        exact h
    · rintro ⟨k, hk, h⟩
      cases k with
      | zero => exact .inl h
      | succ k =>
        refine .inr ⟨k, by simpa using hk, ?_⟩
        rw [Nat.add_right_comm, Nat.add_assoc]
        exact h

/-! ### Texts in pieces -/

variable (re) (w : List α → ℕ)

/-- The weight of the match at the beginning of a text. -/
def worth (s : List α) : ℕ := (re.first s).elim 0 fun p => w p.1

/-- The weights of the matches a scan finds. -/
def total (s : List α) : ℕ := ((re.finditer s).map fun m => w m.group).sum

/-- A piece boundary lies inside the match. -/
def Cut (pieces : List (List α)) (m : Match α) : Prop :=
  ∃ k, m.start < (pieces.take k).flatten.length ∧ (pieces.take k).flatten.length < m.stop

/-- The end of a text lowers the weight of a match it cuts and of no other. -/
structure Growing : Prop where
  le : ∀ t u, re.worth w t ≤ re.worth w (t ++ u)
  eq_iff : ∀ t u, re.worth w t = re.worth w (t ++ u) ↔
    ∀ p, re.first (t ++ u) = some p → p.2.length < u.length → w p.1 = 0

/-- The weights at the positions of `t` in the text `t ++ u`. -/
def worthBefore (u : List α) : List α → ℕ
  | [] => 0
  | c :: t => re.worth w (c :: t ++ u) + worthBefore u t

variable {re w}

theorem total_eq_worthBefore (hsep : re.Separate) (s : List α) :
    re.total w s = re.worthBefore w [] s := by
  have key : ∀ (s : List α) (pos : ℕ),
      ((re.allMatches pos s).map fun m => w m.group).sum = re.worthBefore w [] s := by
    intro s
    induction s with
    | nil => intro pos; rfl
    | cons c s ih =>
      intro pos
      rw [allMatches, List.map_append, List.sum_append, ih, worthBefore, List.append_nil, worth,
        matchAt]
      cases re.first (c :: s) with
      | none => rfl
      | some p => simp
  rw [total, finditer_eq_allMatches hsep, key]

theorem worthBefore_append (t u : List α) :
    re.worthBefore w [] (t ++ u) = re.worthBefore w u t + re.worthBefore w [] u := by
  induction t with
  | nil => rw [List.nil_append, worthBefore, Nat.zero_add]
  | cons c t ih =>
    rw [List.cons_append, worthBefore, worthBefore, ih, List.append_nil, List.cons_append,
      Nat.add_assoc]

theorem worthBefore_le (hw : re.Growing w) (t u : List α) :
    re.worthBefore w [] t ≤ re.worthBefore w u t := by
  induction t with
  | nil => exact le_rfl
  | cons c t ih =>
    rw [worthBefore, worthBefore, List.append_nil]
    exact Nat.add_le_add (hw.le _ _) ih

theorem worthBefore_eq_iff (hw : re.Growing w) (t u : List α) :
    re.worthBefore w [] t = re.worthBefore w u t ↔
      ∀ k < t.length, ∀ p, re.first (t.drop k ++ u) = some p → p.2.length < u.length →
        w p.1 = 0 := by
  induction t with
  | nil => simp [worthBefore]
  | cons c t ih =>
    have hle := hw.le (c :: t) u
    have hle' := worthBefore_le hw t u
    have heq : re.worthBefore w [] (c :: t) = re.worthBefore w u (c :: t) ↔
        re.worth w (c :: t) = re.worth w (c :: t ++ u) ∧
          re.worthBefore w [] t = re.worthBefore w u t := by
      rw [worthBefore, worthBefore, List.append_nil]
      omega
    rw [heq, ih, hw.eq_iff]
    constructor
    · rintro ⟨h0, h⟩ k hk
      cases k with
      | zero => exact h0
      | succ k => exact h k (by simpa using hk)
    · intro h
      exact ⟨h 0 (by simp), fun k hk => h (k + 1) (by simpa using hk)⟩

theorem sum_pieces_le (hsep : re.Separate) (hw : re.Growing w) (pieces : List (List α)) :
    (pieces.map (re.total w)).sum ≤ re.total w pieces.flatten := by
  induction pieces with
  | nil => exact Nat.zero_le _
  | cons t pieces ih =>
    rw [total_eq_worthBefore hsep] at ih
    rw [List.map_cons, List.sum_cons, List.flatten_cons, total_eq_worthBefore hsep,
      total_eq_worthBefore hsep, worthBefore_append]
    exact Nat.add_le_add (worthBefore_le hw _ _) ih

/-- No boundary lies inside a match that weighs anything. -/
def Intact (re : Pattern α) (w : List α → ℕ) (pieces : List (List α)) : Prop :=
  ∀ m ∈ re.allMatches 0 pieces.flatten, w m.group ≠ 0 → ¬ Cut pieces m

theorem intact_iff {pieces : List (List α)} :
    Intact re w pieces ↔ ∀ k < pieces.flatten.length, ∀ p,
      re.first (pieces.flatten.drop k) = some p → w p.1 ≠ 0 → ∀ j,
        k < (pieces.take j).flatten.length →
          k + ((pieces.flatten.drop k).length - p.2.length) ≤ (pieces.take j).flatten.length := by
  constructor
  · intro h k hk p hp hne j hstart
    have hmatch : re.matchAt (0 + k) (pieces.flatten.drop k) = some
        ⟨0 + k, 0 + k + ((pieces.flatten.drop k).length - p.2.length), p.1⟩ := by
      rw [matchAt, hp, Option.map_some]
    have hmem := mem_allMatches.mpr ⟨k, hk, hmatch⟩
    by_contra hstop
    exact h _ hmem hne ⟨j, by simpa using hstart, by simpa using hstop⟩
  · intro h m hm hne hcut
    obtain ⟨k, hk, hmatch⟩ := mem_allMatches.mp hm
    obtain ⟨p, hp, rfl⟩ := Option.map_eq_some_iff.mp hmatch
    obtain ⟨j, hstart, hstop⟩ := hcut
    have hle := h k hk p hp hne j (by simpa using hstart)
    simp only [Nat.zero_add] at hstop
    omega

/-- The matches of a longer text are cut at the end of its first piece, or lie
in the other pieces and are cut there. -/
theorem intact_cons (t : List α) (pieces : List (List α)) :
    Intact re w (t :: pieces) ↔
      (∀ k < t.length, ∀ p, re.first (t.drop k ++ pieces.flatten) = some p →
        p.2.length < pieces.flatten.length → w p.1 = 0) ∧ Intact re w pieces := by
  have hdrop : ∀ k, (t ++ pieces.flatten).drop (t.length + k) = pieces.flatten.drop k := by
    intro k
    rw [List.drop_append, List.drop_eq_nil_of_le (by omega), List.nil_append,
      Nat.add_sub_cancel_left]
  rw [intact_iff, intact_iff, List.flatten_cons]
  constructor
  · intro h
    refine ⟨fun k hk p hp hlt => ?_, fun k hk p hp hne j hstart => ?_⟩
    · by_contra hne
      rw [← List.drop_append_of_le_length hk.le] at hp
      have hle := h k (by rw [List.length_append]; omega) p hp hne 1 (by simpa using hk)
      simp only [List.take_succ_cons, List.take_zero, List.flatten_cons, List.flatten_nil,
        List.append_nil, List.length_append, List.length_drop] at hle
      omega
    · have hle := h (t.length + k) (by rw [List.length_append]; omega) p (by rwa [hdrop]) hne
        (j + 1) (by simpa using hstart)
      simp only [List.take_succ_cons, List.flatten_cons, List.length_append, hdrop] at hle
      omega
  · rintro ⟨hfirst, hrest⟩ k hk p hp hne j hstart
    cases j with
    | zero => simp at hstart
    | succ j =>
      rw [List.take_succ_cons, List.flatten_cons, List.length_append] at hstart ⊢
      by_cases hkt : k < t.length
      · rw [List.drop_append_of_le_length hkt.le] at hp ⊢
        -- A match that begins in the first piece and weighs something ends there.
        have hle : pieces.flatten.length ≤ p.2.length := by
          by_contra hlt
          exact hne (hfirst k hkt p hp (not_le.mp hlt))
        rw [List.length_append, List.length_drop]
        omega
      · obtain ⟨k, rfl⟩ := Nat.exists_eq_add_of_le (not_lt.mp hkt)
        rw [hdrop] at hp ⊢
        rw [List.length_append] at hk
        have hle := hrest k (by omega) p hp hne j (by omega)
        omega

/-- **The pieces weigh as much as the whole text exactly if no boundary lies
inside a match that weighs anything.** -/
theorem sum_pieces_eq_iff (hsep : re.Separate) (hw : re.Growing w) (pieces : List (List α)) :
    (pieces.map (re.total w)).sum = re.total w pieces.flatten ↔
      ∀ m ∈ re.finditer pieces.flatten, w m.group ≠ 0 → ¬ Cut pieces m := by
  rw [finditer_eq_allMatches hsep]
  change _ ↔ Intact re w pieces
  induction pieces with
  | nil =>
    refine iff_of_true rfl fun m hm => ?_
    exact (List.not_mem_nil hm).elim
  | cons t pieces ih =>
    have hle := worthBefore_le hw t pieces.flatten
    have hle' := sum_pieces_le hsep hw pieces
    rw [intact_cons, ← worthBefore_eq_iff hw, ← ih]
    rw [total_eq_worthBefore hsep] at hle' ⊢
    rw [total_eq_worthBefore hsep, List.map_cons, List.sum_cons, List.flatten_cons,
      total_eq_worthBefore hsep, worthBefore_append]
    omega

end Pattern

end Regex
