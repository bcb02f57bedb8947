/-
Queries in line on a table that only grows.

A query reads a part of the table when it begins and the rest when it ends.
Queries wait in line between the two, so they end in the order in which they
began; some of them are abandoned.

* `Move.ordered` — along a line, the tables at the beginnings and at the ends of
  the queries grow;
* `Ordered.rows_sublist` — whatever a query makes of the rows added while it
  waits, as long as a later one makes no less of them, no query selects a row
  that a later one misses.
-/
import Mathlib

structure QueryLine (ρ : Type*) where
  rows : List ρ
  /-- The table at the beginning and at the end of a query, in the order of the ends. -/
  ended : List (List ρ × List ρ)
  /-- The table at the beginning of a query, in the order of the line. -/
  begun : List (List ρ)

/-- What a query selects of a table it saw growing from one list of rows to another. -/
structure Selection (ρ : Type*) where
  rows : List ρ → List ρ → List ρ
  mono : ∀ {b e b' e' : List ρ}, b <+: e → b' <+: e' → b <+: b' → e <+: e' →
    (rows b e).Sublist (rows b' e')

namespace QueryLine

variable {ρ : Type*} {L L' : QueryLine ρ}

inductive Move (L : QueryLine ρ) : QueryLine ρ → Prop
  | insert (row : ρ) : Move L { L with rows := L.rows ++ [row] }
  | begins : Move L { L with begun := L.begun ++ [L.rows] }
  | ends (b : List ρ) (begun : List (List ρ)) (h : L.begun = b :: begun) :
    Move L { L with ended := L.ended ++ [(b, L.rows)], begun := begun }
  | abandoned (ended : List (List ρ × List ρ)) (begun : List (List ρ))
    (hended : ended.Sublist L.ended) (hbegun : begun.Sublist L.begun) :
    Move L { L with ended := ended, begun := begun }

/-- The table grows along the line. -/
structure Ordered (L : QueryLine ρ) : Prop where
  ended : L.ended.Pairwise fun p q => p.1 <+: q.1 ∧ p.2 <+: q.2
  ended_rows : ∀ p ∈ L.ended, p.1 <+: p.2 ∧ p.2 <+: L.rows
  begun : L.begun.Pairwise (· <+: ·)
  begun_rows : ∀ b ∈ L.begun, b <+: L.rows
  ended_begun : ∀ p ∈ L.ended, ∀ b ∈ L.begun, p.1 <+: b

theorem Ordered.empty (rows : List ρ) : Ordered { rows := rows, ended := [], begun := [] } where
  ended := List.Pairwise.nil
  ended_rows _ h := (List.not_mem_nil h).elim
  begun := List.Pairwise.nil
  begun_rows _ h := (List.not_mem_nil h).elim
  ended_begun _ h := (List.not_mem_nil h).elim

/-- **The order of the line is kept by every move.** -/
theorem Move.ordered (h : Move L L') (hL : L.Ordered) : L'.Ordered := by
  cases h with
  | insert row =>
    have hgrow : L.rows <+: L.rows ++ [row] := List.prefix_append ..
    exact
      { ended := hL.ended
        ended_rows := fun p hp => ⟨(hL.ended_rows p hp).1, (hL.ended_rows p hp).2.trans hgrow⟩
        begun := hL.begun
        begun_rows := fun b hb => (hL.begun_rows b hb).trans hgrow
        ended_begun := hL.ended_begun }
  | begins =>
    refine
      { ended := hL.ended
        ended_rows := hL.ended_rows
        begun := List.pairwise_append.mpr ⟨hL.begun, List.pairwise_singleton .., ?_⟩
        begun_rows := ?_
        ended_begun := ?_ }
    · intro b hb b' hb'
      rw [List.mem_singleton.mp hb']
      exact hL.begun_rows b hb
    · intro b hb
      obtain hb | hb := List.mem_append.mp hb
      · exact hL.begun_rows b hb
      · rw [List.mem_singleton.mp hb]
    · intro p hp b hb
      obtain hb | hb := List.mem_append.mp hb
      · exact hL.ended_begun p hp b hb
      · rw [List.mem_singleton.mp hb]
        exact (hL.ended_rows p hp).1.trans (hL.ended_rows p hp).2
  | ends b begun heq =>
    -- The query that ends is the one that began first, so it read no later than the rest.
    have hfirst : b ∈ L.begun := heq ▸ List.mem_cons_self
    have hpairwise := hL.begun
    rw [heq, List.pairwise_cons] at hpairwise
    refine
      { ended := List.pairwise_append.mpr ⟨hL.ended, List.pairwise_singleton .., ?_⟩
        ended_rows := ?_
        begun := hpairwise.2
        begun_rows := fun b' hb' => hL.begun_rows b' (heq ▸ List.mem_cons_of_mem b hb')
        ended_begun := ?_ }
    · intro p hp q hq
      rw [List.mem_singleton.mp hq]
      exact ⟨hL.ended_begun p hp b hfirst, (hL.ended_rows p hp).2⟩
    · intro p hp
      obtain hp | hp := List.mem_append.mp hp
      · exact hL.ended_rows p hp
      · rw [List.mem_singleton.mp hp]
        exact ⟨hL.begun_rows b hfirst, List.prefix_rfl⟩
    · intro p hp b' hb'
      obtain hp | hp := List.mem_append.mp hp
      · exact hL.ended_begun p hp b' (heq ▸ List.mem_cons_of_mem b hb')
      · rw [List.mem_singleton.mp hp]
        exact hpairwise.1 b' hb'
  | abandoned ended begun hended hbegun =>
    exact
      { ended := hL.ended.sublist hended
        ended_rows := fun p hp => hL.ended_rows p (hended.subset hp)
        begun := hL.begun.sublist hbegun
        begun_rows := fun b hb => hL.begun_rows b (hbegun.subset hb)
        ended_begun := fun p hp b hb => hL.ended_begun p (hended.subset hp) b (hbegun.subset hb) }

/-- **No query selects a row that a later one misses.** -/
theorem Ordered.rows_sublist (hL : L.Ordered) :
    L.ended.Pairwise fun p q => ∀ Q : Selection ρ, (Q.rows p.1 p.2).Sublist (Q.rows q.1 q.2) := by
  refine hL.ended.imp_of_mem fun {p q} hp hq h Q => ?_
  exact Q.mono (hL.ended_rows p hp).1 (hL.ended_rows q hq).1 h.1 h.2

end QueryLine
