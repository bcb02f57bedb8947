/-
Iterating over a collection that can change between two steps.

The iterator of a live set or dictionary raises when the size has changed since
the iteration began.  Where the collection has changed and its size has not,
the order of what follows is not specified; the iterator of a dictionary may raise
there too, when it finds more keys than there were, which is left out.

* `LiveIter.next_eq_raises` — when a step raises;
* `LiveIter.Follows.next` — an iteration nothing has disturbed visits the members
  in order, each once;
* `LiveIter.exists_filter_eq_singleton` — what such an iteration has done for a member.
-/
import Mathlib

structure LiveIter (α : Type*) where
  size : ℕ
  /-- The members not visited yet. -/
  pending : List α
  /-- A member was added or removed since the iteration began. -/
  disturbed : Bool := false

namespace LiveIter

variable {α : Type*}

inductive Next (α : Type*)
  | raises
  | stops
  | yields (x : α) (it : LiveIter α)

/-- The iterator of a collection with these members. -/
def ofMembers (members : List α) : LiveIter α where
  size := members.length
  pending := members

def disturb (it : LiveIter α) : LiveIter α := { it with disturbed := true }

/-- One step, in a collection of `size` members; `choice` is what comes next in
a disturbed iteration. -/
def next (it : LiveIter α) (size : ℕ) (choice : Option α) : Next α :=
  if size ≠ it.size then .raises
  else if it.disturbed then
    match choice with
    | none => .stops
    | some x => .yields x it
  else
    match it.pending with
    | [] => .stops
    | x :: pending => .yields x { it with pending := pending }

theorem next_eq_raises {it : LiveIter α} {size : ℕ} {choice : Option α} :
    it.next size choice = .raises ↔ size ≠ it.size := by
  rw [next.eq_def]
  by_cases hsize : size ≠ it.size
  · rw [if_pos hsize]
    exact iff_of_true rfl hsize
  · rw [if_neg hsize]
    refine iff_of_false ?_ hsize
    by_cases hdisturbed : it.disturbed
    · rw [if_pos hdisturbed]
      cases choice with
      | none => simp
      | some x => simp
    · rw [if_neg hdisturbed]
      cases it.pending with
      | nil => simp
      | cons x pending => simp

/-- An iteration over `members` that nothing has disturbed. -/
structure Follows (members visited : List α) (it : LiveIter α) : Prop where
  size : it.size = members.length
  disturbed : it.disturbed = false
  visited : visited ++ it.pending = members

theorem follows_ofMembers (members : List α) : Follows members [] (ofMembers members) := ⟨rfl, rfl, rfl⟩

/-- **The next member, or the end.** -/
theorem Follows.next {members visited : List α} {it : LiveIter α} (h : Follows members visited it)
    (choice : Option α) :
    (it.next members.length choice = .stops ∧ visited = members) ∨
      ∃ x it', it.next members.length choice = .yields x it' ∧
        Follows members (visited ++ [x]) it' := by
  rw [LiveIter.next.eq_def, if_neg (not_not.mpr h.size.symm), h.disturbed]
  cases hpending : it.pending with
  | nil =>
    have hvisited := h.visited
    rw [hpending, List.append_nil] at hvisited
    exact .inl ⟨rfl, hvisited⟩
  | cons x pending =>
    have hvisited := h.visited
    rw [hpending] at hvisited
    refine .inr ⟨x, { size := it.size, pending := pending }, rfl, h.size, rfl, ?_⟩
    rw [List.append_assoc]
    exact hvisited

/-- In a list whose entries are about distinct members, one entry is about each. -/
theorem exists_filter_eq_singleton {β : Type*} [DecidableEq α] {f : β → α} {l : List β}
    (h : (l.map f).Nodup) {a : α} (ha : a ∈ l.map f) :
    ∃ x ∈ l, f x = a ∧ (l.filter fun y => f y = a) = [x] := by
  induction l with
  | nil => exact absurd ha List.not_mem_nil
  | cons y l ih =>
    rw [List.map_cons, List.nodup_cons] at h
    obtain ⟨hy, hl⟩ := h
    by_cases hya : f y = a
    · -- No later entry is about the same member.
      have hrest : (l.filter fun y => f y = a) = [] := by
        rw [List.filter_eq_nil_iff]
        intro z hz hza
        rw [decide_eq_true_eq, ← hya] at hza
        exact hy (hza ▸ List.mem_map_of_mem hz)
      refine ⟨y, List.mem_cons_self, hya, ?_⟩
      rw [List.filter_cons_of_pos (by simpa using hya), hrest]
    · have ha' : a ∈ l.map f := (List.mem_cons.mp ha).resolve_left (Ne.symm hya)
      obtain ⟨x, hx, hxa, hfilter⟩ := ih hl ha'
      refine ⟨x, List.mem_cons_of_mem y hx, hxa, ?_⟩
      rw [List.filter_cons_of_neg (by simpa using hya), hfilter]

end LiveIter
