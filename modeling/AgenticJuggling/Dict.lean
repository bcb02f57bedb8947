/-
Dictionaries as partial functions.

`Dict κ α` is read by application; `set` and `pop` are the two updates.  The
simp lemmas compute a lookup after an update, so that proofs about tables
never unfold the updates themselves.
-/
import Mathlib

/-- A dictionary: the keys without an entry are mapped to `none`. -/
abbrev Dict (κ α : Type) := κ → Option α

namespace Dict

variable {κ α : Type}

/-- The dictionary without entries. -/
def empty : Dict κ α := fun _ => none

@[simp] theorem empty_apply (k : κ) : (empty : Dict κ α) k = none := rfl

variable [DecidableEq κ]

/-- `d[k] = v`. -/
def set (d : Dict κ α) (k : κ) (v : α) : Dict κ α := Function.update d k (some v)

/-- `d.pop(k, None)`. -/
def pop (d : Dict κ α) (k : κ) : Dict κ α := Function.update d k none

@[simp] theorem set_self (d : Dict κ α) (k : κ) (v : α) : d.set k v k = some v :=
  Function.update_self ..

@[simp] theorem set_of_ne (d : Dict κ α) {k k' : κ} (h : k' ≠ k) (v : α) :
    d.set k v k' = d k' :=
  Function.update_of_ne h ..

@[simp] theorem pop_self (d : Dict κ α) (k : κ) : d.pop k k = none :=
  Function.update_self ..

@[simp] theorem pop_of_ne (d : Dict κ α) {k k' : κ} (h : k' ≠ k) : d.pop k k' = d k' :=
  Function.update_of_ne h ..

theorem set_apply (d : Dict κ α) (k k' : κ) (v : α) :
    d.set k v k' = if k' = k then some v else d k' :=
  Function.update_apply ..

theorem pop_apply (d : Dict κ α) (k k' : κ) :
    d.pop k k' = if k' = k then none else d k' :=
  Function.update_apply ..

theorem pop_eq_some {d : Dict κ α} {k k' : κ} {v : α} :
    d.pop k k' = some v ↔ k' ≠ k ∧ d k' = some v := by
  rw [pop_apply]
  by_cases h : k' = k
  · simp [h]
  · simp [h]

/-- The table `d` with the entry of `k` replaced by what `f` makes of it. -/
def modify (d : Dict κ α) (k : κ) (f : α → α) : Dict κ α :=
  match d k with
  | none => d
  | some v => d.set k (f v)

theorem modify_apply (d : Dict κ α) (k k' : κ) (f : α → α) :
    d.modify k f k' = if k' = k then (d k).map f else d k' := by
  rw [modify]
  cases h : d k with
  | none =>
    by_cases hk : k' = k
    · simp [hk, h]
    · simp [hk]
  | some v => simp [set_apply]

@[simp] theorem modify_of_ne (d : Dict κ α) {k k' : κ} (h : k' ≠ k) (f : α → α) :
    d.modify k f k' = d k' := by
  rw [modify_apply, if_neg h]

@[simp] theorem modify_self (d : Dict κ α) (k : κ) (f : α → α) :
    d.modify k f k = (d k).map f := by
  rw [modify_apply, if_pos rfl]

end Dict
