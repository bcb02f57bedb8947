/-
Dictionaries that keep the order of insertion.

Setting a key that has an entry replaces the value in place; a new key goes
behind all others.

* `OrderedDict.keys_set_of_mem`, `OrderedDict.keys_pop_of_notMem` — the updates
  that leave the keys alone;
* `OrderedDict.lookup_set`, `OrderedDict.lookup_pop` — a lookup after an update.
-/
import Mathlib

/-- Entries with distinct keys, in the order of insertion. -/
abbrev OrderedDict (κ α : Type) := AList fun _ : κ => α

namespace OrderedDict

variable {κ α : Type}

theorem nodupKeys_append_singleton {entries : List (Sigma fun _ : κ => α)} {k : κ}
    (h : entries.NodupKeys) (hk : k ∉ entries.keys) (v : α) :
    List.NodupKeys (entries ++ [⟨k, v⟩]) := by
  rw [List.NodupKeys, List.keys, List.map_append, List.map_singleton]
  exact List.nodup_append_comm.mp (List.nodup_cons.mpr ⟨hk, h⟩)

variable [DecidableEq κ]

/-- `d[k] = v`. -/
def set (d : OrderedDict κ α) (k : κ) (v : α) : OrderedDict κ α :=
  if h : k ∈ d then d.replace k v
  else ⟨d.entries ++ [⟨k, v⟩], nodupKeys_append_singleton d.nodupKeys h v⟩

/-- `d.pop(k, None)`. -/
def pop (d : OrderedDict κ α) (k : κ) : OrderedDict κ α := d.erase k

theorem keys_set_of_mem {d : OrderedDict κ α} {k : κ} (h : k ∈ d) (v : α) :
    (d.set k v).keys = d.keys := by
  rw [set, dif_pos h, AList.keys_replace]

theorem keys_pop_of_notMem {d : OrderedDict κ α} {k : κ} (h : k ∉ d) :
    (d.pop k).keys = d.keys := by
  rw [pop, AList.keys_erase]
  exact List.erase_of_not_mem h

theorem dlookup_kreplace (entries : List (Sigma fun _ : κ => α)) {k : κ} (k' : κ) (v : α)
    (h : k ∈ entries.keys) :
    List.dlookup k' (List.kreplace k v entries) =
      if k' = k then some v else List.dlookup k' entries := by
  induction entries with
  | nil => exact absurd h List.not_mem_nil
  | cons entry entries ih =>
    obtain ⟨k₀, v₀⟩ := entry
    by_cases hk : k = k₀
    · subst hk
      have hreplace : List.kreplace k v (⟨k, v₀⟩ :: entries) = ⟨k, v⟩ :: entries :=
        List.lookmap_cons_some _ _ (by rw [if_pos rfl])
      rw [hreplace]
      by_cases hk' : k' = k
      · subst hk'
        rw [if_pos rfl, List.dlookup_cons_eq]
      · rw [if_neg hk', List.dlookup_cons_ne _ _ hk', List.dlookup_cons_ne _ _ hk']
    · have hreplace : List.kreplace k v (⟨k₀, v₀⟩ :: entries) =
          ⟨k₀, v₀⟩ :: List.kreplace k v entries :=
        List.lookmap_cons_none _ _ (by rw [if_neg hk])
      rw [hreplace]
      have hmem : k ∈ entries.keys := (List.mem_cons.mp h).resolve_left hk
      by_cases hk' : k' = k₀
      · subst hk'
        rw [if_neg (Ne.symm hk), List.dlookup_cons_eq, List.dlookup_cons_eq]
      · rw [List.dlookup_cons_ne _ _ hk', List.dlookup_cons_ne _ _ hk']
        exact ih hmem

theorem lookup_set (d : OrderedDict κ α) (k k' : κ) (v : α) :
    (d.set k v).lookup k' = if k' = k then some v else d.lookup k' := by
  rw [set]
  by_cases h : k ∈ d
  · rw [dif_pos h]
    exact dlookup_kreplace d.entries k' v h
  · rw [dif_neg h, AList.lookup, List.dlookup_append]
    by_cases hk : k' = k
    · subst hk
      rw [if_pos rfl, List.dlookup_cons_eq, List.dlookup_eq_none.mpr h, Option.none_or]
    · rw [if_neg hk, List.dlookup_cons_ne _ _ hk, List.dlookup_nil, Option.or_none]
      rfl

theorem lookup_pop (d : OrderedDict κ α) (k k' : κ) :
    (d.pop k).lookup k' = if k' = k then none else d.lookup k' := by
  by_cases h : k' = k
  · rw [if_pos h, h]
    exact AList.lookup_erase k d
  · rw [if_neg h]
    exact AList.lookup_erase_ne h

end OrderedDict
