import Mathlib

/-!
# Ordered maps and sets

`Std.ExtTreeMap` and `Std.ExtTreeSet` with the comparison of an ordered key
type, read through their lookup functions.  A test for the key is an equation,
because the order is lawful.
-/

namespace Maps

universe u v

variable {κ : Type u} {β : Type v} [Ord κ] [Std.TransOrd κ]

theorem mem_map_iff (map : Std.ExtTreeMap κ β) (id : κ) :
    id ∈ map ↔ ∃ value, map[id]? = some value := by
  rw [Std.ExtTreeMap.mem_iff_isSome_getElem?, Option.isSome_iff_exists]

theorem not_mem_map_iff (map : Std.ExtTreeMap κ β) (id : κ) :
    id ∉ map ↔ map[id]? = none := by
  rw [getElem?_eq_none_iff]

variable [Std.LawfulEqOrd κ]

/-! ## Updates -/

section Updates

variable [DecidableEq κ]

theorem map_insert (map : Std.ExtTreeMap κ β) (id tested : κ)
    (value : β) :
    (map.insert id value)[tested]? =
      if id = tested then some value else map[tested]? := by
  rw [Std.ExtTreeMap.getElem?_insert]
  simp only [Std.LawfulEqOrd.compare_eq_iff_eq]

theorem map_insertIfNew (map : Std.ExtTreeMap κ β) (id tested : κ)
    (value : β) :
    (map.insertIfNew id value)[tested]? =
      if id = tested ∧ map[id]? = none then some value else map[tested]? := by
  rw [Std.ExtTreeMap.getElem?_insertIfNew]
  simp only [Std.LawfulEqOrd.compare_eq_iff_eq, getElem?_eq_none_iff]

theorem map_insertIfNew_self {map : Std.ExtTreeMap κ β} {id : κ}
    (value : β) (absent : map[id]? = none) :
    (map.insertIfNew id value)[id]? = some value := by
  rw [map_insertIfNew, if_pos ⟨rfl, absent⟩]

theorem map_insertIfNew_or (map : Std.ExtTreeMap κ β) (id : κ)
    (value : β) :
    (map.insertIfNew id value)[id]? = map[id]?.or (some value) := by
  rw [map_insertIfNew]
  cases map[id]? with
  | none => simp
  | some kept => simp

theorem map_erase (map : Std.ExtTreeMap κ β) (id tested : κ) :
    (map.erase id)[tested]? = if id = tested then none else map[tested]? := by
  rw [Std.ExtTreeMap.getElem?_erase]
  simp only [Std.LawfulEqOrd.compare_eq_iff_eq]

theorem map_erase_self (map : Std.ExtTreeMap κ β) (id : κ) :
    (map.erase id)[id]? = none := by
  rw [map_erase, if_pos rfl]

end Updates

/-! ## Entries -/

/-- The keys of the entries of a map are pairwise distinct. -/
theorem nodup_map_keys (map : Std.ExtTreeMap κ β) :
    (map.toList.map Prod.fst).Nodup := by
  rw [List.Nodup, List.pairwise_map]
  refine List.Pairwise.imp ?_ Std.ExtTreeMap.distinct_keys_toList
  intro left right different equal
  exact different (Std.LawfulEqOrd.compare_eq_iff_eq.mpr equal)

theorem nodup_set_toList (set : Std.ExtTreeSet κ) : set.toList.Nodup := by
  refine List.Pairwise.imp ?_ Std.ExtTreeSet.distinct_toList
  intro left right different equal
  exact different (Std.LawfulEqOrd.compare_eq_iff_eq.mpr equal)

theorem mem_set_toList (set : Std.ExtTreeSet κ) (id : κ) :
    id ∈ set.toList ↔ id ∈ set :=
  Std.ExtTreeSet.mem_toList

theorem mem_map_toList (map : Std.ExtTreeMap κ β) (id : κ)
    (value : β) :
    (id, value) ∈ map.toList ↔ map[id]? = some value :=
  Std.ExtTreeMap.mem_toList_iff_getElem?_eq_some

theorem map_key_mem_iff (map : Std.ExtTreeMap κ β) (id : κ) :
    id ∈ map.toList.map Prod.fst ↔ map[id]? ≠ none := by
  rw [Std.ExtTreeMap.map_fst_toList_eq_keys, Std.ExtTreeMap.mem_keys,
    mem_map_iff, Option.ne_none_iff_exists']

/-- The entries of a map in some order. -/
theorem perm_toList {map : Std.ExtTreeMap κ β} {entries : List (κ × β)}
    (nodup : (entries.map Prod.fst).Nodup)
    (agree : ∀ id value, (id, value) ∈ entries ↔ map[id]? = some value) :
    map.toList.Perm entries := by
  apply (List.perm_ext_iff_of_nodup (List.Nodup.of_map _ (nodup_map_keys map))
    (List.Nodup.of_map _ nodup)).mpr
  rintro ⟨id, value⟩
  rw [mem_map_toList, agree]

end Maps
