import Mathlib.Tactic

/-!
# Ordered maps as lists of entries

Facts about the ordered maps of the standard library that the codecs and the stores share: a map is
rebuilt by inserting its entries in any order and has the entries that it is built from, lookups are
decided by equality of keys, later changes at a key hide earlier ones, and a map with fewer keys is
smaller.
-/

open Std (ExtTreeMap TransCmp LawfulEqCmp)

namespace NervesP2P

variable {κ ν : Type} {cmp : κ → κ → Ordering} [TransCmp cmp] [LawfulEqCmp cmp]

/-- Inserting the entries of a map into the empty map, in any order, gives the map back. -/
theorem insertMany_of_perm_toList {m : ExtTreeMap κ ν cmp} {l : List (κ × ν)}
    (h : l.Perm m.toList) : (∅ : ExtTreeMap κ ν cmp).insertMany l = m := by
  classical
  have hdistinct : l.Pairwise fun a b ↦ ¬cmp a.1 b.1 = .eq := by
    refine (h.pairwise_iff ?_).mpr ExtTreeMap.distinct_keys_toList
    intro a b hab
    rwa [Std.OrientedCmp.eq_comm]
  have hmem : ∀ k v, (k, v) ∈ l ↔ m[k]? = some v := by
    intro k v
    rw [h.mem_iff]
    exact ExtTreeMap.mem_toList_iff_getElem?_eq_some
  refine ExtTreeMap.ext_getElem? fun k ↦ ?_
  cases hk : m[k]? with
  | some v =>
    exact ExtTreeMap.getElem?_insertMany_list_of_mem Std.ReflCmp.compare_self hdistinct
      ((hmem k v).mpr hk)
  | none =>
    have hno : (l.map Prod.fst).contains k = false := by
      rw [List.contains_eq_mem, decide_eq_false_iff_not, List.mem_map]
      rintro ⟨⟨k', v⟩, hl, rfl⟩
      rw [(hmem k' v).mp hl] at hk
      cases hk
    rw [ExtTreeMap.getElem?_insertMany_list_of_contains_eq_false hno]
    exact ExtTreeMap.getElem?_empty

omit [LawfulEqCmp cmp] in
theorem getElem?_empty_ne_some (k : κ) (v : ν) : (∅ : ExtTreeMap κ ν cmp)[k]? ≠ some v := by
  rw [ExtTreeMap.getElem?_empty]
  exact (Option.some_ne_none v).symm

/-- A map built from entries with different keys has these entries. -/
theorem toList_insertMany_perm {l : List (κ × ν)} (h : (l.map Prod.fst).Nodup) :
    ((∅ : ExtTreeMap κ ν cmp).insertMany l).toList.Perm l := by
  classical
  have hdistinct : l.Pairwise fun a b ↦ ¬cmp a.1 b.1 = .eq := by
    refine (List.pairwise_map.mp h).imp fun hne heq ↦ hne ?_
    exact Std.LawfulEqCmp.eq_of_compare heq
  have hnodup : ((∅ : ExtTreeMap κ ν cmp).insertMany l).toList.Nodup := by
    refine ExtTreeMap.distinct_keys_toList.imp fun hne heq ↦ hne ?_
    rw [heq]
    exact Std.ReflCmp.compare_self
  refine (List.perm_ext_iff_of_nodup hnodup (List.Nodup.of_map _ h)).mpr fun entry ↦ ?_
  obtain ⟨k, v⟩ := entry
  rw [ExtTreeMap.mem_toList_iff_getElem?_eq_some]
  constructor
  · intro hmem
    by_cases hk : k ∈ l.map Prod.fst
    · obtain ⟨⟨k', v'⟩, hmem', rfl⟩ := List.mem_map.mp hk
      rw [ExtTreeMap.getElem?_insertMany_list_of_mem Std.ReflCmp.compare_self hdistinct hmem']
        at hmem
      obtain rfl := Option.some.inj hmem
      exact hmem'
    · rw [ExtTreeMap.getElem?_insertMany_list_of_contains_eq_false (by simpa using hk)] at hmem
      exact absurd hmem (getElem?_empty_ne_some k v)
  · intro hmem
    exact ExtTreeMap.getElem?_insertMany_list_of_mem Std.ReflCmp.compare_self hdistinct hmem

section Lookup

variable [DecidableEq κ] (m : ExtTreeMap κ ν cmp) (k a : κ) (v : ν)

theorem getElem?_insert_eq : (m.insert k v)[a]? = if k = a then some v else m[a]? := by
  rw [ExtTreeMap.getElem?_insert]
  by_cases h : k = a <;> simp [h]

theorem getElem?_erase_eq : (m.erase k)[a]? = if k = a then none else m[a]? := by
  rw [ExtTreeMap.getElem?_erase]
  by_cases h : k = a <;> simp [h]

/-- A map after a value that depends on the key is inserted at some keys. -/
theorem getElem?_insertMany_keys (keys : List κ) (f : κ → ν) :
    (m.insertMany (keys.map fun key ↦ (key, f key)))[a]?
      = if a ∈ keys then some (f a) else m[a]? := by
  induction keys generalizing m with
  | nil => simp
  | cons key keys ih =>
    rw [List.map_cons, ExtTreeMap.insertMany_cons, ih, getElem?_insert_eq]
    by_cases hkeys : a ∈ keys
    · simp [hkeys]
    · by_cases hkey : key = a
      · simp [hkey]
      · simp [hkeys, hkey, Ne.symm hkey]

end Lookup

/-- The last value inserted at a key is the one that counts. -/
theorem insert_insert_self (m : ExtTreeMap κ ν cmp) (k : κ) (v w : ν) :
    (m.insert k v).insert k w = m.insert k w := by
  refine ExtTreeMap.ext_getElem? fun k' ↦ ?_
  simp only [ExtTreeMap.getElem?_insert]
  split <;> rfl

/-- A map whose keys are among those of another one is not larger. -/
theorem size_le_size_of_isSome {ν' : Type} {m : ExtTreeMap κ ν cmp} {m' : ExtTreeMap κ ν' cmp}
    (h : ∀ k : κ, m[k]?.isSome = true → m'[k]?.isSome = true) : m.size ≤ m'.size := by
  have hsubset : m.keys ⊆ m'.keys := by
    intro k hk
    rw [ExtTreeMap.mem_keys, ExtTreeMap.mem_iff_isSome_getElem?] at hk ⊢
    exact h k hk
  rw [← ExtTreeMap.length_keys (t := m), ← ExtTreeMap.length_keys (t := m')]
  exact (List.subperm_of_subset ExtTreeMap.nodup_keys hsubset).length_le

end NervesP2P
