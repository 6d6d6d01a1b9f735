import NervesP2P.Lib.Maps

/-!
# Scans in an unknown order

A hash map is iterated in an order the program does not know, so what a scan finds is known only up
to a rearrangement of the entries. Two scans are treated here. Searching for the first element with
a property can find any element that has it, and collecting pairs into a map can leave any of the
values paired with a key. Both are the same in every order if and only if there was nothing to
choose from.
-/

open Std (ExtTreeMap TransCmp LawfulEqCmp)

namespace NervesP2P

section Find

variable {α : Type} {p : α → Bool} {l : List α}

/-- **Some order finds any element with the property.** -/
theorem exists_perm_find? {a : α} :
    (∃ l' : List α, l'.Perm l ∧ l'.find? p = some a) ↔ a ∈ l ∧ p a = true := by
  classical
  constructor
  · rintro ⟨l', hperm, hfind⟩
    exact ⟨hperm.mem_iff.mp (List.mem_of_find?_eq_some hfind), List.find?_some hfind⟩
  · rintro ⟨hmem, hp⟩
    exact ⟨a :: l.erase a, (List.perm_cons_erase hmem).symm, List.find?_cons_of_pos hp⟩

/-- No order finds anything if and only if there is no element with the property. -/
theorem perm_find?_eq_none {l' : List α} (h : l'.Perm l) :
    l'.find? p = none ↔ ∀ a ∈ l, ¬p a = true := by
  rw [List.find?_eq_none]
  constructor
  · intro hnone a ha
    exact hnone a (h.mem_iff.mpr ha)
  · intro hnone a ha
    exact hnone a (h.mem_iff.mp ha)

end Find

section Collect

variable {κ ν : Type} {cmp : κ → κ → Ordering} [TransCmp cmp] [LawfulEqCmp cmp]

theorem mem_of_getElem?_insertMany {l : List (κ × ν)} {m : ExtTreeMap κ ν cmp} {k : κ} {v : ν}
    (h : (m.insertMany l)[k]? = some v) : (k, v) ∈ l ∨ m[k]? = some v := by
  classical
  induction l generalizing m with
  | nil =>
    rw [ExtTreeMap.insertMany_nil] at h
    exact Or.inr h
  | cons entry l ih =>
    obtain ⟨k', v'⟩ := entry
    rw [ExtTreeMap.insertMany_cons] at h
    rcases ih h with hmem | hfirst
    · exact Or.inl (List.mem_cons_of_mem _ hmem)
    · rw [getElem?_insert_eq] at hfirst
      split at hfirst
      · next heq =>
        rw [← heq, ← Option.some.inj hfirst]
        exact Or.inl List.mem_cons_self
      · exact Or.inr hfirst

/-- Pairs collected into a map. Of the pairs with the same key, the last one counts. -/
def collect (l : List (κ × ν)) : ExtTreeMap κ ν cmp := (∅ : ExtTreeMap κ ν cmp).insertMany l

theorem mem_of_getElem?_collect {l : List (κ × ν)} {k : κ} {v : ν}
    (h : (collect l : ExtTreeMap κ ν cmp)[k]? = some v) : (k, v) ∈ l := by
  rcases mem_of_getElem?_insertMany h with hmem | hempty
  · exact hmem
  · exact absurd hempty (getElem?_empty_ne_some k v)

/-- **Some order leaves any of the values paired with a key.** -/
theorem exists_perm_collect {α : Type} {f : α → κ × ν} {l : List α} {k : κ} {v : ν} :
    (∃ l' : List α, l'.Perm l ∧ (collect (l'.map f) : ExtTreeMap κ ν cmp)[k]? = some v)
      ↔ ∃ a ∈ l, f a = (k, v) := by
  classical
  constructor
  · rintro ⟨l', hperm, hget⟩
    obtain ⟨a, ha, hf⟩ := List.mem_map.mp (mem_of_getElem?_collect hget)
    exact ⟨a, hperm.mem_iff.mp ha, hf⟩
  · rintro ⟨a, ha, hf⟩
    refine ⟨l.erase a ++ [a], ?_, ?_⟩
    · exact (List.perm_append_singleton _ _).trans (List.perm_cons_erase ha).symm
    · rw [List.map_append, List.map_singleton, hf, collect, ExtTreeMap.insertMany_append,
        ExtTreeMap.insertMany_cons, ExtTreeMap.insertMany_nil, getElem?_insert_eq, if_pos rfl]

theorem exists_getElem?_insertMany {l : List (κ × ν)} {m : ExtTreeMap κ ν cmp} {k : κ} {v : ν}
    (h : (k, v) ∈ l ∨ m[k]? = some v) : ∃ w, (m.insertMany l)[k]? = some w := by
  classical
  induction l generalizing m v with
  | nil =>
    rw [ExtTreeMap.insertMany_nil]
    rcases h with hmem | hget
    · exact absurd hmem List.not_mem_nil
    · exact ⟨v, hget⟩
  | cons entry l ih =>
    obtain ⟨k', v'⟩ := entry
    rw [ExtTreeMap.insertMany_cons]
    by_cases hk : k' = k
    · exact ih (v := v') (Or.inr (by rw [getElem?_insert_eq, if_pos hk]))
    · rcases h with hmem | hget
      · rcases List.mem_cons.mp hmem with heq | htail
        · exact absurd (congrArg Prod.fst heq).symm hk
        · exact ih (Or.inl htail)
      · exact ih (Or.inr (by rwa [getElem?_insert_eq, if_neg hk]))

theorem exists_getElem?_collect {l : List (κ × ν)} {k : κ} {v : ν} (h : (k, v) ∈ l) :
    ∃ w, (collect l : ExtTreeMap κ ν cmp)[k]? = some w :=
  exists_getElem?_insertMany (Or.inl h)

/-- **Where every key has one value, the order does not matter.** -/
theorem collect_eq_of_perm {l l' : List (κ × ν)} (h : l'.Perm l)
    (hone : ∀ k v w, (k, v) ∈ l → (k, w) ∈ l → v = w) :
    (collect l' : ExtTreeMap κ ν cmp) = collect l := by
  refine ExtTreeMap.ext_getElem? fun k ↦ Option.ext fun v ↦ ⟨fun hget ↦ ?_, fun hget ↦ ?_⟩
  · have hv := h.mem_iff.mp (mem_of_getElem?_collect hget)
    obtain ⟨w, hw⟩ : ∃ w, (collect l : ExtTreeMap κ ν cmp)[k]? = some w :=
      exists_getElem?_collect hv
    rw [hw, hone k v w hv (mem_of_getElem?_collect hw)]
  · have hv := mem_of_getElem?_collect hget
    obtain ⟨w, hw⟩ : ∃ w, (collect l' : ExtTreeMap κ ν cmp)[k]? = some w :=
      exists_getElem?_collect (h.mem_iff.mpr hv)
    rw [hw, hone k v w hv (h.mem_iff.mp (mem_of_getElem?_collect hw))]

end Collect

end NervesP2P
