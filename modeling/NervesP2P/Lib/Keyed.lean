import Mathlib.Tactic

/-!
# Lists of keyed entries

The functions of Elixir on lists of pairs with a key in front: finding, testing and deleting the
first entry of a key. When no key occurs twice, such a list is a finite map, and deleting a key
removes exactly its entry. Where keys do occur twice, `uniqBy` keeps the first entry of each.
-/

namespace NervesP2P

variable {κ ν : Type} [DecidableEq κ]

/-- The first entry of a key. -/
def keyfind (k : κ) (entries : List (κ × ν)) : Option (κ × ν) :=
  entries.find? fun entry ↦ entry.1 = k

/-- There is an entry of the key. -/
def keymember (k : κ) (entries : List (κ × ν)) : Bool := entries.any fun entry ↦ entry.1 = k

/-- The list without the first entry of a key. -/
def keydelete (k : κ) (entries : List (κ × ν)) : List (κ × ν) :=
  entries.eraseP fun entry ↦ entry.1 = k

/-- No key occurs twice. -/
def DistinctKeys (entries : List (κ × ν)) : Prop := (entries.map Prod.fst).Nodup

variable {k : κ} {v : ν} {entries : List (κ × ν)}

theorem keymember_iff : keymember k entries = true ↔ ∃ v, (k, v) ∈ entries := by
  rw [keymember, List.any_eq_true]
  constructor
  · rintro ⟨⟨k', v⟩, hmem, hk⟩
    obtain rfl : k' = k := of_decide_eq_true hk
    exact ⟨v, hmem⟩
  · rintro ⟨v, hmem⟩
    exact ⟨(k, v), hmem, decide_eq_true rfl⟩

/-- What is found is in the list, under the key. -/
theorem mem_of_keyfind {entry : κ × ν} (h : keyfind k entries = some entry) :
    entry.1 = k ∧ entry ∈ entries :=
  ⟨by simpa using List.find?_some h, List.mem_of_find?_eq_some h⟩

theorem keyfind_eq_none : keyfind k entries = none ↔ ∀ v, (k, v) ∉ entries := by
  rw [keyfind, List.find?_eq_none]
  constructor
  · intro h v hmem
    exact h (k, v) hmem (decide_eq_true rfl)
  · rintro h ⟨k', v⟩ hmem hk
    obtain rfl : k' = k := of_decide_eq_true hk
    exact h v hmem

namespace DistinctKeys

omit [DecidableEq κ] in
theorem cons (h : DistinctKeys entries) (hk : ∀ v, (k, v) ∉ entries) :
    DistinctKeys ((k, v) :: entries) := by
  rw [DistinctKeys, List.map_cons, List.nodup_cons]
  refine ⟨?_, h⟩
  rintro hmem
  obtain ⟨⟨k', v'⟩, hentry, rfl⟩ := List.mem_map.mp hmem
  exact hk v' hentry

theorem keydelete (h : DistinctKeys entries) (k : κ) : DistinctKeys (keydelete k entries) :=
  h.sublist (List.eraseP_sublist.map Prod.fst)

/-- An entry of a key is there once or not at all. -/
theorem filterMap_key {α : Type} (h : DistinctKeys entries) (k : κ) (a : α) :
    (entries.filterMap fun entry ↦ if entry.1 = k then some a else none)
      = if keymember k entries then [a] else [] := by
  induction entries with
  | nil => rfl
  | cons first entries ih =>
    rw [DistinctKeys, List.map_cons, List.nodup_cons] at h
    have hcons : keymember k (first :: entries) = (decide (first.1 = k) || keymember k entries) :=
      rfl
    rw [List.filterMap_cons, hcons, ih h.2]
    by_cases hfirst : first.1 = k
    · have hrest : keymember k entries = false := by
        rw [Bool.eq_false_iff, Ne, keymember_iff]
        rintro ⟨v, hmem⟩
        exact h.1 (hfirst ▸ List.mem_map.mpr ⟨(k, v), hmem, rfl⟩)
      simp [hfirst, hrest]
    · simp [hfirst]

/-- Deleting a key removes its entry and no other. -/
theorem mem_keydelete {entry : κ × ν} (h : DistinctKeys entries) :
    entry ∈ NervesP2P.keydelete k entries ↔ entry ∈ entries ∧ entry.1 ≠ k := by
  induction entries with
  | nil => simp [NervesP2P.keydelete]
  | cons first entries ih =>
    rw [DistinctKeys, List.map_cons, List.nodup_cons] at h
    have hrest := ih h.2
    rw [NervesP2P.keydelete] at hrest ⊢
    by_cases hfirst : first.1 = k
    · rw [List.eraseP_cons_of_pos (by simpa using hfirst), List.mem_cons]
      constructor
      · intro hmem
        refine ⟨.inr hmem, fun hentry ↦ h.1 ?_⟩
        rw [hfirst, ← hentry]
        exact List.mem_map_of_mem hmem
      · rintro ⟨rfl | hmem, hne⟩
        · exact absurd hfirst hne
        · exact hmem
    · rw [List.eraseP_cons_of_neg (by simpa using hfirst), List.mem_cons, List.mem_cons, hrest]
      constructor
      · rintro (rfl | ⟨hmem, hne⟩)
        · exact ⟨.inl rfl, hfirst⟩
        · exact ⟨.inr hmem, hne⟩
      · rintro ⟨rfl | hmem, hne⟩
        · exact .inl rfl
        · exact .inr ⟨hmem, hne⟩

end DistinctKeys

/-! ## The first entry of each key -/

section Uniq

variable {α : Type} {key : α → κ} {l : List α}

/-- The list without the entries whose key has occurred before. -/
def uniqBy (key : α → κ) : List α → List α
  | [] => []
  | a :: l => a :: (uniqBy key l).filter fun b ↦ key b ≠ key a

theorem uniqBy_sublist (key : α → κ) (l : List α) : (uniqBy key l).Sublist l := by
  induction l with
  | nil => exact .slnil
  | cons a l ih => exact (List.filter_sublist.trans ih).cons_cons a

theorem nodup_map_uniqBy (key : α → κ) (l : List α) : ((uniqBy key l).map key).Nodup := by
  induction l with
  | nil => exact List.nodup_nil
  | cons a l ih =>
    rw [uniqBy, List.map_cons, List.nodup_cons]
    refine ⟨?_, ih.sublist (List.filter_sublist.map key)⟩
    intro hmem
    obtain ⟨b, hb, hkey⟩ := List.mem_map.mp hmem
    exact of_decide_eq_true (List.mem_filter.mp hb).2 hkey

/-- No key gets lost. -/
theorem mem_map_uniqBy {k : κ} : k ∈ (uniqBy key l).map key ↔ k ∈ l.map key := by
  refine ⟨fun h ↦ ((uniqBy_sublist key l).map key).subset h, fun h ↦ ?_⟩
  induction l with
  | nil => exact h
  | cons a l ih =>
    rw [uniqBy, List.map_cons, List.mem_cons]
    by_cases hk : k = key a
    · exact Or.inl hk
    · obtain ⟨b, hb, rfl⟩ := List.mem_map.mp (ih ((List.mem_cons.mp h).resolve_left hk))
      exact Or.inr (List.mem_map_of_mem (List.mem_filter.mpr ⟨hb, decide_eq_true hk⟩))

end Uniq

end NervesP2P
