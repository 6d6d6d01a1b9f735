import Mathlib.Tactic

/-!
# Stable sorting by a comparison function

`sortBy cmp l` is the stable sort of `l` by a three-way comparison. It is the insertion sort of the
library at the relation `cmp a b ≠ .gt`; a stable sort is determined by its specification, so the
choice of algorithm is not visible.

The result that carries the applications is `sortBy_eq_of_perm`: a rearrangement of `l` that is
strictly increasing is the sorted list. It turns the order of a fixed set of keys into a check of
adjacent pairs.
-/

open Std (ExtTreeMap TransCmp TransOrd LawfulEqCmp LawfulEqOrd OrientedCmp)

namespace NervesP2P

variable {α β : Type}

/-- The stable sort of a list by a comparison function. -/
def sortBy (cmp : α → α → Ordering) (l : List α) : List α :=
  l.insertionSort fun a b ↦ cmp a b ≠ .gt

theorem sortBy_perm (cmp : α → α → Ordering) (l : List α) : (sortBy cmp l).Perm l :=
  List.perm_insertionSort _ l

@[simp] theorem mem_sortBy {cmp : α → α → Ordering} {l : List α} {a : α} :
    a ∈ sortBy cmp l ↔ a ∈ l :=
  (sortBy_perm cmp l).mem_iff

theorem ne_gt_iff_isLE {o : Ordering} : o ≠ .gt ↔ o.isLE = true := by
  cases o <;> simp

theorem pairwise_sortBy (cmp : α → α → Ordering) [TransCmp cmp] (l : List α) :
    (sortBy cmp l).Pairwise fun a b ↦ cmp a b ≠ .gt := by
  have htotal : Std.Total fun a b ↦ cmp a b ≠ .gt := ⟨fun a b ↦ by
    have hswap : cmp b a = (cmp a b).swap := OrientedCmp.eq_swap
    rw [hswap]
    cases cmp a b <;> simp⟩
  have htrans : IsTrans α fun a b ↦ cmp a b ≠ .gt := ⟨fun a b c hab hbc ↦ by
    rw [ne_gt_iff_isLE] at hab hbc ⊢
    exact TransCmp.isLE_trans hab hbc⟩
  exact List.pairwise_insertionSort _ l

/-- A strictly increasing rearrangement of a list is its sorted form. -/
theorem sortBy_eq_of_perm {cmp : α → α → Ordering} [TransCmp cmp] {l l' : List α}
    (hperm : l'.Perm l) (hlt : l'.Pairwise fun a b ↦ cmp a b = .lt) : sortBy cmp l = l' := by
  have hirrefl : ∀ a b, a ∈ sortBy cmp l → b ∈ l' → cmp a b ≠ .gt → cmp b a ≠ .gt → a = b := by
    intro a b ha hb hab hba
    have ha' : a ∈ l' := hperm.mem_iff.mpr (mem_sortBy.mp ha)
    by_contra hne
    -- two distinct members of a strictly increasing list are strictly comparable
    have hsymm : Std.Symm fun a b ↦ cmp a b = .lt ∨ cmp b a = .lt := ⟨fun _ _ ↦ Or.symm⟩
    have hcomp : l'.Pairwise fun a b ↦ cmp a b = .lt ∨ cmp b a = .lt := hlt.imp Or.inl
    rcases hcomp.forall ha' hb hne with h | h
    · exact hba (OrientedCmp.gt_of_lt h)
    · exact hab (OrientedCmp.gt_of_lt h)
  refine List.Perm.eq_of_pairwise hirrefl (pairwise_sortBy cmp l) (hlt.imp ?_)
    ((sortBy_perm cmp l).trans hperm.symm)
  intro a b h
  rw [h]
  simp

theorem pairwise_lt_sortBy {cmp : α → α → Ordering} [TransCmp cmp] {l : List α}
    (hne : l.Pairwise fun a b ↦ cmp a b ≠ .eq) :
    (sortBy cmp l).Pairwise fun a b ↦ cmp a b = .lt := by
  have hsymm : ∀ {a b : α}, cmp a b ≠ .eq → cmp b a ≠ .eq := by
    intro a b h
    rwa [ne_eq, OrientedCmp.eq_comm]
  have hne' : (sortBy cmp l).Pairwise fun a b ↦ cmp a b ≠ .eq :=
    (List.Perm.pairwise_iff hsymm (sortBy_perm cmp l)).mpr hne
  refine ((pairwise_sortBy cmp l).and hne').imp ?_
  rintro a b ⟨hgt, heq⟩
  cases h : cmp a b with
  | lt => rfl
  | eq => exact absurd h heq
  | gt => exact absurd h hgt

/-- Sorting depends only on how the members of the list compare. -/
theorem sortBy_congr {cmp cmp' : α → α → Ordering} {l : List α}
    (h : ∀ a ∈ l, ∀ b ∈ l, cmp a b = cmp' a b) : sortBy cmp l = sortBy cmp' l := by
  have hinsert : ∀ (a : α) (sorted : List α), (∀ b ∈ sorted, cmp a b = cmp' a b) →
      sorted.orderedInsert (fun a b ↦ cmp a b ≠ .gt) a
        = sorted.orderedInsert (fun a b ↦ cmp' a b ≠ .gt) a := by
    intro a sorted hsorted
    induction sorted with
    | nil => rfl
    | cons b sorted ih =>
      obtain ⟨hb, hrest⟩ := List.forall_mem_cons.mp hsorted
      simp only [List.orderedInsert, hb, ih hrest]
  induction l with
  | nil => rfl
  | cons a l ih =>
    have hl := ih fun b hb c hc ↦ h b (List.mem_cons_of_mem _ hb) c (List.mem_cons_of_mem _ hc)
    rw [sortBy, List.insertionSort_cons, ← sortBy, hl, sortBy, sortBy, List.insertionSort_cons]
    apply hinsert
    intro b hb
    exact h a List.mem_cons_self b (List.mem_cons_of_mem _ ((List.mem_insertionSort _).mp hb))

/-- On distinct elements of an order that separates them, sorting forgets how they were listed. -/
theorem sortBy_of_perm {cmp : α → α → Ordering} [TransCmp cmp] {l l' : List α} (h : l.Perm l')
    (hne : l.Pairwise fun a b ↦ cmp a b ≠ .eq) : sortBy cmp l' = sortBy cmp l :=
  sortBy_eq_of_perm ((sortBy_perm cmp l).trans h) (pairwise_lt_sortBy hne)

theorem map_getD_perm {l : List α} {indices : List ℕ} (h : indices.Perm (List.range l.length))
    (d : α) : (indices.map fun i ↦ l.getD i d).Perm l := by
  have hself : (List.range l.length).map (fun i ↦ l.getD i d) = l := by
    refine List.ext_getElem (by simp) fun i h₁ h₂ ↦ ?_
    simp [List.getD, List.getElem?_eq_getElem h₂]
  calc (indices.map fun i ↦ l.getD i d).Perm ((List.range l.length).map fun i ↦ l.getD i d) :=
        h.map _
    _ = l := hself

/-- Two comparisons agree when they agree on what is less. -/
theorem compare_congr {κ κ' : Type} [LinearOrder κ] [LinearOrder κ'] {a b : κ} {c d : κ'}
    (hlt : a < b ↔ c < d) (hgt : b < a ↔ d < c) : compare a b = compare c d := by
  rcases lt_trichotomy a b with h | h | h
  · rw [compare_lt_iff_lt.mpr h, compare_lt_iff_lt.mpr (hlt.mp h)]
  · have hcd : c = d := le_antisymm (not_lt.mp fun h' ↦ (hgt.mpr h').ne h.symm)
      (not_lt.mp fun h' ↦ (hlt.mpr h').ne h)
    rw [compare_eq_iff_eq.mpr h, compare_eq_iff_eq.mpr hcd]
  · rw [compare_gt_iff_gt.mpr h, compare_gt_iff_gt.mpr (hgt.mp h)]

/-- Comparing by a key inherits transitivity. -/
instance transCmpOn (cmp : β → β → Ordering) [TransCmp cmp] (key : α → β) :
    TransCmp fun a b ↦ cmp (key a) (key b) where
  eq_swap := OrientedCmp.eq_swap
  isLE_trans := TransCmp.isLE_trans

end NervesP2P
