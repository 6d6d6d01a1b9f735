import Mathlib.Tactic

/-!
# Selective receive

A process takes the first message out of its mailbox that it waits for at this point. What it does
not wait for stays, in the order in which it came, and may be taken later.
-/

namespace NervesP2P

variable {α β : Type}

/-- The first message that is wanted, as what it is wanted for, and what stays. -/
def select (wanted : α → Option β) : List α → Option (β × List α)
  | [] => none
  | message :: rest =>
    match wanted message with
    | some x => some (x, rest)
    | none => (select wanted rest).map fun taken ↦ (taken.1, message :: taken.2)

/-- A message is taken out of the middle, and none that came before it was wanted. -/
theorem exists_of_select {wanted : α → Option β} {mailbox rest : List α} {x : β}
    (h : select wanted mailbox = some (x, rest)) :
    ∃ before message after, mailbox = before ++ message :: after ∧ rest = before ++ after
      ∧ wanted message = some x ∧ ∀ m ∈ before, wanted m = none := by
  induction mailbox generalizing rest with
  | nil => cases h
  | cons message mailbox ih =>
    rw [select] at h
    split at h
    · next y hwanted =>
      obtain ⟨rfl, rfl⟩ := Prod.mk.inj (Option.some.inj h)
      exact ⟨[], message, mailbox, rfl, rfl, hwanted, fun m hm ↦ absurd hm List.not_mem_nil⟩
    · next hwanted =>
      obtain ⟨⟨y, rest'⟩, htaken, heq⟩ := Option.map_eq_some_iff.mp h
      obtain ⟨rfl, rfl⟩ := Prod.mk.inj heq
      obtain ⟨before, m, after, rfl, rfl, hm, hbefore⟩ := ih htaken
      refine ⟨message :: before, m, after, rfl, rfl, hm, ?_⟩
      rintro m' (_ | ⟨_, hm'⟩)
      · exact hwanted
      · exact hbefore m' hm'

theorem subset_of_select {wanted : α → Option β} {mailbox rest : List α} {x : β}
    (h : select wanted mailbox = some (x, rest)) : rest ⊆ mailbox := by
  obtain ⟨before, message, after, rfl, rfl, -, -⟩ := exists_of_select h
  exact List.append_subset.mpr ⟨List.subset_append_left _ _,
    fun m hm ↦ List.mem_append_right _ (List.mem_cons_of_mem _ hm)⟩

end NervesP2P
