import Mathlib.Tactic

/-!
# Conversions that may fail

A list is converted element by element, and the first element that cannot be converted decides how
the conversion of the list fails. For the lists that can be converted, this is a relation between
their elements (`mapM_eq_ok_iff` and `mapM_eq_some_iff`), which is how conversions in a row are
composed: relations on elements compose, and results do not have to be taken apart.
-/

namespace NervesP2P

variable {ε α β : Type}

theorem map_eq_ok_iff {f : α → β} {x : Except ε α} {b : β} :
    x.map f = .ok b ↔ ∃ a, x = .ok a ∧ f a = b := by
  cases x <;> simp [Except.map]

theorem bind_eq_ok_iff {x : Except ε α} {f : α → Except ε β} {b : β} :
    x >>= f = .ok b ↔ ∃ a, x = .ok a ∧ f a = .ok b := by
  cases x <;> simp [bind, Except.bind]

theorem mapError_eq_ok_iff {τ : Type} {f : ε → τ} {x : Except ε α} {a : α} :
    x.mapError f = .ok a ↔ x = .ok a := by
  cases x <;> simp [Except.mapError]

/-- A list is converted when each of its elements is. -/
theorem mapM_eq_ok_iff {f : α → Except ε β} {l : List α} {l' : List β} :
    l.mapM f = .ok l' ↔ List.Forall₂ (fun a b ↦ f a = .ok b) l l' := by
  induction l generalizing l' with
  | nil => simp [pure, Except.pure, eq_comm]
  | cons a l ih =>
    rw [List.mapM_cons, List.forall₂_cons_left_iff]
    cases ha : f a with
    | error error => simp [bind, Except.bind]
    | ok b =>
      cases hl : l.mapM f with
      | error error =>
        simp only [bind, Except.bind, ← ih, hl, reduceCtorEq, false_and, and_false, exists_false]
      | ok bs =>
        simp only [bind, Except.bind, pure, Except.pure, ← ih, hl, Except.ok.injEq]
        constructor
        · rintro rfl
          exact ⟨b, bs, rfl, rfl, rfl⟩
        · rintro ⟨_, _, rfl, rfl, rfl⟩
          rfl

theorem mapM_eq_some_iff {f : α → Option β} {l : List α} {l' : List β} :
    l.mapM f = some l' ↔ List.Forall₂ (fun a b ↦ f a = some b) l l' := by
  induction l generalizing l' with
  | nil => simp [eq_comm]
  | cons a l ih =>
    simp only [List.mapM_cons, List.forall₂_cons_left_iff, Option.bind_eq_bind,
      Option.bind_eq_some_iff, Option.pure_def, Option.some.injEq, ih]
    constructor
    · rintro ⟨b, ha, bs, hl, rfl⟩
      exact ⟨b, bs, ha, hl, rfl⟩
    · rintro ⟨b, bs, ha, hl, rfl⟩
      exact ⟨b, ha, bs, hl, rfl⟩

section Composition

variable {γ : Type} {R : α → β → Prop} {S : β → γ → Prop}

/-- Lists related in two steps are related element by element. -/
theorem exists_forall₂_iff {l : List α} {n : List γ} :
    (∃ m, List.Forall₂ R l m ∧ List.Forall₂ S m n) ↔
      List.Forall₂ (fun a c ↦ ∃ b, R a b ∧ S b c) l n := by
  constructor
  · rintro ⟨m, hR, hS⟩
    induction hR generalizing n with
    | nil =>
      cases hS
      exact .nil
    | cons ha _ ih =>
      cases hS with
      | cons hb hS => exact .cons ⟨_, ha, hb⟩ (ih hS)
  · intro h
    induction h with
    | nil => exact ⟨[], .nil, .nil⟩
    | cons hac _ ih =>
      obtain ⟨b, ha, hb⟩ := hac
      obtain ⟨m, hR, hS⟩ := ih
      exact ⟨b :: m, .cons ha hR, .cons hb hS⟩

/-- What related elements agree on, related lists agree on. -/
theorem forall_mem_iff_of_forall₂ {P : α → Prop} {Q : β → Prop} {l : List α} {m : List β}
    (h : List.Forall₂ R l m) (hiff : ∀ a b, R a b → (P a ↔ Q b)) :
    (∀ a ∈ l, P a) ↔ ∀ b ∈ m, Q b := by
  induction h with
  | nil => simp
  | cons hab _ ih => rw [List.forall_mem_cons, List.forall_mem_cons, hiff _ _ hab, ih]

end Composition

/-- When all elements can be converted, nothing is left out. -/
theorem mapM_eq_some_filterMap {f : α → Option β} {l : List α}
    (h : ∀ a ∈ l, (f a).isSome = true) : l.mapM f = some (l.filterMap f) := by
  rw [mapM_eq_some_iff]
  induction l with
  | nil => exact .nil
  | cons a l ih =>
    obtain ⟨ha, hl⟩ := List.forall_mem_cons.mp h
    obtain ⟨b, hb⟩ := Option.isSome_iff_exists.mp ha
    rw [List.filterMap_cons_some hb]
    exact .cons hb (ih hl)

theorem mapM_eq_none {f : α → Option β} {l : List α} {a : α} (ha : a ∈ l) (hf : f a = none) :
    l.mapM f = none := by
  cases hrun : l.mapM f with
  | none => rfl
  | some l' =>
    have hall := (forall_mem_iff_of_forall₂ (mapM_eq_some_iff.mp hrun)
      (P := fun a ↦ (f a).isSome = true) (Q := fun _ ↦ True) fun a b hab ↦ by simp [hab]).mpr
      fun _ _ ↦ trivial
    have hsome := hall a ha
    rw [hf] at hsome
    cases hsome

end NervesP2P
