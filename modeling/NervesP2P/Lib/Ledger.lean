import Mathlib.Tactic

/-!
# Ledgers of used numbers

Which numbers have been used for which key, newest first. A ledger is increasing when a number is
never used again for its key and never after a larger one. To extend it, only the last number of the
key has to be compared.
-/

namespace NervesP2P

variable {κ : Type} [DecidableEq κ]

/-- The numbers used so far, newest first. -/
abbrev Ledger (κ : Type) := List (κ × UInt64)

namespace Ledger

/-- The last number used for a key, zero when there is none. -/
def last (ledger : Ledger κ) (k : κ) : UInt64 :=
  ((ledger.find? fun entry ↦ entry.1 = k).map Prod.snd).getD 0

/-- Add the number a step has used, if it has used one. -/
def record (used : Option (κ × UInt64)) (ledger : Ledger κ) : Ledger κ := used.toList ++ ledger

/-- Newer numbers are larger than older ones for the same key. -/
def Increasing (ledger : Ledger κ) : Prop :=
  ledger.Pairwise fun newer older ↦ newer.1 = older.1 → older.2 < newer.2

theorem last_cons (ledger : Ledger κ) (k k' : κ) (n : UInt64) :
    last ((k, n) :: ledger) k' = if k = k' then n else ledger.last k' := by
  rw [last, List.find?_cons]
  by_cases h : k = k' <;> simp [h, last]

theorem Increasing.le_last {ledger : Ledger κ} (h : ledger.Increasing) {k : κ} {n : UInt64}
    (hmem : (k, n) ∈ ledger) : n ≤ ledger.last k := by
  induction ledger with
  | nil => cases hmem
  | cons entry ledger ih =>
    obtain ⟨k', n'⟩ := entry
    obtain ⟨hnewest, hrest⟩ := List.pairwise_cons.mp h
    rw [last_cons]
    rcases List.mem_cons.mp hmem with heq | hmem
    · obtain ⟨rfl, rfl⟩ := Prod.mk.inj heq
      rw [if_pos rfl]
      exact UInt64.le_refl n
    · split
      · next hk => exact UInt64.le_of_lt (hnewest (k, n) hmem hk)
      · exact ih hrest hmem

/-- A number above the last one of its key may be used. -/
theorem Increasing.cons {ledger : Ledger κ} (h : ledger.Increasing) {k : κ} {n : UInt64}
    (hlt : ledger.last k < n) : Increasing ((k, n) :: ledger) := by
  refine List.pairwise_cons.mpr ⟨?_, h⟩
  rintro ⟨k', n'⟩ hmem rfl
  exact UInt64.lt_of_le_of_lt (h.le_last hmem) hlt

/-- The numbers of one key, oldest first, are strictly increasing. -/
theorem Increasing.numbers {ledger : Ledger κ} (h : ledger.Increasing) (k : κ) :
    ((ledger.reverse.filter fun entry ↦ entry.1 = k).map Prod.snd).Pairwise (· < ·) := by
  rw [List.pairwise_map, List.pairwise_filter, List.pairwise_reverse]
  refine h.imp ?_
  intro newer older hlt hnew hold
  rw [decide_eq_true_iff] at hnew hold
  exact hlt (hold.trans hnew.symm)

omit [DecidableEq κ] in
theorem Increasing.nodup {ledger : Ledger κ} (h : ledger.Increasing) : ledger.Nodup := by
  refine h.imp ?_
  rintro newer older hlt rfl
  exact UInt64.lt_irrefl _ (hlt rfl)

end Ledger

end NervesP2P
