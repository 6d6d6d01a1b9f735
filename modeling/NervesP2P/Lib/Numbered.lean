import Mathlib.Tactic

/-!
# Numbered names

Names that are made of a fixed text and a counter in decimal digits. Different numbers give
different names, so the names given out by a counter that only grows are never given out again.
-/

namespace NervesP2P

/-- A text with a number after it. -/
def numbered (text : String) (n : ℕ) : String := text ++ toString n

/-- Numbers are read back from their digits. -/
theorem numbered_injective (text : String) : Function.Injective (numbered text) := by
  intro m n h
  have hrepr : m.repr = n.repr := (String.append_right_inj text).mp h
  have hdigits : Nat.toDigits 10 m = Nat.toDigits 10 n := by
    rw [← Nat.toList_repr, ← Nat.toList_repr, hrepr]
  rw [← Nat.ofDigitChars_ten_toDigits (n := m), hdigits, Nat.ofDigitChars_ten_toDigits]

/-- The first `n` names of a counter that is increased before it is used. -/
def names (text : String) (n : ℕ) : List String :=
  (List.range n).map fun k ↦ numbered text (k + 1)

theorem names_succ (text : String) (n : ℕ) :
    names text (n + 1) = names text n ++ [numbered text (n + 1)] := by
  rw [names, List.range_succ, List.map_append]
  rfl

theorem nodup_names (text : String) (n : ℕ) : (names text n).Nodup := by
  refine List.Nodup.map ?_ List.nodup_range
  intro j k h
  exact Nat.succ.inj (numbered_injective text h)

/-- The next name is new. -/
theorem numbered_notMem_names (text : String) (n : ℕ) : numbered text (n + 1) ∉ names text n := by
  have hnodup := nodup_names text (n + 1)
  rw [names_succ] at hnodup
  exact fun h ↦ (List.nodup_append.mp hnodup).2.2 _ h _ (List.mem_singleton_self _) rfl

end NervesP2P
