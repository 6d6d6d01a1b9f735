import Mathlib.Tactic

/-!
# Bounded channels

A channel holds at most as many items as its capacity, in the order in which they were put in.
Putting items in is possible only while there is room for them, which is no guard of its own here:
the bound is a field of the channel, so that a channel with too many items does not exist.
-/

namespace NervesP2P

/-- A queue of bounded length. -/
structure Channel (α : Type) (capacity : ℕ) where
  items : List α
  bounded : items.length ≤ capacity

namespace Channel

variable {α : Type} {capacity : ℕ} {c c' : Channel α capacity} {items : List α}

def empty : Channel α capacity := ⟨[], Nat.zero_le _⟩

def Full (c : Channel α capacity) : Prop := c.items.length = capacity

/-- Items are put in at the end. -/
def Puts (c : Channel α capacity) (items : List α) (c' : Channel α capacity) : Prop :=
  c'.items = c.items ++ items

/-- Items are taken out at the front. -/
def Takes (c : Channel α capacity) (items : List α) (c' : Channel α capacity) : Prop :=
  c.items = items ++ c'.items

theorem Puts.length (h : c.Puts items c') :
    c'.items.length = c.items.length + items.length := by
  rw [Puts] at h
  rw [h, List.length_append]

theorem Takes.length (h : c.Takes items c') :
    c.items.length = items.length + c'.items.length := by
  rw [Takes] at h
  rw [h, List.length_append]

/-- Nothing can be put into a full channel. -/
theorem Full.puts (hfull : c.Full) (h : c.Puts items c') : items = [] := by
  have hlength := h.length
  have hle := c'.bounded
  rw [Full] at hfull
  exact List.eq_nil_of_length_eq_zero (by omega)

theorem exists_puts (h : c.items.length + items.length ≤ capacity) : ∃ c', c.Puts items c' :=
  ⟨⟨c.items ++ items, by rwa [List.length_append]⟩, rfl⟩

/-- Of more items than there is room for, the first ones fill the channel. -/
theorem exists_fill (h : capacity < c.items.length + items.length) :
    ∃ first rest c', items = first ++ rest ∧ rest ≠ [] ∧ c.Puts first c' ∧ c'.Full := by
  have hbounded := c.bounded
  have hfirst : (items.take (capacity - c.items.length)).length = capacity - c.items.length :=
    List.length_take_of_le (by omega)
  obtain ⟨c', hputs⟩ : ∃ c', c.Puts (items.take (capacity - c.items.length)) c' :=
    exists_puts (by omega)
  refine ⟨_, items.drop (capacity - c.items.length), c', (List.take_append_drop _ _).symm, ?_,
    hputs, ?_⟩
  · rw [← List.length_pos_iff, List.length_drop]
    omega
  · rw [Full, hputs.length]
    omega

end Channel

end NervesP2P
