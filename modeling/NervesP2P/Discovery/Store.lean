import NervesP2P.Discovery.Basic
import NervesP2P.Lib.Method

/-!
# Sequence stores

A sequence store remembers, for every endpoint, the highest sequence number used so far: the
receiver's watermark against replays, and the sender's counter. `SequenceStore` is the interface the
registry is generic over, and `LawfulSequenceStore` says what an implementation owes its callers: a
successful `advance` is what `load` returns from then on, and a failed one is as if it had not been
called. The interface alone promises neither.

The in-memory store is here. The one backed by a file is in `Discovery.FileStore`.
-/

open Std (ExtTreeMap)

namespace NervesP2P

/-- The interface of sequence stores. -/
class SequenceStore (I : Iroh) (S : Type) where
  /-- The highest sequence number used by an endpoint, zero when there is none. -/
  load : S → I.EndpointId → Except Error UInt64
  /-- Raise the number of an endpoint, durably before success is returned. -/
  advance : I.EndpointId → UInt64 → Method S Error Unit

/-- What callers of a sequence store rely on. -/
class LawfulSequenceStore (I : Iroh) (S : Type) [SequenceStore I S] : Prop where
  /-- A successful `advance` is visible. -/
  load_of_returns : ∀ {e : I.EndpointId} {n : UInt64} {s s' : S} {u : Unit},
    (SequenceStore.advance e n).Returns s u s' → SequenceStore.load s' e = .ok n
  /-- It changes no other endpoint. -/
  load_of_returns_of_ne : ∀ {e e' : I.EndpointId} {n : UInt64} {s s' : S} {u : Unit},
    (SequenceStore.advance e n).Returns s u s' → e' ≠ e →
      SequenceStore.load s' e' = SequenceStore.load s e'
  /-- A failed `advance` changes nothing a caller can see. -/
  load_of_fails : ∀ {e : I.EndpointId} {n : UInt64} {s s' : S} {err : Error},
    (SequenceStore.advance e n).Fails s err s' →
      ∀ e' : I.EndpointId, SequenceStore.load s' e' = SequenceStore.load s e'

/-- A store in which raising a number never fails. -/
class InfallibleSequenceStore (I : Iroh) (S : Type) [SequenceStore I S] : Prop where
  exists_advance : ∀ {e : I.EndpointId} {stored n : UInt64} {s : S},
    SequenceStore.load s e = .ok stored → stored < n →
      ∃ s', (SequenceStore.advance e n).Returns s () s'

section Reserve

variable {I : Iroh} {S : Type} [SequenceStore I S]

/-- Take the next number of a sender, durably before it may be signed. -/
def reserveNext (endpoint : I.EndpointId) : Method S Error UInt64 := do
  let store ← get
  let stored ← liftM (SequenceStore.load store endpoint)
  -- `checked_add`: the largest number has no successor
  Method.failIf (stored.toNat + 1 = 2 ^ 64) .invalidRecord
  let next := stored + 1
  SequenceStore.advance endpoint next
  pure next

theorem returns_reserveNext {e : I.EndpointId} {n : UInt64} {s s' : S} :
    (reserveNext e).Returns s n s' ↔
      ∃ stored, SequenceStore.load s e = .ok stored ∧ stored.toNat + 1 ≠ 2 ^ 64 ∧ n = stored + 1
        ∧ (SequenceStore.advance e n).Returns s () s' := by
  simp only [reserveNext, Method.returns_bind, Method.returns_get, Method.returns_lift,
    Method.returns_failIf, Method.returns_pure]
  constructor
  · rintro ⟨_, _, ⟨rfl, rfl⟩, stored, _, ⟨hload, rfl⟩, _, _, ⟨hmax, rfl⟩, _, _, hadvance, rfl, rfl⟩
    exact ⟨stored, hload, hmax, rfl, hadvance⟩
  · rintro ⟨stored, hload, hmax, rfl, hadvance⟩
    exact ⟨_, _, ⟨rfl, rfl⟩, stored, _, ⟨hload, rfl⟩, (), _, ⟨hmax, rfl⟩, (), _, hadvance, rfl, rfl⟩

/-- A failed reservation has changed nothing, or an `advance` has failed. -/
theorem fails_reserveNext {e : I.EndpointId} {s s' : S} {err : Error}
    (h : (reserveNext e).Fails s err s') :
    s' = s ∨ ∃ n, (SequenceStore.advance e n).Fails s err s' := by
  simp only [reserveNext, Method.fails_bind, Method.fails_get, Method.returns_get,
    Method.fails_lift, Method.returns_lift, Method.fails_failIf, Method.returns_failIf,
    Method.fails_pure, and_false, exists_false, or_false, false_or] at h
  obtain ⟨_, _, ⟨rfl, rfl⟩, ⟨-, rfl⟩ |
    ⟨stored, _, ⟨-, rfl⟩, ⟨-, -, rfl⟩ | ⟨_, _, ⟨-, rfl⟩, h⟩⟩⟩ := h
  · exact Or.inl rfl
  · exact Or.inl rfl
  · exact Or.inr ⟨_, h⟩

/-- The largest number has no successor to reserve. -/
theorem fails_reserveNext_of_max {e : I.EndpointId} {s : S}
    (h : SequenceStore.load s e = .ok (UInt64.ofNat (2 ^ 64 - 1))) :
    (reserveNext e).Fails s .invalidRecord s := by
  simp only [reserveNext, Method.fails_bind, Method.returns_get, Method.returns_lift,
    Method.fails_failIf]
  exact Or.inr ⟨s, s, ⟨rfl, rfl⟩, Or.inr ⟨_, s, ⟨h, rfl⟩, Or.inl ⟨by decide, trivial, rfl⟩⟩⟩

end Reserve

/-! ## The in-memory store

It has room for as many endpoints as there are, and no call of it fails but one with a number that
is not above the last. -/

/-- A store that forgets everything when the process ends. -/
structure MemorySequenceStore (I : Iroh) where
  sequences : ExtTreeMap I.EndpointId UInt64 := ∅

namespace MemorySequenceStore

variable {I : Iroh}

def load (store : MemorySequenceStore I) (endpoint : I.EndpointId) : Except Error UInt64 :=
  .ok (store.sequences.getD endpoint 0)

def advance (endpoint : I.EndpointId) (sequence : UInt64) :
    Method (MemorySequenceStore I) Error Unit := do
  let store ← get
  let stored ← liftM (store.load endpoint)
  Method.failIf (sequence ≤ stored) .staleSequence
  modify fun store ↦ { store with sequences := store.sequences.insert endpoint sequence }

instance : SequenceStore I (MemorySequenceStore I) := ⟨load, advance⟩

theorem returns_advance {e : I.EndpointId} {n : UInt64} {s s' : MemorySequenceStore I} {u : Unit} :
    (advance e n).Returns s u s' ↔
      s.sequences.getD e 0 < n ∧ s' = ⟨s.sequences.insert e n⟩ := by
  simp [advance, load]

theorem fails_advance {e : I.EndpointId} {n : UInt64} {s s' : MemorySequenceStore I}
    {err : Error} :
    (advance e n).Fails s err s' ↔
      n ≤ s.sequences.getD e 0 ∧ .staleSequence = err ∧ s = s' := by
  simp [advance, load]

instance : LawfulSequenceStore I (MemorySequenceStore I) where
  load_of_returns {e n s s' u} h := by
    obtain ⟨-, rfl⟩ := returns_advance.mp h
    simp [SequenceStore.load, load]
  load_of_returns_of_ne {e e' n s s' u} h hne := by
    obtain ⟨-, rfl⟩ := returns_advance.mp h
    simp [SequenceStore.load, load, ExtTreeMap.getD_insert, hne.symm]
  load_of_fails {e n s s' err} h e' := by
    obtain ⟨-, -, rfl⟩ := fails_advance.mp h
    rfl

instance : InfallibleSequenceStore I (MemorySequenceStore I) where
  exists_advance {e stored n s} hload hlt := by
    obtain rfl := Except.ok.inj hload
    exact ⟨_, returns_advance.mpr ⟨hlt, rfl⟩⟩

end MemorySequenceStore

end NervesP2P
