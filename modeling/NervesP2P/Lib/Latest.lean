import Mathlib.Tactic

/-!
# The last writer wins

Messages carry a key and a stamp, and a replica keeps for every key the message with the highest
stamp it has seen. A message that is not newer than the one kept is dropped, so repetitions and late
arrivals change nothing.

What the replica holds is then a function of the *set* of messages it has seen: `Tracks` says that
it holds the latest message of each key, one delivery preserves that (`Tracks.keep`), and when no
stamp is used twice for a key there is only one latest message (`Tracks.unique`).
-/

namespace NervesP2P

variable {α κ ν : Type} [LinearOrder ν] (key : α → κ) (stamp : α → ν)

/-- The message is the one of its key with the highest stamp. -/
structure IsLatest (s : Set α) (k : κ) (a : α) : Prop where
  mem : a ∈ s
  key_eq : key a = k
  le : ∀ b ∈ s, key b = k → stamp b ≤ stamp a

/-- No stamp is used for two messages of one key. -/
def StampedOnce (s : Set α) : Prop :=
  ∀ a ∈ s, ∀ b ∈ s, key a = key b → stamp a = stamp b → a = b

/-- A replica holds the latest message of every key, and nothing for a key without messages. -/
structure Tracks (s : Set α) (state : κ → Option α) : Prop where
  latest : ∀ k a, state k = some a → IsLatest key stamp s k a
  absent : ∀ k, state k = none → ∀ a ∈ s, key a ≠ k

/-- One delivery: the message is kept when it is newer. -/
def keep [DecidableEq κ] (state : κ → Option α) (a : α) : κ → Option α :=
  match state (key a) with
  | some b => if stamp a ≤ stamp b then state else Function.update state (key a) (some a)
  | none => Function.update state (key a) (some a)

variable {key stamp}

theorem IsLatest.unique {s : Set α} {k : κ} {a b : α} (hs : StampedOnce key stamp s)
    (ha : IsLatest key stamp s k a) (hb : IsLatest key stamp s k b) : a = b := by
  refine hs a ha.mem b hb.mem (ha.key_eq.trans hb.key_eq.symm) ?_
  exact le_antisymm (hb.le a ha.mem ha.key_eq) (ha.le b hb.mem hb.key_eq)

/-- Two replicas that have seen the same messages hold the same. -/
theorem Tracks.unique {s : Set α} {state₁ state₂ : κ → Option α} (hs : StampedOnce key stamp s)
    (h₁ : Tracks key stamp s state₁) (h₂ : Tracks key stamp s state₂) : state₁ = state₂ := by
  funext k
  cases hk₁ : state₁ k with
  | some a =>
    have ha := h₁.latest k a hk₁
    cases hk₂ : state₂ k with
    | some b => rw [ha.unique hs (h₂.latest k b hk₂)]
    | none => exact absurd ha.key_eq (h₂.absent k hk₂ a ha.mem)
  | none =>
    cases hk₂ : state₂ k with
    | some b =>
      have hb := h₂.latest k b hk₂
      exact absurd hb.key_eq (h₁.absent k hk₁ b hb.mem)
    | none => rfl

theorem Tracks.empty : Tracks key stamp ∅ fun _ ↦ none where
  latest _ _ h := by cases h
  absent _ _ a h := absurd h (Set.notMem_empty a)

/-- A message that is not newer than the one held has no effect. -/
theorem Tracks.insert_of_le {s : Set α} {state : κ → Option α} {a b : α}
    (h : Tracks key stamp s state) (hb : state (key a) = some b) (hle : stamp a ≤ stamp b) :
    Tracks key stamp (insert a s) state := by
  refine ⟨fun k c hc ↦ ?_, fun k hk c hmem ↦ ?_⟩
  · have hlatest := h.latest k c hc
    refine ⟨Set.mem_insert_of_mem a hlatest.mem, hlatest.key_eq, fun d hd hkey ↦ ?_⟩
    rcases Set.mem_insert_iff.mp hd with rfl | hd
    · rw [hkey, hc] at hb
      obtain rfl := Option.some.inj hb
      exact hle
    · exact hlatest.le d hd hkey
  · rcases Set.mem_insert_iff.mp hmem with rfl | hmem
    · rintro rfl
      rw [hk] at hb
      cases hb
    · exact h.absent k hk c hmem

variable [DecidableEq κ]

/-- A newer one takes the place of its key. -/
theorem Tracks.insert_of_newer {s : Set α} {state : κ → Option α} {a : α}
    (h : Tracks key stamp s state) (hnewer : ∀ b, state (key a) = some b → stamp b < stamp a) :
    Tracks key stamp (insert a s) (Function.update state (key a) (some a)) := by
  refine ⟨fun k c hc ↦ ?_, fun k hk c hmem ↦ ?_⟩
  · by_cases hkey : k = key a
    · subst hkey
      rw [Function.update_self] at hc
      obtain rfl := Option.some.inj hc
      refine ⟨Set.mem_insert _ _, rfl, fun d hd hkey ↦ ?_⟩
      rcases Set.mem_insert_iff.mp hd with rfl | hd
      · exact le_refl _
      -- the messages seen before are not above the one held before
      · cases hb : state (key a) with
        | some b => exact ((h.latest _ b hb).le d hd hkey).trans (hnewer b hb).le
        | none => exact absurd hkey (h.absent _ hb d hd)
    · rw [Function.update_of_ne hkey] at hc
      have hlatest := h.latest k c hc
      refine ⟨Set.mem_insert_of_mem a hlatest.mem, hlatest.key_eq, fun d hd hd' ↦ ?_⟩
      rcases Set.mem_insert_iff.mp hd with rfl | hd
      · exact absurd hd'.symm hkey
      · exact hlatest.le d hd hd'
  · have hkey : k ≠ key a := by
      rintro rfl
      rw [Function.update_self] at hk
      cases hk
    rw [Function.update_of_ne hkey] at hk
    rcases Set.mem_insert_iff.mp hmem with rfl | hmem
    · exact hkey.symm
    · exact h.absent k hk c hmem

theorem keep_of_le {state : κ → Option α} {a b : α} (hb : state (key a) = some b)
    (hle : stamp a ≤ stamp b) : keep key stamp state a = state := by
  simp only [keep, hb, if_pos hle]

theorem keep_of_newer {state : κ → Option α} {a : α}
    (h : ∀ b, state (key a) = some b → stamp b < stamp a) :
    keep key stamp state a = Function.update state (key a) (some a) := by
  cases hb : state (key a) with
  | some b => simp only [keep, hb, if_neg (not_le.mpr (h b hb))]
  | none => simp only [keep, hb]

/-- **The step lemma**: a delivery adds its message to those the replica has seen. -/
theorem Tracks.keep {s : Set α} {state : κ → Option α} (h : Tracks key stamp s state) (a : α) :
    Tracks key stamp (insert a s) (keep key stamp state a) := by
  by_cases hold : ∃ b, state (key a) = some b ∧ stamp a ≤ stamp b
  · obtain ⟨b, hb, hle⟩ := hold
    rw [keep_of_le hb hle]
    exact h.insert_of_le hb hle
  · push Not at hold
    rw [keep_of_newer hold]
    exact h.insert_of_newer hold

/-- **The run lemma**: after any deliveries the replica holds the latest of them. -/
theorem tracks_foldl_keep (key : α → κ) (stamp : α → ν) (l : List α) :
    Tracks key stamp {a | a ∈ l} (l.foldl (NervesP2P.keep key stamp) fun _ ↦ none) := by
  induction l using List.reverseRecOn with
  | nil => simpa using Tracks.empty
  | append_singleton l a ih =>
    have hset : {b | b ∈ l ++ [a]} = insert a {b | b ∈ l} := by
      ext b
      simp [or_comm]
    rw [hset, List.foldl_append]
    exact ih.keep a

end NervesP2P
