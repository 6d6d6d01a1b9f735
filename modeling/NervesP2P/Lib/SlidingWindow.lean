import Mathlib.Data.List.Basic
import Mathlib.Order.Nat

/-!
# A sliding window kept in a queue

A limiter that lets at most `limit` calls through in any span of time needs the calls it has let
through and that still count. It keeps their times in a queue: before each decision it drops expired
times from the front, and a call that passes has its time put at the back. Times behind the front
are never looked at.

`Tracks` compares such a queue with the list of *all* passes. Since the clock does not run
backwards, the queue is in order, and so what is left of it after trimming is exactly the passes
that still count. From that come both directions of the limit: it is reached exactly when `limit`
passes count, and no span holds more than `limit` of them.
-/

namespace NervesP2P

/-- When an entry stops counting. -/
structure Span (α : Type*) [LE α] where
  /-- At `now`, an entry made at `time` does not count any more. -/
  expired (now time : α) : Bool
  of_older {now time time' : α} : time ≤ time' → expired now time' = true → expired now time = true
  of_later {now now' time : α} : now ≤ now' → expired now time = true → expired now' time = true

namespace Span

variable {α : Type*} [LE α] (span : Span α)

/-- The entries that count at a time. -/
def window (now : α) (entries : List α) : List α := entries.filter fun time ↦ !span.expired now time

theorem window_append (now : α) (entries entries' : List α) :
    span.window now (entries ++ entries') = span.window now entries ++ span.window now entries' :=
  List.filter_append ..

/-- In an ordered queue the expired entries are at the front. -/
theorem dropWhile_eq_window {now : α} {queue : List α} (h : queue.Pairwise (· ≤ ·)) :
    queue.dropWhile (span.expired now) = span.window now queue := by
  induction queue with
  | nil => rfl
  | cons time queue ih =>
    obtain ⟨hle, hqueue⟩ := List.pairwise_cons.mp h
    cases hexpired : span.expired now time with
    | true =>
      rw [List.dropWhile_cons_of_pos hexpired, ih hqueue, window, window, List.filter_cons_of_neg]
      simp [hexpired]
    | false =>
      rw [List.dropWhile_cons_of_neg (by simp [hexpired]), window, List.filter_eq_self.mpr]
      intro time' htime'
      rcases List.mem_cons.mp htime' with rfl | hmem
      · simp [hexpired]
      · by_contra hnot
        rw [span.of_older (hle time' hmem) (by simpa using hnot)] at hexpired
        cases hexpired

theorem window_window {now now' : α} (h : now ≤ now') (entries : List α) :
    span.window now' (span.window now entries) = span.window now' entries := by
  rw [window, window, List.filter_filter, window]
  refine List.filter_congr fun time _ ↦ ?_
  cases hexpired : span.expired now time with
  | true => simp [span.of_later h hexpired]
  | false => simp

theorem dropWhile_dropWhile {now now' : α} (h : now ≤ now') (queue : List α) :
    (queue.dropWhile (span.expired now)).dropWhile (span.expired now')
      = queue.dropWhile (span.expired now') := by
  induction queue with
  | nil => rfl
  | cons time queue ih =>
    cases hexpired : span.expired now time with
    | true =>
      rw [List.dropWhile_cons_of_pos hexpired, ih,
        List.dropWhile_cons_of_pos (span.of_later h hexpired)]
    | false => rw [List.dropWhile_cons_of_neg (by simp [hexpired])]

/-! ## The queue and the passes

Three things can happen between two decisions. Time goes on without a call, a call is refused, which
trims the queue, or a call passes, and its time is put at the back of the trimmed queue. Each keeps
the queue standing for the passes. -/

/-- The queue stands for the passes, of which the last was not after `last`. -/
structure Tracks (limit : ℕ) (last : α) (passes queue : List α) : Prop where
  ordered : passes.Pairwise (· ≤ ·)
  le_last : ∀ time ∈ passes, time ≤ last
  trimmed : ∀ now, last ≤ now → queue.dropWhile (span.expired now) = span.window now passes
  length_le : queue.length ≤ limit
  /-- Every pass found fewer than `limit` before it that counted. -/
  paced : ∀ before time after, passes = before ++ time :: after →
    (span.window time before).length < limit

theorem tracks_nil (limit : ℕ) (last : α) : span.Tracks limit last [] [] where
  ordered := List.Pairwise.nil
  le_last := by simp
  trimmed _ _ := rfl
  length_le := by simp
  paced := by simp

section Rules

variable {span} {limit : ℕ} {last now : α} {passes queue : List α} [Std.IsPreorder α]

theorem Tracks.later (h : span.Tracks limit last passes queue) (hnow : last ≤ now) :
    span.Tracks limit now passes queue where
  ordered := h.ordered
  le_last time htime := Std.le_trans (h.le_last time htime) hnow
  trimmed now' hnow' := h.trimmed now' (Std.le_trans hnow hnow')
  length_le := h.length_le
  paced := h.paced

theorem Tracks.trim (h : span.Tracks limit last passes queue) (hnow : last ≤ now) :
    span.Tracks limit now passes (queue.dropWhile (span.expired now)) where
  ordered := h.ordered
  le_last := (h.later hnow).le_last
  trimmed now' hnow' := by
    rw [span.dropWhile_dropWhile hnow']
    exact (h.later hnow).trimmed now' hnow'
  length_le := (List.dropWhile_sublist _).length_le.trans h.length_le
  paced := h.paced

theorem Tracks.push (h : span.Tracks limit last passes queue) (hnow : last ≤ now)
    (hroom : (queue.dropWhile (span.expired now)).length ≠ limit) :
    span.Tracks limit now (passes ++ [now]) (queue.dropWhile (span.expired now) ++ [now]) := by
  have hle := (h.later hnow).le_last
  have htrim := h.trim hnow
  have hlt : (queue.dropWhile (span.expired now)).length < limit :=
    lt_of_le_of_ne htrim.length_le hroom
  have hordered : (passes ++ [now]).Pairwise (· ≤ ·) :=
    List.pairwise_append.mpr ⟨h.ordered, List.pairwise_singleton _ _, fun time htime time' htime' ↦
      List.mem_singleton.mp htime' ▸ hle time htime⟩
  refine ⟨hordered, ?_, ?_, by simpa [Nat.succ_le_iff] using hlt, ?_⟩
  · intro time htime
    rcases List.mem_append.mp htime with hmem | hmem
    · exact hle time hmem
    · rw [List.mem_singleton.mp hmem]
      exact Std.le_refl now
  · intro now' hnow'
    -- the queue is in order: its entries are passes, and the new one is the latest
    have hqueue : (queue.dropWhile (span.expired now) ++ [now]).Pairwise (· ≤ ·) := by
      rw [h.trimmed now hnow]
      exact hordered.sublist (List.filter_sublist.append (List.Sublist.refl _))
    rw [span.dropWhile_eq_window hqueue, h.trimmed now hnow, window_append, window_append,
      span.window_window hnow']
  · intro before time after heq
    rcases List.eq_nil_or_concat after with rfl | ⟨after, time', rfl⟩
    · obtain ⟨rfl, hsingle⟩ := List.append_inj' heq rfl
      rw [← (List.cons.inj hsingle).1, ← h.trimmed now hnow]
      exact hlt
    · rw [List.concat_eq_append, ← List.cons_append, ← List.append_assoc] at heq
      exact h.paced before time after (List.append_inj' heq rfl).1

omit [Std.IsPreorder α] in
/-- **No span holds more than `limit` passes.** `inside` is any set of times in which an earlier one
still counts at a later one. -/
theorem Tracks.length_filter_le (h : span.Tracks limit last passes queue) (inside : α → Bool)
    (hinside : ∀ time now, now ∈ passes → inside time = true → inside now = true → time ≤ now →
      span.expired now time = false) : (passes.filter inside).length ≤ limit := by
  rcases List.eq_nil_or_concat (passes.filter inside) with hnil | ⟨init, now, hconcat⟩
  · simp [hnil]
  -- look at the last pass inside: all the others inside came before it and counted then
  rw [List.concat_eq_append] at hconcat
  obtain ⟨before, rest, hpasses, hbefore, hrest⟩ := List.filter_eq_append_iff.mp hconcat
  obtain ⟨skipped, after, rfl, -, hnow, -⟩ := List.filter_eq_cons_iff.mp hrest
  have hsplit : passes = (before ++ skipped) ++ now :: after := by rw [hpasses, List.append_assoc]
  have hpaced := h.paced _ _ _ hsplit
  have hsub : init.Sublist before := hbefore ▸ List.filter_sublist
  have hcount : span.window now init = init := by
    refine List.filter_eq_self.mpr fun time htime ↦ ?_
    have hmem : time ∈ before.filter inside := hbefore ▸ htime
    have hle : time ≤ now := (List.pairwise_append.mp (hsplit ▸ h.ordered)).2.2 time
      (List.mem_append_left _ (hsub.subset htime)) now List.mem_cons_self
    have hpass : now ∈ passes := hsplit ▸ List.mem_append_right _ List.mem_cons_self
    rw [hinside time now hpass (List.mem_filter.mp hmem).2 hnow hle]
    rfl
  have hlen : init.length ≤ (span.window now (before ++ skipped)).length := by
    rw [← hcount]
    exact ((hsub.trans (List.sublist_append_left _ _)).filter _).length_le
  rw [hconcat, List.length_append, List.length_singleton]
  omega

end Rules

end Span

end NervesP2P
