import Mathlib.Tactic

/-!
# Reading exact amounts from a stream

A program that takes its input from a byte stream through `read_exact` alone: each read fills a
buffer of a given length, and what is done next depends on the bytes. The stream arrives in
fragments, none of them longer than what the buffer still lacks, so such a program never holds a
byte that it has not asked for.

A program in the middle of a read is again a program, the one that waits for the missing rest.
`feed` is the arrival of a fragment and `run` the meaning of a program on a whole stream. The lemma
that ties them together, `run_feed`, is all one needs to forget about fragments: a program that has
been fed is the program on the rest of the stream.
-/

namespace NervesP2P

/-- A program that reads a stream by exact amounts. -/
inductive ReadExact (ε α : Type) where
  | done (result : Except ε α)
  /-- The buffer of the current read lacks some bytes. -/
  | more (missing : ℕ) (next : List UInt8 → ReadExact ε α)

namespace ReadExact

variable {ε α β : Type}
variable {p : ReadExact ε α} {rest stream : List UInt8}

/-! ## Programs -/

/-- Run a program and go on with its value. -/
def bind : ReadExact ε α → (α → ReadExact ε β) → ReadExact ε β
  | done (.ok a), f => f a
  | done (.error e), _ => done (.error e)
  | more n next, f => more n fun bytes ↦ bind (next bytes) f

instance : Monad (ReadExact ε) where
  pure a := done (.ok a)
  bind := bind

/-- Give up. -/
def fail (e : ε) : ReadExact ε α := done (.error e)

/-- Fill a buffer of the given length. An empty buffer is full at once. -/
def exact (length : ℕ) : ReadExact ε (List UInt8) :=
  if length = 0 then done (.ok []) else more length fun bytes ↦ done (.ok bytes)

/-- How many bytes the current read lacks. -/
def missing : ReadExact ε α → ℕ
  | done _ => 0
  | more n _ => n

/-- A fragment arrives. -/
def feed (fragment : List UInt8) : ReadExact ε α → ReadExact ε α
  | done result => done result
  | more n next =>
    if fragment.length = n then next fragment
    else more (n - fragment.length) fun rest ↦ next (fragment ++ rest)

/-- The result of a program on a whole stream and what it leaves unread; `none` when the stream
ends inside a read. -/
def run : ReadExact ε α → List UInt8 → Option (Except ε α × List UInt8)
  | done result, bytes => some (result, bytes)
  | more n next, bytes =>
    if n ≤ bytes.length then run (next (bytes.take n)) (bytes.drop n) else none

/-! ## What a program reads

The rules for whole streams. A program that goes on after filling a buffer has found the bytes of
it; what it leaves unread is the end of the stream, and what follows is left unread as well. -/

@[simp] theorem run_done (result : Except ε α) (bytes : List UInt8) :
    (done result).run bytes = some (result, bytes) := rfl

@[simp] theorem run_pure (a : α) (bytes : List UInt8) :
    (pure a : ReadExact ε α).run bytes = some (.ok a, bytes) := rfl

theorem run_exact (n : ℕ) (bytes : List UInt8) :
    (exact n : ReadExact ε (List UInt8)).run bytes
      = if n ≤ bytes.length then some (.ok (bytes.take n), bytes.drop n) else none := by
  by_cases h : n = 0
  · subst h
    rfl
  · rw [exact, if_neg h]
    rfl

theorem run_bind (p : ReadExact ε α) (f : α → ReadExact ε β) (bytes : List UInt8) :
    (p >>= f).run bytes = (p.run bytes).bind fun
      | (.ok a, rest) => (f a).run rest
      | (.error e, rest) => some (.error e, rest) := by
  induction p generalizing bytes with
  | done result => cases result <;> rfl
  | more n next ih =>
    have hbind : (more n next >>= f) = more n fun bytes ↦ next bytes >>= f := rfl
    rw [hbind, run, run]
    split
    · exact ih _ _
    · rfl

theorem run_exact_bind {n : ℕ} {bytes : List UInt8} (h : bytes.length = n)
    (f : List UInt8 → ReadExact ε β) (rest : List UInt8) :
    (exact n >>= f).run (bytes ++ rest) = (f bytes).run rest := by
  have hle : n ≤ (bytes ++ rest).length := by
    rw [List.length_append]
    omega
  rw [run_bind, run_exact, if_pos hle, List.take_left' h, List.drop_left' h]
  rfl

theorem exists_of_run_exact_bind {n : ℕ} {f : List UInt8 → ReadExact ε β} {result : Except ε β}
    (h : (exact n >>= f).run stream = some (result, rest)) :
    ∃ bytes tail, bytes.length = n ∧ stream = bytes ++ tail
      ∧ (f bytes).run tail = some (result, rest) := by
  rw [run_bind, run_exact] at h
  split at h
  · next hle =>
    exact ⟨_, _, List.length_take_of_le hle, (List.take_append_drop n stream).symm, h⟩
  · cases h

theorem exists_of_run_bind_ok {f : α → ReadExact ε β} {b : β}
    (h : (p >>= f).run stream = some (.ok b, rest)) :
    ∃ a tail, p.run stream = some (.ok a, tail) ∧ (f a).run tail = some (.ok b, rest) := by
  rw [run_bind, Option.bind_eq_some_iff] at h
  obtain ⟨⟨result, tail⟩, hp, hf⟩ := h
  cases result with
  | ok a => exact ⟨a, tail, hp, hf⟩
  | error e => cases hf

theorem suffix_of_run {result : Except ε α} (h : p.run stream = some (result, rest)) :
    rest <:+ stream := by
  induction p generalizing stream with
  | done result' =>
    rw [run_done, Option.some_inj, Prod.mk.injEq] at h
    rw [h.2]
  | more n next ih =>
    rw [run] at h
    split at h
    · exact (ih _ h).trans (List.drop_suffix n stream)
    · cases h

theorem run_append {result : Except ε α} (h : p.run stream = some (result, rest))
    (tail : List UInt8) :
    p.run (stream ++ tail) = some (result, rest ++ tail) := by
  induction p generalizing stream with
  | done result' =>
    rw [run_done, Option.some_inj, Prod.mk.injEq] at h
    rw [run_done, h.1, h.2]
  | more n next ih =>
    rw [run] at h
    split at h
    · next hle =>
      rw [run, if_pos (by rw [List.length_append]; omega), List.take_append_of_le_length hle,
        List.drop_append_of_le_length hle]
      exact ih _ h
    · cases h

/-! ## Fragments -/

/-- **A program that has been fed is the program on the rest of the stream.** -/
theorem run_feed {fragment : List UInt8} (h : fragment.length ≤ p.missing) (rest : List UInt8) :
    (p.feed fragment).run rest = p.run (fragment ++ rest) := by
  cases p with
  | done result =>
    obtain rfl := List.length_eq_zero_iff.mp (Nat.le_zero.mp h)
    rfl
  | more n next =>
    rw [missing] at h
    rw [feed]
    split
    · next heq =>
      rw [run, List.length_append, if_pos (by omega), List.take_left' heq, List.drop_left' heq]
    · rw [run, run, List.length_append, List.take_append, List.drop_append,
        List.take_of_length_le h, List.drop_of_length_le h, List.nil_append]
      by_cases hle : n - fragment.length ≤ rest.length
      · rw [if_pos hle, if_pos (by omega)]
      · rw [if_neg hle, if_neg (by omega)]

/-! ## Fragments of any length

A fragment may also be longer than what the current read lacks. The reads that follow take from it
what they need, and the rest is left on the stream. -/

/-- The program after a fragment, and what it leaves of it. -/
def consume : ReadExact ε α → List UInt8 → ReadExact ε α × List UInt8
  | done result, bytes => (done result, bytes)
  | more n next, bytes =>
    if n ≤ bytes.length then consume (next (bytes.take n)) (bytes.drop n)
    else (more (n - bytes.length) fun rest ↦ next (bytes ++ rest), [])

/-- The program after one fragment and the other, and all that it leaves of them. -/
def consumeAll (p : ReadExact ε α) (fragments : List (List UInt8)) :
    ReadExact ε α × List UInt8 :=
  fragments.foldl (fun state fragment ↦
    ((state.1.consume fragment).1, state.2 ++ (state.1.consume fragment).2)) (p, [])

/-- What is consumed is what the program reads. -/
theorem run_eq_some_iff {bytes : List UInt8} {result : Except ε α} :
    p.run bytes = some (result, rest) ↔ p.consume bytes = (done result, rest) := by
  induction p generalizing bytes with
  | done result' => simp [run, consume]
  | more n next ih =>
    rw [run, consume]
    split
    · exact ih _
    · simp

/-- **A cut makes no difference.** -/
theorem consume_append (p : ReadExact ε α) (first second : List UInt8) :
    p.consume (first ++ second) = (((p.consume first).1.consume second).1,
      (p.consume first).2 ++ ((p.consume first).1.consume second).2) := by
  induction p generalizing first with
  | done result => rfl
  | more n next ih =>
    rw [consume, consume, List.length_append]
    by_cases hfirst : n ≤ first.length
    · -- the read ends inside the first fragment
      rw [if_pos hfirst, if_pos (by omega), List.take_append_of_le_length hfirst,
        List.drop_append_of_le_length hfirst]
      exact ih _ _
    · rw [if_neg hfirst]
      have hle := not_le.mp hfirst
      simp only [consume, List.take_append, List.drop_append, List.take_of_length_le hle.le,
        List.drop_of_length_le hle.le, List.nil_append, List.append_assoc, List.nil_append]
      by_cases hboth : n - first.length ≤ second.length
      · rw [if_pos hboth, if_pos (by omega)]
      · rw [if_neg hboth, if_neg (by omega), Nat.sub_sub]

theorem consume_nil (h : ∀ next, p ≠ more 0 next) : p.consume [] = (p, []) := by
  cases p with
  | done result => rfl
  | more n next =>
    have hn : n ≠ 0 := fun hn ↦ h next (by rw [hn])
    rw [consume, if_neg (by rw [List.length_nil]; omega)]
    rfl

/-- **However a stream is cut into fragments**, the program ends as on the whole stream. -/
theorem consumeAll_eq (h : ∀ next, p ≠ more 0 next) (fragments : List (List UInt8)) :
    p.consumeAll fragments = p.consume fragments.flatten := by
  induction fragments using List.reverseRecOn with
  | nil => exact (consume_nil h).symm
  | append_singleton fragments fragment ih =>
    rw [consumeAll] at ih
    rw [consumeAll, List.foldl_append, ih, List.flatten_append, List.flatten_singleton,
      consume_append]
    rfl

end ReadExact

end NervesP2P
