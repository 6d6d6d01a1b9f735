import Mathlib.Tactic

/-!
# Reading a byte slice through an offset

A `Reader` is a byte slice with the position up to which it has been consumed, and a reading
program is a state transformer over it that may fail. Two judgements about such programs carry
most of the codecs.

`Reads p bs a` is completeness in the form that composes: wherever the bytes `bs` stand in a slice,
`p` started at them consumes exactly `bs` and returns `a`. What surrounds them is universally
quantified, so a program built by `bind` reads the concatenation of what its parts read. Since the
outcome is an equation, two values read from the same bytes agree, which is where injectivity of
the encoders comes from.

`Yields p Q` is the partial-correctness counterpart: whatever `p` consumed, a value it returns
satisfies `Q`; `Consumes p Q` also says which bytes it consumed. `Rejects p bs e` is the failure
that corresponds to `Reads`.
-/

namespace NervesP2P

/-- A byte slice and the offset of the next unread byte. -/
structure Reader where
  /-- The whole slice. -/
  bytes : List UInt8
  /-- How many of its bytes have been consumed. -/
  offset : ℕ
  deriving DecidableEq, Repr

/-- A program that consumes bytes of a `Reader` and may fail with an error of type `ε`. -/
abbrev Reading (ε : Type) := StateT Reader (Except ε)

variable {ε α β : Type}
variable {p : Reading ε α} {f : α → Reading ε β} {e : ε} {a : α} {b : β} {bs cs : List UInt8}

namespace Reader

/-- A reader at the start of `bytes`. -/
def new (bytes : List UInt8) : Reader := ⟨bytes, 0⟩

/-- The next `len` bytes. Past the end of the slice this fails with `e` and consumes nothing. The
sum is taken in `ℕ`: the offset and the length of a slice are machine words, so a sum that does not
fit one lies past the end as well. -/
def take (e : ε) (len : ℕ) : Reading ε (List UInt8) := fun r ↦
  if r.offset + len ≤ r.bytes.length then
    .ok ((r.bytes.drop r.offset).take len, { r with offset := r.offset + len })
  else .error e

/-- The next byte, left unconsumed. -/
def peek (e : ε) : Reading ε UInt8 := fun r ↦
  match r.bytes[r.offset]? with
  | some b => .ok (b, r)
  | none => .error e

/-- Succeeds only at the end of the slice. -/
def finish (e : ε) : Reading ε Unit := fun r ↦
  if r.offset = r.bytes.length then .ok ((), r) else .error e

/-- Go on only if `c` holds, else fail with `e`. -/
def check (e : ε) (c : Prop) [Decidable c] : Reading ε Unit := if c then pure () else throw e

/-- The value of an option, `none` being the failure `e`. -/
def okOr (e : ε) : Option α → Reading ε α
  | some a => pure a
  | none => throw e

/-- Run `p` `n` times and collect the values. -/
def times (p : Reading ε α) : ℕ → Reading ε (List α)
  | 0 => pure []
  | n + 1 => do
    let a ← p
    let as ← times p n
    pure (a :: as)

/-- Run `p` and also return the bytes it consumed. -/
def consumed (p : Reading ε α) : Reading ε (α × List UInt8) := do
  let start ← get
  let a ← p
  let stop ← get
  pure (a, (stop.bytes.drop start.offset).take (stop.offset - start.offset))

end Reader

/-! ## Completeness

The rules follow the constructs: sequencing reads the concatenation, and a step that consumes
nothing reads nothing. `Reads.unique` is the only rule that goes the other way. -/

/-- Started at the bytes `bs`, wherever they stand, `p` consumes exactly them and returns `a`. -/
def Reads (p : Reading ε α) (bs : List UInt8) (a : α) : Prop :=
  ∀ front rest : List UInt8,
    p ⟨front ++ (bs ++ rest), front.length⟩
      = .ok (a, ⟨front ++ (bs ++ rest), front.length + bs.length⟩)

namespace Reads

theorem pure (a : α) : Reads (pure a : Reading ε α) [] a := fun _ _ ↦ rfl

/-- Sequencing reads the concatenation. -/
theorem bind (hp : Reads p bs a) (hf : Reads (f a) cs b) : Reads (p >>= f) (bs ++ cs) b := by
  intro front rest
  have hstep : (p >>= f) ⟨front ++ (bs ++ (cs ++ rest)), front.length⟩
      = f a ⟨front ++ (bs ++ (cs ++ rest)), front.length + bs.length⟩ := by
    show (p _ >>= fun x ↦ f x.1 x.2) = _
    rw [hp front (cs ++ rest)]
    rfl
  have hnext := hf (front ++ bs) rest
  rw [List.append_assoc, List.length_append] at hnext
  rw [List.append_assoc, hstep, hnext, List.length_append, add_assoc]

theorem bind_pure (hp : Reads p bs a) (hf : Reads (f a) [] b) : Reads (p >>= f) bs b := by
  simpa using hp.bind hf

theorem pure_bind (hp : Reads p [] a) (hf : Reads (f a) cs b) : Reads (p >>= f) cs b := by
  simpa using hp.bind hf

/-- The value read is determined by the bytes. -/
theorem unique {a' : α} (h : Reads p bs a) (h' : Reads p bs a') : a = a' := by
  have heq := (h [] []).symm.trans (h' [] [])
  injection heq with heq
  exact congrArg Prod.fst heq

theorem take {len : ℕ} (h : bs.length = len) :
    Reads (Reader.take e len) bs bs := by
  intro front rest
  subst h
  simp [Reader.take, ← add_assoc]

/-- A single byte, and what is read after it. -/
theorem take_one_bind {f : List UInt8 → Reading ε β} {b : UInt8} {a : β} (hf : Reads (f [b]) cs a) :
    Reads (Reader.take e 1 >>= f) (b :: cs) a := by
  have hbyte : Reads (Reader.take e 1) [b] [b] := take rfl
  exact hbyte.bind hf

/-- Looking at the first byte consumes nothing, so what follows still reads it. -/
theorem peek_bind {f : UInt8 → Reading ε β} {b : UInt8} {a : β} (hf : Reads (f b) (b :: bs) a) :
    Reads (Reader.peek e >>= f) (b :: bs) a := by
  intro front rest
  have hstep : (Reader.peek e >>= f) ⟨front ++ (b :: bs ++ rest), front.length⟩
      = f b ⟨front ++ (b :: bs ++ rest), front.length⟩ := by
    have hpeek : Reader.peek e ⟨front ++ (b :: bs ++ rest), front.length⟩
        = .ok (b, ⟨front ++ (b :: bs ++ rest), front.length⟩) := by simp [Reader.peek]
    show (Reader.peek e _ >>= fun x ↦ f x.1 x.2) = _
    rw [hpeek]
    rfl
  rw [hstep, hf front rest]

theorem check {c : Prop} [Decidable c] (h : c) : Reads (Reader.check e c) [] () := by
  rw [Reader.check, if_pos h]
  exact pure ()

theorem okOr {o : Option α} (h : o = some a) : Reads (Reader.okOr e o) [] a := by
  rw [h]
  exact pure a

theorem times {enc : α → List UInt8} {as : List α} (h : ∀ a ∈ as, Reads p (enc a) a) :
    Reads (Reader.times p as.length) (as.flatMap enc) as := by
  induction as with
  | nil => exact pure []
  | cons a as ih =>
    have hrest := ih fun b hb ↦ h b (List.mem_cons_of_mem a hb)
    exact (h a List.mem_cons_self).bind (hrest.bind_pure (pure (a :: as)))

theorem consumed (hp : Reads p bs a) :
    Reads (Reader.consumed p) bs (a, bs) := by
  intro front rest
  show (p _ >>= fun x ↦ Except.ok _) = _
  rw [hp front rest]
  show Except.ok _ = _
  simp

end Reads

/-! ## Rejection

What follows a failure is not run, and what is read before it may be accepted. -/

/-- Started at the bytes `bs`, wherever they stand, `p` fails with `e`. -/
def Rejects (p : Reading ε α) (bs : List UInt8) (e : ε) : Prop :=
  ∀ front rest : List UInt8, p ⟨front ++ (bs ++ rest), front.length⟩ = .error e

namespace Rejects

/-- What follows a failure is not run. -/
theorem bind (hp : Rejects p bs e) (cs : List UInt8) : Rejects (p >>= f) (bs ++ cs) e := by
  intro front rest
  show (p _ >>= fun x ↦ f x.1 x.2) = _
  rw [List.append_assoc, hp front (cs ++ rest)]
  rfl

/-- What is read first may be accepted. -/
theorem of_reads (hp : Reads p bs a) (hf : Rejects (f a) cs e) :
    Rejects (p >>= f) (bs ++ cs) e := by
  intro front rest
  have hnext := hf (front ++ bs) rest
  rw [List.append_assoc, List.length_append] at hnext
  show (p _ >>= fun x ↦ f x.1 x.2) = _
  rw [List.append_assoc, hp front (cs ++ rest)]
  exact hnext

theorem check {c : Prop} [Decidable c] (h : ¬c) : Rejects (Reader.check e c) [] e := by
  rw [Reader.check, if_neg h]
  exact fun _ _ ↦ rfl

end Rejects

/-! ## Reading to the end

Where a format ends with its slice, the last bytes need not be followed by anything, and nothing may
be left. -/

/-- Started at the bytes `bs` that end a slice, `p` consumes exactly them and returns `a`. -/
def ReadsAll (p : Reading ε α) (bs : List UInt8) (a : α) : Prop :=
  ∀ front : List UInt8,
    p ⟨front ++ bs, front.length⟩ = .ok (a, ⟨front ++ bs, front.length + bs.length⟩)

namespace ReadsAll

theorem of_reads (h : Reads p bs a) :
    ReadsAll p bs a := by
  intro front
  simpa using h front []

theorem bind (hp : Reads p bs a) (hf : ReadsAll (f a) cs b) : ReadsAll (p >>= f) (bs ++ cs) b := by
  intro front
  have hstep : (p >>= f) ⟨front ++ (bs ++ cs), front.length⟩
      = f a ⟨front ++ (bs ++ cs), front.length + bs.length⟩ := by
    show (p _ >>= fun x ↦ f x.1 x.2) = _
    rw [hp front cs]
    rfl
  have hnext := hf (front ++ bs)
  rw [List.append_assoc, List.length_append] at hnext
  rw [hstep, hnext, List.length_append, add_assoc]

theorem pure_bind (hp : Reads p [] a) (hf : ReadsAll (f a) cs b) : ReadsAll (p >>= f) cs b :=
  bind hp hf

/-- Nothing is left once the bytes that end the slice have been read. -/
theorem finish_bind {f : Unit → Reading ε β} (hf : Reads (f ()) [] b) :
    ReadsAll (Reader.finish e >>= f) [] b := by
  intro front
  have hfinish : Reader.finish e ⟨front ++ [], front.length⟩
      = .ok ((), ⟨front ++ [], front.length⟩) := by simp [Reader.finish]
  show (Reader.finish e _ >>= fun x ↦ f x.1 x.2) = _
  rw [hfinish]
  exact of_reads hf front

/-- A program that reads the whole slice succeeds on it. -/
theorem run_new (hp : ReadsAll p bs a) :
    p (Reader.new bs) = .ok (a, ⟨bs, bs.length⟩) := by
  simpa [Reader.new] using hp []

end ReadsAll

/-! ## Partial correctness -/

/-- Every value `p` returns satisfies `Q`. -/
def Yields (p : Reading ε α) (Q : α → Prop) : Prop :=
  ∀ r a r', p r = .ok (a, r') → Q a

namespace Yields

theorem of_forall {Q : α → Prop} (h : ∀ a, Q a) : Yields p Q :=
  fun _ a _ _ ↦ h a

theorem pure {Q : α → Prop} (h : Q a) : Yields (pure a : Reading ε α) Q := by
  intro r b r' hrun
  cases hrun
  exact h

theorem bind {P : α → Prop} {Q : β → Prop} (hp : Yields p P) (hf : ∀ a, P a → Yields (f a) Q) :
    Yields (p >>= f) Q := by
  intro r b r' hrun
  change (p r >>= fun x ↦ f x.1 x.2) = _ at hrun
  cases hpr : p r with
  | error e => rw [hpr] at hrun; cases hrun
  | ok x =>
    rw [hpr] at hrun
    exact hf x.1 (hp r x.1 x.2 hpr) x.2 b r' hrun

theorem throw {Q : α → Prop} : Yields (throw e : Reading ε α) Q := by
  intro r b r' hrun
  cases hrun

theorem check {c : Prop} [Decidable c] : Yields (Reader.check e c) fun _ ↦ c := by
  rw [Reader.check]
  split
  · next h => exact pure h
  · exact throw

theorem okOr {o : Option α} : Yields (Reader.okOr e o) fun a ↦ o = some a := by
  cases o with
  | none => exact throw
  | some a => exact pure rfl

/-- Nothing is asked of the first program. -/
theorem skip {Q : β → Prop} (hf : ∀ a, Yields (f a) Q) :
    Yields (p >>= f) Q :=
  bind (of_forall fun _ ↦ trivial) fun a _ ↦ hf a

theorem times (n : ℕ) : Yields (Reader.times p n) fun as ↦ as.length = n := by
  induction n with
  | zero => exact pure rfl
  | succ n ih =>
    refine skip fun a ↦ ih.bind fun as has ↦ ?_
    exact pure (by rw [List.length_cons, has])

end Yields

/-! ## What has been consumed -/

/-- Whenever `p` returns a value, it has consumed some of the bytes in front of it, and `Q` holds of
these bytes and the value. -/
def Consumes (p : Reading ε α) (Q : List UInt8 → α → Prop) : Prop :=
  ∀ front tail a r', p ⟨front ++ tail, front.length⟩ = .ok (a, r') →
    ∃ bs rest, tail = bs ++ rest ∧ r' = ⟨front ++ tail, front.length + bs.length⟩ ∧ Q bs a

namespace Consumes

theorem pure {Q : List UInt8 → α → Prop} (h : Q [] a) :
    Consumes (pure a : Reading ε α) Q := by
  intro front tail b r' hrun
  cases hrun
  exact ⟨[], tail, rfl, rfl, h⟩

theorem bind {P : List UInt8 → α → Prop} {Q : List UInt8 → β → Prop} (hp : Consumes p P)
    (hf : ∀ bs a, P bs a → Consumes (f a) fun cs ↦ Q (bs ++ cs)) : Consumes (p >>= f) Q := by
  intro front tail b r' hrun
  change (p _ >>= fun x ↦ f x.1 x.2) = _ at hrun
  cases hpr : p ⟨front ++ tail, front.length⟩ with
  | error e => rw [hpr] at hrun; cases hrun
  | ok x =>
    obtain ⟨a, r⟩ := x
    obtain ⟨bs, rest, rfl, rfl, ha⟩ := hp front tail a r hpr
    rw [hpr] at hrun
    have hnext : f a ⟨(front ++ bs) ++ rest, (front ++ bs).length⟩ = .ok (b, r') := by
      rw [List.append_assoc, List.length_append]
      exact hrun
    obtain ⟨cs, rest, rfl, rfl, hb⟩ := hf bs a ha (front ++ bs) rest b r' hnext
    refine ⟨bs ++ cs, rest, (List.append_assoc _ _ _).symm, ?_, hb⟩
    simp only [List.append_assoc, List.length_append, Nat.add_assoc]

theorem take {len : ℕ} :
    Consumes (Reader.take e len) fun bs a ↦ bs.length = len ∧ a = bs := by
  intro front tail a r' hrun
  rw [Reader.take] at hrun
  split at hrun
  · next hle =>
    cases hrun
    rw [List.length_append, Nat.add_le_add_iff_left] at hle
    have hlength : (tail.take len).length = len := List.length_take_of_le hle
    refine ⟨tail.take len, tail.drop len, (List.take_append_drop _ _).symm, ?_, hlength, ?_⟩
    · rw [hlength]
    · rw [List.drop_left]
  · cases hrun

theorem check {c : Prop} [Decidable c] :
    Consumes (Reader.check e c) fun bs _ ↦ bs = [] ∧ c := by
  rw [Reader.check]
  split
  · next h => exact pure ⟨rfl, h⟩
  · intro front tail a r' hrun
    cases hrun

theorem times {enc : α → List UInt8} {P : α → Prop} (hp : Consumes p fun bs a ↦ bs = enc a ∧ P a)
    (n : ℕ) :
    Consumes (Reader.times p n) fun bs as ↦
      bs = as.flatMap enc ∧ as.length = n ∧ ∀ a ∈ as, P a := by
  induction n with
  | zero => exact pure ⟨rfl, rfl, fun _ h ↦ by cases h⟩
  | succ n ih =>
    refine hp.bind fun bs a ha ↦ ih.bind fun cs as has ↦ pure ?_
    obtain ⟨rfl, hpa⟩ := ha
    obtain ⟨rfl, rfl, hpas⟩ := has
    refine ⟨?_, List.length_cons, List.forall_mem_cons.mpr ⟨hpa, hpas⟩⟩
    rw [List.flatMap_cons, List.append_nil]

end Consumes

end NervesP2P
