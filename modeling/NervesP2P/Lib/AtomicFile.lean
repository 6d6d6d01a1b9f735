import NervesP2P.Lib.Method

/-!
# Replacing a file atomically

The usual way to replace the contents of a file so that a crash never leaves half of them: write a
temporary file next to it, sync it, rename it over the file, and sync the directory. Every step can
fail, and the process can die between any two.

## What a crash can leave

A rename is atomic, but until a sync of the directory has succeeded a crash may bring back what the
file was before it, and with several renames since the last successful sync, any of those contents.
`Disk` keeps them. `Disk.contents` lists everything a crash may leave, what a read sees now first.

The whole behaviour of a replacement is in three lemmas: when it returns, only the new contents are
left (`contents_of_returns_atomicWrite`); when it fails, the old contents are all still possible,
and the new ones have joined them if the rename was reached (`fails_atomicWrite`). When no step is
planned to fail, it returns (`returns_atomicWrite_of_faultless`).
-/

namespace NervesP2P

/-- The steps of a replacement that can fail. -/
inductive Fault where
  | createDir
  | openTemporary
  /-- The write fails after some bytes. -/
  | writeTemporary (written : ℕ)
  | syncTemporary
  | rename
  | openParent
  | syncParent
  deriving DecidableEq

/-- The step comes before the file is replaced. -/
def Fault.early : Fault → Bool
  | .createDir | .openTemporary | .writeTemporary _ | .syncTemporary | .rename => true
  | .openParent | .syncParent => false

/-- A file on a disk, and what a crash may do to it. -/
structure Disk where
  /-- The contents a read finds; `none` when there is no file. -/
  file : Option (List UInt8)
  /-- Earlier contents that a crash may bring back. -/
  older : List (Option (List UInt8))
  /-- The temporary file. -/
  temporary : Option (List UInt8)
  /-- How the next replacements fail, each at most at one step; later ones succeed. -/
  faults : List (Option Fault)

namespace Disk

variable {d d' : Disk} {bytes : List UInt8} {parent : Option String} {g : Fault}
  {fault : Option Fault} {u : Unit}

/-- Everything a crash may leave in the file. -/
def contents (disk : Disk) : List (Option (List UInt8)) := disk.file :: disk.older

/-- A crash of the machine: one of the possible contents survives. -/
def lose (survivor : Option (List UInt8)) (disk : Disk) : Disk :=
  { disk with file := survivor, older := [] }

/-- The fault planned for the next replacement. -/
def nextFault : Method Disk Fault (Option Fault) := do
  let disk ← get
  modify fun disk ↦ { disk with faults := disk.faults.tail }
  pure disk.faults.head?.join

/-- A step that fails as a whole, without an effect. -/
def step (fault : Option Fault) (step : Fault) (effect : Disk → Disk) : Method Disk Fault Unit := do
  Method.failIf (fault = some step) step
  modify effect

/-- Write to the temporary file; a failed write leaves some of the bytes in it. -/
def writeTemporary (fault : Option Fault) (bytes : List UInt8) : Method Disk Fault Unit :=
  match fault with
  | some (.writeTemporary written) => do
    modify fun disk ↦ { disk with temporary := some (bytes.take written) }
    throw (.writeTemporary written)
  | _ => modify fun disk ↦ { disk with temporary := some bytes }

/-- The steps after which the temporary file is removed on failure. -/
def replace (parent : String) (fault : Option Fault) (bytes : List UInt8) :
    Method Disk Fault Unit := do
  -- opening creates the temporary file, or truncates one that was left behind
  step fault .openTemporary fun disk ↦ { disk with temporary := some [] }
  writeTemporary fault bytes
  step fault .syncTemporary id
  step fault .rename fun disk ↦
    { disk with file := disk.temporary, older := disk.file :: disk.older, temporary := none }
  -- there is no directory with the empty name
  Method.failIf (parent = "") .openParent
  step fault .openParent id
  step fault .syncParent fun disk ↦ { disk with older := [] }

/-- Replace the contents of the file, given the parent of its path. A path without a directory
part has an empty parent, and the root has none. -/
def atomicWrite (parent : Option String) (bytes : List UInt8) : Method Disk Fault Unit := do
  let parent := parent.getD "."
  let fault ← nextFault
  step fault .createDir id
  let result ← Method.attempt (replace parent fault bytes)
  match result with
  | .ok () => pure ()
  | .error error => do
    modify fun disk ↦ { disk with temporary := none }
    throw error

theorem returns_step {f : Fault} {effect : Disk → Disk} :
    (step fault f effect).Returns d u d' ↔ fault ≠ some f ∧ d' = effect d := by
  simp only [step, Method.returns_bind, Method.returns_failIf, Method.returns_modify]
  constructor
  · rintro ⟨_, _, ⟨hne, rfl⟩, rfl⟩
    exact ⟨hne, rfl⟩
  · rintro ⟨hne, rfl⟩
    exact ⟨(), d, ⟨hne, rfl⟩, rfl⟩

theorem fails_step {f : Fault} {effect : Disk → Disk} :
    (step fault f effect).Fails d g d' ↔ fault = some f ∧ f = g ∧ d = d' := by
  simp only [step, Method.fails_bind, Method.fails_failIf, Method.fails_modify, and_false,
    exists_false, or_false]

theorem returns_writeTemporary (h : (writeTemporary fault bytes).Returns d u d') :
    d' = { d with temporary := some bytes } ∧ ∀ n, fault ≠ some (.writeTemporary n) := by
  unfold writeTemporary at h
  split at h
  · simp at h
  · next hother => exact ⟨Method.returns_modify.mp h, hother⟩

theorem fails_writeTemporary (h : (writeTemporary fault bytes).Fails d g d') :
    d'.contents = d.contents ∧ ∃ n, fault = some (.writeTemporary n) := by
  unfold writeTemporary at h
  split at h
  · next n =>
    simp only [Method.fails_bind, Method.fails_modify, Method.returns_modify, Method.fails_throw,
      false_or] at h
    obtain ⟨_, _, rfl, -, rfl⟩ := h
    exact ⟨rfl, n, rfl⟩
  · exact absurd h Method.fails_modify

theorem returns_replace {parent : String} (h : (replace parent fault bytes).Returns d u d') :
    d'.contents = [some bytes] ∧ parent ≠ "" ∧ ∀ f, fault = some f → f = .createDir := by
  simp only [replace, Method.returns_bind, returns_step, Method.returns_failIf] at h
  obtain ⟨_, _, ⟨hopen, rfl⟩, _, _, hwrite, _, _, ⟨hsync, rfl⟩, _, _, ⟨hrename, rfl⟩, _, _,
    ⟨hparent, rfl⟩, _, _, ⟨hopenParent, rfl⟩, hsyncParent, rfl⟩ := h
  obtain ⟨rfl, hother⟩ := returns_writeTemporary hwrite
  refine ⟨rfl, hparent, ?_⟩
  rintro f rfl
  cases f <;> simp_all

/-- A failed replacement has failed before the rename, or the new contents have joined the old. -/
theorem fails_replace {parent : String} (h : (replace parent fault bytes).Fails d g d') :
    (d'.contents = d.contents ∧ ∃ f, fault = some f ∧ f.early = true)
      ∨ d'.contents = some bytes :: d.contents
        ∧ ∀ f, fault = some f → f ≠ .createDir → f.early = false := by
  simp only [replace, Method.fails_bind, fails_step, returns_step, Method.fails_failIf,
    Method.returns_failIf] at h
  -- up to the rename the contents are the old ones
  rcases h with ⟨hfault, -, rfl⟩ | ⟨_, _, ⟨hopen, rfl⟩, hwrite | ⟨_, _, hwrite, h⟩⟩
  · exact Or.inl ⟨rfl, _, hfault, rfl⟩
  · obtain ⟨hcontents, n, hfault⟩ := fails_writeTemporary hwrite
    exact Or.inl ⟨hcontents.trans rfl, _, hfault, rfl⟩
  obtain ⟨rfl, hother⟩ := returns_writeTemporary hwrite
  rcases h with ⟨hfault, -, rfl⟩ |
    ⟨_, _, ⟨hsync, rfl⟩, ⟨hfault, -, rfl⟩ | ⟨_, _, ⟨hrename, rfl⟩, h⟩⟩
  · exact Or.inl ⟨rfl, _, hfault, rfl⟩
  · exact Or.inl ⟨rfl, _, hfault, rfl⟩
  -- and after it the new ones have joined them
  refine Or.inr ⟨?_, ?_⟩
  · rcases h with ⟨-, -, rfl⟩ | ⟨_, _, ⟨-, rfl⟩, ⟨-, -, rfl⟩ | ⟨_, _, ⟨-, rfl⟩, -, -, rfl⟩⟩
    all_goals rfl
  · rintro f rfl hcreate
    cases f <;> simp_all [Fault.early]

/-! ## The results -/

/-- How the next replacement is planned to fail. -/
def planned (disk : Disk) : Option Fault := disk.faults.head?.join

theorem returns_atomicWrite (h : (atomicWrite parent bytes).Returns d u d') :
    d'.contents = [some bytes] ∧ parent ≠ some "" ∧ d.planned = none := by
  simp only [atomicWrite, nextFault, Method.returns_bind, Method.returns_get, Method.returns_modify,
    Method.returns_pure, returns_step, Method.returns_attempt] at h
  obtain ⟨fault, _, ⟨_, _, ⟨rfl, rfl⟩, _, _, rfl, rfl, rfl⟩, _, _, ⟨hcreate, rfl⟩, result, d₁,
    hcall, h⟩ := h
  cases result with
  | ok u =>
    obtain ⟨-, rfl⟩ := Method.returns_pure.mp h
    obtain ⟨hcontents, hparent, hfault⟩ := returns_replace hcall
    refine ⟨hcontents, fun hempty ↦ hparent (by rw [hempty]; rfl), ?_⟩
    rw [Option.eq_none_iff_forall_ne_some]
    rintro f hf
    exact hcreate (hf.trans (congrArg some (hfault f hf)))
  | error error => simp at h

theorem contents_of_returns_atomicWrite (h : (atomicWrite parent bytes).Returns d u d') :
    d'.contents = [some bytes] :=
  (returns_atomicWrite h).1

/-- **What a failed replacement leaves** depends on the step that failed. -/
theorem fails_atomicWrite (h : (atomicWrite parent bytes).Fails d g d') :
    (d'.contents = d.contents ∧ ∃ f, d.planned = some f ∧ f.early = true)
      ∨ d'.contents = some bytes :: d.contents ∧ ∀ f, d.planned = some f → f.early = false := by
  simp only [atomicWrite, nextFault, Method.fails_bind, Method.fails_get, Method.returns_bind,
    Method.returns_get, Method.fails_modify, Method.returns_modify, Method.fails_pure,
    Method.returns_pure, fails_step, returns_step, Method.fails_attempt, Method.returns_attempt,
    false_or, and_false, exists_false] at h
  obtain ⟨fault, _, ⟨_, _, ⟨rfl, rfl⟩, _, _, rfl, rfl, rfl⟩, h⟩ := h
  rcases h with ⟨hfault, -, rfl⟩ | ⟨_, _, ⟨hcreate, rfl⟩, result, d₁, hcall, h⟩
  · exact Or.inl ⟨rfl, _, hfault, rfl⟩
  cases result with
  | ok u => exact absurd h Method.fails_pure
  | error error =>
    simp only [Method.fails_bind, Method.fails_modify, Method.returns_modify, Method.fails_throw,
      false_or] at h
    obtain ⟨_, _, rfl, -, rfl⟩ := h
    rcases fails_replace hcall with hold | ⟨hnew, hlate⟩
    · exact Or.inl hold
    · exact Or.inr ⟨hnew, fun f hf ↦ hlate f hf fun hf' ↦ hcreate (hf.trans (congrArg some hf'))⟩

theorem contents_of_fails_atomicWrite (h : (atomicWrite parent bytes).Fails d g d') :
    d'.contents = d.contents ∨ d'.contents = some bytes :: d.contents := by
  rcases fails_atomicWrite h with ⟨hold, -⟩ | ⟨hnew, -⟩
  · exact Or.inl hold
  · exact Or.inr hnew

/-- With no fault planned, a replacement returns and leaves the new contents only. -/
theorem returns_atomicWrite_of_planned (hparent : parent ≠ some "") (hplanned : d.planned = none)
    (bytes : List UInt8) :
    (atomicWrite parent bytes).Returns d () ⟨some bytes, [], none, d.faults.tail⟩ := by
  have hempty : parent.getD "." ≠ "" := by
    cases parent with
    | none => decide
    | some name => exact fun h ↦ hparent (congrArg some h)
  have hfault : nextFault.Returns d none { d with faults := d.faults.tail } := by
    simp only [nextFault, Method.returns_bind, Method.returns_get, Method.returns_modify,
      Method.returns_pure]
    exact ⟨d, d, ⟨rfl, rfl⟩, (), _, rfl, hplanned, rfl⟩
  have hreplace : (replace (parent.getD ".") none bytes).Returns { d with faults := d.faults.tail }
      () ⟨some bytes, [], none, d.faults.tail⟩ := by
    simp only [replace, writeTemporary, Method.returns_bind, returns_step, Method.returns_failIf,
      Method.returns_modify]
    exact ⟨(), _, ⟨by simp, rfl⟩, (), _, rfl, (), _, ⟨by simp, rfl⟩, (), _, ⟨by simp, rfl⟩, (), _,
      ⟨hempty, rfl⟩, (), _, ⟨by simp, rfl⟩, by simp, rfl⟩
  simp only [atomicWrite, Method.returns_bind, returns_step, Method.returns_attempt]
  exact ⟨none, _, hfault, (), _, ⟨by simp, rfl⟩, .ok (), _, hreplace,
    Method.returns_pure.mpr ⟨rfl, rfl⟩⟩

theorem returns_atomicWrite_of_faultless (hparent : parent ≠ some "") (hfaults : d.faults = [])
    (bytes : List UInt8) :
    (atomicWrite parent bytes).Returns d () ⟨some bytes, [], none, []⟩ := by
  have hplanned : d.planned = none := by
    rw [planned, hfaults]
    rfl
  have hreturns := returns_atomicWrite_of_planned hparent hplanned bytes
  rwa [hfaults] at hreturns

/-! ### Failing too late -/

/-- The next replacement fails when the file is already replaced: the directory cannot be synced,
which for a path without a directory part is always so. -/
def FailsLate (parent : Option String) (disk : Disk) : Prop :=
  match disk.planned with
  | some fault => fault.early = false
  | none => parent = some ""

/-- Then it fails, and the file holds the new contents. -/
theorem FailsLate.exists_fails (h : d.FailsLate parent) (bytes : List UInt8) :
    ∃ g d', (atomicWrite parent bytes).Fails d g d' ∧ d'.file = some bytes := by
  rw [FailsLate] at h
  rcases Method.returns_or_fails (atomicWrite parent bytes) d with ⟨u, hreturns⟩ | ⟨g, hfails⟩
  · obtain ⟨-, hparent, hnone⟩ := returns_atomicWrite hreturns
    rw [hnone] at h
    exact absurd h hparent
  · refine ⟨g, _, hfails, ?_⟩
    rcases fails_atomicWrite hfails with ⟨-, f, hf, hearly⟩ | ⟨hnew, -⟩
    · rw [hf] at h
      exact absurd (h.symm.trans hearly) (by decide)
    · exact (List.cons.inj hnew).1

/-- Otherwise a failure leaves the file alone. -/
theorem file_of_fails_atomicWrite (hlate : ¬d.FailsLate parent)
    (h : (atomicWrite parent bytes).Fails d g d') :
    d'.file = d.file := by
  rcases fails_atomicWrite h with ⟨hold, -⟩ | ⟨-, hfault⟩
  · exact (List.cons.inj hold).1
  · rw [FailsLate] at hlate
    split at hlate
    · next f hf => exact absurd (hfault f hf) hlate
    · next hnone =>
      exact absurd h (returns_atomicWrite_of_planned hlate hnone bytes).not_fails

end Disk

end NervesP2P
