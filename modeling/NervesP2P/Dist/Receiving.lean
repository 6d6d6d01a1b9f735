import NervesP2P.Dist.Window

/-!
# Receive credit, counted twice

How much may still be read from a stream is kept in the entry, for the calls of `credit`, and in a
variable of the task, for the length of the next read. A grant reaches the entry at once and the
task through the queue; a read is subtracted by the task first and from the entry after the lock. So
the two differ by what is under way, and the read belongs to the side of the task:

```text
task's count + grants in the queue + read not yet subtracted from the entry = entry's count
```

The equation holds as long as there is an entry, also after the loop has been left. Neither
subtraction goes below zero, and the check that would close a stream with `invalid_credit` never
fires, since `credit` has made it before.
-/

namespace NervesP2P

/-- The reason a task is about to report. -/
def Task.reason : Task → Option CloseReason
  | .closing reason | .reporting reason => some reason
  | _ => none

theorem Task.reason_of_not_opened {task : Task} (h : task.opened = false) : task.reason = none := by
  cases task with
  | connecting _ _ | accepting _ => rfl
  | _ => cases h

theorem Task.untold_of_not_opened {task : Task} (h : task.opened = false) : task.untold = 0 := by
  cases task with
  | connecting _ _ | accepting _ => rfl
  | _ => cases h

theorem grantedBytes_append (t u : List Action) :
    grantedBytes (t ++ u) = grantedBytes t + grantedBytes u := by
  rw [grantedBytes, List.map_append, List.sum_append, grantedBytes, grantedBytes]

namespace Side

variable {s s' : Side} {action : Action}

/-! ## The two counts

Calls change the entry and the queue together, and steps of the task change the entry, the queue and
the task's own count. A task that leaves the loop forgets nothing of this. -/

/-- The entry counts what the task counts and what is under way. -/
def Counted (side : Side) : Prop :=
  ∀ entry, side.entry = some entry →
    side.receiveCredit + queuedCredit side.commands + side.task.untaken = entry.receiveCredit

theorem Counted.call (hs : s.Counted) {entry entry' : StreamState} {command : StreamCommand}
    (hentry : s.entry = some entry)
    (h' : s' = { s with commands := s.commands ++ [command], entry := some entry' })
    (hsum : entry'.receiveCredit = entry.receiveCredit + queuedCredit [command]) :
    s'.Counted := by
  subst h'
  rintro _ ⟨⟩
  have hcounts := hs entry hentry
  simp only [queuedCredit_append, hsum]
  omega

theorem Counted.leave (hs : s.Counted) (hentry : s'.entry = s.entry)
    (hsum : s'.receiveCredit + queuedCredit s'.commands + s'.task.untaken
      = s.receiveCredit + queuedCredit s.commands + s.task.untaken) : s'.Counted := by
  intro entry hentry'
  rw [hsum]
  exact hs entry (hentry.symm.trans hentry')

theorem counted_of_live (hs : s.Bounded) (hlive : s.task.live = true) : s.Counted := by
  intro entry hentry
  obtain ⟨found, hfound, hcounts⟩ := hs.counts hlive
  obtain rfl := Option.some.inj (hentry.symm.trans hfound)
  exact hcounts.symm

/-- **A step keeps the two counts together.** -/
theorem Step.counted (h : s.Step action s') (hsound : s.Sound) (hbounded : s.Bounded)
    (hs : s.Counted) : s'.Counted := by
  have hbounded' := h.bounded hsound hbounded
  -- inside the loop the bounds say it; what is left are calls and the ways out
  by_cases hlive : s'.task.live = true
  · exact counted_of_live hbounded' hlive
  cases h with
  | send h =>
    obtain ⟨-, entry, hentry, -, -, h'⟩ := returns_send.mp h
    exact hs.call hentry h' rfl
  | credit h =>
    obtain ⟨-, entry, hentry, -, -, h'⟩ := returns_credit.mp h
    exact hs.call hentry h' rfl
  | close h =>
    obtain ⟨hsome, -, h'⟩ := returns_close.mp h
    obtain ⟨entry, hentry⟩ := Option.isSome_iff_exists.mp hsome
    rw [hentry] at h'
    exact hs.call hentry h' rfl
  | takeClose h hc =>
    refine hs.leave rfl ?_
    rw [h, hc]
    exact congrArg (s.receiveCredit + ·) (Nat.zero_add _).symm
  | noCommands h | writeFails h | creditEventFails h | dataEventFails h | readEnd _ h
  | readFails _ h | report h | reportFails h => exact hs.leave rfl (by rw [h]; rfl)
  | announceFails | remove =>
    rintro _ ⟨⟩
  | writeHeader _ h | connectFailed h | readHeader _ _ h | refused h =>
    exact absurd hsound.opened (by rw [h]; exact Bool.false_ne_true)
  | takeCredit h hc =>
    rw [Side.takeCredit, if_neg (not_lt.mpr (hbounded.grant_le h hc))] at hlive
    exact absurd (by rw [h]; rfl) hlive
  | deduct h =>
    obtain ⟨entry, hentry, -⟩ := hbounded.counts (by rw [h]; rfl)
    rw [Side.deduct, hentry] at hlive
    simp only [if_neg (not_lt.mpr (hbounded.read_le h hentry))] at hlive
    exact absurd rfl hlive
  | connected | allowed | announce | takeSend | write | written
  | replenish | creditEvent | readData | dataEvent => exact absurd rfl hlive

/-! ## Why a stream is closed

A task closes its stream with `invalid_credit` only when it takes a grant that leads over the
window. Together with the equation above, and since the entry is within the window, this never
happens; what it says of events needs that only the report of a reason makes a task say why it has
ended. -/

theorem Step.invalidCredit (h : s.Step action s') (hreason : s'.task.reason = some .invalidCredit) :
    s.task.reason = some .invalidCredit ∨ ∃ bytes rest, s.task = .selecting
      ∧ s.commands = .credit bytes :: rest ∧ creditWindow < s.receiveCredit + bytes := by
  cases h with
  | send h =>
    obtain ⟨-, entry, -, -, -, rfl⟩ := returns_send.mp h
    exact Or.inl hreason
  | credit h =>
    obtain ⟨-, entry, -, -, -, rfl⟩ := returns_credit.mp h
    exact Or.inl hreason
  | close h =>
    obtain ⟨-, -, rfl⟩ := returns_close.mp h
    exact Or.inl hreason
  | @takeCredit bytes rest h hc =>
    rw [Side.takeCredit] at hreason
    split at hreason
    · next hexceeds => exact Or.inr ⟨bytes, rest, h, hc, hexceeds⟩
    · exact Or.inl hreason
  | deduct h =>
    rw [Side.deduct] at hreason
    split at hreason
    · cases hreason
    · split at hreason <;> cases hreason
  | remove h =>
    rw [h]
    exact Or.inl hreason
  | _ => cases hreason

/-- What is known of the reason of a stream's end, in the task and in the events. -/
structure Creditable (trace : List Action) (side : Side) : Prop where
  reason : side.task.reason ≠ some .invalidCredit
  closed : .closed .invalidCredit ∉ events trace

theorem Step.closed_mem (h : s.Step action s') {reason : CloseReason}
    (hmem : .closed reason ∈ events [action]) :
    s.task = .reporting reason := by
  cases h with
  | report h =>
    obtain rfl := Event.closed.inj (List.mem_singleton.mp hmem)
    exact h
  | @announce opening h =>
    cases opening with
    | incoming _ _ | connected _ => cases List.mem_singleton.mp hmem
  | creditEvent | dataEvent => cases List.mem_singleton.mp hmem
  | _ => cases hmem

theorem Creditable.step {trace : List Action} (hs : Creditable trace s) (h : s.Step action s')
    (hgrant : ∀ bytes rest, s.task = .selecting → s.commands = .credit bytes :: rest →
      s.receiveCredit + bytes ≤ creditWindow) : Creditable (trace ++ [action]) s' := by
  constructor
  · intro hreason
    rcases h.invalidCredit hreason with hbefore | ⟨bytes, rest, htask, hc, hexceeds⟩
    · exact hs.reason hbefore
    · exact absurd (hgrant bytes rest htask hc) (not_le.mpr hexceeds)
  · rw [events_append, List.mem_append]
    rintro (hbefore | hnow)
    · exact hs.closed hbefore
    · exact hs.reason (by rw [h.closed_mem hnow]; rfl)

/-! ## What is delivered

Data is told only after it was subtracted from the entry, so the bytes in data events are bounded by
what the entry has lost. Before there is an entry nothing is told, and after it is gone at most what
the task had in hand. -/

/-- What the entry allows to be read; the whole window before there is one. -/
def receivable (side : Side) : ℕ :=
  if side.task.opened then (side.entry.map StreamState.receiveCredit).getD 0 else creditWindow

theorem receivable_of_entry (hopened : s.task.opened = true) {entry : StreamState}
    (hentry : s.entry = some entry) : s.receivable = entry.receiveCredit := by
  rw [receivable, if_pos hopened, hentry]
  rfl

theorem receivable_of_none (hopened : s.task.opened = true) (hentry : s.entry = none) :
    s.receivable = 0 := by
  rw [receivable, if_pos hopened, hentry]
  rfl

theorem Step.delivers_fresh (h : s.Step action s') (hs : s.Fresh) :
    dataIn (events [action]) + s'.task.untold + s'.receivable
      ≤ s.task.untold + s.receivable + grantedBytes [action] := by
  have hreceivable : s.receivable = creditWindow := by
    rw [receivable, hs.opened]
    rfl
  have hopened := hs.opened
  rw [hreceivable]
  cases h with
  | send h =>
    obtain ⟨-, entry, hsome, -⟩ := returns_send.mp h
    exact absurd (hs.entry.symm.trans hsome) (by simp)
  | credit h =>
    obtain ⟨-, entry, hsome, -⟩ := returns_credit.mp h
    exact absurd (hs.entry.symm.trans hsome) (by simp)
  | close h =>
    obtain ⟨hsome, -⟩ := returns_close.mp h
    rw [hs.entry] at hsome
    exact absurd hsome (by decide)
  | writeHeader _ h | connected h | readHeader _ _ h | allowed h =>
    rw [h]
    exact (Nat.zero_add _).le.trans (Nat.le_add_left _ _)
  | connectFailed h | refused h =>
    have hnone : { s with task := .ended }.receivable = 0 := receivable_of_none rfl hs.entry
    rw [hnone, h]
    exact Nat.zero_le _
  | announce h | announceFails h | takeSend h | takeCredit h | takeClose h | noCommands h
  | write _ h | written h | writeFails h | replenish h | creditEvent h | creditEventFails h
  | readData _ _ h | readEnd _ h | readFails _ h | deduct h | dataEvent h | dataEventFails h
  | remove h | report h | reportFails h =>
    rw [h] at hopened
    cases hopened

/-- A step that leaves no entry delivers at most what the task had. -/
theorem Step.delivers_removed (h : s.Step action s') (hs : s.Sound) (hentry' : s'.entry = none) :
    dataIn (events [action]) + s'.task.untold ≤ s.task.untold := by
  have hlive : s.task.live = true → ∃ entry, s.entry = some entry := fun hlive ↦
    (hs.balance hlive).imp fun _ h ↦ h.1
  cases h with
  | send h =>
    obtain ⟨-, entry, -, -, -, rfl⟩ := returns_send.mp h
    cases hentry'
  | credit h =>
    obtain ⟨-, entry, -, -, -, rfl⟩ := returns_credit.mp h
    cases hentry'
  | close h =>
    obtain ⟨-, -, rfl⟩ := returns_close.mp h
    exact (Nat.zero_add _).le
  | deduct h =>
    obtain ⟨entry, hentry⟩ := hlive (by rw [h]; rfl)
    simp only [Side.deduct, hentry] at hentry'
    split at hentry' <;> cases hentry'
  | dataEvent h =>
    rw [h]
    exact le_rfl
  | @announce opening h =>
    cases opening <;> exact Nat.zero_le _
  | takeCredit h =>
    rw [Side.takeCredit]
    split
    · exact Nat.zero_le _
    · exact (Nat.zero_add _).le
  | _ => exact Nat.zero_le _

theorem Step.delivers (h : s.Step action s') (hs : s.Sound) :
    dataIn (events [action]) + s'.task.untold + s'.receivable
      ≤ s.task.untold + s.receivable + grantedBytes [action] := by
  have hopened' := (h.sound hs).opened
  cases hentry' : s'.entry with
  | some entry' =>
    obtain ⟨entry, hentry, hsettles⟩ := h.settles hs hentry'
    have hreceive := hsettles.receive_le
    rw [receivable_of_entry hopened' hentry', receivable_of_entry hs.opened hentry]
    omega
  | none =>
    have hremoved := h.delivers_removed hs hentry'
    rw [receivable_of_none hopened' hentry']
    omega

/-! ## Whole runs -/

theorem Step.local_le (h : s.Step action s') (hs : s.receiveCredit ≤ creditWindow)
    (hgrant : ∀ bytes rest, s.task = .selecting → s.commands = .credit bytes :: rest →
      s.receiveCredit + bytes ≤ creditWindow) : s'.receiveCredit ≤ creditWindow := by
  cases h with
  | send h =>
    obtain ⟨-, entry, -, -, -, rfl⟩ := returns_send.mp h
    exact hs
  | credit h =>
    obtain ⟨-, entry, -, -, -, rfl⟩ := returns_credit.mp h
    exact hs
  | close h =>
    obtain ⟨-, -, rfl⟩ := returns_close.mp h
    exact hs
  | announce => exact le_rfl
  | @takeCredit bytes rest h hc =>
    rw [Side.takeCredit]
    split
    · exact hs
    · exact hgrant bytes rest h hc
  | readData => exact (Nat.sub_le _ _).trans hs
  | deduct =>
    rw [Side.deduct]
    split
    · exact hs
    · split <;> exact hs
  | _ => exact hs

/-- What holds of a stream at every point of a run. -/
structure Receiving (trace : List Action) (side : Side) : Prop where
  account : side.Fresh ∨ side.Sound ∧ side.Bounded ∧ side.Counted
  local_le : side.receiveCredit ≤ creditWindow
  creditable : Creditable trace side
  delivered : dataIn (events trace) + side.task.untold + side.receivable
    ≤ creditWindow + grantedBytes trace

theorem Fresh.receiving (h : s.Fresh) : Receiving [] s := by
  refine ⟨Or.inl h, h.receiveCredit.le, ⟨?_, List.not_mem_nil⟩, ?_⟩
  · rw [Task.reason_of_not_opened h.opened]
    simp
  · rw [receivable, h.opened, Task.untold_of_not_opened h.opened]
    exact (Nat.zero_add _).le

/-- **The step lemma.** -/
theorem Receiving.step {trace : List Action} (hs : Receiving trace s) (h : s.Step action s') :
    Receiving (trace ++ [action]) s' := by
  have hgrant : ∀ bytes rest, s.task = .selecting → s.commands = .credit bytes :: rest →
      s.receiveCredit + bytes ≤ creditWindow := by
    intro bytes rest htask hc
    rcases hs.account with hfresh | ⟨-, hbounded, -⟩
    · exact absurd (hfresh.commands.symm.trans hc) (by simp)
    · exact hbounded.grant_le htask hc
  have hdelivers : dataIn (events [action]) + s'.task.untold + s'.receivable
      ≤ s.task.untold + s.receivable + grantedBytes [action] := by
    rcases hs.account with hfresh | ⟨hsound, -⟩
    · exact h.delivers_fresh hfresh
    · exact h.delivers hsound
  refine ⟨?_, h.local_le hs.local_le hgrant, hs.creditable.step h hgrant, ?_⟩
  · rcases hs.account with hfresh | ⟨hsound, hbounded, hcounted⟩
    · rcases h.fresh hfresh with hfresh' | ⟨opening, rfl⟩ | hrefused
      · exact Or.inl hfresh'
      · have hbounded := hfresh.bounded_install opening
        exact Or.inr ⟨hfresh.sound_install opening, hbounded, counted_of_live hbounded rfl⟩
      · refine Or.inr ⟨hrefused.sound, hrefused.bounded, fun entry hentry ↦ ?_⟩
        exact absurd (hrefused.entry.symm.trans hentry) (by simp)
    · exact Or.inr ⟨h.sound hsound, h.bounded hsound hbounded, h.counted hsound hbounded hcounted⟩
  · have hdelivered := hs.delivered
    rw [events_append, dataIn_append, grantedBytes_append]
    omega

theorem Run.receiving {start : Side} {trace : List Action} (hstart : start.Fresh)
    (h : start.Run trace s) : Receiving trace s := by
  induction h with
  | start => exact hstart.receiving
  | step _ hstep ih => exact ih.step hstep

/-- **The entry and the task agree on what may be read.** In any order of calls, reads and other
steps, the task's count, the grants still queued and the read it has not subtracted from the entry
make up the entry's count, and both counts stay within the window. So no subtraction goes below
zero, no stream is closed with `invalid_credit`, and the data events carry no more than the window
and what was granted. -/
theorem receive_credit_agrees {start s : Side} {trace : List Action} (hstart : start.Fresh)
    (h : start.Run trace s) :
    (∀ entry, s.entry = some entry →
        s.receiveCredit + queuedCredit s.commands + s.task.untaken = entry.receiveCredit
          ∧ entry.receiveCredit ≤ creditWindow)
      ∧ s.receiveCredit ≤ creditWindow
      ∧ (∀ bytes s', s.Step (.readData bytes) s' → bytes.length ≤ s.receiveCredit)
      ∧ (∀ bytes entry, s.task = .taking bytes → s.entry = some entry →
        bytes.length ≤ entry.receiveCredit)
      ∧ s.task ≠ .panicked
      ∧ (∀ reason, s.task.reason = some reason ∨ .closed reason ∈ events trace →
        reason ≠ .invalidCredit)
      ∧ dataIn (events trace) ≤ creditWindow + grantedBytes trace
      ∧ ∀ bytes err s', (credit bytes).Fails s err s' → s' = s := by
  obtain ⟨haccount, hlocal, hcreditable, hdelivered⟩ := h.receiving hstart
  have hopened : ∀ entry, s.entry = some entry → s.Bounded ∧ s.Counted := by
    intro entry hentry
    rcases haccount with hfresh | ⟨-, hboth⟩
    · exact absurd (hfresh.entry.symm.trans hentry) (by simp)
    · exact hboth
  refine ⟨fun entry hentry ↦ ?_, hlocal, ?_, ?_, ?_, ?_, by omega, fun _ _ _ hfails ↦
    (fails_issue hfails).1⟩
  · obtain ⟨hbounded, hcounted⟩ := hopened entry hentry
    exact ⟨hcounted entry hentry, hbounded.receiveCredit entry hentry⟩
  · intro bytes s' hstep
    cases hstep with
    | readData _ hle _ => exact hle.trans (min_le_left _ _)
  · intro bytes entry htask hentry
    exact (hopened entry hentry).1.read_le htask hentry
  · rcases haccount with hfresh | ⟨-, hbounded, -⟩
    · intro hpanicked
      have hnot := hfresh.opened
      rw [hpanicked] at hnot
      cases hnot
    · exact hbounded.sane
  · rintro reason (hreason | hmem) rfl
    · exact hcreditable.reason hreason
    · exact hcreditable.closed hmem

/-- A side that has read one byte and not taken the lock. -/
def readOne : Side := { idle with task := .taking [7], receiveCredit := creditWindow - 1 }

theorem run_readOne : ∃ trace, (Side.connecting sampleNode sampleNode).Run trace readOne := by
  obtain ⟨trace, h, -⟩ := tally_idle
  exact ⟨_, h.run.step (@Step.readData idle [7] (by decide) (by decide) rfl)⟩

/-- Between the two subtractions the task's count lacks the read, and adding the read to the entry's
count makes the difference larger. -/
theorem read_missing_from_task :
    ∃ trace s entry, (Side.connecting sampleNode sampleNode).Run trace s ∧ s.entry = some entry
      ∧ s.receiveCredit + queuedCredit s.commands ≠ entry.receiveCredit + s.task.untaken
      ∧ s.receiveCredit + queuedCredit s.commands ≠ entry.receiveCredit := by
  obtain ⟨trace, h⟩ := run_readOne
  exact ⟨trace, readOne, _, h, rfl, by decide, by decide⟩

theorem receive_credit_agrees_readOne : ∃ entry, readOne.entry = some entry
    ∧ readOne.receiveCredit + queuedCredit readOne.commands + readOne.task.untaken
      = entry.receiveCredit ∧ readOne.task ≠ .panicked := by
  obtain ⟨trace, h⟩ := run_readOne
  obtain ⟨hcounts, -, -, -, hsane, -⟩ := receive_credit_agrees (fresh_connecting _ _) h
  exact ⟨_, rfl, (hcounts _ rfl).1, hsane⟩

end Side

end NervesP2P
