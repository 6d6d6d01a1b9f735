import NervesP2P.Dist.Accounts

/-!
# The window of a stream, over whole runs

What holds of the credit and of the command queue from `connect` or `accept` on, in any order of
calls and steps of the task. Before the stream is installed there is neither an entry nor a command
(`Fresh`); from then on the accounts of a side hold.

Two bounds meet at the queue, 256 KiB of payload and 64 commands, and neither implies the other. A
call that is within its credit is refused exactly when the queue is full, and 64 payloads of one
byte fill it.

## When a write is complete

`write_all` returns before the credit is given back, and the credit is given back before the event
is sent. `Tally` counts a write at the first of these moments, so that what has been counted and not
reported is at most the payload the task is just dealing with.
-/

namespace NervesP2P

/-- The length of a completed write whose event has not been sent. -/
def Task.unnotified : Task → ℕ
  | .replenishing length | .crediting length => length
  | _ => 0

/-- The task has left the loop, or never got into it. -/
def Task.over : Task → Bool
  | .closing _ | .reporting _ | .ended | .panicked => true
  | _ => false

theorem Task.over_of_live {task : Task} (h : task.live = true) : task.over = false := by
  cases task with
  | closing _ | reporting _ | ended | panicked => cases h
  | _ => rfl

/-- The length of the write that is complete when a task goes on: `write_all` has returned. -/
def Task.completes : Task → Task → ℕ
  | .writing _ length, .replenishing _ => length
  | _, _ => 0

theorem Task.completes_self (task : Task) : task.completes task = 0 := by
  cases task <;> rfl

theorem Task.opened_of_live {task : Task} (h : task.live = true) : task.opened = true := by
  cases task with
  | connecting _ _ | accepting _ => cases h
  | _ => rfl

namespace Side

/-! ## Before the stream is installed

`Run.invariant` is the rule by which everything about installed streams is proved: it has to hold
when the stream is installed or refused, and no step may break it. What is before that is empty. -/

/-- Nothing of the stream is in the table yet. -/
structure Fresh (side : Side) : Prop where
  opened : side.task.opened = false
  entry : side.entry = none
  commands : side.commands = []
  receiveCredit : side.receiveCredit = creditWindow

theorem fresh_connecting (fromNode targetNode : Text) :
    (Side.connecting fromNode targetNode).Fresh := ⟨rfl, rfl, rfl, rfl⟩

theorem fresh_accepting : Side.accepting.Fresh := ⟨rfl, rfl, rfl, rfl⟩

/-- A stream that was not installed in the end. -/
structure Refused (side : Side) : Prop where
  ended : side.task = .ended
  entry : side.entry = none
  commands : side.commands = []

/-- A step before the installation. -/
theorem Step.fresh {s s' : Side} {action : Action} (h : s.Step action s') (hs : s.Fresh) :
    s'.Fresh ∨ (∃ opening, s' = s.install opening) ∨ s'.Refused := by
  obtain ⟨hopened, hentry, hcommands, hcredit⟩ := hs
  cases h with
  | send h =>
    obtain ⟨-, entry, hsome, -⟩ := returns_send.mp h
    exact absurd (hentry.symm.trans hsome) (by simp)
  | credit h =>
    obtain ⟨-, entry, hsome, -⟩ := returns_credit.mp h
    exact absurd (hentry.symm.trans hsome) (by simp)
  | close h =>
    obtain ⟨hsome, -⟩ := returns_close.mp h
    rw [hentry] at hsome
    exact absurd hsome (by decide)
  | writeHeader _ h | readHeader _ _ h => exact Or.inl ⟨rfl, hentry, hcommands, hcredit⟩
  | connected h | allowed h => exact Or.inr (Or.inl ⟨_, rfl⟩)
  | connectFailed | refused => exact Or.inr (Or.inr ⟨rfl, hentry, hcommands⟩)
  | announce h | announceFails h | takeSend h | takeCredit h | takeClose h | noCommands h
  | write _ h | written h | writeFails h | replenish h | creditEvent h | creditEventFails h
  | readData _ _ h | readEnd _ h | readFails _ h | deduct h | dataEvent h | dataEventFails h
  | remove h | report h | reportFails h =>
    rw [h] at hopened
    exact absurd hopened.symm Bool.false_ne_true

/-- The rule for invariants of installed streams: they hold when the stream is installed or refused
and no step breaks them. -/
theorem Run.invariant {P : Side → Prop} {start s : Side} {trace : List Action}
    (hinstall : ∀ (s : Side) opening, s.Fresh → P (s.install opening))
    (hrefused : ∀ s : Side, s.Refused → P s)
    (hpreserved : ∀ (s : Side) action s', s.Step action s' → P s → P s') (hstart : start.Fresh)
    (h : start.Run trace s) : s.Fresh ∨ P s := by
  induction h with
  | start => exact Or.inl hstart
  | step _ hstep ih =>
    rcases ih with hfresh | hP
    · rcases hstep.fresh hfresh with hfresh' | ⟨opening, rfl⟩ | hrefused'
      · exact Or.inl hfresh'
      · exact Or.inr (hinstall _ opening hfresh)
      · exact Or.inr (hrefused _ hrefused')
    · exact Or.inr (hpreserved _ _ _ hstep hP)

theorem Fresh.sound_install {s : Side} (h : s.Fresh) (opening : Opening) :
    (s.install opening).Sound := by
  refine ⟨rfl, trivial, fun _ ↦ ⟨_, rfl, ?_⟩⟩
  rw [Side.unsent, Side.install, h.commands]
  rfl

theorem Refused.sound {s : Side} (h : s.Refused) : s.Sound := by
  apply sound_of_over <;> rw [h.ended]
  · rfl
  · rfl
  · trivial

theorem Run.balance {start s : Side} {trace : List Action} (hstart : start.Fresh)
    (h : start.Run trace s) (hlive : s.task.live = true) :
    ∃ entry, s.entry = some entry ∧ entry.sendCredit + s.unsent = creditWindow := by
  rcases h.invariant (fun _ opening hs ↦ hs.sound_install opening) (fun _ hs ↦ hs.sound)
    (fun _ _ _ hstep hs ↦ hstep.sound hs) hstart with hfresh | hsound
  · exact absurd hfresh.opened (by rw [Task.opened_of_live hlive]; decide)
  · exact hsound.balance hlive

/-! ## Writes and their events

`Tally` is a run with one number more, the total length of the writes that are complete. A task that
is over stays over and sends no event for what it had written. -/

/-- Runs of a side, with the total length of the writes completed so far. -/
inductive Tally (start : Side) : ℕ → List Action → Side → Prop
  | start : Tally start 0 [] start
  | step {total : ℕ} {trace : List Action} {s s' : Side} {action : Action}
      (h : Tally start total trace s) (hstep : s.Step action s') :
      Tally start (total + s.task.completes s'.task) (trace ++ [action]) s'

theorem Tally.run {start s : Side} {total : ℕ} {trace : List Action}
    (h : start.Tally total trace s) : start.Run trace s := by
  induction h with
  | start => exact .start
  | step _ hstep ih => exact ih.step hstep

theorem Step.unnotified {s s' : Side} {action : Action} (h : s.Step action s')
    (hover : s'.task.over = false) :
    s.task.completes s'.task + s.task.unnotified
      = creditIn (events [action]) + s'.task.unnotified := by
  cases h with
  | @send _ bytes h =>
    obtain ⟨-, entry, -, -, -, rfl⟩ := returns_send.mp h
    rw [Task.completes_self]
    rfl
  | @credit _ bytes h =>
    obtain ⟨-, entry, -, -, -, rfl⟩ := returns_credit.mp h
    rw [Task.completes_self]
    rfl
  | close h =>
    obtain ⟨-, -, rfl⟩ := returns_close.mp h
    rw [Task.completes_self]
    rfl
  | @announce opening h =>
    rw [h, show creditIn (events [.emitted opening.event]) = 0 by cases opening <;> rfl]
    rfl
  | takeCredit h hc =>
    rw [Side.takeCredit] at hover ⊢
    split
    · next hexceeds =>
      rw [if_pos hexceeds] at hover
      cases hover
    · rw [h]
      rfl
  | deduct h =>
    rw [Side.deduct]
    split
    · rw [h]
      rfl
    · split <;> rw [h] <;> rfl
  | written h =>
    rw [h]
    exact (Nat.zero_add _).symm
  | creditEvent h =>
    rw [h]
    exact Nat.zero_add _
  | replenish h =>
    rw [h]
    rfl
  | writeHeader _ h | connected h | readHeader _ _ h | allowed h | takeSend h | write _ h
  | readData _ _ h | dataEvent h =>
    rw [h]
    rfl
  | connectFailed | refused | announceFails | takeClose | noCommands | writeFails
  | creditEventFails | readEnd | readFails | dataEventFails | remove | report | reportFails =>
    cases hover

theorem Step.over {s s' : Side} {action : Action} (h : s.Step action s')
    (hover : s.task.over = true) : s'.task.over = true := by
  cases h with
  | send h =>
    obtain ⟨-, entry, -, -, -, rfl⟩ := returns_send.mp h
    exact hover
  | credit h =>
    obtain ⟨-, entry, -, -, -, rfl⟩ := returns_credit.mp h
    exact hover
  | close h =>
    obtain ⟨-, -, rfl⟩ := returns_close.mp h
    exact hover
  | remove | report | reportFails => rfl
  | writeHeader _ h | connected h | connectFailed h | readHeader _ _ h | allowed h | refused h
  | announce h | announceFails h | takeSend h | takeCredit h | takeClose h | noCommands h
  | write _ h | written h | writeFails h | replenish h | creditEvent h | creditEventFails h
  | readData _ _ h | readEnd _ h | readFails _ h | deduct h | dataEvent h | dataEventFails h =>
    rw [h] at hover
    cases hover

/-- **Every completed write has its event**, but for the one the task is dealing with. -/
theorem Tally.notified {start s : Side} {total : ℕ} {trace : List Action} (hstart : start.Fresh)
    (h : start.Tally total trace s) (hover : s.task.over = false) :
    total = creditIn (events trace) + s.task.unnotified := by
  induction h with
  | start =>
    have hopened := hstart.opened
    cases htask : start.task with
    | connecting _ _ | accepting _ => rfl
    | _ =>
      rw [htask] at hopened
      cases hopened
  | @step total trace s s' action h hstep ih =>
    have hbefore : s.task.over = false := by
      by_contra hne
      exact absurd (hstep.over (Bool.not_eq_false _ ▸ hne)) (by rw [hover]; decide)
    have hnotified := hstep.unnotified hover
    rw [events_append, creditIn_append]
    have := ih hbefore
    omega

theorem fails_unchanged {s s' : Side} {err : DistError} :
    (∀ bytes, (send bytes).Fails s err s' → s' = s)
      ∧ (∀ bytes, (credit bytes).Fails s err s' → s' = s)
      ∧ (close.Fails s err s' → s' = s) :=
  ⟨fun _ h ↦ (fails_issue h).1, fun _ h ↦ (fails_issue h).1, fun h ↦ (fails_close h).1⟩

/-- **Send credit is conserved.** While a stream is live, what may still be sent, what is queued and
what the task has taken and not given back make up the window, so that `send` subtracts from enough,
the clamp of the replenishment cuts nothing off, and no more than the window is queued. The credit
events stand for the completed writes, except for the write whose event is still to be sent. -/
theorem send_credit_conserved {start s : Side} {completed : ℕ} {trace : List Action}
    (hstart : start.Fresh) (h : start.Tally completed trace s) (hlive : s.task.live = true) :
    ∃ entry, s.entry = some entry
      ∧ entry.sendCredit + (queuedBytes s.commands).length + s.task.unsent = creditWindow
      ∧ (∀ bytes s', (send bytes).Returns s () s' → bytes.length ≤ entry.sendCredit)
      ∧ (∀ length, s.task = .replenishing length → entry.sendCredit + length ≤ creditWindow)
      ∧ (queuedBytes s.commands).length ≤ creditWindow
      ∧ completed = creditIn (events trace) + s.task.unnotified
      ∧ ∀ err s', (∀ bytes, (send bytes).Fails s err s' → s' = s)
        ∧ (∀ bytes, (credit bytes).Fails s err s' → s' = s) ∧ (close.Fails s err s' → s' = s) := by
  obtain ⟨entry, hentry, hbalance⟩ := h.run.balance hstart hlive
  rw [Side.unsent, ← Nat.add_assoc] at hbalance
  refine ⟨entry, hentry, hbalance, ?_, ?_, by omega, h.notified hstart (Task.over_of_live hlive),
    fun _ _ ↦ fails_unchanged⟩
  · intro bytes s' hsend
    obtain ⟨-, found, hfound, hle, -⟩ := returns_send.mp hsend
    obtain rfl := Option.some.inj (hentry.symm.trans hfound)
    exact hle
  · intro length htask
    rw [htask] at hbalance
    exact (Nat.add_le_add_right (Nat.le_add_right _ _) _).trans hbalance.le

/-- A side right after the first event, with nothing sent. -/
def idle : Side where
  entry := some ⟨creditWindow, creditWindow⟩
  commands := []
  task := .selecting
  receiveCredit := creditWindow

theorem tally_idle : ∃ trace, (Side.connecting sampleNode sampleNode).Tally 0 trace idle
    ∧ creditIn (events trace) = 0 := by
  have h := (Tally.start : (Side.connecting sampleNode sampleNode).Tally _ _ _)
    |>.step (@Step.writeHeader _ (encodeHeader sampleNode sampleNode) [] sampleNode
      (by decide) (by rw [List.append_nil]; rfl))
    |>.step (.connected rfl)
    |>.step (.announce rfl)
  exact ⟨_, h, by decide⟩

/-- A side that has written one byte and given its credit back. -/
def writtenOne : Side := { idle with task := .crediting 1 }

theorem tally_writtenOne : ∃ trace, (Side.connecting sampleNode sampleNode).Tally 1 trace writtenOne
    ∧ creditIn (events trace) = 0 := by
  obtain ⟨trace, h, hcredit⟩ := tally_idle
  have hwritten := h
    |>.step (@Step.send _ _ [7] (Method.returns_after (by decide)))
    |>.step (.takeSend rfl rfl)
    |>.step (@Step.write _ [7] [] _ (by decide) rfl)
    |>.step (.written rfl)
    |>.step (.replenish rfl)
  refine ⟨_, hwritten, ?_⟩
  simp only [events_append, creditIn_append, hcredit]
  rfl

/-- One byte is written, and its credit given back, before there is an event. -/
theorem completed_without_event :
    ∃ completed trace s, (Side.connecting sampleNode sampleNode).Tally completed trace s
      ∧ s.task.live = true ∧ completed ≠ creditIn (events trace) := by
  obtain ⟨trace, h, hcredit⟩ := tally_writtenOne
  exact ⟨1, trace, writtenOne, h, rfl, by rw [hcredit]; decide⟩

theorem send_credit_conserved_writtenOne : ∃ entry, writtenOne.entry = some entry
    ∧ entry.sendCredit + (queuedBytes writtenOne.commands).length + writtenOne.task.unsent
      = creditWindow := by
  obtain ⟨trace, h, -⟩ := tally_writtenOne
  obtain ⟨entry, hentry, hbalance, -⟩ := send_credit_conserved (fresh_connecting _ _) h rfl
  exact ⟨entry, hentry, hbalance⟩

/-! ## Receiving

The entry and the task count the same credit, apart from the grants the task has not taken yet and
the read that the entry does not know of. So neither the subtraction nor the check of a grant ever
stops the task, and while there is an entry somebody holds the other end of the queue.

`Bounded` is kept for one reason by each kind of step, and there is a lemma for each: a grant that
is taken is within the window, since the entry counts it already; credit that is given back is cut
off at the window; a read is within the credit of the entry; and the calls of the interface have
checked what they change. -/

end Side

/-- The grants in the queue. -/
def queuedCredit (commands : List StreamCommand) : ℕ := (commands.map fun
  | .credit bytes => bytes
  | _ => 0).sum

@[simp] theorem queuedCredit_append (c d : List StreamCommand) :
    queuedCredit (c ++ d) = queuedCredit c + queuedCredit d := by
  rw [queuedCredit, List.map_append, List.sum_append, queuedCredit, queuedCredit]

/-- The length of a read that the entry does not know of. -/
def Task.untaken : Task → ℕ
  | .taking bytes => bytes.length
  | _ => 0

namespace Side

/-- The bounds of an entry and of its queue, and the two counts of what may be read. -/
structure Bounded (side : Side) : Prop where
  queue : side.commands.length ≤ commandQueue
  sendCredit : ∀ entry, side.entry = some entry → entry.sendCredit ≤ creditWindow
  receiveCredit : ∀ entry, side.entry = some entry → entry.receiveCredit ≤ creditWindow
  counts : side.task.live = true → ∃ entry, side.entry = some entry
    ∧ entry.receiveCredit = side.receiveCredit + queuedCredit side.commands + side.task.untaken
  /-- The task starts with the whole window. -/
  opening : ∀ opening, side.task = .installing opening → side.receiveCredit = creditWindow
  sane : side.task ≠ .panicked

theorem Fresh.bounded_install {s : Side} (h : s.Fresh) (opening : Opening) :
    (s.install opening).Bounded where
  queue := by rw [Side.install, h.commands]; exact Nat.zero_le _
  sendCredit := by rintro _ ⟨⟩; exact le_rfl
  receiveCredit := by rintro _ ⟨⟩; exact le_rfl
  counts := by
    intro _
    refine ⟨_, rfl, ?_⟩
    rw [Side.install, h.commands, h.receiveCredit]
    rfl
  opening := fun _ _ ↦ h.receiveCredit
  sane := by simp [Side.install]

theorem Refused.bounded {s : Side} (h : s.Refused) : s.Bounded where
  queue := by rw [h.commands]; exact Nat.zero_le _
  sendCredit := by rw [h.entry]; simp
  receiveCredit := by rw [h.entry]; simp
  counts := by rw [h.ended]; exact fun hlive ↦ absurd hlive Bool.false_ne_true
  opening := by rw [h.ended]; simp
  sane := by rw [h.ended]; simp

theorem Bounded.call {s s' : Side} (hs : s.Bounded) {entry entry' : StreamState}
    {command : StreamCommand} (hroom : s.commands.length ≠ commandQueue)
    (hentry : s.entry = some entry)
    (h' : s' = { s with commands := s.commands ++ [command], entry := some entry' })
    (hsend : entry'.sendCredit ≤ entry.sendCredit) (hreceive : entry'.receiveCredit ≤ creditWindow)
    (hsum : entry'.receiveCredit = entry.receiveCredit + queuedCredit [command]) :
    s'.Bounded := by
  subst h'
  refine ⟨?_, ?_, ?_, ?_, hs.opening, hs.sane⟩
  · rw [List.length_append]
    exact Nat.succ_le_of_lt (lt_of_le_of_ne hs.queue hroom)
  · rintro _ ⟨⟩
    exact hsend.trans (hs.sendCredit entry hentry)
  · rintro _ ⟨⟩
    exact hreceive
  · intro hlive
    obtain ⟨found, hfound, hcounts⟩ := hs.counts hlive
    obtain rfl := Option.some.inj (hentry.symm.trans hfound)
    refine ⟨entry', rfl, ?_⟩
    simp only [hsum, hcounts, queuedCredit_append]
    omega

theorem Bounded.keep {s s' : Side} (hs : s.Bounded) (hentry : s'.entry = s.entry)
    (hqueue : s'.commands.length ≤ s.commands.length)
    (hcounts : s'.task.live = true → s.task.live = true
      ∧ s'.receiveCredit + queuedCredit s'.commands + s'.task.untaken
        = s.receiveCredit + queuedCredit s.commands + s.task.untaken)
    (hopening : ∀ opening, s'.task = .installing opening → s'.receiveCredit = creditWindow)
    (hsane : s'.task ≠ .panicked) : s'.Bounded := by
  refine ⟨hqueue.trans hs.queue, ?_, ?_, ?_, hopening, hsane⟩ <;> rw [hentry]
  · exact hs.sendCredit
  · exact hs.receiveCredit
  · intro hlive
    obtain ⟨hbefore, hsum⟩ := hcounts hlive
    rw [hsum]
    exact hs.counts hbefore

/-- A grant that the task takes is within the window, since the entry counts it already. -/
theorem Bounded.grant_le {s : Side} (hs : s.Bounded) (h : s.task = .selecting) {bytes : ℕ}
    {rest : List StreamCommand} (hc : s.commands = .credit bytes :: rest) :
    s.receiveCredit + bytes ≤ creditWindow := by
  obtain ⟨entry, hentry, hcounts⟩ := hs.counts (by rw [h]; rfl)
  have hle := hs.receiveCredit entry hentry
  have hqueued : queuedCredit s.commands = bytes + queuedCredit rest := by rw [hc]; rfl
  omega

/-- A read that the task subtracts is within the credit of the entry. -/
theorem Bounded.read_le {s : Side} (hs : s.Bounded) {bytes : List UInt8}
    (h : s.task = .taking bytes) {entry : StreamState} (hentry : s.entry = some entry) :
    bytes.length ≤ entry.receiveCredit := by
  obtain ⟨found, hfound, hcounts⟩ := hs.counts (by rw [h]; rfl)
  obtain rfl := Option.some.inj (hentry.symm.trans hfound)
  rw [h, Task.untaken] at hcounts
  omega

theorem Bounded.takeCredit {s : Side} {bytes : ℕ} {rest : List StreamCommand} (hs : s.Bounded)
    (h : s.task = .selecting) (hc : s.commands = .credit bytes :: rest) :
    ({ s with commands := rest }.takeCredit bytes).Bounded := by
  have hqueued : queuedCredit s.commands = bytes + queuedCredit rest := by rw [hc]; rfl
  rw [Side.takeCredit, if_neg (not_lt.mpr (hs.grant_le h hc))]
  refine hs.keep rfl (by rw [hc]; exact Nat.le_succ _) (fun hlive ↦ ⟨hlive, ?_⟩) ?_ hs.sane
  · dsimp only
    omega
  · dsimp only
    rw [h]
    simp

theorem Bounded.replenish {s : Side} {length : ℕ} (hs : s.Bounded)
    (h : s.task = .replenishing length) : (s.replenish length).Bounded := by
  obtain ⟨entry, hentry, hcounts⟩ := hs.counts (by rw [h]; rfl)
  have hreceive := hs.receiveCredit entry hentry
  rw [Side.replenish, hentry]
  refine ⟨hs.queue, ?_, ?_, fun _ ↦ ⟨_, rfl, ?_⟩, by simp, by simp⟩
  · rintro _ ⟨⟩
    exact min_le_right _ _
  · rintro _ ⟨⟩
    exact hreceive
  · rw [h] at hcounts
    exact hcounts

theorem Bounded.deduct {s : Side} {bytes : List UInt8} (hs : s.Bounded)
    (h : s.task = .taking bytes) : (s.deduct bytes).Bounded := by
  obtain ⟨entry, hentry, hcounts⟩ := hs.counts (by rw [h]; rfl)
  have hreceive := hs.receiveCredit entry hentry
  have hsend := hs.sendCredit entry hentry
  rw [h, Task.untaken] at hcounts
  simp only [Side.deduct, hentry]
  rw [if_neg (not_lt.mpr (hs.read_le h hentry))]
  refine ⟨hs.queue, ?_, ?_, fun _ ↦ ⟨_, rfl, ?_⟩, by simp, by simp⟩
  · rintro _ ⟨⟩
    exact hsend
  · rintro _ ⟨⟩
    exact (Nat.sub_le _ _).trans hreceive
  · simp only [hcounts, Task.untaken]
    omega

theorem Bounded.of_send {s s' : Side} {bytes : List UInt8} (hs : s.Bounded)
    (h : (Side.send bytes).Returns s () s') : s'.Bounded := by
  obtain ⟨-, entry, hentry, -, hroom, h'⟩ := returns_send.mp h
  exact hs.call hroom hentry h' (Nat.sub_le _ _) (hs.receiveCredit entry hentry) rfl

theorem Bounded.of_credit {s s' : Side} {bytes : ℕ} (hs : s.Bounded)
    (h : (Side.credit bytes).Returns s () s') : s'.Bounded := by
  obtain ⟨-, entry, hentry, hle, hroom, h'⟩ := returns_credit.mp h
  exact hs.call hroom hentry h' le_rfl hle rfl

theorem Bounded.of_close {s s' : Side} (hs : s.Bounded) (h : Side.close.Returns s () s') :
    s'.Bounded := by
  obtain ⟨hsome, hroom, h'⟩ := returns_close.mp h
  obtain ⟨entry, hentry⟩ := Option.isSome_iff_exists.mp hsome
  rw [hentry] at h'
  exact hs.call hroom hentry h' le_rfl (hs.receiveCredit entry hentry) rfl

/-- **A step keeps the bounds.** -/
theorem Step.bounded {s s' : Side} {action : Action} (h : s.Step action s') (hopened : s.Sound)
    (hs : s.Bounded) : s'.Bounded := by
  cases h with
  | send h => exact hs.of_send h
  | credit h => exact hs.of_credit h
  | close h => exact hs.of_close h
  | writeHeader _ h | connected h | connectFailed h | readHeader _ _ h | allowed h | refused h =>
    exact absurd hopened.opened (by rw [h]; exact Bool.false_ne_true)
  | announce h =>
    refine hs.keep rfl le_rfl (fun _ ↦ ⟨by rw [h]; rfl, ?_⟩) (by simp) (by simp)
    rw [hs.opening _ h, h]
    rfl
  | takeSend h hc =>
    refine hs.keep rfl (by rw [hc]; exact Nat.le_succ _) (fun _ ↦ ⟨by rw [h]; rfl, ?_⟩) (by simp)
      (by simp)
    rw [h, hc]
    exact congrArg (s.receiveCredit + ·) (Nat.zero_add _).symm
  | takeCredit h hc => exact hs.takeCredit h hc
  | takeClose h hc =>
    exact hs.keep rfl (by rw [hc]; exact Nat.le_succ _)
      (fun hlive ↦ absurd hlive Bool.false_ne_true) (by simp) (by simp)
  | write _ h | written h | creditEvent h | dataEvent h =>
    exact hs.keep rfl le_rfl (fun _ ↦ ⟨by rw [h]; rfl, by rw [h]; rfl⟩) (by simp) (by simp)
  | noCommands | writeFails | creditEventFails | dataEventFails | readEnd | readFails
  | report | reportFails =>
    exact hs.keep rfl le_rfl (fun hlive ↦ absurd hlive Bool.false_ne_true) (by simp) (by simp)
  | announceFails | remove =>
    exact ⟨hs.queue, by simp, by simp, fun hlive ↦ absurd hlive Bool.false_ne_true, by simp,
      by simp⟩
  | replenish h => exact hs.replenish h
  | @readData bytes hne hle h =>
    refine hs.keep rfl le_rfl (fun _ ↦ ⟨by rw [h]; rfl, ?_⟩) (by simp) (by simp)
    have hread : bytes.length ≤ s.receiveCredit := hle.trans (min_le_left _ _)
    simp only [h, Task.untaken]
    omega
  | deduct h => exact hs.deduct h

theorem Run.bounded {start s : Side} {trace : List Action} (hstart : start.Fresh)
    (h : start.Run trace s) : s.Fresh ∨ s.Bounded := by
  have hboth := h.invariant (P := fun s ↦ s.Sound ∧ s.Bounded)
    (fun _ opening hs ↦ ⟨hs.sound_install opening, hs.bounded_install opening⟩)
    (fun _ hs ↦ ⟨hs.sound, hs.bounded⟩)
    (fun _ _ _ hstep hs ↦ ⟨hstep.sound hs.1, hstep.bounded hs.1 hs.2⟩) hstart
  exact hboth.imp_right And.right

/-! ## The queue

With the bounds at hand a call can fail for one reason only, the length of the queue. -/

/-- A call that is refused only when the queue is full. -/
structure RefusedOnlyFull (side : Side) (call : Method Side DistError Unit) : Prop where
  returns_iff : (∃ s', call.Returns side () s') ↔ side.commands.length < commandQueue
  fails : ∀ err s', call.Fails side err s' → err = .queueFull ∧ s' = side

theorem refusedOnlyFull_issue {invalid : Prop} [Decidable invalid] {exceeds : StreamState → Prop}
    [DecidablePred exceeds] {error : DistError} {command : StreamCommand}
    {update : StreamState → StreamState} {s : Side} {entry : StreamState}
    (hqueue : s.commands.length ≤ commandQueue) (hentry : s.entry = some entry)
    (hvalid : ¬invalid) (hcredit : ¬exceeds entry) :
    s.RefusedOnlyFull (issue invalid exceeds error command update) := by
  constructor
  · constructor
    · rintro ⟨s', h⟩
      obtain ⟨-, -, -, -, hroom, -⟩ := returns_issue.mp h
      exact lt_of_le_of_ne hqueue hroom
    · intro hroom
      exact ⟨_, returns_issue.mpr ⟨hvalid, entry, hentry, hcredit, hroom.ne, rfl⟩⟩
  · intro err s' h
    obtain ⟨rfl, ⟨hinvalid, -⟩ | ⟨-, ⟨hnone, -⟩ | ⟨found, hfound, ⟨hexceeds, -⟩ | ⟨-, -, rfl⟩⟩⟩⟩ :=
      fails_issue h
    · exact absurd hinvalid hvalid
    · exact absurd (hnone.symm.trans hentry) (by simp)
    · obtain rfl := Option.some.inj (hentry.symm.trans hfound)
      exact absurd hexceeds hcredit
    · exact ⟨rfl, rfl⟩

theorem refusedOnlyFull_close {s : Side} {entry : StreamState}
    (hqueue : s.commands.length ≤ commandQueue) (hentry : s.entry = some entry) :
    s.RefusedOnlyFull close := by
  constructor
  · constructor
    · rintro ⟨s', h⟩
      exact lt_of_le_of_ne hqueue (returns_close.mp h).2.1
    · intro hroom
      exact ⟨_, returns_close.mpr ⟨Option.isSome_of_eq_some hentry, hroom.ne, rfl⟩⟩
  · intro err s' h
    obtain ⟨rfl, ⟨hnone, -⟩ | ⟨-, -, rfl⟩⟩ := fails_close h
    · exact absurd (hnone.symm.trans hentry) (by simp)
    · exact ⟨rfl, rfl⟩

/-- **Calls within their credit are refused exactly when 64 commands are queued.** In every state in
which the stream is in the table, a payload within the send credit, a grant that keeps the receive
credit within the window and a request to close all return, unless the queue is full. -/
theorem refused_only_full {start s : Side} {trace : List Action} (hstart : start.Fresh)
    (h : start.Run trace s) {entry : StreamState} (hentry : s.entry = some entry) :
    s.task ≠ .panicked
      ∧ (∀ bytes, bytes ≠ [] → bytes.length ≤ entry.sendCredit → s.RefusedOnlyFull (send bytes))
      ∧ (∀ bytes, bytes ≠ 0 → entry.receiveCredit + bytes ≤ creditWindow →
        s.RefusedOnlyFull (credit bytes))
      ∧ s.RefusedOnlyFull close := by
  rcases h.bounded hstart with hfresh | hbounded
  · exact absurd (hfresh.entry.symm.trans hentry) (by simp)
  refine ⟨hbounded.sane, ?_, ?_, refusedOnlyFull_close hbounded.queue hentry⟩
  · intro bytes hne hle
    have hwindow := hle.trans (hbounded.sendCredit entry hentry)
    exact refusedOnlyFull_issue hbounded.queue hentry (not_or.mpr ⟨hne, not_lt.mpr hwindow⟩)
      (not_lt.mpr hle)
  · intro bytes hne hle
    have hwindow := (Nat.le_add_left _ _).trans hle
    exact refusedOnlyFull_issue hbounded.queue hentry (not_or.mpr ⟨hne, not_lt.mpr hwindow⟩)
      (not_lt.mpr hle)

/-- A side with payloads of one byte in its queue. -/
def holding (count : ℕ) : Side :=
  { idle with
    entry := some ⟨creditWindow - count, creditWindow⟩
    commands := List.replicate count (.send [7]) }

theorem run_holding {count : ℕ} (h : count ≤ commandQueue) :
    ∃ trace, (Side.connecting sampleNode sampleNode).Run trace (holding count) := by
  induction count with
  | zero =>
    obtain ⟨trace, h, -⟩ := tally_idle
    exact ⟨trace, h.run⟩
  | succ count ih =>
    obtain ⟨trace, hrun⟩ := ih (Nat.le_of_succ_le h)
    have hroom : (holding count).commands.length ≠ commandQueue := by
      rw [holding, List.length_replicate]
      exact (Nat.lt_of_succ_le h).ne
    have hcredit : [(7 : UInt8)].length ≤ creditWindow - count :=
      Nat.le_sub_of_add_le' (h.trans (by decide))
    refine ⟨_, hrun.step (.send (returns_send.mpr
      ⟨⟨List.cons_ne_nil 7 [], by decide⟩, _, rfl, hcredit, hroom, ?_⟩))⟩
    simp only [holding, idle, List.replicate_succ', Nat.sub_sub, List.length_singleton]

/-- With 64 payloads of one byte in the queue, another byte within the credit is refused, and so is
a request to close. -/
theorem full_queue_refuses :
    ∃ trace s entry, (Side.connecting sampleNode sampleNode).Run trace s ∧ s.task.live = true
      ∧ s.entry = some entry ∧ [(7 : UInt8)].length ≤ entry.sendCredit
      ∧ (send [7]).Fails s .queueFull s ∧ close.Fails s .queueFull s := by
  obtain ⟨trace, hrun⟩ := run_holding le_rfl
  exact ⟨trace, _, _, hrun, rfl, rfl, by decide, rfl, rfl⟩

/-- With 63 commands in the queue, a payload and a request to close are taken, and with 64 they are
not. -/
theorem refused_only_full_sample :
    (∃ s', (send [7]).Returns (holding 63) () s') ∧ (∃ s', close.Returns (holding 63) () s')
      ∧ (¬∃ s', (send [7]).Returns (holding 64) () s')
      ∧ ¬∃ s', close.Returns (holding 64) () s' := by
  have hcalls : ∀ count ≤ commandQueue, (holding count).RefusedOnlyFull (send [7])
      ∧ (holding count).RefusedOnlyFull close := by
    intro count hcount
    obtain ⟨trace, hrun⟩ := run_holding hcount
    obtain ⟨-, hsend, -, hclose⟩ := refused_only_full (fresh_connecting _ _) hrun rfl
    exact ⟨hsend [7] (List.cons_ne_nil 7 []) (Nat.le_sub_of_add_le (by
      rw [commandQueue] at hcount
      rw [creditWindow, List.length_singleton]
      omega)), hclose⟩
  obtain ⟨hsend, hclose⟩ := hcalls 63 (by decide)
  obtain ⟨hsend', hclose'⟩ := hcalls 64 (by decide)
  exact ⟨hsend.returns_iff.mpr (by decide), hclose.returns_iff.mpr (by decide),
    mt hsend'.returns_iff.mp (by decide), mt hclose'.returns_iff.mp (by decide)⟩

end Side

end NervesP2P
