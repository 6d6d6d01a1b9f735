import NervesP2P.Dist.Window

/-!
# What is told of a stream

The port learns of a stream through its events, and it relies on their order: one event that opens
the stream, then data and credit, and in the end at most one that says why it was closed. The events
come from `install_stream` and from the task, which has six ways to leave its loop; `Task.Tells`
says for every place a task can be at what it has told so far.

The entry is taken out of the table before the last event is sent, so whoever has read that event
finds no entry any more.
-/

namespace NervesP2P

/-! ## The pattern

The pattern is one of lists of events, and has to be extended at its end as the events come. `Begun`
is the part of it that can go on, and the event that closes a stream ends it. -/

/-- The events that tell of a new stream. -/
def Event.opens : Event → Bool
  | .incoming _ _ | .connected _ => true
  | _ => false

/-- The events of a stream in use. -/
def Event.flows : Event → Bool
  | .data _ | .credit _ => true
  | _ => false

/-- A stream was announced, and has been used since. -/
def Begun (events : List Event) : Prop :=
  ∃ first middle, events = first :: middle ∧ first.opens = true ∧ ∀ e ∈ middle, e.flows = true

/-- All that is told of a stream: nothing yet, or one event that opens it, then data and credit, and
in the end at most one event that closes it. -/
def WellFormed (events : List Event) : Prop :=
  events = [] ∨ ∃ first middle last, events = first :: middle ++ last ∧ first.opens = true
    ∧ (∀ e ∈ middle, e.flows = true) ∧ (last = [] ∨ ∃ reason, last = [.closed reason])

theorem Begun.wellFormed {events : List Event} (h : Begun events) : WellFormed events := by
  obtain ⟨first, middle, rfl, hfirst, hmiddle⟩ := h
  exact Or.inr ⟨first, middle, [], (List.append_nil _).symm, hfirst, hmiddle, Or.inl rfl⟩

theorem Begun.closed {events : List Event} (h : Begun events) (reason : CloseReason) :
    WellFormed (events ++ [.closed reason]) := by
  obtain ⟨first, middle, rfl, hfirst, hmiddle⟩ := h
  exact Or.inr ⟨first, middle, [.closed reason], rfl, hfirst, hmiddle, Or.inr ⟨reason, rfl⟩⟩

theorem Begun.append {events : List Event} (h : Begun events) {event : Event}
    (hevent : event.flows = true) : Begun (events ++ [event]) := by
  obtain ⟨first, middle, rfl, hfirst, hmiddle⟩ := h
  refine ⟨first, middle ++ [event], rfl, hfirst, fun e he ↦ ?_⟩
  rcases List.mem_append.mp he with hold | hnew
  · exact hmiddle e hold
  · rw [List.mem_singleton.mp hnew]
    exact hevent

theorem begun_opening (opening : Opening) : Begun [opening.event] := by
  refine ⟨opening.event, [], rfl, ?_, fun e he ↦ absurd he List.not_mem_nil⟩
  cases opening <;> rfl

theorem Begun.not_mem_closed {events : List Event} (h : Begun events) (reason : CloseReason) :
    .closed reason ∉ events := by
  obtain ⟨first, middle, rfl, hfirst, hmiddle⟩ := h
  intro hmem
  rcases List.mem_cons.mp hmem with rfl | hmem
  · cases hfirst
  · cases hmiddle _ hmem

/-- What a task has told of its stream, by where it is. -/
def Task.Tells (events : List Event) : Task → Prop
  | .connecting _ _ | .accepting _ | .installing _ => events = []
  | .ended => WellFormed events
  | _ => Begun events

theorem Task.Tells.eq_nil {events : List Event} {task : Task} (h : task.Tells events)
    (hopened : task.opened = false) : events = [] := by
  cases task with
  | connecting _ _ | accepting _ => exact h
  | _ => cases hopened

/-- The entry of the stream has been taken out of the table. -/
def Task.removed : Task → Bool
  | .reporting _ | .ended => true
  | _ => false

theorem Task.Tells.wellFormed {events : List Event} {task : Task} (h : task.Tells events) :
    WellFormed events := by
  cases task with
  | connecting _ _ | accepting _ | installing _ => exact Or.inl h
  | ended => exact h
  | _ => exact Begun.wellFormed h

theorem Task.Tells.removed_of_closed {events : List Event} {task : Task} (h : task.Tells events)
    {reason : CloseReason} (hmem : .closed reason ∈ events) : task.removed = true := by
  cases task with
  | connecting _ _ | accepting _ | installing _ =>
    obtain rfl := h
    cases hmem
  | ended => rfl
  | _ => exact absurd hmem (Begun.not_mem_closed h reason)

/-! ## Steps and runs of a side

What a task has told is known from where it is, so the step lemma is one case for each place. Only a
stream that is being installed gets an entry, and it is opened once; from these two a stream that
was taken out of the table has no entry ever after. -/

namespace Side

/-- **A step goes on telling.** -/
theorem Step.tells {s s' : Side} {action : Action} {told : List Event} (h : s.Step action s')
    (hs : s.task.Tells told) : s'.task.Tells (told ++ events [action]) := by
  cases h with
  | send h =>
    obtain ⟨-, entry, -, -, -, rfl⟩ := returns_send.mp h
    rw [show events [.sent _] = [] from rfl, List.append_nil]
    exact hs
  | credit h =>
    obtain ⟨-, entry, -, -, -, rfl⟩ := returns_credit.mp h
    rw [show events [.granted _] = [] from rfl, List.append_nil]
    exact hs
  | close h =>
    obtain ⟨-, -, rfl⟩ := returns_close.mp h
    rw [show events [.closeAsked] = [] from rfl, List.append_nil]
    exact hs
  | @announce opening h =>
    rw [h] at hs
    obtain rfl := hs
    exact begun_opening opening
  | creditEvent h | dataEvent h =>
    rw [h] at hs
    exact Begun.append hs rfl
  | @report reason h =>
    rw [h] at hs
    exact Begun.closed hs reason
  | reportFails h =>
    rw [h] at hs
    exact (List.append_nil told).symm ▸ Begun.wellFormed hs
  | connectFailed h | refused h | announceFails h =>
    rw [h] at hs
    obtain rfl := hs
    exact Or.inl rfl
  | writeHeader _ h | connected h | readHeader _ _ h | allowed h =>
    rw [h] at hs
    obtain rfl := hs
    rfl
  | @takeCredit bytes rest h hc =>
    rw [h] at hs
    rw [show events [.quiet] = [] from rfl, List.append_nil, Side.takeCredit]
    split
    · exact hs
    · rw [h]
      exact hs
  | deduct h =>
    rw [h] at hs
    rw [show events [.quiet] = [] from rfl, List.append_nil, Side.deduct]
    split
    · exact hs
    · split <;> exact hs
  | takeSend h | takeClose h | noCommands h | write _ h | written h | writeFails h | replenish h
  | creditEventFails h | readData _ _ h | readEnd _ h | readFails _ h | dataEventFails h
  | remove h =>
    rw [h] at hs
    exact (List.append_nil told).symm ▸ hs

theorem Run.tells {start s : Side} {trace : List Action} (hstart : start.Fresh)
    (h : start.Run trace s) : s.task.Tells (events trace) := by
  induction h with
  | start =>
    have hopened := hstart.opened
    cases htask : start.task with
    | connecting _ _ | accepting _ => rfl
    | _ =>
      rw [htask] at hopened
      cases hopened
  | step _ hstep ih =>
    rw [events_append]
    exact hstep.tells ih

/-- Only a stream that is being installed gets an entry. -/
theorem Step.entry_eq_none {s s' : Side} {action : Action} (h : s.Step action s')
    (hentry : s.entry = none)
    (hinstalls : s.task.opened = false → ∀ opening, s'.task ≠ .installing opening) :
    s'.entry = none := by
  cases h with
  | send h =>
    obtain ⟨-, entry, hsome, -⟩ := returns_send.mp h
    exact absurd (hentry.symm.trans hsome) (by simp)
  | credit h =>
    obtain ⟨-, entry, hsome, -⟩ := returns_credit.mp h
    exact absurd (hentry.symm.trans hsome) (by simp)
  | close h =>
    obtain ⟨-, -, rfl⟩ := returns_close.mp h
    exact hentry
  | connected h | allowed h => exact absurd rfl (hinstalls (by rw [h]; rfl) _)
  | takeCredit =>
    rw [Side.takeCredit]
    split <;> exact hentry
  | replenish =>
    rw [Side.replenish, hentry]
    rfl
  | deduct =>
    simp only [Side.deduct, hentry]
  | announceFails | remove => rfl
  | _ => exact hentry

theorem Step.opened {s s' : Side} {action : Action} (h : s.Step action s')
    (hopened : s.task.opened = true) : s'.task.opened = true := by
  cases h with
  | send h =>
    obtain ⟨-, entry, -, -, -, rfl⟩ := returns_send.mp h
    exact hopened
  | credit h =>
    obtain ⟨-, entry, -, -, -, rfl⟩ := returns_credit.mp h
    exact hopened
  | close h =>
    obtain ⟨-, -, rfl⟩ := returns_close.mp h
    exact hopened
  | writeHeader _ h | readHeader _ _ h =>
    rw [h] at hopened
    cases hopened
  | takeCredit =>
    rw [Side.takeCredit]
    split
    · rfl
    · exact hopened
  | deduct =>
    rw [Side.deduct]
    split
    · rfl
    · split <;> rfl
  | _ => rfl

/-- A stream that was taken out of the table, or never got into it, has no entry. -/
theorem Run.entry_of_removed {start s : Side} {trace : List Action} (hstart : start.Fresh)
    (h : start.Run trace s) (hremoved : s.task.opened = false ∨ s.task.removed = true) :
    s.entry = none := by
  induction h with
  | start => exact hstart.entry
  | @step trace s s' action _ hstep ih =>
    have hkept : s.task.opened = false ∨ s.task.removed = true →
        (∀ opening, s'.task ≠ .installing opening) → s'.entry = none := fun hbefore hinstalls ↦
      hstep.entry_eq_none (ih hbefore) fun _ ↦ hinstalls
    cases hstep with
    | send h =>
      obtain ⟨-, entry, hsome, -, -, rfl⟩ := returns_send.mp h
      exact absurd ((ih hremoved).symm.trans hsome) (by simp)
    | credit h =>
      obtain ⟨-, entry, hsome, -, -, rfl⟩ := returns_credit.mp h
      exact absurd ((ih hremoved).symm.trans hsome) (by simp)
    | close h =>
      obtain ⟨-, -, rfl⟩ := returns_close.mp h
      exact ih hremoved
    | writeHeader _ h | connectFailed h | readHeader _ _ h | refused h | report h | reportFails h =>
      exact hkept (by rw [h]; simp [Task.opened, Task.removed]) (by simp)
    | announceFails | remove => rfl
    | takeCredit h =>
      rw [Side.takeCredit] at hremoved
      split at hremoved
      · simp [Task.opened, Task.removed] at hremoved
      · rw [h] at hremoved
        simp [Task.opened, Task.removed] at hremoved
    | deduct =>
      rw [Side.deduct] at hremoved
      split at hremoved
      · simp [Task.opened, Task.removed] at hremoved
      · split at hremoved <;> simp [Task.opened, Task.removed] at hremoved
    | _ => simp [Side.install, Side.replenish, Task.opened, Task.removed] at hremoved

end Side

end NervesP2P
