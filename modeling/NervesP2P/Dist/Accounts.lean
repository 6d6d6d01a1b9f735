import NervesP2P.Dist.Transport

/-!
# The credit accounts of a daemon's side

A side counts credit in its entry, in the commands on their way to the task, and in what the task is
just doing. `Side.Sound` says how much there is of it for sending, in every state after the stream
was installed, and `Settles` how a step moves it, with the payloads, grants and events that the step
shows to others. All of it follows from one look at each step.
-/

namespace NervesP2P

/-! ## What is where

Credit is not only in the counters. A payload that is being written has left the queue and is not
given back yet; credit that was given back may not be reported; and data that was subtracted from
the credit of the remote end may wait for the channel. Each of these is a function of the task. -/

namespace Task

/-- The stream is installed and its loop has not been left. -/
def live : Task → Bool
  | .installing _ | .selecting | .writing _ _ | .replenishing _ | .crediting _ | .taking _
  | .emitting _ => true
  | _ => false

/-- The stream has been installed. -/
def opened : Task → Bool
  | .connecting _ _ | .accepting _ => false
  | _ => true

/-- The length of the payload being written. -/
def unsent : Task → ℕ
  | .writing _ length | .replenishing length => length
  | _ => 0

/-- The credit that was given back and not yet reported. -/
def unreported : Task → ℕ
  | .crediting length => length
  | _ => 0

/-- The length of the data that was subtracted from the credit and not yet reported. -/
def untold : Task → ℕ
  | .emitting bytes => bytes.length
  | _ => 0

/-- What the task has read is the result of one read. -/
def Fits : Task → Prop
  | .taking bytes | .emitting bytes => bytes ≠ [] ∧ bytes.length ≤ dataChunk
  | _ => True

end Task

def creditIn (events : List Event) : ℕ := (events.map Event.creditBytes).sum

def dataIn (events : List Event) : ℕ := (events.map Event.dataLength).sum

@[simp] theorem creditIn_append (e f : List Event) :
    creditIn (e ++ f) = creditIn e + creditIn f := by
  rw [creditIn, List.map_append, List.sum_append, creditIn, creditIn]

@[simp] theorem dataIn_append (e f : List Event) : dataIn (e ++ f) = dataIn e + dataIn f := by
  rw [dataIn, List.map_append, List.sum_append, dataIn, dataIn]

/-- The credit granted by the calls of a trace. -/
def grantedBytes (trace : List Action) : ℕ := (trace.map fun
  | .granted bytes => bytes
  | _ => 0).sum

/-! ## The accounts

A task that has left its loop has no account to keep, so `Sound` is about the time between
installing a stream and its end. Calls of the interface move credit between the entry and the queue,
and steps of the task between the queue, the task and the events. What was written is given back in
full, since it was taken out of the window before, so no addition meets the limit of the window. -/

namespace Side

variable {s s' : Side} {entry' : StreamState} {action : Action} {bytes : List UInt8}

/-- The length of the payloads queued or being written. -/
def unsent (side : Side) : ℕ := (queuedBytes side.commands).length + side.task.unsent

/-- The accounts of a side whose stream was installed. -/
structure Sound (side : Side) : Prop where
  opened : side.task.opened = true
  fits : side.task.Fits
  /-- What is not queued and not being written may be sent. -/
  balance : side.task.live = true →
    ∃ entry, side.entry = some entry ∧ entry.sendCredit + side.unsent = creditWindow

theorem Sound.keep (hs : s.Sound) (hlive : s.task.live = true) (hopened : s'.task.opened = true)
    (hfits : s'.task.Fits) (hentry : s'.entry = s.entry) (hunsent : s'.unsent = s.unsent) :
    s'.Sound := by
  refine ⟨hopened, hfits, fun _ ↦ ?_⟩
  rw [hentry, hunsent]
  exact hs.balance hlive

theorem sound_of_over (hopened : s.task.opened = true) (hlive : s.task.live = false)
    (hfits : s.task.Fits) : s.Sound :=
  ⟨hopened, hfits, fun h ↦ absurd h (by rw [hlive]; decide)⟩

theorem Sound.call (hs : s.Sound) {entry : StreamState} (hentry : s.entry = some entry)
    (hentry' : s'.entry = some entry') (htask : s'.task = s.task)
    (hsum : entry'.sendCredit + (queuedBytes s'.commands).length
      = entry.sendCredit + (queuedBytes s.commands).length) : s'.Sound := by
  refine ⟨htask ▸ hs.opened, htask ▸ hs.fits, fun hlive ↦ ⟨entry', hentry', ?_⟩⟩
  obtain ⟨found, hfound, hbalance⟩ := hs.balance (htask ▸ hlive)
  obtain rfl := Option.some.inj (hentry.symm.trans hfound)
  rw [Side.unsent] at hbalance ⊢
  rw [htask]
  omega

/-- **A step keeps the accounts of a side.** -/
theorem Step.sound (h : s.Step action s') (hs : s.Sound) :
    s'.Sound := by
  cases h with
  | send h =>
    obtain ⟨-, entry, hentry, hle, -, rfl⟩ := returns_send.mp h
    exact hs.call hentry rfl rfl (by simp [queuedBytes]; omega)
  | credit h =>
    obtain ⟨-, entry, hentry, -, -, rfl⟩ := returns_credit.mp h
    exact hs.call hentry rfl rfl (by simp [queuedBytes])
  | close h =>
    obtain ⟨hsome, -, rfl⟩ := returns_close.mp h
    obtain ⟨entry, hentry⟩ := Option.isSome_iff_exists.mp hsome
    exact hs.call hentry hentry rfl (by simp [queuedBytes])
  | writeHeader _ h | connected h | connectFailed h | readHeader _ _ h | allowed h | refused h =>
    exact absurd hs.opened (by rw [h]; exact Bool.false_ne_true)
  | announce h | write _ h | written h | creditEvent h | dataEvent h =>
    exact hs.keep (by rw [h]; rfl) rfl trivial rfl (by rw [Side.unsent, Side.unsent, h]; rfl)
  | takeSend h hc =>
    refine hs.keep (by rw [h]; rfl) rfl trivial rfl ?_
    simp [Side.unsent, Task.unsent, h, hc, queuedBytes, Nat.add_comm]
  | takeCredit h hc =>
    rw [Side.takeCredit]
    split
    · exact sound_of_over rfl rfl trivial
    · exact hs.keep (by rw [h]; rfl) hs.opened hs.fits rfl (by simp [Side.unsent, hc, queuedBytes])
  | replenish h =>
    -- the credit given back is what was being written, so the window does not cut it off
    obtain ⟨entry, hentry, hbalance⟩ := hs.balance (by rw [h]; rfl)
    refine ⟨rfl, trivial, fun _ ↦ ⟨_, by rw [Side.replenish, hentry]; rfl, ?_⟩⟩
    simp only [Side.unsent, Side.replenish, h, Task.unsent] at hbalance ⊢
    omega
  | readData hne hle h =>
    refine hs.keep (by rw [h]; rfl) rfl ⟨hne, hle.trans (min_le_right _ _)⟩ rfl ?_
    rw [Side.unsent, Side.unsent, h]
    rfl
  | deduct h =>
    have hfits := hs.fits
    rw [h] at hfits
    obtain ⟨entry, hentry, hbalance⟩ := hs.balance (by rw [h]; rfl)
    rw [Side.unsent, h] at hbalance
    rw [Side.deduct, hentry]
    simp only
    split
    · exact sound_of_over rfl rfl trivial
    · exact ⟨rfl, hfits, fun _ ↦ ⟨_, rfl, hbalance⟩⟩
  | announceFails | takeClose | noCommands | writeFails | creditEventFails | readEnd | readFails
  | dataEventFails | remove | report | reportFails => exact sound_of_over rfl rfl trivial

/-- How a step moves credit between the entries before and after it. -/
structure Settles (s : Side) (entry : StreamState) (action : Action) (s' : Side)
    (entry' : StreamState) : Prop where
  /-- The credit for sending, less what has not been reported, goes down with an accepted payload
  and up with a credit event. -/
  send_le : entry.sendCredit + s'.task.unreported + creditIn (events [action])
    ≤ entry'.sendCredit + s.task.unreported + (sentBytes [action]).length
  /-- Only a task that leaves the loop loses any of it. -/
  send_eq : s'.task.live = true → s.task.live = true
    ∧ entry.sendCredit + s'.task.unreported + creditIn (events [action])
      = entry'.sendCredit + s.task.unreported + (sentBytes [action]).length
  /-- The credit for receiving, with what has not been reported, goes up with a grant and down with
  a data event. -/
  receive_le : entry'.receiveCredit + s'.task.untold + dataIn (events [action])
    ≤ entry.receiveCredit + s.task.untold + grantedBytes [action]

theorem settles_same {task : Task} (h : s.task = task) (entry : StreamState)
    (hlive : s'.task.live = true → task.live = true)
    (hsend : s'.task.unreported + creditIn (events [action])
      = task.unreported + (sentBytes [action]).length)
    (hreceive : s'.task.untold + dataIn (events [action]) ≤ task.untold + grantedBytes [action]) :
    Settles s entry action s' entry := by
  subst h
  refine ⟨?_, fun h ↦ ⟨hlive h, ?_⟩, ?_⟩ <;> omega

theorem settles_send (h : (send bytes).Returns s () s') (hentry' : s'.entry = some entry') :
    ∃ entry, s.entry = some entry ∧ Settles s entry (.sent bytes) s' entry' := by
  obtain ⟨-, entry, hentry, hle, -, rfl⟩ := returns_send.mp h
  obtain rfl := Option.some.inj hentry'
  have hsum : entry.sendCredit + s.task.unreported
      = entry.sendCredit - bytes.length + s.task.unreported
        + (sentBytes [.sent bytes]).length := by
    simp [sentBytes]
    omega
  exact ⟨entry, hentry, hsum.le, fun hlive ↦ ⟨hlive, hsum⟩, le_rfl⟩

theorem settles_credit {bytes : ℕ} (h : (credit bytes).Returns s () s')
    (hentry' : s'.entry = some entry') :
    ∃ entry, s.entry = some entry ∧ Settles s entry (.granted bytes) s' entry' := by
  obtain ⟨-, entry, hentry, -, -, rfl⟩ := returns_credit.mp h
  obtain rfl := Option.some.inj hentry'
  refine ⟨entry, hentry, le_rfl, fun hlive ↦ ⟨hlive, rfl⟩, ?_⟩
  simp [grantedBytes, events, dataIn]
  omega

theorem settles_replenish (hs : s.Sound) {length : ℕ} (h : s.task = .replenishing length)
    (hentry' : (s.replenish length).entry = some entry') :
    ∃ entry, s.entry = some entry ∧ Settles s entry .quiet (s.replenish length) entry' := by
  obtain ⟨entry, hentry, hbalance⟩ := hs.balance (by rw [h]; rfl)
  simp only [Side.replenish, hentry, Option.map_some, Option.some_inj] at hentry'
  subst hentry'
  simp only [Side.unsent, h, Task.unsent] at hbalance
  have hsum : entry.sendCredit + length = min (entry.sendCredit + length) creditWindow := by
    omega
  refine ⟨entry, hentry, ⟨?_, fun _ ↦ ⟨by rw [h]; rfl, ?_⟩, ?_⟩⟩ <;> rw [h]
  · exact hsum.le
  · exact hsum
  · exact le_rfl

theorem settles_deduct (hs : s.Sound) (h : s.task = .taking bytes)
    (hentry' : (s.deduct bytes).entry = some entry') :
    ∃ entry, s.entry = some entry ∧ Settles s entry .quiet (s.deduct bytes) entry' := by
  obtain ⟨entry, hentry, -⟩ := hs.balance (by rw [h]; rfl)
  simp only [Side.deduct, hentry] at hentry' ⊢
  refine ⟨entry, rfl, ?_⟩
  by_cases hlt : entry.receiveCredit < bytes.length
  · rw [if_pos hlt] at hentry' ⊢
    obtain rfl := Option.some.inj hentry'
    exact settles_same h entry (fun _ ↦ rfl) rfl le_rfl
  · rw [if_neg hlt] at hentry' ⊢
    obtain rfl := Option.some.inj hentry'
    refine ⟨?_, fun _ ↦ ⟨by rw [h]; rfl, ?_⟩, ?_⟩ <;> rw [h]
    · exact le_rfl
    · rfl
    · exact (Nat.sub_add_cancel (not_lt.mp hlt)).le

/-- **Every step settles**: the entry after it comes from one before it. -/
theorem Step.settles (h : s.Step action s') (hs : s.Sound) (hentry' : s'.entry = some entry') :
    ∃ entry, s.entry = some entry ∧ Settles s entry action s' entry' := by
  cases h with
  | send h => exact settles_send h hentry'
  | credit h => exact settles_credit h hentry'
  | close h =>
    obtain ⟨-, -, rfl⟩ := returns_close.mp h
    exact ⟨entry', hentry', settles_same rfl entry' id rfl le_rfl⟩
  | writeHeader _ h | connected h | connectFailed h | readHeader _ _ h | allowed h | refused h =>
    exact absurd hs.opened (by rw [h]; exact Bool.false_ne_true)
  | announceFails | remove => cases hentry'
  | @announce opening h =>
    have hcredit : creditIn (events [.emitted opening.event]) = 0 := by cases opening <;> rfl
    have hdata : dataIn (events [.emitted opening.event]) = 0 := by cases opening <;> rfl
    refine ⟨entry', hentry', settles_same h entry' (fun _ ↦ rfl) ?_ ?_⟩
    · rw [hcredit]
      rfl
    · rw [hdata]
      exact le_rfl
  | @takeCredit bytes rest h hc =>
    rw [Side.takeCredit] at hentry' ⊢
    by_cases hover : creditWindow < s.receiveCredit + bytes
    · rw [if_pos hover] at hentry' ⊢
      exact ⟨entry', hentry', settles_same h entry' (fun _ ↦ rfl) rfl le_rfl⟩
    · rw [if_neg hover] at hentry' ⊢
      exact ⟨entry', hentry', settles_same rfl entry' id rfl le_rfl⟩
  | replenish h => exact settles_replenish hs h hentry'
  | deduct h => exact settles_deduct hs h hentry'
  | creditEvent h =>
    -- the credit passes from the task to the event
    exact ⟨entry', hentry', settles_same h entry' (fun _ ↦ rfl) (Nat.zero_add _) le_rfl⟩
  | creditEventFails h =>
    -- the credit is lost, and with it the stream
    refine ⟨entry', hentry', ⟨?_, fun hlive ↦ absurd hlive Bool.false_ne_true, ?_⟩⟩ <;> rw [h]
    · exact Nat.le_add_right _ _
    · exact le_rfl
  | dataEvent h =>
    exact ⟨entry', hentry', settles_same h entry' (fun _ ↦ rfl) rfl (Nat.zero_add _).le⟩
  | dataEventFails h =>
    exact ⟨entry', hentry', settles_same h entry' (fun _ ↦ rfl) rfl (Nat.zero_le _)⟩
  | takeSend h | write _ h | written h | readData _ _ h | takeClose h | noCommands h | writeFails h
  | readEnd _ h | readFails _ h =>
    exact ⟨entry', hentry', settles_same h entry' (fun _ ↦ rfl) rfl le_rfl⟩
  | report h | reportFails h =>
    exact ⟨entry', hentry', settles_same h entry' (fun hlive ↦ absurd hlive Bool.false_ne_true)
      rfl le_rfl⟩

theorem Step.emitting (h : s.Step action s') (hmem : .data bytes ∈ events [action]) :
    s.task = .emitting bytes := by
  cases h with
  | dataEvent h =>
    obtain rfl := Event.data.inj (List.mem_singleton.mp hmem)
    exact h
  | @announce opening h =>
    cases opening with
    | incoming _ _ | connected _ => cases List.mem_singleton.mp hmem
  | creditEvent | report => cases List.mem_singleton.mp hmem
  | _ => cases hmem

/-- A data event carries the result of one read. -/
theorem Step.data_fits (h : s.Step action s') (hs : s.Sound)
    (hmem : .data bytes ∈ events [action]) :
    bytes ≠ [] ∧ bytes.length ≤ dataChunk := by
  have hfits := hs.fits
  rw [h.emitting hmem] at hfits
  exact hfits

end Side

end NervesP2P
