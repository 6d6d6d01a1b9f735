import NervesP2P.Dist.Window
import NervesP2P.Lib.Channel

/-!
# Two tasks on one connection

Here the two sides of a stream are joined by two wires, one for each direction, and a wire holds a
bounded number of bytes. What a side writes has to fit into its wire, and `write_all` returns only
when all of a payload is in it.

A task that writes does not read, so that two tasks that both write can wait for each other: each
wire is full, and the side that would empty it is inside `write_all` itself. `Blocked` is that
state. Whether it can come about is decided when a task takes a payload up from its queue. As long
as one of the two tasks has room for all it is still to write, it will come back to reading, and
this is what `Clear` says; a payload taken up beyond the room of its wire while the other task is
short of room too is the only way to lose it.
-/

namespace NervesP2P

open Relation (ReflTransGen)

/-- One direction of a connection: the bytes on their way, and whether the writing end is finished.
-/
structure Wire (capacity : ℕ) where
  bytes : Channel UInt8 capacity
  finished : Bool

/-- Two sides and the wires between them. -/
structure Link (capacity : ℕ) where
  opening : Side
  accepting : Side
  /-- What the opening side writes. -/
  forward : Wire capacity
  /-- What the accepting side writes. -/
  backward : Wire capacity

variable {capacity : ℕ}

/-- What an action of a side does to the wire it writes to and to the one it reads from. -/
def Carries (out inc : Wire capacity) (action : Action) (out' inc' : Wire capacity) : Prop :=
  match action with
  | .wrote bytes => out.bytes.Puts bytes out'.bytes ∧ out'.finished = out.finished ∧ inc' = inc
  | .finished => out' = { out with finished := true } ∧ inc' = inc
  | .readHeader bytes | .readData bytes =>
    inc.bytes.Takes bytes inc'.bytes ∧ inc'.finished = inc.finished ∧ out' = out
  | .readEnd => (inc.bytes.items = [] ∧ inc.finished = true) ∧ out' = out ∧ inc' = inc
  | _ => out' = out ∧ inc' = inc

namespace Link

/-- The same link with the sides in the other order. -/
def swap (link : Link capacity) : Link capacity where
  opening := link.accepting
  accepting := link.opening
  forward := link.backward
  backward := link.forward

def Moves (l l' : Link capacity) : Prop :=
  ∃ action, l.opening.Step action l'.opening
    ∧ Carries l.forward l.backward action l'.forward l'.backward ∧ l'.accepting = l.accepting

inductive Step (l l' : Link capacity) : Prop
  | opening (h : l.Moves l')
  | accepting (h : l.swap.Moves l'.swap)

def start (capacity : ℕ) (fromNode targetNode : Text) : Link capacity where
  opening := Side.connecting fromNode targetNode
  accepting := Side.accepting
  forward := ⟨.empty, false⟩
  backward := ⟨.empty, false⟩

/-- Both tasks are inside `write_all`, and both wires are full. -/
def Blocked (link : Link capacity) : Prop :=
  (∃ rest length, link.opening.task = .writing rest length ∧ rest ≠ []) ∧ link.forward.bytes.Full
    ∧ (∃ rest length, link.accepting.task = .writing rest length ∧ rest ≠ [])
    ∧ link.backward.bytes.Full

end Link

/-! ## Room for what is being written

A side can lose its room only by what it does itself, as the actions of the other side can only
empty the wire that it reads from. So of the two conditions in `Clear`, a step of one side concerns
the condition on this side, and the other one stays. -/

namespace Side

/-- What the task is still to write fits into its wire. -/
def HasRoom (side : Side) (out : Wire capacity) : Prop :=
  ∀ rest length, side.task = .writing rest length →
    out.bytes.items.length + rest.length ≤ capacity

/-- From one state to the next, the task takes a payload up from its queue. -/
def TakesUp (s s' : Side) (bytes : List UInt8) : Prop :=
  s.task = .selecting ∧ s.commands = .send bytes :: s'.commands
    ∧ s'.task = .writing bytes bytes.length

theorem hasRoom_of_task_eq {s s' : Side} {out : Wire capacity} (htask : s'.task = s.task)
    (hs : s.HasRoom out) : s'.HasRoom out :=
  fun rest length h ↦ hs rest length (htask ▸ h)

/-- **A step keeps the room of its side**, unless it takes up a payload that does not fit. -/
theorem Step.hasRoom {s s' : Side} {action : Action} {out inc out' inc' : Wire capacity}
    (h : s.Step action s') (hwire : Carries out inc action out' inc') (hs : s.HasRoom out)
    (htake : ∀ bytes, s.TakesUp s' bytes → out.bytes.items.length + bytes.length ≤ capacity) :
    s'.HasRoom out' := by
  cases h with
  | send h =>
    obtain ⟨-, entry, -, -, -, rfl⟩ := returns_send.mp h
    rw [hwire.1]
    exact hasRoom_of_task_eq rfl hs
  | credit h =>
    obtain ⟨-, entry, -, -, -, rfl⟩ := returns_credit.mp h
    rw [hwire.1]
    exact hasRoom_of_task_eq rfl hs
  | close h =>
    obtain ⟨-, -, rfl⟩ := returns_close.mp h
    rw [hwire.1]
    exact hasRoom_of_task_eq rfl hs
  | @takeSend bytes rest h hc =>
    rintro _ _ ⟨⟩
    rw [hwire.1]
    exact htake bytes ⟨h, hc, rfl⟩
  | @write bytes rest length hne h =>
    rintro _ _ ⟨⟩
    have hroom := hs _ _ h
    rw [List.length_append] at hroom
    rw [hwire.1.length]
    omega
  | takeCredit h hc =>
    rw [Side.takeCredit]
    split
    · rintro _ _ ⟨⟩
    · rw [HasRoom]
      dsimp only
      rw [h]
      simp
  | deduct h =>
    rw [Side.deduct]
    split
    · rintro _ _ ⟨⟩
    · split <;> rintro _ _ ⟨⟩
  | writeHeader | connected | connectFailed | readHeader | allowed | refused | announce
  | announceFails | takeClose | noCommands | written | writeFails | replenish | creditEvent
  | creditEventFails | readData | readEnd | readFails | dataEvent | dataEventFails | remove
  | report | reportFails => rintro _ _ ⟨⟩

end Side

theorem Carries.length_le {out inc out' inc' : Wire capacity} {action : Action}
    (h : Carries out inc action out' inc') :
    inc'.bytes.items.length ≤ inc.bytes.items.length := by
  cases action with
  | readHeader bytes | readData bytes =>
    rw [h.1.length]
    exact Nat.le_add_left _ _
  | wrote bytes => rw [h.2.2]
  | readEnd => rw [h.2.2]
  | quiet | sent _ | granted _ | closeAsked | finished | emitted _ => rw [h.2]

namespace Link

/-- One of the tasks has room for all it is still to write. -/
def Clear (link : Link capacity) : Prop :=
  link.opening.HasRoom link.forward ∨ link.accepting.HasRoom link.backward

theorem clear_swap {link : Link capacity} : link.swap.Clear ↔ link.Clear := or_comm

/-- A payload that the first side takes up fits into its wire, or else the other task has room. -/
def Yields (l l' : Link capacity) : Prop :=
  ∀ bytes, l.opening.TakesUp l'.opening bytes →
    l.forward.bytes.items.length + bytes.length ≤ capacity ∨ l.accepting.HasRoom l.backward

/-- The same for whichever side moves. -/
def Considerate (l l' : Link capacity) : Prop := l.Yields l' ∧ l.swap.Yields l'.swap

theorem Moves.clear {l l' : Link capacity} (h : l.Moves l') (hyields : l.Yields l')
    (hl : l.Clear) : l'.Clear := by
  obtain ⟨action, hstep, hwire, hother⟩ := h
  by_cases hroom : l.accepting.HasRoom l.backward
  · right
    intro rest length htask
    rw [hother] at htask
    exact (Nat.add_le_add_right hwire.length_le _).trans (hroom rest length htask)
  · left
    refine hstep.hasRoom hwire (hl.resolve_right hroom) ?_
    intro bytes htake
    exact (hyields bytes htake).resolve_right hroom

/-- **The step lemma.** -/
theorem Step.clear {l l' : Link capacity} (h : l.Step l') (hc : l.Considerate l')
    (hl : l.Clear) : l'.Clear := by
  cases h with
  | opening h => exact h.clear hc.1 hl
  | accepting h => exact clear_swap.mp (h.clear hc.2 (clear_swap.mpr hl))

theorem clear_start (fromNode targetNode : Text) : (start capacity fromNode targetNode).Clear :=
  Or.inl (by rintro _ _ ⟨⟩)

theorem Blocked.not_clear {l : Link capacity} (h : l.Blocked) : ¬l.Clear := by
  obtain ⟨⟨rest, length, htask, hne⟩, hfull, ⟨rest', length', htask', hne'⟩, hfull'⟩ := h
  rw [Channel.Full] at hfull hfull'
  have hpos := List.length_pos_iff.mpr hne
  have hpos' := List.length_pos_iff.mpr hne'
  rintro (hroom | hroom)
  · have := hroom rest length htask
    omega
  · have := hroom rest' length' htask'
    omega

/-! ## How a link is blocked

The condition on the runs is sharp. A payload that is taken up against it leaves neither task with
room, and from there the tasks can block each other: each goes on writing until its wire is full,
and neither wire is emptied meanwhile. Once they are blocked they stay blocked until a write
fails. -/

theorem action_of_takesUp {s s' : Side} {action : Action} {bytes : List UInt8}
    (h : s.Step action s') (htake : s.TakesUp s' bytes) : action = .quiet := by
  obtain ⟨hselecting, -, hwriting⟩ := htake
  cases h with
  | send h =>
    obtain ⟨-, entry, -, -, -, rfl⟩ := Side.returns_send.mp h
    exact absurd (hselecting.symm.trans hwriting) (by simp)
  | credit h =>
    obtain ⟨-, entry, -, -, -, rfl⟩ := Side.returns_credit.mp h
    exact absurd (hselecting.symm.trans hwriting) (by simp)
  | close h =>
    obtain ⟨-, -, rfl⟩ := Side.returns_close.mp h
    exact absurd (hselecting.symm.trans hwriting) (by simp)
  | write _ h => exact absurd (hselecting.symm.trans h) (by simp)
  | writeHeader | readHeader | announce | takeClose | creditEvent | readData | readEnd | dataEvent
  | report => cases hwriting
  | connected | connectFailed | allowed | refused | announceFails | takeSend | takeCredit
  | noCommands | written | writeFails | replenish | creditEventFails | readFails | deduct
  | dataEventFails | remove | reportFails => rfl

theorem Moves.not_clear {l l' : Link capacity} (h : l.Moves l') (hyields : ¬l.Yields l') :
    ¬l'.Clear := by
  obtain ⟨action, hstep, hwire, hother⟩ := h
  rw [Yields] at hyields
  push Not at hyields
  obtain ⟨bytes, htake, hlt, hroom⟩ := hyields
  rw [action_of_takesUp hstep htake] at hwire
  obtain ⟨hforward, hbackward⟩ := hwire
  rintro (hclear | hclear)
  · have := hclear bytes bytes.length htake.2.2
    rw [hforward] at this
    omega
  · rw [hother, hbackward] at hclear
    exact hroom hclear

theorem Moves.yields_swap {l l' : Link capacity} (h : l.Moves l') : l.swap.Yields l'.swap := by
  obtain ⟨action, -, -, hother⟩ := h
  rintro bytes ⟨hselecting, -, hwriting⟩
  have htask : l'.swap.opening.task = l.swap.opening.task := congrArg Side.task hother
  rw [htask, hselecting] at hwriting
  cases hwriting

theorem Step.not_clear {l l' : Link capacity} (h : l.Step l') (hc : ¬l.Considerate l') :
    ¬l'.Clear := by
  cases h with
  | opening h => exact h.not_clear fun hyields ↦ hc ⟨hyields, h.yields_swap⟩
  | accepting h =>
    rw [← clear_swap]
    exact h.not_clear fun hyields ↦ hc ⟨h.yields_swap, hyields⟩

theorem exists_full {l : Link capacity} (h : ¬l.opening.HasRoom l.forward) :
    ∃ l' : Link capacity, ReflTransGen Step l l'
      ∧ (∃ rest length, l'.opening.task = .writing rest length ∧ rest ≠ []) ∧ l'.forward.bytes.Full
      ∧ l'.accepting = l.accepting ∧ l'.backward = l.backward := by
  rw [Side.HasRoom] at h
  push Not at h
  obtain ⟨bytes, length, htask, hlt⟩ := h
  obtain ⟨first, rest, c', rfl, hne, hputs, hfull⟩ := Channel.exists_fill hlt
  by_cases hfirst : first = []
  · -- the wire is full already
    subst hfirst
    rw [Channel.Full, hputs.length] at hfull
    exact ⟨l, .refl, ⟨rest, length, htask, hne⟩, hfull, rfl, rfl⟩
  · refine ⟨{ l with
      opening := { l.opening with task := .writing rest length }
      forward := ⟨c', l.forward.finished⟩ }, .single (.opening ⟨.wrote first, ?_, ?_, rfl⟩),
      ⟨rest, length, rfl, hne⟩, hfull, rfl, rfl⟩
    · exact .write hfirst htask
    · exact ⟨hputs, rfl, rfl⟩

theorem Step.swap {l l' : Link capacity} (h : l.Step l') : l.swap.Step l'.swap := by
  cases h with
  | opening h => exact .accepting h
  | accepting h => exact .opening h

/-- Where neither task has room, they can block each other. -/
theorem exists_blocked {l : Link capacity} (h : ¬l.Clear) :
    ∃ l' : Link capacity, ReflTransGen Step l l' ∧ l'.Blocked := by
  rw [Clear, not_or] at h
  obtain ⟨l₁, hsteps₁, hwriting₁, hfull₁, haccepting₁, hbackward₁⟩ := exists_full h.1
  have hroom₁ : ¬l₁.swap.opening.HasRoom l₁.swap.forward := by
    rw [show l₁.swap.opening = l.accepting from haccepting₁,
      show l₁.swap.forward = l.backward from hbackward₁]
    exact h.2
  obtain ⟨l₂, hsteps₂, hwriting₂, hfull₂, haccepting₂, hbackward₂⟩ := exists_full hroom₁
  refine ⟨l₂.swap, hsteps₁.trans (hsteps₂.lift swap fun _ _ ↦ Step.swap), ?_, ?_, hwriting₂, hfull₂⟩
  · rw [show l₂.swap.opening = l₁.opening from haccepting₂]
    exact hwriting₁
  · rw [show l₂.swap.forward = l₁.forward from hbackward₂]
    exact hfull₁

/-- Blocked tasks stay blocked until a write fails. -/
theorem Moves.blocked {l l' : Link capacity} (h : l.Moves l') (hl : l.Blocked) :
    l'.Blocked ∨ l'.opening.task = .closing .writeFailed := by
  obtain ⟨action, hstep, hwire, hother⟩ := h
  have hsame : l'.opening.task = l.opening.task →
      l'.forward = l.forward ∧ l'.backward = l.backward →
      l'.Blocked := by
    rintro htask ⟨hforward, hbackward⟩
    rw [Blocked, htask, hforward, hother, hbackward]
    exact hl
  obtain ⟨⟨rest, length, htask, hne⟩, hfull, -⟩ := hl
  generalize hs : l.opening = s at hstep htask
  generalize hs' : l'.opening = s' at hstep
  rw [hs, hs'] at hsame
  cases hstep with
  | send h =>
    obtain ⟨-, entry, -, -, -, rfl⟩ := Side.returns_send.mp h
    exact Or.inl (hsame rfl hwire)
  | credit h =>
    obtain ⟨-, entry, -, -, -, rfl⟩ := Side.returns_credit.mp h
    exact Or.inl (hsame rfl hwire)
  | close h =>
    obtain ⟨-, -, rfl⟩ := Side.returns_close.mp h
    exact Or.inl (hsame rfl hwire)
  | write hbytes h => exact absurd (hfull.puts hwire.1) hbytes
  | written h => exact absurd (Task.writing.inj (htask.symm.trans h)).1 hne
  | writeFails => exact Or.inr rfl
  | writeHeader _ h | connected h | connectFailed h | readHeader _ _ h | allowed h | refused h
  | announce h | announceFails h | takeSend h | takeCredit h | takeClose h | noCommands h
  | replenish h | creditEvent h | creditEventFails h | readData _ _ h | readEnd _ h | readFails _ h
  | deduct h | dataEvent h | dataEventFails h | remove h | report h | reportFails h =>
    exact absurd (htask.symm.trans h) (by simp)

theorem blocked_swap {link : Link capacity} : link.swap.Blocked ↔ link.Blocked := by
  constructor
  · rintro ⟨haccepting, hbackward, hopening, hforward⟩
    exact ⟨hopening, hforward, haccepting, hbackward⟩
  · rintro ⟨hopening, hforward, haccepting, hbackward⟩
    exact ⟨haccepting, hbackward, hopening, hforward⟩

/-- **Two tasks that yield do not block each other.** In a run in which every payload is taken up
with room for it in its wire, or while the other task has room for what it is still to write, no
state is reached in which both tasks are inside `write_all` with full wires. A payload taken up
otherwise can lead to such a state, and the tasks leave it only when a write fails. -/
theorem blocked_only_inconsiderate {fromNode targetNode : Text} :
    (∀ l : Link capacity, ReflTransGen (fun l l' ↦ l.Step l' ∧ l.Considerate l')
        (start capacity fromNode targetNode) l → ¬l.Blocked)
      ∧ (∀ l l' : Link capacity, l.Step l' → ¬l.Considerate l' →
        ∃ l'', ReflTransGen Step l' l'' ∧ l''.Blocked)
      ∧ ∀ l l' : Link capacity, l.Blocked → l.Step l' →
        l'.Blocked ∨ l'.opening.task = .closing .writeFailed
          ∨ l'.accepting.task = .closing .writeFailed := by
  refine ⟨?_, fun l l' hstep hc ↦ exists_blocked (hstep.not_clear hc), ?_⟩
  · intro l h hblocked
    apply hblocked.not_clear
    clear hblocked
    induction h with
    | refl => exact clear_start fromNode targetNode
    | tail _ hstep ih => exact hstep.1.clear hstep.2 ih
  · intro l l' hl hstep
    cases hstep with
    | opening h => exact (h.blocked hl).imp_right Or.inl
    | accepting h =>
      rcases h.blocked (blocked_swap.mpr hl) with hblocked | hfailed
      · exact Or.inl (blocked_swap.mp hblocked)
      · exact Or.inr (Or.inr hfailed)

/-! ### A link that is blocked -/

/-- States reached without taking up a payload that does not fit. -/
def Yielding (link : Link capacity) : Prop :=
  ReflTransGen (fun l l' ↦ l.Step l' ∧ l.Considerate l') (start capacity sampleNode sampleNode) link

namespace Yielding

variable {a b s' : Side} {f g f' g' : Wire capacity} {action : Action}

theorem reachable {l : Link capacity} (h : l.Yielding) :
    ReflTransGen Step (start capacity sampleNode sampleNode) l :=
  ReflTransGen.mono (fun _ _ ↦ And.left) _ _ h

theorem opening (h : (Link.mk a b f g).Yielding) (hstep : a.Step action s')
    (hwire : Carries f g action f' g')
    (htake : ∀ bytes, s'.task = .writing bytes bytes.length →
      f.bytes.items.length + bytes.length ≤ capacity) :
    (Link.mk s' b f' g').Yielding := by
  have hmoves : (Link.mk a b f g).Moves ⟨s', b, f', g'⟩ := ⟨action, hstep, hwire, rfl⟩
  exact ReflTransGen.tail h
    ⟨.opening hmoves, fun bytes h ↦ Or.inl (htake bytes h.2.2), hmoves.yields_swap⟩

theorem accepting (h : (Link.mk a b f g).Yielding) (hstep : b.Step action s')
    (hwire : Carries g f action g' f')
    (htake : ∀ bytes, s'.task = .writing bytes bytes.length →
      g.bytes.items.length + bytes.length ≤ capacity) :
    (Link.mk a s' f' g').Yielding := by
  have hmoves : (Link.mk b a g f).Moves ⟨s', a, g', f'⟩ := ⟨action, hstep, hwire, rfl⟩
  exact ReflTransGen.tail h
    ⟨.accepting hmoves, hmoves.yields_swap, fun bytes h ↦ Or.inl (htake bytes h.2.2)⟩

end Yielding

/-- A wire on which the header just fits. -/
def sampleWire (bytes : List UInt8) (h : bytes.length ≤ 18) : Wire 18 := ⟨⟨bytes, h⟩, false⟩

/-- Both sides are in their loops, and nothing is on the wires. -/
def established : Link 18 where
  opening := Side.idle
  accepting := Side.idle
  forward := sampleWire [] (by decide)
  backward := sampleWire [] (by decide)

set_option maxRecDepth 2000 in
theorem yielding_established : established.Yielding := by
  have hstart : (start 18 sampleNode sampleNode).Yielding := .refl
  have hopened := hstart
    |>.opening (@Side.Step.writeHeader _ (encodeHeader sampleNode sampleNode) [] sampleNode
      (by decide) (by rw [List.append_nil]; rfl))
      (show Carries _ _ _ (sampleWire (encodeHeader sampleNode sampleNode) (by decide)) _ from
        ⟨rfl, rfl, rfl⟩) (by simp)
    |>.opening (.connected rfl) ⟨rfl, rfl⟩ (by rintro _ ⟨⟩)
    |>.opening (.announce rfl) ⟨rfl, rfl⟩ (by simp)
  exact hopened
    |>.accepting (@Side.Step.readHeader _ magic _ (by decide) (by decide) rfl)
      (show Carries _ _ _ _ (sampleWire [0, 3, 97, 64, 98, 0, 3, 97, 64, 98] (by decide)) from
        ⟨rfl, rfl, rfl⟩) (by simp)
    |>.accepting (@Side.Step.readHeader _ [0, 3] _ (by decide) (by decide) rfl)
      (show Carries _ _ _ _ (sampleWire [97, 64, 98, 0, 3, 97, 64, 98] (by decide)) from
        ⟨rfl, rfl, rfl⟩) (by simp)
    |>.accepting (@Side.Step.readHeader _ [97, 64, 98] _ (by decide) (by decide) rfl)
      (show Carries _ _ _ _ (sampleWire [0, 3, 97, 64, 98] (by decide)) from
        ⟨rfl, rfl, rfl⟩) (by simp)
    |>.accepting (@Side.Step.readHeader _ [0, 3] _ (by decide) (by decide) rfl)
      (show Carries _ _ _ _ (sampleWire [97, 64, 98] (by decide)) from ⟨rfl, rfl, rfl⟩) (by simp)
    |>.accepting (@Side.Step.readHeader _ [97, 64, 98] _ (by decide) (by decide) rfl)
      (show Carries _ _ _ _ (sampleWire [] (by decide)) from ⟨rfl, rfl, rfl⟩) (by simp)
    |>.accepting (@Side.Step.allowed _ ⟨sampleNode, sampleNode⟩ rfl) ⟨rfl, rfl⟩ (by rintro _ ⟨⟩)
    |>.accepting (.announce rfl) ⟨rfl, rfl⟩ (by rintro _ ⟨⟩)

/-- A side inside `write_all`, with one byte left that does not fit. -/
def choked : Side where
  entry := some ⟨creditWindow - 19, creditWindow⟩
  commands := []
  task := .writing [7] 19
  receiveCredit := creditWindow

/-- The same side before it has taken the payload up. -/
def loaded : Side :=
  { choked with commands := [.send (List.replicate 19 7)], task := .selecting }

/-- The same side before it has written. -/
def unwritten : Side := { choked with task := .writing (List.replicate 19 7) 19 }

theorem steps_choked (b : Side) (g : Wire 18) :
    ReflTransGen Step ⟨Side.idle, b, sampleWire [] (by decide), g⟩
      ⟨choked, b, sampleWire (List.replicate 18 7) (by decide), g⟩ := by
  have hsend : (Side.send (List.replicate 19 7)).Returns Side.idle () loaded := rfl
  have hsent : Step ⟨Side.idle, b, sampleWire [] (by decide), g⟩
      ⟨loaded, b, sampleWire [] (by decide), g⟩ :=
    .opening ⟨_, .send hsend, ⟨rfl, rfl⟩, rfl⟩
  have htaken : Step ⟨loaded, b, sampleWire [] (by decide), g⟩
      ⟨unwritten, b, sampleWire [] (by decide), g⟩ :=
    .opening ⟨_, .takeSend rfl rfl, ⟨rfl, rfl⟩, rfl⟩
  have hfilled : Step ⟨unwritten, b, sampleWire [] (by decide), g⟩
      ⟨choked, b, sampleWire (List.replicate 18 7) (by decide), g⟩ :=
    .opening ⟨.wrote (List.replicate 18 7), .write (by decide) rfl, ⟨rfl, rfl, rfl⟩, rfl⟩
  exact .head hsent (.head htaken (.single hfilled))

/-- Each side takes up one byte more than its wire holds, and writes until it is full. -/
theorem tasks_block_each_other : ∃ l : Link 18,
    ReflTransGen Step (start 18 sampleNode sampleNode) l ∧ l.Blocked
      ∧ 0 < l.opening.receiveCredit ∧ 0 < l.accepting.receiveCredit := by
  have hopening := steps_choked Side.idle (sampleWire [] (by decide))
  have haccepting := steps_choked choked (sampleWire (List.replicate 18 7) (by decide))
  refine ⟨_, (yielding_established.reachable.trans hopening).trans
    (haccepting.lift swap fun _ _ ↦ Step.swap), ?_, by decide, by decide⟩
  exact ⟨⟨[7], 19, rfl, by decide⟩, rfl, ⟨[7], 19, rfl, by decide⟩, rfl⟩

/-- One side writes a payload of one byte. -/
theorem blocked_only_inconsiderate_sample :
    ∃ l : Link 18, (∃ rest length, l.opening.task = .writing rest length) ∧ ¬l.Blocked := by
  have htaken := yielding_established
    |>.opening (@Side.Step.send _ _ [7] (Method.returns_after (by decide))) ⟨rfl, rfl⟩
      (by rintro _ ⟨⟩)
    |>.opening (.takeSend rfl rfl) ⟨rfl, rfl⟩ (by rintro _ ⟨⟩; decide)
  exact ⟨_, ⟨[7], 1, rfl⟩, blocked_only_inconsiderate.1 _ htaken⟩

end Link

end NervesP2P
