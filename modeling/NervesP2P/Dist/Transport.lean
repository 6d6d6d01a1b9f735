import NervesP2P.Dist.Stream
import NervesP2P.Lib.Pipeline

/-!
# Bytes arrive in order

Two daemons joined by a stream: one opens it and the other accepts it. Payloads pass the command
queue, the write loop, the transport, the reader of the header and the credit-limited read buffer,
and come out as data events.

Each side is followed on its own, as two stages of a pipeline. The opening side puts its header and
the payloads it has accepted on the wire, and the accepting side makes events of what it reads after
the header, having stopped exactly at the end of it (`Introduced`). The transport joins the two:
what has been read on one side is a beginning of what has been written on the other. Nothing else is
assumed of it, and nothing of how the steps of the two sides interleave.
-/

namespace NervesP2P

variable {s s' : Side} {trace : List Action} {action : Action}

/-! ## What a trace shows

Six byte strings, each read off the actions of one side: what was accepted, written, read as header,
read as data, all that was read, and what was told. They only ever grow at their ends. -/

/-- The payloads for which `send` has returned, one after the other. -/
def sentBytes (trace : List Action) : List UInt8 := trace.flatMap fun
  | .sent bytes => bytes
  | _ => []

/-- The bytes handed to the transport. -/
def writtenBytes (trace : List Action) : List UInt8 := trace.flatMap fun
  | .wrote bytes => bytes
  | _ => []

/-- The bytes read as part of the header. -/
def headerBytes (trace : List Action) : List UInt8 := trace.flatMap fun
  | .readHeader bytes => bytes
  | _ => []

/-- The bytes read after the header. -/
def dataBytes (trace : List Action) : List UInt8 := trace.flatMap fun
  | .readData bytes => bytes
  | _ => []

/-- All bytes read, in the order in which they were. -/
def readBytes (trace : List Action) : List UInt8 := trace.flatMap fun
  | .readHeader bytes => bytes
  | .readData bytes => bytes
  | _ => []

def eventBytes (trace : List Action) : List UInt8 := trace.flatMap fun
  | .emitted (.data bytes) => bytes
  | _ => []

def events (trace : List Action) : List Event := trace.flatMap fun
  | .emitted event => [event]
  | _ => []

@[simp] theorem sentBytes_append (t u : List Action) :
    sentBytes (t ++ u) = sentBytes t ++ sentBytes u := List.flatMap_append

@[simp] theorem writtenBytes_append (t u : List Action) :
    writtenBytes (t ++ u) = writtenBytes t ++ writtenBytes u := List.flatMap_append

@[simp] theorem headerBytes_append (t u : List Action) :
    headerBytes (t ++ u) = headerBytes t ++ headerBytes u := List.flatMap_append

@[simp] theorem dataBytes_append (t u : List Action) :
    dataBytes (t ++ u) = dataBytes t ++ dataBytes u := List.flatMap_append

@[simp] theorem readBytes_append (t u : List Action) :
    readBytes (t ++ u) = readBytes t ++ readBytes u := List.flatMap_append

@[simp] theorem eventBytes_append (t u : List Action) :
    eventBytes (t ++ u) = eventBytes t ++ eventBytes u := List.flatMap_append

@[simp] theorem events_append (t u : List Action) : events (t ++ u) = events t ++ events u :=
  List.flatMap_append

/-! ## The writing end

What has been accepted and not yet written is in the queue and in the hands of the task, and it is
lost when the task stops writing. Until then the header, the payloads that were accepted and what is
still unwritten add up, step by step. -/

/-- The payloads in the queue. -/
def queuedBytes (commands : List StreamCommand) : List UInt8 := commands.flatMap fun
  | .send bytes => bytes
  | _ => []

/-- What the task will write before it takes another command; `none` once it writes no more. -/
def Task.unwritten : Task → Option (List UInt8)
  | .connecting rest _ => some rest
  | .writing rest _ => some rest
  | .closing _ | .reporting _ | .ended | .panicked => none
  | _ => some []

namespace Side

/-- What has been accepted and not yet written. -/
def unwritten (side : Side) : Option (List UInt8) :=
  side.task.unwritten.map (· ++ queuedBytes side.commands)

theorem Step.unwritten (h : s.Step action s') :
    Moves s.unwritten (sentBytes [action]) (writtenBytes [action]) s'.unwritten := by
  cases h with
  | @send _ bytes h =>
    obtain ⟨-, entry, -, -, -, rfl⟩ := returns_send.mp h
    rw [show sentBytes [.sent bytes] = bytes from List.append_nil bytes]
    exact .take bytes (by simp [Side.unwritten, queuedBytes, Function.comp_def])
  | credit h =>
    obtain ⟨-, entry, -, -, -, rfl⟩ := returns_credit.mp h
    exact .keep (by simp [Side.unwritten, queuedBytes])
  | close h =>
    obtain ⟨-, -, rfl⟩ := returns_close.mp h
    exact .keep (by simp [Side.unwritten, queuedBytes])
  | @writeHeader bytes rest _ _ h | @write bytes rest _ _ h =>
    rw [show writtenBytes [.wrote bytes] = bytes from List.append_nil bytes]
    exact .put bytes _ (by simp [Side.unwritten, Task.unwritten, h]) rfl
  | takeSend h hc => exact .keep (by simp [Side.unwritten, Task.unwritten, h, hc, queuedBytes])
  | takeCredit h hc =>
    rw [Side.takeCredit]
    split
    · exact .stop rfl
    · exact .keep (by simp [Side.unwritten, hc, queuedBytes])
  | deduct h =>
    rw [Side.deduct]
    split
    · exact .keep (by simp [Side.unwritten, Task.unwritten, h])
    · split
      · exact .stop rfl
      · exact .keep (by simp [Side.unwritten, Task.unwritten, h])
  | connected h | readHeader _ _ h | allowed h | announce h | written h | replenish h
  | creditEvent h | readData _ _ h | dataEvent h =>
    exact .keep (by simp [Side.unwritten, Task.unwritten, Side.install, Side.replenish, h])
  | connectFailed | refused | announceFails | takeClose | noCommands | writeFails
  | creditEventFails | readEnd | readFails | dataEventFails | remove | report | reportFails =>
    exact .stop rfl

theorem unwritten_connecting (fromNode targetNode : Text) :
    (Side.connecting fromNode targetNode).unwritten = some (encodeHeader fromNode targetNode) := by
  simp [Side.unwritten, Side.connecting, Task.unwritten, queuedBytes]

/-- **The writing end**: the header and the accepted payloads go to the wire in order. -/
theorem Run.writes {start : Side} {header : List UInt8} (hstart : start.unwritten = some header)
    (h : start.Run trace s) :
    Stage s.unwritten (header ++ sentBytes trace) (writtenBytes trace) := by
  induction h with
  | start =>
    rw [hstart]
    exact (List.append_nil header).symm
  | step _ hstep ih =>
    rw [sentBytes_append, writtenBytes_append, ← List.append_assoc]
    exact ih.moves hstep.unwritten

end Side

/-! ## The reading end

The same for data that was read and not yet told. -/

/-- What the task has read and not yet told; `none` once it tells no more. -/
def Task.unemitted : Task → Option (List UInt8)
  | .taking bytes | .emitting bytes => some bytes
  | .closing _ | .reporting _ | .ended | .panicked => none
  | _ => some []

namespace Side

theorem Step.unemitted (h : s.Step action s') :
    Moves s.task.unemitted (dataBytes [action]) (eventBytes [action]) s'.task.unemitted := by
  cases h with
  | send h =>
    obtain ⟨-, entry, -, -, -, rfl⟩ := returns_send.mp h
    exact .keep rfl
  | credit h =>
    obtain ⟨-, entry, -, -, -, rfl⟩ := returns_credit.mp h
    exact .keep rfl
  | close h =>
    obtain ⟨-, -, rfl⟩ := returns_close.mp h
    exact .keep rfl
  | @readData bytes _ _ h =>
    rw [show dataBytes [.readData bytes] = bytes from List.append_nil bytes, h]
    exact .take bytes rfl
  | @dataEvent bytes h =>
    rw [show eventBytes [.emitted (.data bytes)] = bytes from List.append_nil bytes, h]
    exact .put bytes [] (by rw [List.append_nil]; rfl) rfl
  | takeCredit h hc =>
    rw [Side.takeCredit]
    split
    · exact .stop rfl
    · exact .keep rfl
  | deduct h =>
    rw [Side.deduct, h]
    split
    · exact .keep rfl
    · split
      · exact .stop rfl
      · exact .keep rfl
  | @announce opening h =>
    rw [show eventBytes [.emitted opening.event] = [] by cases opening <;> rfl, h]
    exact .keep rfl
  | writeHeader _ h | connected h | readHeader _ _ h | allowed h | takeSend h | write _ h
  | written h | replenish h | creditEvent h =>
    rw [h]
    exact .keep rfl
  | connectFailed | refused | announceFails | takeClose | noCommands | writeFails
  | creditEventFails | readEnd | readFails | dataEventFails | remove | report | reportFails =>
    exact .stop rfl

/-- **The reading end**: what is read after the header goes into data events in order. -/
theorem Run.reads {start : Side} (hstart : start.task.unemitted = some []) (h : start.Run trace s) :
    Stage s.task.unemitted (dataBytes trace) (eventBytes trace) := by
  induction h with
  | start =>
    rw [hstart]
    rfl
  | step _ hstep ih =>
    rw [dataBytes_append, eventBytes_append]
    exact ih.moves hstep.unemitted

end Side

/-! ## The header

An accepting side reads the header from the stream that carries the data, and where it ends is known
only from its contents. While it is read, the reader stands where the bytes so far have brought it;
nothing is read beyond its end, and nothing else happens before it is there. This is `Introduced`,
and once the header is there, it stays as it is. -/

/-- The task is past `connect` and `accept` and not over. -/
def Task.serving : Task → Bool
  | .connecting _ _ | .accepting _ | .ended => false
  | _ => true

namespace Side

/-- What a step does with the header: it reads some of it, it installs the stream after it, or it
leaves the header alone. -/
theorem Step.header (h : s.Step action s') :
    (∃ rest target, s.task = .connecting rest target)
      ∨ (∃ bytes reader, action = .readHeader bytes ∧ bytes.length ≤ reader.missing
        ∧ s.task = .accepting reader ∧ s'.task = .accepting (reader.feed bytes))
      ∨ headerBytes [action] = [] ∧ readBytes [action] = dataBytes [action]
        ∧ ((∃ header opening, s.task = .accepting (.done (.ok header))
            ∧ s'.task = .installing opening ∧ dataBytes [action] = [] ∧ events [action] = [])
          ∨ (s'.task = s.task ∨ s'.task = .ended) ∧ dataBytes [action] = [] ∧ events [action] = []
          ∨ s.task.serving = true ∧ (s'.task.serving = true ∨ s'.task = .ended)) := by
  cases h with
  | send h =>
    obtain ⟨-, entry, -, -, -, rfl⟩ := returns_send.mp h
    exact Or.inr (Or.inr ⟨rfl, rfl, Or.inr (Or.inl ⟨Or.inl rfl, rfl, rfl⟩)⟩)
  | credit h =>
    obtain ⟨-, entry, -, -, -, rfl⟩ := returns_credit.mp h
    exact Or.inr (Or.inr ⟨rfl, rfl, Or.inr (Or.inl ⟨Or.inl rfl, rfl, rfl⟩)⟩)
  | close h =>
    obtain ⟨-, -, rfl⟩ := returns_close.mp h
    exact Or.inr (Or.inr ⟨rfl, rfl, Or.inr (Or.inl ⟨Or.inl rfl, rfl, rfl⟩)⟩)
  | writeHeader _ h | connected h | connectFailed h => exact Or.inl ⟨_, _, h⟩
  | readHeader _ hle h => exact Or.inr (Or.inl ⟨_, _, rfl, hle, h, rfl⟩)
  | allowed h => exact Or.inr (Or.inr ⟨rfl, rfl, Or.inl ⟨_, _, h, rfl, rfl, rfl⟩⟩)
  | refused h => exact Or.inr (Or.inr ⟨rfl, rfl, Or.inr (Or.inl ⟨Or.inr rfl, rfl, rfl⟩)⟩)
  | takeCredit h hc =>
    refine Or.inr (Or.inr ⟨rfl, rfl, Or.inr (Or.inr ⟨by rw [h]; rfl, Or.inl ?_⟩)⟩)
    rw [Side.takeCredit]
    split
    · rfl
    · rw [h]
      rfl
  | deduct h =>
    refine Or.inr (Or.inr ⟨rfl, rfl, Or.inr (Or.inr ⟨by rw [h]; rfl, Or.inl ?_⟩)⟩)
    rw [Side.deduct]
    split
    · rfl
    · split <;> rfl
  | readData _ _ h => exact Or.inr (Or.inr ⟨rfl, rfl, Or.inr (Or.inr ⟨by rw [h]; rfl, Or.inl rfl⟩)⟩)
  | announceFails h | report h | reportFails h =>
    exact Or.inr (Or.inr ⟨rfl, rfl, Or.inr (Or.inr ⟨by rw [h]; rfl, Or.inr rfl⟩)⟩)
  | announce h | takeSend h | takeClose h | noCommands h | write _ h | written h | writeFails h
  | replenish h | creditEvent h | creditEventFails h | readEnd _ h | readFails _ h | dataEvent h
  | dataEventFails h | remove h =>
    exact Or.inr (Or.inr ⟨rfl, rfl, Or.inr (Or.inr ⟨by rw [h]; rfl, Or.inl rfl⟩)⟩)

/-- What an accepting side knows of the header. -/
structure Introduced (trace : List Action) (side : Side) : Prop where
  listens : ∀ rest target, side.task ≠ .connecting rest target
  /-- While it is read, the reader stands where the bytes read so far have brought it. -/
  reading : ∀ reader, side.task = .accepting reader →
    (∀ rest, reader.run rest = readHeader.run (headerBytes trace ++ rest))
      ∧ dataBytes trace = [] ∧ events trace = []
  /-- Nothing is read beyond it. -/
  exact : ∀ result rest, readHeader.run (headerBytes trace) = some (result, rest) → rest = []
  /-- Nothing else happens before it is there. -/
  whole : side.task.serving = true ∨ dataBytes trace ≠ [] ∨ events trace ≠ [] →
    ∃ header, readHeader.run (headerBytes trace) = some (.ok header, [])
  order : readBytes trace = headerBytes trace ++ dataBytes trace

theorem introduced_accepting : Side.accepting.Introduced [] where
  listens _ _ h := by cases h
  reading reader h := by
    obtain rfl := Task.accepting.inj h
    exact ⟨fun rest ↦ rfl, rfl, rfl⟩
  exact _ _ h := List.suffix_nil.mp (ReadExact.suffix_of_run h)
  whole h := by rcases h with h | h | h <;> exact absurd h (by decide)
  order := rfl

theorem Introduced.of_whole (h : s.Introduced trace) (hheader : headerBytes [action] = [])
    (hread : readBytes [action] = dataBytes [action])
    (hwhole : ∃ header, readHeader.run (headerBytes trace) = some (.ok header, []))
    (htask : s'.task.serving = true ∨ s'.task = .ended) : s'.Introduced (trace ++ [action]) := by
  have hsame : headerBytes (trace ++ [action]) = headerBytes trace := by
    rw [headerBytes_append, hheader, List.append_nil]
  refine ⟨fun rest target heq ↦ ?_, fun reader heq ↦ ?_, ?_, fun _ ↦ ?_, ?_⟩
  · rw [heq] at htask
    rcases htask with htask | htask <;> cases htask
  · rw [heq] at htask
    rcases htask with htask | htask <;> cases htask
  · rw [hsame]
    exact h.exact
  · rw [hsame]
    exact hwhole
  · rw [hsame, readBytes_append, dataBytes_append, h.order, hread, List.append_assoc]

theorem Introduced.of_idle (h : s.Introduced trace) (hheader : headerBytes [action] = [])
    (hread : readBytes [action] = dataBytes [action]) (hdata : dataBytes [action] = [])
    (hevents : events [action] = []) (htask : s'.task = s.task ∨ s'.task = .ended) :
    s'.Introduced (trace ++ [action]) := by
  have hsame : headerBytes (trace ++ [action]) = headerBytes trace := by
    rw [headerBytes_append, hheader, List.append_nil]
  have hdata' : dataBytes (trace ++ [action]) = dataBytes trace := by
    rw [dataBytes_append, hdata, List.append_nil]
  have hevents' : events (trace ++ [action]) = events trace := by
    rw [events_append, hevents, List.append_nil]
  refine ⟨fun rest target heq ↦ ?_, fun reader heq ↦ ?_, ?_, ?_, ?_⟩
  · rcases htask with htask | htask
    · exact h.listens rest target (htask.symm.trans heq)
    · cases htask.symm.trans heq
  · rcases htask with htask | htask
    · rw [hsame, hdata', hevents']
      exact h.reading reader (htask.symm.trans heq)
    · cases htask.symm.trans heq
  · rw [hsame]
    exact h.exact
  · rw [hsame, hdata', hevents']
    rintro (hserving | hne)
    · rcases htask with htask | htask
      · exact h.whole (Or.inl (htask ▸ hserving))
      · rw [htask] at hserving
        cases hserving
    · exact h.whole (Or.inr hne)
  · rw [hsame, hdata', readBytes_append, hread, hdata, List.append_nil]
    exact h.order

/-- Reading more of the header. -/
theorem Introduced.of_readHeader {bytes : List UInt8} {reader : ReadExact HeaderError Header}
    (h : s.Introduced trace) (hle : bytes.length ≤ reader.missing)
    (htask : s.task = .accepting reader) (htask' : s'.task = .accepting (reader.feed bytes)) :
    s'.Introduced (trace ++ [.readHeader bytes]) := by
  obtain ⟨hrun, hdata, hevents⟩ := h.reading reader htask
  have hheader : headerBytes (trace ++ [.readHeader bytes]) = headerBytes trace ++ bytes := by
    simp [headerBytes]
  have hrun' : ∀ rest, (reader.feed bytes).run rest
      = readHeader.run (headerBytes (trace ++ [.readHeader bytes]) ++ rest) := by
    intro rest
    rw [ReadExact.run_feed hle, hrun, hheader, List.append_assoc]
  have hdata' : dataBytes (trace ++ [.readHeader bytes]) = [] := by
    rw [dataBytes_append, hdata]
    rfl
  have hevents' : events (trace ++ [.readHeader bytes]) = [] := by
    rw [events_append, hevents]
    rfl
  refine ⟨?_, ?_, ?_, ?_, ?_⟩
  · rw [htask']
    exact fun _ _ h ↦ by cases h
  · intro reader' hreader
    rw [htask'] at hreader
    obtain rfl := Task.accepting.inj hreader
    exact ⟨hrun', hdata', hevents'⟩
  · -- the reader leaves nothing of what it was fed
    intro result rest hresult
    rw [← List.append_nil (headerBytes _), ← hrun'] at hresult
    exact List.suffix_nil.mp (ReadExact.suffix_of_run hresult)
  · rw [htask']
    rintro (hserving | hne | hne)
    · cases hserving
    · exact absurd hdata' hne
    · exact absurd hevents' hne
  · rw [hdata', hheader, readBytes_append, h.order, hdata]
    simp [readBytes]

/-- **The header** of an accepting side, over any run. -/
theorem Run.introduced (h : Side.accepting.Run trace s) :
    s.Introduced trace := by
  induction h with
  | start => exact introduced_accepting
  | step _ hstep ih =>
    rcases hstep.header with ⟨rest, target, htask⟩ | ⟨bytes, reader, rfl, hle, htask, htask'⟩ |
      ⟨hheader, hread, ⟨header, opening, htask, htask', -, -⟩ | ⟨htask, hdata, hevents⟩ |
        ⟨hserving, htask⟩⟩
    · exact absurd htask (ih.listens rest target)
    · exact ih.of_readHeader hle htask htask'
    · obtain ⟨hrun, -⟩ := ih.reading _ htask
      refine ih.of_whole hheader hread ⟨header, ?_⟩ (Or.inl (by rw [htask']; rfl))
      rw [← List.append_nil (headerBytes _), ← hrun]
      rfl
    · exact ih.of_idle hheader hread hdata hevents htask
    · exact ih.of_whole hheader hread (ih.whole (Or.inl hserving)) htask

end Side

/-! ## Two sides

The transport is a relation between two traces, and the runs of the two sides are otherwise
independent. Each side of a joined run is a run of a side, so that both stages apply, and what
connects them is that bytes read are a beginning of bytes written. -/

/-- What a side may read: the transport hands over the bytes written on the other side in order and
without loss, in fragments of any length, and its end after all of them. -/
def Delivers (own : List Action) (action : Action) (other : List Action) : Prop :=
  match action with
  | .readHeader bytes | .readData bytes => readBytes own ++ bytes <+: writtenBytes other
  | .readEnd => .finished ∈ other ∧ readBytes own = writtenBytes other
  | _ => True

/-- The runs of two sides joined by a stream, the opening one first. -/
inductive Joined (fromNode targetNode : Text) : List Action → Side → List Action → Side → Prop
  | start : Joined fromNode targetNode [] (Side.connecting fromNode targetNode) [] Side.accepting
  | opening {t u : List Action} {a a' b : Side} {action : Action}
      (h : Joined fromNode targetNode t a u b) (hstep : a.Step action a')
      (hwire : Delivers t action u) : Joined fromNode targetNode (t ++ [action]) a' u b
  | accepting {t u : List Action} {a b b' : Side} {action : Action}
      (h : Joined fromNode targetNode t a u b) (hstep : b.Step action b')
      (hwire : Delivers u action t) : Joined fromNode targetNode t a (u ++ [action]) b'

theorem Delivers.readBytes_le {own other : List Action} (h : readBytes own <+: writtenBytes other)
    (hwire : Delivers own action other) :
    readBytes (own ++ [action]) <+: writtenBytes other := by
  rw [readBytes_append]
  cases action with
  | readHeader bytes | readData bytes => simpa [readBytes, Delivers] using hwire
  | _ => simpa [readBytes] using h

namespace Joined

variable {fromNode targetNode : Text} {t u : List Action} {a b : Side}

theorem opening_run (h : Joined fromNode targetNode t a u b) :
    (Side.connecting fromNode targetNode).Run t a := by
  induction h with
  | start => exact .start
  | opening _ hstep _ ih => exact ih.step hstep
  | accepting _ _ _ ih => exact ih

theorem accepting_run (h : Joined fromNode targetNode t a u b) : Side.accepting.Run u b := by
  induction h with
  | start => exact .start
  | opening _ _ _ ih => exact ih
  | accepting _ hstep _ ih => exact ih.step hstep

theorem readBytes_le (h : Joined fromNode targetNode t a u b) :
    readBytes u <+: writtenBytes t := by
  induction h with
  | start => exact List.prefix_rfl
  | opening _ _ _ ih =>
    rw [writtenBytes_append]
    exact ih.trans (List.prefix_append _ _)
  | accepting _ _ hwire ih => exact hwire.readBytes_le ih

end Joined

/-- **Payload bytes arrive in order, and only they do.** What the accepting daemon tells its port is
at every moment a beginning of the payloads accepted by the opening one, and the header is read as a
header, to its end and not further. -/
theorem data_in_order {fromNode targetNode : Text} (hfrom : validNodeName fromNode = true)
    (htarget : validNodeName targetNode = true) {t u : List Action} {a b : Side}
    (h : Joined fromNode targetNode t a u b) :
    eventBytes u <+: sentBytes t ∧ dataBytes u <+: sentBytes t
      ∧ headerBytes u <+: encodeHeader fromNode targetNode
      ∧ (dataBytes u ≠ [] ∨ events u ≠ [] → headerBytes u = encodeHeader fromNode targetNode) := by
  have hwrites :=
    (h.opening_run.writes (Side.unwritten_connecting fromNode targetNode)).output_le_input
  have hreads := (h.accepting_run.reads rfl).output_le_input
  have hintro := h.accepting_run.introduced
  have hstream := h.readBytes_le.trans hwrites
  rw [hintro.order] at hstream
  have hheader : headerBytes u <+: encodeHeader fromNode targetNode := by
    rcases List.prefix_or_prefix_of_prefix ((List.prefix_append _ _).trans hstream)
      (List.prefix_append (encodeHeader fromNode targetNode) (sentBytes t)) with hle | ⟨rest, hle⟩
    · exact hle
    · -- bytes beyond the header would be left unread
      have hrest := run_readHeader hfrom htarget rest
      rw [hle] at hrest
      rw [hintro.exact _ _ hrest, List.append_nil] at hle
      rw [hle]
  have hwhole : dataBytes u ≠ [] ∨ events u ≠ [] →
      headerBytes u = encodeHeader fromNode targetNode := by
    intro hne
    obtain ⟨header, hrun⟩ := hintro.whole (Or.inr hne)
    obtain ⟨rest, hle⟩ := hheader
    have hrest := ReadExact.run_append hrun rest
    rw [hle, ← List.append_nil (encodeHeader fromNode targetNode), run_readHeader hfrom htarget,
      Option.some_inj, Prod.mk.injEq, List.nil_append] at hrest
    rw [← hle, ← hrest.2, List.append_nil]
  have hdata : dataBytes u <+: sentBytes t := by
    by_cases hne : dataBytes u = []
    · rw [hne]
      exact List.nil_prefix
    · rw [hwhole (Or.inl hne)] at hstream
      exact (List.prefix_append_right_inj _).mp hstream
  exact ⟨hreads.trans hdata, hdata, hheader, hwhole⟩

theorem sampleNode_size : "a@b".utf8ByteSize < 2 ^ 64 := by decide

def sampleNode : Text := ⟨"a@b", sampleNode_size⟩

set_option maxRecDepth 2000 in
theorem data_in_order_sample :
    ∃ t u a b, Joined sampleNode sampleNode t a u b ∧ eventBytes u = [7]
      ∧ eventBytes u <+: sentBytes t := by
  have hvalid : validNodeName sampleNode = true := by decide
  -- the header and a payload of two bytes are written
  have hwritten := (Joined.start : Joined sampleNode sampleNode _ _ _ _)
    |>.opening (@Side.Step.writeHeader _ (encodeHeader sampleNode sampleNode) [] sampleNode
      (by decide) (by rw [List.append_nil]; rfl)) trivial
    |>.opening (.connected rfl) trivial
    |>.opening (.announce rfl) trivial
    |>.opening (@Side.Step.send _ _ [7, 8] (Method.returns_after (by decide))) trivial
    |>.opening (.takeSend rfl rfl) trivial
    |>.opening (@Side.Step.write _ [7, 8] [] _ (by decide) rfl) trivial
  -- the header is read in five pieces, and one byte of the payload after it
  have hread := hwritten
    |>.accepting (@Side.Step.readHeader _ magic _ (by decide) (by decide) rfl)
      (show _ <+: _ by decide)
    |>.accepting (@Side.Step.readHeader _ [0, 3] _ (by decide) (by decide) rfl)
      (show _ <+: _ by decide)
    |>.accepting (@Side.Step.readHeader _ [97, 64, 98] _ (by decide) (by decide) rfl)
      (show _ <+: _ by decide)
    |>.accepting (@Side.Step.readHeader _ [0, 3] _ (by decide) (by decide) rfl)
      (show _ <+: _ by decide)
    |>.accepting (@Side.Step.readHeader _ [97, 64, 98] _ (by decide) (by decide) rfl)
      (show _ <+: _ by decide)
    |>.accepting (@Side.Step.allowed _ ⟨sampleNode, sampleNode⟩ rfl) trivial
    |>.accepting (.announce rfl) trivial
    |>.accepting (@Side.Step.readData _ [7] (by decide) (by decide) rfl) (show _ <+: _ by decide)
    |>.accepting (.deduct rfl) trivial
    |>.accepting (.dataEvent rfl) trivial
  exact ⟨_, _, _, _, hread, by decide, (data_in_order hvalid hvalid hread).1⟩

end NervesP2P
