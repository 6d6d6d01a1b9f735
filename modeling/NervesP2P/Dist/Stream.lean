import NervesP2P.Dist.Header
import NervesP2P.Lib.Method

/-!
# One side of a distribution stream

A distribution stream joins two daemons. On each side there is an entry in the shared table with two
credit counters, a bounded queue of commands, and one task: `connect` or `accept` first, then
`install_stream`, then the loop of `run_stream`. The interface calls `send`, `credit` and `close`
run on other threads and meet the task only in the entry and in the queue.

A `Side` is all of that for one stream, and `Side.Step` lists everything that can happen to it. The
points between two steps are those at which another thread can come in: at every `await`, and
between a completed read or write and the lock taken after it. What the environment decides is left
open: how much of a write the transport takes at a time, how long a read is, whether it fails,
whether the receiver of the events is still there.

Every step carries an `Action` for what others see of it. The stream identifier is fixed, so neither
commands nor events carry it here.

## Two copies of a counter

How much may still be read is counted twice, in the entry and in the task, and the task subtracts a
read from its own copy first. Both are unsigned: a subtraction below zero stops the task, which is
what `panicked` stands for.
-/

namespace NervesP2P

/-- How many bytes may be under way in each direction. -/
def creditWindow : ℕ := 256 * 1024

def dataChunk : ℕ := 16 * 1024

def commandQueue : ℕ := 64

inductive DistError where
  | networkNotStarted
  | notListening
  | unknownNode
  | unknownStream
  | creditExhausted
  | queueFull
  | invalidCredit
  | connectionFailed
  deriving DecidableEq

def DistError.toString : DistError → String
  | .networkNotStarted => "network_not_started"
  | .notListening => "not_listening"
  | .unknownNode => "unknown_node"
  | .unknownStream => "unknown_stream"
  | .creditExhausted => "credit_exhausted"
  | .queueFull => "queue_full"
  | .invalidCredit => "invalid_credit"
  | .connectionFailed => "connection_failed"

/-- What the interface asks of the task. -/
inductive StreamCommand where
  | send (bytes : List UInt8)
  | credit (bytes : ℕ)
  | close

/-- Why the loop of a stream has ended. -/
inductive CloseReason where
  | writeFailed
  | portClosed
  | invalidCredit
  | localClose
  | remoteClose
  | readFailed
  deriving DecidableEq

def CloseReason.toString : CloseReason → String
  | .writeFailed => "write_failed"
  | .portClosed => "port_closed"
  | .invalidCredit => "invalid_credit"
  | .localClose => "local_close"
  | .remoteClose => "remote_close"
  | .readFailed => "read_failed"

/-- What the daemon tells the port about a stream. -/
inductive Event where
  | incoming (fromNode targetNode : Text)
  | connected (targetNode : Text)
  | data (bytes : List UInt8)
  | credit (bytes : ℕ)
  | closed (reason : CloseReason)

/-- Of events with the numbers of their streams, those of one stream. -/
def told (id : UInt64) (log : List (UInt64 × Event)) : List Event :=
  (log.filter fun entry ↦ entry.1 = id).map Prod.snd

theorem told_append (id : UInt64) (log more : List (UInt64 × Event)) :
    told id (log ++ more) = told id log ++ told id more := by
  rw [told, List.filter_append, List.map_append, told, told]

def Event.creditBytes : Event → ℕ
  | .credit bytes => bytes
  | _ => 0

/-- The length of the data that an event carries. -/
def Event.dataLength : Event → ℕ
  | .data bytes => bytes.length
  | _ => 0

inductive Opening where
  | incoming (fromNode targetNode : Text)
  | connected (targetNode : Text)

/-- The first event of a stream; there are no others to begin with. -/
def Opening.event : Opening → Event
  | .incoming fromNode targetNode => .incoming fromNode targetNode
  | .connected targetNode => .connected targetNode

/-- The entry of a stream in the shared table. -/
structure StreamState where
  sendCredit : ℕ
  receiveCredit : ℕ

/-- Where the task of a stream is. -/
inductive Task where
  /-- `connect` is writing the header. -/
  | connecting (rest : List UInt8) (targetNode : Text)
  /-- `accept` is reading it. -/
  | accepting (reader : ReadExact HeaderError Header)
  /-- `install_stream` waits to send the first event. -/
  | installing (opening : Opening)
  /-- The loop waits for a command or for data. -/
  | selecting
  /-- Inside `write_all`, with what is left of a payload of the given length. -/
  | writing (rest : List UInt8) (length : ℕ)
  /-- The payload is written and the lock not yet taken. -/
  | replenishing (length : ℕ)
  /-- Waiting to send the credit event. -/
  | crediting (length : ℕ)
  /-- A read has returned and the lock is not yet taken. -/
  | taking (bytes : List UInt8)
  /-- Waiting to send the data event. -/
  | emitting (bytes : List UInt8)
  /-- Out of the loop, the entry still in the table. -/
  | closing (reason : CloseReason)
  /-- Waiting to send the last event. -/
  | reporting (reason : CloseReason)
  | ended
  | panicked

/-- One side of a stream. -/
structure Side where
  entry : Option StreamState
  commands : List StreamCommand
  task : Task
  /-- The task's own count of what it may read. -/
  receiveCredit : ℕ

/-! ## The interface

`send` and `credit` have one shape (`issue`): the amount is checked, the entry looked up and its
credit checked, the command is queued, and only then the entry is updated. So a call that fails has
changed nothing, and both are characterised by one lemma. -/

namespace Side

variable {s s' : Side} {u : Unit} {err : DistError} {command : StreamCommand}

/-- Put a command in the queue. -/
def trySend (command : StreamCommand) : Method Side DistError Unit := do
  let side ← get
  Method.failIf (side.commands.length = commandQueue) .queueFull
  modify fun side ↦ { side with commands := side.commands ++ [command] }

def getEntry : Method Side DistError StreamState := do
  let side ← get
  match side.entry with
  | some entry => pure entry
  | none => throw .unknownStream

/-- The common shape of `send` and `credit`: check the amount, look the entry up, check its credit,
queue the command, and only then update the entry. -/
def issue (invalid : Prop) [Decidable invalid] (exceeds : StreamState → Prop)
    [DecidablePred exceeds] (error : DistError) (command : StreamCommand)
    (update : StreamState → StreamState) : Method Side DistError Unit := do
  Method.failIf invalid .invalidCredit
  let entry ← getEntry
  Method.failIf (exceeds entry) error
  trySend command
  modify fun side ↦ { side with entry := some (update entry) }

def send (bytes : List UInt8) : Method Side DistError Unit :=
  issue (bytes = [] ∨ creditWindow < bytes.length)
    (fun entry ↦ entry.sendCredit < bytes.length) .creditExhausted (.send bytes)
    fun entry ↦ { entry with sendCredit := entry.sendCredit - bytes.length }

def credit (bytes : ℕ) : Method Side DistError Unit :=
  issue (bytes = 0 ∨ creditWindow < bytes)
    (fun entry ↦ creditWindow < entry.receiveCredit + bytes) .invalidCredit (.credit bytes)
    fun entry ↦ { entry with receiveCredit := entry.receiveCredit + bytes }

def close : Method Side DistError Unit := do
  let _ ← getEntry
  trySend .close

theorem returns_trySend :
    (trySend command).Returns s u s' ↔
      s.commands.length ≠ commandQueue ∧ s' = { s with commands := s.commands ++ [command] } := by
  simp only [trySend, Method.returns_bind, Method.returns_get, Method.returns_failIf,
    Method.returns_modify]
  constructor
  · rintro ⟨_, _, ⟨rfl, rfl⟩, _, _, ⟨hroom, rfl⟩, rfl⟩
    exact ⟨hroom, rfl⟩
  · rintro ⟨hroom, rfl⟩
    exact ⟨s, s, ⟨rfl, rfl⟩, (), s, ⟨hroom, rfl⟩, rfl⟩

theorem fails_trySend :
    (trySend command).Fails s err s' ↔
      s.commands.length = commandQueue ∧ .queueFull = err ∧ s = s' := by
  simp only [trySend, Method.fails_bind, Method.fails_get, Method.returns_get,
    Method.fails_failIf, Method.fails_modify, and_false, exists_false, or_false, false_or]
  constructor
  · rintro ⟨_, _, ⟨rfl, rfl⟩, h⟩
    exact h
  · intro h
    exact ⟨_, _, ⟨rfl, rfl⟩, h⟩

theorem returns_getEntry {entry : StreamState} :
    getEntry.Returns s entry s' ↔ s.entry = some entry ∧ s = s' := by
  simp only [getEntry, Method.returns_bind, Method.returns_get]
  constructor
  · rintro ⟨_, _, ⟨rfl, rfl⟩, h⟩
    cases hentry : s.entry with
    | some found =>
      rw [hentry] at h
      obtain ⟨rfl, rfl⟩ := Method.returns_pure.mp h
      exact ⟨rfl, rfl⟩
    | none =>
      rw [hentry] at h
      exact absurd h Method.returns_throw
  · rintro ⟨hentry, rfl⟩
    refine ⟨_, _, ⟨rfl, rfl⟩, ?_⟩
    rw [hentry]
    exact Method.returns_pure.mpr ⟨rfl, rfl⟩

theorem fails_getEntry :
    getEntry.Fails s err s' ↔ s.entry = none ∧ .unknownStream = err ∧ s = s' := by
  simp only [getEntry, Method.fails_bind, Method.fails_get, Method.returns_get, false_or]
  constructor
  · rintro ⟨_, _, ⟨rfl, rfl⟩, h⟩
    cases hentry : s.entry with
    | some found =>
      rw [hentry] at h
      exact absurd h Method.fails_pure
    | none =>
      rw [hentry] at h
      obtain ⟨rfl, rfl⟩ := Method.fails_throw.mp h
      exact ⟨rfl, rfl, rfl⟩
  · rintro ⟨hentry, rfl, rfl⟩
    refine ⟨_, _, ⟨rfl, rfl⟩, ?_⟩
    rw [hentry]
    exact Method.fails_throw.mpr ⟨rfl, rfl⟩

theorem returns_issue {invalid : Prop} [Decidable invalid] {exceeds : StreamState → Prop}
    [DecidablePred exceeds] {error : DistError} {update : StreamState → StreamState} :
    (issue invalid exceeds error command update).Returns s u s' ↔
      ¬invalid ∧ ∃ entry, s.entry = some entry ∧ ¬exceeds entry
        ∧ s.commands.length ≠ commandQueue
        ∧ s' = { s with commands := s.commands ++ [command], entry := some (update entry) } := by
  simp only [issue, Method.returns_bind, Method.returns_failIf, returns_getEntry, returns_trySend,
    Method.returns_modify]
  constructor
  · rintro ⟨_, _, ⟨hvalid, rfl⟩, entry, _, ⟨hentry, rfl⟩, _, _, ⟨hcredit, rfl⟩, _, _,
      ⟨hroom, rfl⟩, rfl⟩
    exact ⟨hvalid, entry, hentry, hcredit, hroom, rfl⟩
  · rintro ⟨hvalid, entry, hentry, hcredit, hroom, rfl⟩
    exact ⟨(), s, ⟨hvalid, rfl⟩, entry, s, ⟨hentry, rfl⟩, (), s, ⟨hcredit, rfl⟩, (), _,
      ⟨hroom, rfl⟩, rfl⟩

/-- A call that fails has changed nothing. -/
theorem fails_issue {invalid : Prop} [Decidable invalid] {exceeds : StreamState → Prop}
    [DecidablePred exceeds] {error : DistError} {update : StreamState → StreamState}
    (h : (issue invalid exceeds error command update).Fails s err s') :
    s' = s ∧ (invalid ∧ err = .invalidCredit
      ∨ ¬invalid ∧ (s.entry = none ∧ err = .unknownStream
        ∨ ∃ entry, s.entry = some entry ∧ (exceeds entry ∧ err = error
          ∨ ¬exceeds entry ∧ s.commands.length = commandQueue ∧ err = .queueFull))) := by
  simp only [issue, Method.fails_bind, Method.fails_failIf, Method.returns_failIf, fails_getEntry,
    returns_getEntry, fails_trySend, Method.fails_modify, and_false, exists_false, or_false] at h
  rcases h with ⟨hinvalid, rfl, rfl⟩ |
    ⟨_, _, ⟨hvalid, rfl⟩, ⟨hnone, rfl, rfl⟩ | ⟨entry, _, ⟨hentry, rfl⟩, h⟩⟩
  · exact ⟨rfl, Or.inl ⟨hinvalid, rfl⟩⟩
  · exact ⟨rfl, Or.inr ⟨hvalid, Or.inl ⟨hnone, rfl⟩⟩⟩
  rcases h with ⟨hexceeds, rfl, rfl⟩ | ⟨_, _, ⟨hcredit, rfl⟩, hfull, rfl, rfl⟩
  · exact ⟨rfl, Or.inr ⟨hvalid, Or.inr ⟨entry, hentry, Or.inl ⟨hexceeds, rfl⟩⟩⟩⟩
  · exact ⟨rfl, Or.inr ⟨hvalid, Or.inr ⟨entry, hentry, Or.inr ⟨hcredit, hfull, rfl⟩⟩⟩⟩

/-- When `send` succeeds, and what it does. -/
theorem returns_send {bytes : List UInt8} :
    (send bytes).Returns s u s' ↔
      (bytes ≠ [] ∧ bytes.length ≤ creditWindow) ∧ ∃ entry, s.entry = some entry
        ∧ bytes.length ≤ entry.sendCredit ∧ s.commands.length ≠ commandQueue
        ∧ s' = { s with
          commands := s.commands ++ [.send bytes]
          entry := some { entry with sendCredit := entry.sendCredit - bytes.length } } := by
  rw [send, returns_issue, not_or, not_lt]
  simp only [not_lt]

/-- When `credit` succeeds, and what it does. -/
theorem returns_credit {bytes : ℕ} :
    (credit bytes).Returns s u s' ↔
      (bytes ≠ 0 ∧ bytes ≤ creditWindow) ∧ ∃ entry, s.entry = some entry
        ∧ entry.receiveCredit + bytes ≤ creditWindow ∧ s.commands.length ≠ commandQueue
        ∧ s' = { s with
          commands := s.commands ++ [.credit bytes]
          entry := some { entry with receiveCredit := entry.receiveCredit + bytes } } := by
  rw [credit, returns_issue, not_or, not_lt]
  simp only [not_lt]

theorem returns_close :
    close.Returns s u s' ↔
      s.entry.isSome = true ∧ s.commands.length ≠ commandQueue
        ∧ s' = { s with commands := s.commands ++ [.close] } := by
  simp only [close, Method.returns_bind, returns_getEntry, returns_trySend,
    Option.isSome_iff_exists]
  constructor
  · rintro ⟨entry, _, ⟨hentry, rfl⟩, h⟩
    exact ⟨⟨entry, hentry⟩, h⟩
  · rintro ⟨⟨entry, hentry⟩, h⟩
    exact ⟨entry, s, ⟨hentry, rfl⟩, h⟩

theorem fails_close (h : close.Fails s err s') :
    s' = s ∧ (s.entry = none ∧ err = .unknownStream
      ∨ s.entry.isSome = true ∧ s.commands.length = commandQueue ∧ err = .queueFull) := by
  simp only [close, Method.fails_bind, fails_getEntry, returns_getEntry, fails_trySend] at h
  rcases h with ⟨hnone, rfl, rfl⟩ | ⟨entry, _, ⟨hentry, rfl⟩, hfull, rfl, rfl⟩
  · exact ⟨rfl, Or.inl ⟨hnone, rfl⟩⟩
  · exact ⟨rfl, Or.inr ⟨Option.isSome_of_eq_some hentry, hfull, rfl⟩⟩

/-! ## Steps

`Side.Step` has one constructor for each thing that can happen, in the order of the source:
`connect` and `accept`, the installation, the loop, in which the task takes a command or reads, and
the ways out of it. -/

/-- `install_stream`: the entry is in the table before the first event is sent. -/
def install (opening : Opening) (side : Side) : Side :=
  { side with entry := some ⟨creditWindow, creditWindow⟩, task := .installing opening }

/-- Give the credit of a written payload back. The sum cannot saturate below the clamp. -/
def replenish (length : ℕ) (side : Side) : Side :=
  { side with
    entry := side.entry.map fun entry ↦
      { entry with sendCredit := min (entry.sendCredit + length) creditWindow }
    task := .crediting length }

/-- The task takes a credit command. -/
def takeCredit (bytes : ℕ) (side : Side) : Side :=
  if creditWindow < side.receiveCredit + bytes then { side with task := .closing .invalidCredit }
  else { side with receiveCredit := side.receiveCredit + bytes }

/-- The task subtracts a read from the entry. -/
def deduct (bytes : List UInt8) (side : Side) : Side :=
  match side.entry with
  | none => { side with task := .emitting bytes }
  | some entry =>
    if entry.receiveCredit < bytes.length then { side with task := .panicked }
    else { side with
      entry := some { entry with receiveCredit := entry.receiveCredit - bytes.length }
      task := .emitting bytes }

end Side

/-- What others see of a step. -/
inductive Action where
  | quiet
  /-- `send` has returned. -/
  | sent (bytes : List UInt8)
  /-- `credit` has returned. -/
  | granted (bytes : ℕ)
  /-- `close` has returned. -/
  | closeAsked
  /-- The transport has taken bytes. -/
  | wrote (bytes : List UInt8)
  /-- The writing end was finished. -/
  | finished
  /-- Bytes of the header were read. -/
  | readHeader (bytes : List UInt8)
  /-- Bytes after the header were read. -/
  | readData (bytes : List UInt8)
  /-- The end of the stream was read. -/
  | readEnd
  | emitted (event : Event)

/-- Calls of the interface, which are not steps of the task. -/
def Action.isCall : Action → Bool
  | .sent _ | .granted _ | .closeAsked => true
  | _ => false

/-- Everything that can happen on one side of a stream. -/
inductive Side.Step : Side → Action → Side → Prop
  | send {s s' : Side} {bytes : List UInt8} (h : (Side.send bytes).Returns s () s') :
      Step s (.sent bytes) s'
  | credit {s s' : Side} {bytes : ℕ} (h : (Side.credit bytes).Returns s () s') :
      Step s (.granted bytes) s'
  | close {s s' : Side} (h : Side.close.Returns s () s') : Step s .closeAsked s'
  -- `connect`
  | writeHeader {s : Side} {bytes rest : List UInt8} {target : Text} (hne : bytes ≠ [])
      (h : s.task = .connecting (bytes ++ rest) target) :
      Step s (.wrote bytes) { s with task := .connecting rest target }
  | connected {s : Side} {target : Text} (h : s.task = .connecting [] target) :
      Step s .quiet (s.install (.connected target))
  | connectFailed {s : Side} {rest : List UInt8} {target : Text}
      (h : s.task = .connecting rest target) : Step s .quiet { s with task := .ended }
  -- `accept`
  | readHeader {s : Side} {bytes : List UInt8} {reader : ReadExact HeaderError Header}
      (hne : bytes ≠ []) (hle : bytes.length ≤ reader.missing) (h : s.task = .accepting reader) :
      Step s (.readHeader bytes) { s with task := .accepting (reader.feed bytes) }
  | allowed {s : Side} {header : Header} (h : s.task = .accepting (.done (.ok header))) :
      Step s .quiet (s.install (.incoming header.fromNode header.targetNode))
  /-- The header is bad, the names are not allowed, or the stream fails. -/
  | refused {s : Side} {reader : ReadExact HeaderError Header} (h : s.task = .accepting reader) :
      Step s .quiet { s with task := .ended }
  -- `install_stream`
  | announce {s : Side} {opening : Opening} (h : s.task = .installing opening) :
      Step s (.emitted opening.event) { s with task := .selecting, receiveCredit := creditWindow }
  | announceFails {s : Side} {opening : Opening} (h : s.task = .installing opening) :
      Step s .quiet { s with entry := none, task := .ended }
  -- the commands of `run_stream`
  | takeSend {s : Side} {bytes : List UInt8} {rest : List StreamCommand}
      (h : s.task = .selecting) (hc : s.commands = .send bytes :: rest) :
      Step s .quiet { s with commands := rest, task := .writing bytes bytes.length }
  | takeCredit {s : Side} {bytes : ℕ} {rest : List StreamCommand}
      (h : s.task = .selecting) (hc : s.commands = .credit bytes :: rest) :
      Step s .quiet ({ s with commands := rest }.takeCredit bytes)
  | takeClose {s : Side} {rest : List StreamCommand}
      (h : s.task = .selecting) (hc : s.commands = .close :: rest) :
      Step s .finished { s with commands := rest, task := .closing .localClose }
  /-- The other end of the queue went with the entry. -/
  | noCommands {s : Side} (h : s.task = .selecting) (hc : s.commands = []) (he : s.entry = none) :
      Step s .quiet { s with task := .closing .portClosed }
  -- a write
  | write {s : Side} {bytes rest : List UInt8} {length : ℕ} (hne : bytes ≠ [])
      (h : s.task = .writing (bytes ++ rest) length) :
      Step s (.wrote bytes) { s with task := .writing rest length }
  | written {s : Side} {length : ℕ} (h : s.task = .writing [] length) :
      Step s .quiet { s with task := .replenishing length }
  | writeFails {s : Side} {rest : List UInt8} {length : ℕ} (h : s.task = .writing rest length) :
      Step s .quiet { s with task := .closing .writeFailed }
  | replenish {s : Side} {length : ℕ} (h : s.task = .replenishing length) :
      Step s .quiet (s.replenish length)
  | creditEvent {s : Side} {length : ℕ} (h : s.task = .crediting length) :
      Step s (.emitted (.credit length)) { s with task := .selecting }
  | creditEventFails {s : Side} {length : ℕ} (h : s.task = .crediting length) :
      Step s .quiet { s with task := .closing .portClosed }
  -- a read
  | readData {s : Side} {bytes : List UInt8} (hne : bytes ≠ [])
      (hle : bytes.length ≤ min s.receiveCredit dataChunk) (h : s.task = .selecting) :
      Step s (.readData bytes)
        { s with receiveCredit := s.receiveCredit - bytes.length, task := .taking bytes }
  | readEnd {s : Side} (hpos : 0 < s.receiveCredit) (h : s.task = .selecting) :
      Step s .readEnd { s with task := .closing .remoteClose }
  | readFails {s : Side} (hpos : 0 < s.receiveCredit) (h : s.task = .selecting) :
      Step s .quiet { s with task := .closing .readFailed }
  | deduct {s : Side} {bytes : List UInt8} (h : s.task = .taking bytes) :
      Step s .quiet (s.deduct bytes)
  | dataEvent {s : Side} {bytes : List UInt8} (h : s.task = .emitting bytes) :
      Step s (.emitted (.data bytes)) { s with task := .selecting }
  | dataEventFails {s : Side} {bytes : List UInt8} (h : s.task = .emitting bytes) :
      Step s .quiet { s with task := .closing .portClosed }
  -- the end
  | remove {s : Side} {reason : CloseReason} (h : s.task = .closing reason) :
      Step s .quiet { s with entry := none, task := .reporting reason }
  | report {s : Side} {reason : CloseReason} (h : s.task = .reporting reason) :
      Step s (.emitted (.closed reason)) { s with task := .ended }
  | reportFails {s : Side} {reason : CloseReason} (h : s.task = .reporting reason) :
      Step s .quiet { s with task := .ended }

/-- A side that opens a stream. -/
def Side.connecting (fromNode targetNode : Text) : Side where
  entry := none
  commands := []
  task := .connecting (encodeHeader fromNode targetNode) targetNode
  receiveCredit := creditWindow

/-- A side that was asked to accept one. -/
def Side.accepting : Side where
  entry := none
  commands := []
  task := .accepting NervesP2P.readHeader
  receiveCredit := creditWindow

/-- The runs of one side, with what was seen of them. -/
inductive Side.Run (start : Side) : List Action → Side → Prop
  | start : Run start [] start
  | step {trace : List Action} {s s' : Side} {action : Action} (h : Run start trace s)
      (hstep : s.Step action s') : Run start (trace ++ [action]) s'

end NervesP2P
