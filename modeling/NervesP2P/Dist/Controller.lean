import NervesP2P.Dist.Frame
import NervesP2P.Dist.Stream

/-!
# The controller of a distribution connection

For every distribution stream there is an Erlang process that stands between the runtime and the
daemon. It frames what goes out and unframes what comes in, counts the credit it has for sending,
and talks to the daemon through the port, one call at a time: while a call is unanswered it handles
nothing else.

A `Controller` is its state with the place it is in. `receive` is one turn of its receive loop up to
the next place where it has to wait, `answer` goes on after a port call and `pull` after asking the
runtime for data. What a turn asks of the daemon, tells its callers and hands to the runtime is in
its `Reaction`.

## When the credit is counted

The credit of a chunk is subtracted only when the daemon has answered the call that carries it.
Until then the counter still contains bytes that the daemon may already have queued.
-/

namespace NervesP2P

/-- The longest chunk of output in one call. -/
def maxPortChunk : ℕ := 16 * 1024

def initialCredit : ℤ := 256 * 1024

/-- Whether the connection is still being set up. -/
inductive Mode where
  | handshake
  | up
  deriving DecidableEq

/-- What the controller asks of the daemon. -/
inductive PortRequest where
  | send (bytes : List UInt8)
  | credit (bytes : ℕ)
  | close

inductive Answer where
  | ok
  | error (error : DistError)
  /-- An error from before the stream was reached. -/
  | failed
  deriving DecidableEq

/-- What a caller of the controller is told. -/
inductive Reply where
  | ok
  | packet (bytes : List UInt8)
  | stat (received sent pending : ℕ)
  | noCredit
  | refused (answer : Answer)
  | timeout
  | badRequest

/-- What a chunk is sent for: a handshake packet of a caller, pending output, or a tick. -/
inductive Purpose where
  | handshake (ref : ℕ)
  | pending
  | tick

/-- Where the controller waits. -/
inductive Phase where
  | loop
  /-- For the answer to a send of the given size, with what is left of the data. -/
  | sending (purpose : Purpose) (size : ℕ) (rest : List UInt8)
  /-- For data of the runtime. -/
  | pulling
  /-- For the answer to a grant of credit. -/
  | crediting
  | exited

structure Controller where
  credit : ℤ
  mode : Mode
  buffer : List UInt8
  /-- The call that waits for a packet. -/
  waiter : Option ℕ
  pendingOut : List UInt8
  distReady : Bool
  tickPending : Bool
  recvCount : ℕ
  sendCount : ℕ
  phase : Phase

inductive ControllerCall where
  | supervisor
  | send (packet : List UInt8)
  | recv
  | handshakeComplete
  | tick
  | getstat
  | close
  | other

inductive ControllerInput where
  | call (ref : ℕ) (call : ControllerCall)
  | cancelRecv (ref : ℕ)
  | recvTimeout (ref : ℕ)
  | event (event : Event)
  | distData
  | portDown
  | supervisorExit
  | other

/-- What a turn tells a caller or hands to the runtime. -/
inductive Output where
  | reply (ref : ℕ) (reply : Reply)
  | putData (payload : List UInt8)

structure Reaction where
  state : Controller
  request : Option PortRequest := none
  outputs : List Output := []

namespace Controller

def start : Controller where
  credit := initialCredit
  mode := .handshake
  buffer := []
  waiter := none
  pendingOut := []
  distReady := false
  tickPending := false
  recvCount := 0
  sendCount := 0
  phase := .loop

/-- Go back to the receive loop. -/
def looping (c : Controller) : Controller := { c with phase := .loop }

def exit (c : Controller) : Reaction := { state := { c with phase := .exited } }

/-- Close the stream and leave; the answer does not matter. -/
def terminateStream (c : Controller) : Reaction :=
  { state := { c with phase := .exited }, request := some .close }

/-! ## Output

Pending output goes first, then a tick, then data of the runtime, and a chunk is never longer than
the credit. A handshake packet is sent whole or not at all, as the kernel waits for the answer. -/

/-- What could not be sent becomes pending output. -/
def keepRest (purpose : Purpose) (rest : List UInt8) (c : Controller) : Controller :=
  match purpose with
  | .tick => { c with pendingOut := rest, tickPending := false, phase := .loop }
  | _ => { c with pendingOut := rest, phase := .loop }

/-- Call the daemon with a chunk, with the rest of the data left for later. -/
def callSend (purpose : Purpose) (chunk rest : List UInt8) (c : Controller) : Reaction :=
  { state := { c with phase := .sending purpose chunk.length rest }, request := some (.send chunk) }

/-- Send one chunk, as long as there is credit. -/
def sendAvailable (purpose : Purpose) (data : List UInt8) (c : Controller) : Reaction :=
  if 0 < c.credit then
    let size := min maxPortChunk (min c.credit.toNat data.length)
    c.callSend purpose (data.take size) (data.drop size)
  else { state := c.keepRest purpose data }

/-- Pending output goes first, then a tick, then data of the runtime. -/
def flushOutput (c : Controller) : Reaction :=
  if c.mode = .handshake then { state := c.looping }
  else if c.pendingOut ≠ [] then c.sendAvailable .pending c.pendingOut
  else if c.tickPending = true then c.sendAvailable .tick (beBytes 4 0)
  else if c.distReady = true then { state := { c with phase := .pulling } }
  else { state := c.looping }

/-- Go on after all of the data was sent. -/
def sentAll (purpose : Purpose) (c : Controller) : Reaction :=
  match purpose with
  | .tick => { c with tickPending := false, sendCount := c.sendCount + 1 }.flushOutput
  | _ => { c with pendingOut := [] }.flushOutput

/-- Send a whole handshake packet, or nothing. -/
def sendBytes (ref : ℕ) (data : List UInt8) (c : Controller) : Reaction :=
  if data.length ≤ c.credit then c.callSend (.handshake ref) data []
  else { state := c.looping, outputs := [.reply ref .noCredit] }

def answerSend (purpose : Purpose) (size : ℕ) (rest : List UInt8) (answer : Answer)
    (c : Controller) : Reaction :=
  match purpose, answer with
  | .handshake ref, .ok =>
    { state := { c with credit := c.credit - size, sendCount := c.sendCount + 1, phase := .loop }
      outputs := [.reply ref .ok] }
  | .handshake ref, answer => { state := c.looping, outputs := [.reply ref (.refused answer)] }
  | purpose, .ok =>
    let c := { c with credit := c.credit - size }
    if rest = [] then c.sentAll purpose else { state := c.keepRest purpose rest }
  | _, _ => c.exit

/-- What the runtime has to send, when it was asked; the length is the one it reports. -/
def pull (data : Option (ℕ × List UInt8)) (c : Controller) : Reaction :=
  match data with
  | none => { state := { c with distReady := false, phase := .loop } }
  | some (length, bytes) =>
    { c with pendingOut := beBytes 4 length ++ bytes, sendCount := c.sendCount + 1 }.flushOutput

/-! ## Input

Data is put behind what is left from before, and is then cut at the lengths that stand in it. While
the connection is set up a packet goes to whoever waits for one, and after that to the runtime. -/

/-- Hand a packet to the call that waits for one. -/
def satisfyWaiter (c : Controller) : Controller × List Output :=
  match c.waiter, takeOne .two c.buffer with
  | some ref, some (packet, rest) =>
    ({ c with buffer := rest, waiter := none, recvCount := c.recvCount + 1 },
      [.reply ref (.packet packet)])
  | _, _ => (c, [])

/-- Hand all whole packets to the runtime. -/
def putPacket4 (c : Controller) : Controller × List Output :=
  let (packets, rest) := feed .four [] c.buffer
  ({ c with buffer := rest, recvCount := c.recvCount + packets.length }, packets.map .putData)

def consumeInput (data : List UInt8) (c : Controller) : Controller × List Output :=
  match c.mode with
  | .handshake => { c with buffer := c.buffer ++ data }.satisfyWaiter
  | .up => { c with buffer := c.buffer ++ data }.putPacket4

/-! ## The receive loop -/

def handleCall (ref : ℕ) (call : ControllerCall) (c : Controller) : Reaction :=
  match call, c.mode with
  | .supervisor, _ => { state := c, outputs := [.reply ref .ok] }
  | .send packet, .handshake =>
    match frame .two packet with
    | some data => c.sendBytes ref data
    | none => c.exit
  | .recv, .handshake =>
    match takeOne .two c.buffer with
    | some (packet, rest) =>
      { state := { c with buffer := rest, recvCount := c.recvCount + 1 }
        outputs := [.reply ref (.packet packet)] }
    | none => { state := { c with waiter := some ref } }
  | .handshakeComplete, _ =>
    let (c, outputs) := { c with mode := .up }.putPacket4
    { state := c, outputs := outputs ++ [.reply ref .ok] }
  | .tick, _ =>
    let reaction := { c with tickPending := true }.flushOutput
    { reaction with outputs := .reply ref .ok :: reaction.outputs }
  | .getstat, _ =>
    let pending := if c.pendingOut = [] then 0 else 1
    { state := c, outputs := [.reply ref (.stat c.recvCount c.sendCount pending)] }
  | .close, _ => { c.terminateStream with outputs := [.reply ref .ok] }
  | _, _ => { state := c, outputs := [.reply ref .badRequest] }

def handleStreamEvent (event : Event) (c : Controller) : Reaction :=
  match event with
  | .data bytes =>
    -- the input is consumed before the credit is given back
    let (c, outputs) := c.consumeInput bytes
    { state := { c with phase := .crediting }, request := some (.credit bytes.length), outputs }
  | .credit bytes => { c with credit := c.credit + bytes }.flushOutput
  | .closed _ => c.exit
  | _ => { state := c }

def answerCredit (answer : Answer) (c : Controller) : Reaction :=
  match answer with
  | .ok => { state := c.looping }
  | _ => c.terminateStream

/-- One turn of the receive loop. -/
def receive (input : ControllerInput) (c : Controller) : Reaction :=
  match input with
  | .call ref call => c.handleCall ref call
  | .cancelRecv ref => { state := if c.waiter = some ref then { c with waiter := none } else c }
  | .recvTimeout ref =>
    if c.waiter = some ref then
      { state := { c with waiter := none }, outputs := [.reply ref .timeout] }
    else { state := c }
  | .event event => c.handleStreamEvent event
  | .distData => { c with distReady := true }.flushOutput
  | .portDown => c.exit
  | .supervisorExit => c.terminateStream
  | .other => { state := c }

/-- The answer to the port call the controller waits for. -/
def answer (answer : Answer) (c : Controller) : Reaction :=
  match c.phase with
  | .sending purpose size rest => c.answerSend purpose size rest answer
  | .crediting => c.answerCredit answer
  | _ => { state := c }

/-! ## What a turn does to the credit

One lemma for each function, about one number. An accepted chunk costs its size and one that is not
accepted costs nothing; a credit event adds what it carries; and input leaves the credit alone,
apart from what is given back for data. -/

/-- The controller waits for the answer to the request. A chunk is never longer than the credit. -/
def Awaits (request : PortRequest) (c : Controller) : Prop :=
  match request with
  | .send chunk => (∃ purpose rest, c.phase = .sending purpose chunk.length rest)
      ∧ chunk ≠ [] ∧ chunk.length ≤ c.credit
  | .credit _ => c.phase = .crediting
  | .close => c.phase = .exited

/-- The controller waits for no answer. -/
def Free (c : Controller) : Prop := c.phase = .loop ∨ c.phase = .pulling ∨ c.phase = .exited

end Controller

namespace Reaction

/-- The credit after the turn is the given one, and the controller waits for what it has asked. No
credit is given back; only data does that. -/
def Sound (credit : ℤ) (reaction : Reaction) : Prop :=
  reaction.state.credit = credit ∧
    match reaction.request with
    | none => reaction.state.Free
    | some (.credit _) => False
    | some request => reaction.state.Awaits request

end Reaction

namespace Controller

variable {c : Controller}

theorem sound_looping (c : Controller) (outputs : List Output) :
    (Reaction.mk c.looping none outputs).Sound c.credit := ⟨rfl, Or.inl rfl⟩

theorem sound_same (h : c.phase = .loop) (outputs : List Output) :
    (Reaction.mk c none outputs).Sound c.credit := ⟨rfl, Or.inl h⟩

theorem sound_exit (c : Controller) : c.exit.Sound c.credit := ⟨rfl, Or.inr (Or.inr rfl)⟩

theorem sound_callSend {purpose : Purpose} {chunk rest : List UInt8} (hne : chunk ≠ [])
    (hle : chunk.length ≤ c.credit) : (c.callSend purpose chunk rest).Sound c.credit :=
  ⟨rfl, ⟨purpose, rest, rfl⟩, hne, hle⟩

theorem sound_keepRest (purpose : Purpose) (rest : List UInt8) (c : Controller) :
    (Reaction.mk (c.keepRest purpose rest) none []).Sound c.credit := by
  cases purpose with
  | handshake _ | pending | tick => exact ⟨rfl, Or.inl rfl⟩

theorem sound_sendAvailable {purpose : Purpose} {data : List UInt8} (hne : data ≠ []) :
    (c.sendAvailable purpose data).Sound c.credit := by
  rw [sendAvailable]
  by_cases hpos : 0 < c.credit
  · rw [if_pos hpos]
    have hdata := List.length_pos_iff.mpr hne
    have hlength : (data.take (min maxPortChunk (min c.credit.toNat data.length))).length
        = min maxPortChunk (min c.credit.toNat data.length) := by
      rw [List.length_take]
      omega
    -- neither the limit, nor the credit, nor the data is empty
    have hsize : 0 < min maxPortChunk (min c.credit.toNat data.length) := by
      rw [maxPortChunk]
      omega
    apply sound_callSend
    · exact List.length_pos_iff.mp (by rw [hlength]; exact hsize)
    · rw [hlength]
      omega
  · rw [if_neg hpos]
    exact sound_keepRest purpose data c

theorem sound_flushOutput (c : Controller) : c.flushOutput.Sound c.credit := by
  rw [flushOutput]
  by_cases hmode : c.mode = .handshake
  · rw [if_pos hmode]
    exact sound_looping c []
  rw [if_neg hmode]
  by_cases hpending : c.pendingOut ≠ []
  · rw [if_pos hpending]
    exact sound_sendAvailable hpending
  rw [if_neg hpending]
  by_cases htick : c.tickPending = true
  · rw [if_pos htick]
    exact sound_sendAvailable (by decide)
  rw [if_neg htick]
  by_cases hready : c.distReady = true
  · rw [if_pos hready]
    exact ⟨rfl, Or.inr (Or.inl rfl)⟩
  · rw [if_neg hready]
    exact sound_looping c []

theorem sound_sentAll (purpose : Purpose) (c : Controller) :
    (c.sentAll purpose).Sound c.credit := by
  cases purpose with
  | handshake _ | pending => exact sound_flushOutput { c with pendingOut := [] }
  | tick =>
    exact sound_flushOutput { c with tickPending := false, sendCount := c.sendCount + 1 }

theorem sound_sendBytes {ref : ℕ} {data : List UInt8} (hne : data ≠ []) :
    (c.sendBytes ref data).Sound c.credit := by
  rw [sendBytes]
  by_cases hle : (data.length : ℤ) ≤ c.credit
  · rw [if_pos hle]
    exact sound_callSend hne hle
  · rw [if_neg hle]
    exact sound_looping c _

/-- An accepted chunk costs its size, and one that is not accepted costs nothing. -/
theorem sound_answerSend (purpose : Purpose) (size : ℕ) (rest : List UInt8) (answer : Answer)
    (c : Controller) : (c.answerSend purpose size rest answer).Sound
      (if answer = .ok then c.credit - size else c.credit) := by
  cases answer with
  | ok =>
    rw [if_pos rfl]
    cases purpose with
    | handshake ref => exact ⟨rfl, Or.inl rfl⟩
    | pending | tick =>
      simp only [answerSend]
      split
      · exact sound_sentAll _ { c with credit := c.credit - size }
      · exact sound_keepRest _ rest { c with credit := c.credit - size }
  | error _ | failed =>
    rw [if_neg (by simp)]
    cases purpose with
    | handshake ref => exact sound_looping c _
    | pending | tick => exact sound_exit c

theorem sound_answerCredit (answer : Answer) (c : Controller) :
    (c.answerCredit answer).Sound c.credit := by
  cases answer with
  | ok => exact sound_looping c []
  | error _ | failed => exact ⟨rfl, rfl⟩

theorem sound_pull (data : Option (ℕ × List UInt8)) (c : Controller) :
    (c.pull data).Sound c.credit := by
  cases data with
  | none => exact ⟨rfl, Or.inl rfl⟩
  | some data =>
    exact sound_flushOutput
      { c with pendingOut := beBytes 4 data.1 ++ data.2, sendCount := c.sendCount + 1 }

theorem consumeInput_credit (data : List UInt8) (c : Controller) :
    (c.consumeInput data).1.credit = c.credit := by
  rw [consumeInput]
  split
  · rw [satisfyWaiter]
    split <;> rfl
  · rfl

theorem sound_handleCall (h : c.phase = .loop) (ref : ℕ) (call : ControllerCall) :
    (c.handleCall ref call).Sound c.credit := by
  unfold handleCall
  split
  · exact sound_same h _
  · split
    · next hframe => exact sound_sendBytes (frame_ne_nil hframe)
    · exact sound_exit c
  · split <;> exact ⟨rfl, Or.inl h⟩
  · exact ⟨rfl, Or.inl h⟩
  · exact sound_flushOutput { c with tickPending := true }
  · exact sound_same h _
  · exact ⟨rfl, rfl⟩
  · exact sound_same h _

/-- **An event adds the credit it carries.** -/
theorem sound_handleStreamEvent (h : c.phase = .loop) {event : Event}
    (hevent : ∀ bytes, event ≠ .data bytes) :
    (c.handleStreamEvent event).Sound (c.credit + event.creditBytes) := by
  cases event with
  | credit bytes => exact sound_flushOutput { c with credit := c.credit + bytes }
  | data bytes => exact absurd rfl (hevent bytes)
  | closed _ =>
    rw [show c.credit + (Event.closed _).creditBytes = c.credit from add_zero _]
    exact sound_exit c
  | incoming _ _ | connected _ =>
    rw [show c.credit + Event.creditBytes _ = c.credit from add_zero _]
    exact sound_same h []

/-- **Data is given back as credit**, as much of it as there is. -/
theorem handleStreamEvent_data (bytes : List UInt8) (c : Controller) :
    (c.handleStreamEvent (.data bytes)).request = some (.credit bytes.length)
      ∧ (c.handleStreamEvent (.data bytes)).state.credit = c.credit
      ∧ (c.handleStreamEvent (.data bytes)).state.phase = .crediting :=
  ⟨rfl, consumeInput_credit bytes c, rfl⟩

/-- **Other messages leave the credit alone.** -/
theorem sound_receive (h : c.phase = .loop) {input : ControllerInput}
    (hinput : ∀ event, input ≠ .event event) : (c.receive input).Sound c.credit := by
  cases input with
  | call ref call => exact sound_handleCall h ref call
  | cancelRecv ref =>
    simp only [receive]
    split
    · exact ⟨rfl, Or.inl h⟩
    · exact sound_same h []
  | recvTimeout ref =>
    simp only [receive]
    split
    · exact ⟨rfl, Or.inl h⟩
    · exact sound_same h []
  | event event => exact absurd rfl (hinput event)
  | distData => exact sound_flushOutput { c with distReady := true }
  | portDown => exact sound_exit c
  | supervisorExit => exact ⟨rfl, rfl⟩
  | other => exact sound_same h []

end Controller

end NervesP2P
