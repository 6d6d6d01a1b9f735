import NervesP2P.Dist.Controller

/-!
# Runs of a controller

A controller takes one turn after the other: it receives a message in its loop, it gets the data it
has asked the runtime for, or it gets the answer to its port call. Messages may come in any order
and carry anything, also timeouts and cancellations of calls that are long answered; the runtime and
the port may say what they like. A run keeps every turn with the state before it and all that came
of it.

The projections say what others see of a run: the bytes that came in, the calls, the packets and
payloads that were handed on, and the replies.
-/

namespace NervesP2P

/-- Why a controller goes on. -/
inductive Cause where
  | received (input : ControllerInput)
  /-- The result of `dist_ctrl_get_data`. -/
  | pulled (data : Option (ℕ × List UInt8))
  | answered (answer : Answer)

/-- One turn: the controller before it, its cause, and what came of it. -/
structure Turn where
  before : Controller
  cause : Cause
  reaction : Reaction

namespace Controller

/-- A controller that was started with the given credit. -/
def init (credit : ℤ) : Controller := { start with credit }

/-- The turns that a controller can take where it is. -/
inductive Turns (c : Controller) : Cause → Reaction → Prop
  | received (input : ControllerInput) (h : c.phase = .loop) :
      Turns c (.received input) (c.receive input)
  | pulled (data : Option (ℕ × List UInt8)) (h : c.phase = .pulling) :
      Turns c (.pulled data) (c.pull data)
  | sent {purpose : Purpose} {size : ℕ} {rest : List UInt8} (answer : Answer)
      (h : c.phase = .sending purpose size rest) :
      Turns c (.answered answer) (c.answerSend purpose size rest answer)
  | credited (answer : Answer) (h : c.phase = .crediting) :
      Turns c (.answered answer) (c.answerCredit answer)

inductive Run (start : Controller) : List Turn → Controller → Prop
  | start : Run start [] start
  | step {trace : List Turn} {c : Controller} {cause : Cause} {reaction : Reaction}
      (h : Run start trace c) (hturn : c.Turns cause reaction) :
      Run start (trace ++ [⟨c, cause, reaction⟩]) reaction.state

end Controller

/-! ## What comes in -/

namespace Cause

def data : Cause → List UInt8
  | .received (.event (.data bytes)) => bytes
  | _ => []

def callRef : Cause → List ℕ
  | .received (.call ref _) => [ref]
  | _ => []

/-- The reference of a call that asks for a packet. -/
def recvRef : Cause → List ℕ
  | .received (.call ref .recv) => [ref]
  | _ => []

end Cause

/-- The bytes consumed in a run. -/
def consumed (trace : List Turn) : List UInt8 := trace.flatMap (·.cause.data)

/-- The references of the calls of a run, in order. -/
def callRefs (trace : List Turn) : List ℕ := trace.flatMap (·.cause.callRef)

/-- The references of the calls that ask for a packet. -/
def recvRefs (trace : List Turn) : List ℕ := trace.flatMap (·.cause.recvRef)

/-! ## What goes out -/

/-- The packets that callers were given. -/
def packets (outputs : List Output) : List (List UInt8) := outputs.filterMap fun
  | .reply _ (.packet bytes) => some bytes
  | _ => none

/-- The callers that were given packets. -/
def packetRefs (outputs : List Output) : List ℕ := outputs.filterMap fun
  | .reply ref (.packet _) => some ref
  | _ => none

/-- The payloads handed to `dist_ctrl_put_data`. -/
def payloads (outputs : List Output) : List (List UInt8) := outputs.filterMap fun
  | .putData payload => some payload
  | _ => none

/-- The callers that were told anything. -/
def replyRefs (outputs : List Output) : List ℕ := outputs.filterMap fun
  | .reply ref _ => some ref
  | .putData _ => none

def outputs (trace : List Turn) : List Output := trace.flatMap (·.reaction.outputs)

@[simp] theorem outputs_append (t u : List Turn) : outputs (t ++ u) = outputs t ++ outputs u :=
  List.flatMap_append

@[simp] theorem packets_append (o p : List Output) : packets (o ++ p) = packets o ++ packets p :=
  List.filterMap_append

@[simp] theorem packetRefs_append (o p : List Output) :
    packetRefs (o ++ p) = packetRefs o ++ packetRefs p := List.filterMap_append

@[simp] theorem payloads_append (o p : List Output) :
    payloads (o ++ p) = payloads o ++ payloads p :=
  List.filterMap_append

@[simp] theorem replyRefs_append (o p : List Output) :
    replyRefs (o ++ p) = replyRefs o ++ replyRefs p := List.filterMap_append

/-- Payloads are no replies, and nothing else comes of them. -/
theorem payloads_map_putData (list : List (List UInt8)) :
    payloads (list.map .putData) = list ∧ packets (list.map .putData) = []
      ∧ packetRefs (list.map .putData) = [] ∧ replyRefs (list.map .putData) = [] := by
  induction list with
  | nil => exact ⟨rfl, rfl, rfl, rfl⟩
  | cons payload list ih =>
    obtain ⟨hpayloads, hpackets, hpacketRefs, hreplyRefs⟩ := ih
    refine ⟨?_, hpackets, hpacketRefs, hreplyRefs⟩
    exact congrArg (payload :: ·) hpayloads

end NervesP2P
