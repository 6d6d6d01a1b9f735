import NervesP2P.Lib.Maps
import NervesP2P.Lib.Term

/-!
# The client of the daemon

One process owns the port to the daemon. Its callers wait inside `GenServer.call` while it writes
their requests to the port, each under a number of its own, and keeps who waits for which number.
A response is given to the caller that waits for its number; a timer of the request may be faster,
and so may the exit of the daemon. Events of the daemon carry no number and go to all subscribers.

The process handles one message after the other, so its behaviour is a function: `handle` takes a
message and the state and returns what is done outside, in order, and how the process goes on. What
the runtime decides comes with the message: the references it makes, and whether the port is open.

Encoding and decoding of JSON texts is a library's work, of which nothing is assumed.
-/

open Std (ExtTreeMap)

namespace NervesP2P

namespace Port

/-! ## Values -/

abbrev Pid := ℕ

/-- A reference that the runtime made: of a call, a timer or a monitor. -/
abbrev Ref := ℕ

/-- A JSON value as it is decoded. An object is a map, with one value for each key. -/
inductive Json where
  | null
  | bool (value : Bool)
  | integer (value : ℤ)
  | float (bits : UInt64)
  | string (value : String)
  | array (items : List Json)
  | object (fields : List (String × Json))

/-- The value of an object under a key. -/
def Json.get? (json : Json) (key : String) : Option Json :=
  match json with
  | .object fields => fields.lookup key
  | _ => none

/-- A request as it is encoded: the attributes of the caller, the number and the command. -/
structure Request (V : Type) where
  id : ℤ
  command : String
  attributes : List (Key × V)

/-- What the client uses of the JSON library. -/
structure Jason where
  /-- The values of attributes, any terms at all. -/
  Value : Type
  EncodeError : Type
  encode : Request Value → Except EncodeError (List UInt8)
  decode : List UInt8 → Option Json

/-- The number and the command are the client's, whatever the attributes say. -/
def Request.new {V : Type} (id : ℤ) (command : String) (attributes : List (Key × V)) :
    Request V where
  id := id
  command := command
  attributes := attributes.filter fun entry ↦
    entry.1 ∉ [.atom "id", .atom "command", .binary "id", .binary "command"]

variable {J : Jason}

/-- Why a request has no result. -/
inductive Failure (J : Jason) where
  | encode (error : J.EncodeError)
  /-- The text that the daemon gave. -/
  | daemon (error : String)
  | malformedResponse
  | timeout
  | portExit (status : ℤ)

inductive Answer (J : Jason) where
  /-- To a subscription. -/
  | done
  | ok (result : List (String × Json))
  | error (failure : Failure J)

/-- A call, by its process and the reference that `GenServer.call` made for it. -/
structure From where
  caller : Pid
  tag : Ref
  deriving DecidableEq

/-! ## State -/

/-- A request that waits for its response. -/
structure Pending where
  caller : From
  timer : Ref
  command : String

structure State where
  nextId : ℤ
  pending : ExtTreeMap ℤ Pending
  /-- Each subscriber with its monitor. -/
  subscribers : ExtTreeMap Pid Ref

def State.init : State := ⟨1, ∅, ∅⟩

inductive Message (J : Jason) where
  /-- `Port.command` raises unless the port is open. There is no timer if `send_after` raises. -/
  | request (caller : From) (command : String) (attributes : List (Key × J.Value)) (timeout : ℕ)
      (portOpen : Bool) (timer : Option Ref)
  /-- With the monitor that is made if there is none. -/
  | subscribe (caller : From) (subscriber : Pid) (monitor : Ref)
  | unsubscribe (caller : From) (subscriber : Pid)
  | data (payload : List UInt8)
  | requestTimeout (id : ℤ)
  | exitStatus (status : ℤ)
  | down (monitor : Ref) (subscriber : Pid)
  | other

inductive Effect (J : Jason) where
  | command (request : Request J.Value) (payload : List UInt8)
  | sendAfter (timer : Ref) (id : ℤ) (timeout : ℕ)
  | cancelTimer (timer : Ref)
  | reply (caller : From) (answer : Answer J)
  | monitor (subscriber : Pid) (monitor : Ref)
  | demonitor (monitor : Ref)
  /-- An event to a subscriber. -/
  | send (subscriber : Pid) (event : Json)

inductive Reason where
  | normal
  | portExit (status : ℤ)

/-- How the process goes on. -/
inductive Next where
  | noreply (state : State)
  | stop (reason : Reason) (state : State)
  /-- The handler raised, and the process is gone with it. -/
  | raised

/-! ## Handlers

`reply` is where all answers come from: it takes the entry of a number away and answers its caller,
and finds nothing if the entry is gone. -/

/-- Answer the request of a number, if it still waits. -/
def reply (id : ℤ) (answer : Answer J) (state : State) : List (Effect J) × Next :=
  match state.pending[id]? with
  | none => ([], .noreply state)
  | some ⟨caller, timer, command⟩ =>
    let state := { state with pending := state.pending.erase id }
    ([.cancelTimer timer, .reply caller answer],
      if command = "shutdown" then .stop .normal state else .noreply state)

/-- A response: the number it is for, and what it says. -/
def response? (json : Json) : Option (ℤ × Answer J) :=
  match json.get? "id", json.get? "ok", json.get? "result", json.get? "error" with
  | some (.integer id), some (.bool true), some (.object result), _ => some (id, .ok result)
  | some (.integer id), some (.bool false), _, some (.string error) =>
    some (id, .error (.daemon error))
  | some (.integer id), _, _, _ => some (id, .error .malformedResponse)
  | _, _, _, _ => none

def handleResponse (decoded : Option Json) (state : State) : List (Effect J) × Next :=
  match decoded with
  | none => ([], .noreply state)
  | some json =>
    if (json.get? "event").isSome = true then
      (state.subscribers.keys.map fun subscriber ↦ .send subscriber json, .noreply state)
    else
      match response? json with
      | some (id, answer) => reply id answer state
      | none => ([], .noreply state)

def handle (message : Message J) (state : State) : List (Effect J) × Next :=
  match message with
  | .request caller command attributes timeout portOpen timer =>
    let id := state.nextId
    let request := Request.new id command attributes
    match J.encode request with
    | .ok payload =>
      if portOpen = true then
        match timer with
        | some timer =>
          ([.command request payload, .sendAfter timer id timeout],
            .noreply { state with
              nextId := id + 1
              pending := state.pending.insert id ⟨caller, timer, command⟩ })
        | none => ([.command request payload], .raised)
      else ([], .raised)
    | .error error => ([.reply caller (.error (.encode error))], .noreply state)
  | .subscribe caller subscriber monitor =>
    if subscriber ∈ state.subscribers then ([.reply caller .done], .noreply state)
    else ([.monitor subscriber monitor, .reply caller .done],
      .noreply { state with subscribers := state.subscribers.insert subscriber monitor })
  | .unsubscribe caller subscriber =>
    match state.subscribers[subscriber]? with
    | none => ([.reply caller .done], .noreply state)
    | some monitor => ([.demonitor monitor, .reply caller .done],
      .noreply { state with subscribers := state.subscribers.erase subscriber })
  | .data payload => handleResponse (J.decode payload) state
  | .requestTimeout id =>
    match state.pending[id]? with
    | none => ([], .noreply state)
    | some ⟨caller, _, _⟩ => ([.reply caller (.error .timeout)],
      .noreply { state with pending := state.pending.erase id })
  | .exitStatus status =>
    (state.pending.toList.flatMap fun entry ↦
        [.cancelTimer entry.2.timer, .reply entry.2.caller (.error (.portExit status))],
      .stop (.portExit status) { state with pending := ∅ })
  | .down monitor subscriber =>
    if state.subscribers[subscriber]? = some monitor then
      ([], .noreply { state with subscribers := state.subscribers.erase subscriber })
    else ([], .noreply state)
  | .other => ([], .noreply state)

/-! ## Histories -/

abbrev Turn (J : Jason) := Message J × List (Effect J)

/-- What the process can have done since its start, and how it stands after that. It handles
messages until it stops or a handler raises. -/
inductive History : List (Turn J) → Next → Prop
  | init : History [] (.noreply .init)
  | step {turns : List (Turn J)} {state : State} (h : History turns (.noreply state))
      (message : Message J) :
      History (turns ++ [(message, (handle message state).1)]) (handle message state).2

/-- The turns on a list of messages. Those that come after the end are not handled. -/
def run : List (Message J) → State → List (Turn J) × Next
  | [], state => ([], .noreply state)
  | message :: messages, state =>
    match (handle message state).2 with
    | .noreply state' =>
      ((message, (handle message state).1) :: (run messages state').1, (run messages state').2)
    | next => ([(message, (handle message state).1)], next)

theorem History.run {turns : List (Turn J)} {state : State} (h : History turns (.noreply state))
    (messages : List (Message J)) :
    History (turns ++ (Port.run messages state).1) (Port.run messages state).2 := by
  induction messages generalizing turns state with
  | nil => simpa [Port.run] using h
  | cons message messages ih =>
    have hstep := h.step message
    rw [Port.run]
    split
    · next state' hnext =>
      rw [hnext] at hstep
      simpa using ih hstep
    · exact hstep

/-- The call that a message is. -/
def Message.caller? : Message J → Option From
  | .request caller _ _ _ _ _ => some caller
  | .subscribe caller _ _ => some caller
  | .unsubscribe caller _ => some caller
  | _ => none

/-- The call that an effect answers. -/
def Effect.answered? : Effect J → Option From
  | .reply caller _ => some caller
  | _ => none

/-- The number that an effect gives away. -/
def Effect.id? : Effect J → Option ℤ
  | .command request _ => some request.id
  | _ => none

/-- The subscriber that an effect sends an event to. -/
def Effect.sent? : Effect J → Option (Pid × Json)
  | .send subscriber event => some (subscriber, event)
  | _ => none

def calls (turns : List (Turn J)) : List From := turns.filterMap fun turn ↦ turn.1.caller?

/-- The calls that have been answered, once for each answer. -/
def answered (turns : List (Turn J)) : List From :=
  turns.flatMap fun turn ↦ turn.2.filterMap Effect.answered?

/-- The numbers of the requests written to the port. -/
def ids (turns : List (Turn J)) : List ℤ := turns.flatMap fun turn ↦ turn.2.filterMap Effect.id?

/-- A request of this call was written to the port under this number. -/
def Wrote (turns : List (Turn J)) (caller : From) (id : ℤ) : Prop :=
  ∃ turn ∈ turns, turn.1.caller? = some caller
    ∧ ∃ request payload, .command request payload ∈ turn.2 ∧ request.id = id

/-- What a message does to the subscription of a process. -/
def Message.subscription (subscriber : Pid) (monitor? : Option Ref) : Message J → Option Ref
  | .subscribe _ pid monitor =>
    if pid = subscriber then some (monitor?.getD monitor) else monitor?
  | .unsubscribe _ pid => if pid = subscriber then none else monitor?
  | .down monitor pid =>
    if pid = subscriber ∧ monitor? = some monitor then none else monitor?
  | _ => monitor?

/-- The monitor of a process that has subscribed and since then neither unsubscribed nor exited. -/
def subscription (turns : List (Turn J)) (subscriber : Pid) : Option Ref :=
  turns.foldl (fun monitor? turn ↦ turn.1.subscription subscriber monitor?) none

end Port

end NervesP2P
