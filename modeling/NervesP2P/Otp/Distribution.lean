import NervesP2P.Lib.Text

/-!
# Messages between processes of different peers

A request to a process of another peer is a tuple: how the message is to be delivered, the name of
the process, and the message. It travels as bytes. The other side looks the name up, delivers the
message, and makes the response.

The bytes come from a peer that nobody trusts, so a request is any term at all. Where the code has
no clause for a term, it raises, and here that is `none`. `Deliverable` says of which requests this
does not happen.

## What a message does elsewhere

A request may go to any process that has a name, and the code does not look at the message. What a
process does with it is outside of this development, but some of it comes back: a supervisor may be
told to end the very process that waits for its answer, the process of the node dies of a cast, and
it sends whatever response it is told to. So the runtime has an answer also to what became of the
server because of a message (`CallOutcome.killed`, `Aftermath`), and nothing is assumed about it.
-/

namespace NervesP2P

namespace Distribution

abbrev Pid := ℕ

/-- A term that came from another peer, or goes to one. -/
inductive Value where
  | atom (name : String)
  | binary (bytes : List UInt8)
  | tuple (elements : List Value)
  /-- A number, a list, a map, a process and so on. -/
  | other (value : ℕ)

/-- What a name is registered for. -/
inductive Registered where
  | pid (pid : Pid)
  | port (port : ℕ)
  deriving DecidableEq

/-- What the lookup of a registry does. -/
inductive Lookup where
  | pid (pid : Pid)
  | undefined
  /-- It returns something else, or raises; there may be no such registry. -/
  | failed

inductive CallOutcome where
  | reply (reply : Value)
  | exit (reason : Value)
  /-- The process that calls is killed while it waits. -/
  | killed

inductive Delivery where
  | call
  | cast
  | send
  deriving DecidableEq

structure Delivered where
  delivery : Delivery
  target : Registered
  message : Value

/-- What a delivered message leads to on the node, apart from an answer. -/
inductive Aftermath where
  | harmless
  /-- A process sends responses to requests, or events of the node, in its own right. -/
  | interferes
  /-- The process of the node is gone before the response is sent. -/
  | nodeDown
  /-- The server is ended. -/
  | killed
  deriving DecidableEq

/-- The runtime and the processes in it, as they are when a message is handled. -/
structure Runtime where
  /-- The process that handles the message. -/
  self : Pid
  termToBinary : Value → List UInt8
  /-- With the option that makes no new atoms; `none` when the bytes are refused. -/
  binaryToTerm : List UInt8 → Option Value
  whereis : String → Option Registered
  whereisName : (registry key : Value) → Lookup
  genServerCall : Pid → (message : Value) → CallOutcome
  /-- What another process does because of a message. -/
  aftermath : Delivered → Aftermath
  inspect : Value → List UInt8

variable (rt : Runtime)

/-! ## Terms and bytes -/

inductive DecodeError where
  | invalidMessage
  | payloadTooLarge

def maxPayloadBytes : ℕ := 1048576

def encode (term : Value) : List UInt8 := rt.termToBinary term

def decode (binary : List UInt8) : Except DecodeError Value :=
  if maxPayloadBytes < binary.length then .error .payloadTooLarge
  else
    match rt.binaryToTerm binary with
    | some term => .ok term
    | none => .error .invalidMessage

/-! ## The side that asks -/

def Delivery.atom : Delivery → Value
  | .call => .atom "call"
  | .cast => .atom "cast"
  | .send => .atom "send"

/-- What is sent to have a message delivered. -/
def request (delivery : Delivery) (name : String) (message : Value) : Value :=
  .tuple [delivery.atom, .atom name, message]

/-- Why there is no response to a call. -/
inductive CallError where
  | timeout
  | unreachable

def CallError.value : CallError → Value
  | .timeout => .atom "timeout"
  | .unreachable => .atom "unreachable"

/-- What a call returns on an answer. There is no clause for a response of another shape. -/
def call : Except CallError (List UInt8) → Option (Except Value Value)
  | .ok responseData =>
    match decode rt responseData with
    | .ok (.tuple [.atom "reply", reply]) => some (.ok reply)
    | .ok (.tuple [.atom "error", reason]) => some (.error reason)
    | .ok _ => none
    | .error _ => some (.error (.atom "invalid_response"))
  | .error reason => some (.error reason.value)

/-! ## The side that is asked -/

/-- There are clauses for an atom and for a name in a registry only. -/
def whereis : Value → Option (Option Registered)
  | .atom name => some (rt.whereis name)
  | .tuple [.atom "via", registry, key] =>
    match rt.whereisName registry key with
    | .pid pid => some (some (.pid pid))
    | .undefined => some none
    | .failed => none
  | _ => none

/-- Every exit is caught. To call a port is an error and not an exit, and to be killed is
neither. -/
def safeCall (message : Value) : Registered → Option (Except Value Value)
  | .port _ => none
  | .pid pid =>
    match rt.genServerCall pid message with
    | .killed => none
    | .reply reply => some (.ok reply)
    | .exit (.tuple [.atom "noproc", _]) => some (.error (.atom "noproc"))
    | .exit (.tuple [.atom "timeout", _]) => some (.error (.atom "timeout"))
    | .exit reason => some (.error (.tuple [.atom "exit", .binary (rt.inspect reason)]))

/-- The message that is delivered. `GenServer.call` and `GenServer.cast` raise on a port, and `send`
does not. -/
def deliver (delivery : Delivery) (message : Value) (target : Registered) : Option Delivered :=
  match delivery, target with
  | .send, target => some ⟨.send, target, message⟩
  | delivery, .pid pid => some ⟨delivery, .pid pid, message⟩
  | _, .port _ => none

/-- The message that is delivered, and the response. There is no response if the process raises, or
is killed while it waits. -/
def handleRemoteRequest : Value → Option Delivered × Option (List UInt8)
  | .tuple [.atom "call", name, message] =>
    match whereis rt name with
    | none => (none, none)
    | some none => (none, some (encode rt (.tuple [.atom "error", .atom "noproc"])))
    | some (some target) =>
      (deliver .call message target,
        (safeCall rt message target).map fun
          | .ok reply => encode rt (.tuple [.atom "reply", reply])
          | .error reason => encode rt (.tuple [.atom "error", reason]))
  | .tuple [.atom "cast", name, message] =>
    match whereis rt name with
    | none => (none, none)
    | some none => (none, some (encode rt (.tuple [.atom "reply", .atom "ok"])))
    | some (some target) =>
      (deliver .cast message target,
        (deliver .cast message target).map fun _ ↦
          encode rt (.tuple [.atom "reply", .atom "ok"]))
  | .tuple [.atom "send", name, message] =>
    match whereis rt name with
    | none => (none, none)
    | some target =>
      (target.bind (deliver .send message), some (encode rt (.tuple [.atom "reply", .atom "ok"])))
  | _ => (none, some (encode rt (.tuple [.atom "error", .atom "unknown_request"])))

/-! ## Which bytes are handled

The clauses are taken together. A term that is no request has its own response; a request is
answered if its name can be looked up, what it names can be asked, and the process lives to see the
answer. -/

/-- The lookup of a name does not raise. -/
def Named (name : Value) : Prop :=
  (∃ atom, name = .atom atom)
    ∨ ∃ registry key, name = .tuple [.atom "via", registry, key]
      ∧ rt.whereisName registry key ≠ .failed

/-- A request whose name can be looked up and is not, for a call or a cast, the name of a port, and
which does not have the process killed while it waits; or a term that is no request. -/
def Deliverable (term : Value) : Prop :=
  ∀ delivery name message, term = .tuple [Delivery.atom delivery, name, message] →
    Named rt name
      ∧ (delivery ≠ .send → ∀ atom port, name = .atom atom → rt.whereis atom ≠ some (.port port))
      ∧ (delivery = .call → ∀ pid, whereis rt name = some (some (.pid pid)) →
        rt.genServerCall pid message ≠ .killed)

variable {rt}

theorem isSome_whereis_iff {name : Value} : (whereis rt name).isSome ↔ Named rt name := by
  fun_cases whereis rt name with
  | case1 atom => simp [Named]
  | case2 registry key pid hlookup => simp [Named, hlookup]
  | case3 registry key hlookup => simp [Named, hlookup]
  | case4 registry key hlookup => simp [Named, hlookup]
  | case5 name hatom hvia =>
    simp only [Option.isSome_none, Bool.false_eq_true, false_iff]
    rintro (⟨atom, rfl⟩ | ⟨registry, key, rfl, -⟩)
    · exact hatom atom rfl
    · exact hvia registry key rfl

theorem whereis_eq_port_iff {name : Value} {port : ℕ} :
    whereis rt name = some (some (.port port))
      ↔ ∃ atom, name = .atom atom ∧ rt.whereis atom = some (.port port) := by
  fun_cases whereis rt name with
  | case1 atom => simp
  | case2 registry key pid hlookup => simp
  | case3 registry key hlookup => simp
  | case4 registry key hlookup => simp
  | case5 name hatom hvia =>
    simp only [reduceCtorEq, false_iff]
    rintro ⟨atom, rfl, -⟩
    exact hatom atom rfl

theorem isSome_safeCall_iff {message : Value} {pid : Pid} :
    (safeCall rt message (.pid pid)).isSome ↔ rt.genServerCall pid message ≠ .killed := by
  rw [safeCall]
  split <;> simp_all

theorem Delivery.atom_injective : Function.Injective Delivery.atom := by
  intro delivery delivery' h
  cases delivery <;> cases delivery' <;> simp_all [Delivery.atom]

theorem isSome_handleRemoteRequest_tuple (delivery : Delivery) (name message : Value) :
    (handleRemoteRequest rt (.tuple [delivery.atom, name, message])).2.isSome
      ↔ (whereis rt name).isSome
        ∧ (delivery ≠ .send → ∀ port, whereis rt name ≠ some (some (.port port)))
        ∧ (delivery = .call → ∀ pid, whereis rt name = some (some (.pid pid)) →
          rt.genServerCall pid message ≠ .killed) := by
  cases delivery with
  | call =>
    simp only [Delivery.atom, handleRemoteRequest]
    cases whereis rt name with
    | none => simp
    | some found =>
      rcases found with _ | ⟨pid⟩ | ⟨port⟩
      · simp
      · simp [isSome_safeCall_iff]
      · simp [safeCall]
  | cast =>
    simp only [Delivery.atom, handleRemoteRequest]
    cases whereis rt name with
    | none => simp
    | some found => rcases found with _ | ⟨pid⟩ | ⟨port⟩ <;> simp [deliver]
  | send =>
    simp only [Delivery.atom, handleRemoteRequest]
    cases whereis rt name <;> simp

theorem handleRemoteRequest_unknown {term : Value}
    (h : ∀ delivery name message, term ≠ .tuple [Delivery.atom delivery, name, message]) :
    handleRemoteRequest rt term
      = (none, some (encode rt (.tuple [.atom "error", .atom "unknown_request"]))) := by
  rw [handleRemoteRequest]
  · exact h .call
  · exact h .cast
  · exact h .send

theorem isSome_handleRemoteRequest_iff {term : Value} :
    (handleRemoteRequest rt term).2.isSome ↔ Deliverable rt term := by
  by_cases hrequest : ∃ delivery name message, term = .tuple [Delivery.atom delivery, name, message]
  · obtain ⟨delivery, name, message, rfl⟩ := hrequest
    rw [isSome_handleRemoteRequest_tuple, isSome_whereis_iff]
    have hport : (∀ port, whereis rt name ≠ some (some (.port port)))
        ↔ ∀ atom port, name = .atom atom → rt.whereis atom ≠ some (.port port) := by
      simp only [ne_eq, whereis_eq_port_iff]
      grind
    rw [hport]
    constructor
    · intro h delivery' name' message' heq
      simp only [Value.tuple.injEq, List.cons.injEq, and_true] at heq
      obtain ⟨hdelivery, rfl, rfl⟩ := heq
      rwa [← Delivery.atom_injective hdelivery]
    · intro h
      exact h delivery name message rfl
  · rw [handleRemoteRequest_unknown fun delivery name message heq ↦
      hrequest ⟨delivery, name, message, heq⟩]
    exact iff_of_true rfl fun delivery name message heq ↦
      absurd ⟨delivery, name, message, heq⟩ hrequest

/-- A message to a registered process is delivered to it. -/
theorem handleRemoteRequest_request {pid : Pid} {name : String}
    (h : rt.whereis name = some (.pid pid)) (delivery : Delivery) (message : Value) :
    (handleRemoteRequest rt (request delivery name message)).1
      = some ⟨delivery, .pid pid, message⟩ := by
  have hwhereis : whereis rt (.atom name) = some (some (.pid pid)) := by rw [whereis, h]
  cases delivery <;> simp [request, Delivery.atom, handleRemoteRequest, hwhereis, deliver]

theorem decode_eq_ok_iff {binary : List UInt8} {term : Value} :
    decode rt binary = .ok term
      ↔ binary.length ≤ maxPayloadBytes ∧ rt.binaryToTerm binary = some term := by
  rw [decode]
  split
  · next hlarge => simp [not_le.mpr hlarge]
  · next hsmall =>
    rw [not_lt] at hsmall
    cases rt.binaryToTerm binary <;> simp [hsmall]

theorem binaryToTerm_of_invalidMessage {binary : List UInt8}
    (h : decode rt binary = .error .invalidMessage) : rt.binaryToTerm binary = none := by
  rw [decode] at h
  split at h
  · cases h
  · cases hterm : rt.binaryToTerm binary with
    | none => rfl
    | some term =>
      rw [hterm] at h
      cases h

variable (rt) in
/-- A response that is a reply or an error, if it is a term of the permitted size at all. -/
def Intelligible (responseData : List UInt8) : Prop :=
  ∀ term, responseData.length ≤ maxPayloadBytes → rt.binaryToTerm responseData = some term →
    ∃ value, term = .tuple [.atom "reply", value] ∨ term = .tuple [.atom "error", value]

theorem isSome_call_iff {responseData : List UInt8} :
    (call rt (.ok responseData)).isSome ↔ Intelligible rt responseData := by
  have hok : Intelligible rt responseData ↔ ∀ term, decode rt responseData = .ok term →
      ∃ value, term = .tuple [.atom "reply", value] ∨ term = .tuple [.atom "error", value] := by
    simp only [Intelligible, decode_eq_ok_iff, and_imp]
  rw [hok, call]
  split
  · next reply hdecode => simp [hdecode]
  · next reason hdecode => simp [hdecode]
  · next term hreply herror hdecode =>
    simp only [Option.isSome_none, Bool.false_eq_true, hdecode, Except.ok.injEq, forall_eq',
      false_iff, not_exists, not_or]
    exact fun value ↦ ⟨hreply value, herror value⟩
  · next error hdecode => simp [hdecode]

end Distribution

end NervesP2P
