import NervesP2P.Otp.DistributionServer

/-!
# Remote evaluation of functions

A function is evaluated on another peer by a process with a fixed name there. The message goes to it
as any other message between peers: as a call, which waits for the result, or as a cast, which does
not. The process has a handler for calls, and whatever the function does but end the process is
part of the reply. It has no handler for casts.

The last theorem says of all three parts of a remote call what can bring them down: the bytes of a
request, the bytes of a response, and the message that is evaluated. A request is fatal in two ways.
Some terms the server has no clause for. Others it delivers, and the message does the rest: cast to
the server itself, or given to a process that ends the server or the node for it.
-/

namespace NervesP2P

namespace CapabilityRpc

open NervesP2P.Distribution (Value Delivery Delivered Registered Runtime Ref)

/-! ## The side that asks -/

def serverName : String := "__capability_rpc_server__"

def applyMessage (mod function args : Value) : Value :=
  .tuple [.atom "apply", mod, function, args]

/-- What is sent to the selected peer. -/
def call (mod function args : Value) : Value :=
  Distribution.request .call serverName (applyMessage mod function args)

def cast (mod function args : Value) : Value :=
  Distribution.request .cast serverName (applyMessage mod function args)

/-! ## The process

Whatever a function does, short of ending the process, is a result: it returns, raises, throws or
exits. Only to be killed is not, and then there is no reply either. -/

/-- How the evaluation of a function ends. -/
inductive Outcome where
  | returned (value : Value)
  | raised (message : List UInt8)
  | exited (reason : Value)
  | thrown (reason : Value)
  /-- The process that evaluates it is killed, or the runtime halts. -/
  | killed

/-- The functions of the runtime. -/
structure Evaluator where
  apply : (mod function args : Value) → Outcome
  inspect : Value → List UInt8

inductive Message where
  | call (caller : Ref) (message : Value)
  | cast (message : Value)
  | info (message : Value)

inductive Effect where
  | evaluated (mod function args : Value)
  | reply (caller : Ref) (reply : Value)

variable (ev : Evaluator)

/-- The result of a function as a term; `none` when the process does not survive it. -/
def result (mod function args : Value) : Option Value :=
  match ev.apply mod function args with
  | .returned value => some (.tuple [.atom "ok", value])
  | .raised message => some (.tuple [.atom "error", .binary message])
  | .exited reason =>
    some (.tuple [.atom "error", .tuple [.atom "exit", .binary (ev.inspect reason)]])
  | .thrown reason =>
    some (.tuple [.atom "error", .tuple [.atom "throw", .binary (ev.inspect reason)]])
  | .killed => none

/-- The default for casts raises, the default for other messages does not. -/
def handle : Message → Unit → Option (List Effect × Unit)
  | .call caller (.tuple [.atom "apply", mod, function, args]), s =>
    (result ev mod function args).map fun result ↦
      ([.evaluated mod function args, .reply caller result], s)
  | .call caller _, s => some ([.reply caller (.tuple [.atom "error", .atom "unknown_call"])], s)
  | .cast _, _ => none
  | .info _, s => some ([], s)

/-! ## What a peer can bring down -/

/-- The message as the process receives it. -/
def received (caller : Ref) (delivered : Delivered) : Message :=
  match delivered.delivery with
  | .call => .call caller delivered.message
  | .cast => .cast delivered.message
  | .send => .info delivered.message

def Effect.evaluated? : Effect → Option (Value × Value × Value)
  | .evaluated mod function args => some (mod, function, args)
  | _ => none

/-- The function is evaluated once, and the process goes on. -/
def EvaluatedOnce (m : Message) (mod function args : Value) : Prop :=
  ∃ done s, handle ev m () = some (done, s)
    ∧ done.filterMap Effect.evaluated? = [(mod, function, args)]

variable {ev} {mod function args : Value}

theorem result_eq_none_iff :
    result ev mod function args = none ↔ ev.apply mod function args = .killed := by
  rw [result]
  cases ev.apply mod function args <;> simp

theorem evaluatedOnce_call {caller : Ref} :
    EvaluatedOnce ev (.call caller (applyMessage mod function args)) mod function args
      ↔ ev.apply mod function args ≠ .killed := by
  rw [EvaluatedOnce, applyMessage, ne_eq, ← result_eq_none_iff, handle]
  cases result ev mod function args with
  | none => simp
  | some value =>
    simp only [Option.map_some, reduceCtorEq, not_false_eq_true, iff_true]
    exact ⟨_, _, rfl, rfl⟩

theorem not_evaluatedOnce_cast (message : Value) :
    ¬EvaluatedOnce ev (.cast message) mod function args := by
  rintro ⟨done, s, hhandle, -⟩
  cases hhandle

/-- The tuple of `call`, a name that is a binary, and `ping`, in the format of terms. -/
def binaryName : List UInt8 :=
  [131, 104, 3, 119, 4, 99, 97, 108, 108, 109, 0, 0, 0, 1, 120, 119, 4, 112, 105, 110, 103]

/-- A cast to the global name of the server itself. -/
def castToServer : Value :=
  .tuple [.atom "cast", .tuple [.atom "via", .atom "global",
    .tuple [.atom "Elixir.ElixirRpc.OTP.Distribution.Server", .other 0]], .atom "x"]

/-- A server that is the process 3, and finds itself under its global name. -/
def fatalRuntime : Runtime where
  self := 3
  termToBinary _ := []
  binaryToTerm bytes :=
    if bytes = binaryName then some (.tuple [.atom "call", .binary [120], .atom "ping"])
    else some castToServer
  whereis _ := none
  whereisName _ _ := .pid 3
  genServerCall _ _ := .reply (.atom "ok")
  aftermath _ := .harmless
  inspect _ := []

/-- A server next to the process that evaluates functions. -/
def harmlessRuntime : Runtime where
  self := 3
  termToBinary _ := []
  binaryToTerm bytes :=
    if bytes = [1] then some (call (.atom "m") (.atom "f") (.other 0)) else none
  whereis _ := some (.pid 7)
  whereisName _ _ := .undefined
  genServerCall _ _ := .reply (.atom "ok")
  aftermath _ := .harmless
  inspect _ := []

theorem answerable_harmlessRuntime : Distribution.Answerable harmlessRuntime [1] := by
  refine ⟨by decide, ?_, ?_⟩
  · intro term hterm delivery name message heq
    obtain rfl : call (.atom "m") (.atom "f") (.other 0) = term := Option.some.inj hterm
    have hname : name = .atom serverName := by
      simp_all [call, Distribution.request]
    exact ⟨.inl ⟨serverName, hname⟩, fun _ atom port _ ↦ by simp [harmlessRuntime],
      fun _ pid _ ↦ by simp [harmlessRuntime]⟩
  · intro delivered hdelivered
    obtain rfl : ⟨.call, .pid 7, applyMessage (.atom "m") (.atom "f") (.other 0)⟩ = delivered :=
      Option.some.inj hdelivered
    exact ⟨by decide, by decide, by rintro term ⟨⟩⟩

end CapabilityRpc

end NervesP2P
