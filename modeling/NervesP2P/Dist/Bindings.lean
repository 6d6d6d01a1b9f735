import NervesP2P.Discovery.Registry
import NervesP2P.Dist.Stream
import NervesP2P.Lib.AnyOrder

/-!
# Who may connect

The tasks that open and accept streams share a small table: the name this node listens under, and
for each node name the endpoint it is bound to. The table is replaced as a whole whenever the daemon
synchronises it with its registry, and it is what a header of an incoming stream is checked against.

The registry keeps announcements by endpoint, and the table is keyed by name. Where the registry
knows two endpoints by the same name, the table has one of them.
-/

open Std (ExtTreeMap)

namespace NervesP2P

def nanosPerMilli : ℕ := 1000000

/-- The endpoint of a node. Instants are nanoseconds of a monotonic clock. -/
structure Binding (I : Iroh) where
  endpoint : I.EndpointId
  expires : ℕ

/-- What the tasks share, apart from the entries of the streams. -/
structure Shared (I : Iroh) where
  nextId : UInt64
  listenNode : Option Text
  bindings : ExtTreeMap Text (Binding I)

namespace Shared

variable {I : Iroh}

def new : Shared I := ⟨1, none, ∅⟩

def listen (nodeName : Text) : Method (Shared I) DistError Unit := do
  Method.failIf (validNodeName nodeName = false) .notListening
  modify fun shared ↦ { shared with listenNode := some nodeName }

/-- A binding as the table has it. -/
def bind (now : ℕ) (binding : I.EndpointId × Text × UInt64) : Text × Binding I :=
  (binding.2.1, ⟨binding.1, now + binding.2.2.toNat * nanosPerMilli⟩)

def replaceBindings (bindings : List (I.EndpointId × Text × UInt64)) (now : ℕ)
    (shared : Shared I) : Shared I :=
  { shared with bindings := collect (bindings.map (bind now)) }

/-- The check that `accept` makes of a header. -/
def allows (shared : Shared I) (header : Header) (remote : I.EndpointId) (now : ℕ) : Bool :=
  shared.listenNode = some header.targetNode
    && match shared.bindings[header.fromNode]? with
      | some binding => binding.endpoint = remote && now < binding.expires
      | none => false

/-- The part of `connect` that finds the endpoint of a node. -/
def resolve (fromNode targetNode : Text) (now : ℕ) :
    Method (Shared I) DistError I.EndpointId := do
  Method.failIf (validNodeName fromNode = false ∨ validNodeName targetNode = false) .unknownNode
  let shared ← get
  match shared.bindings[targetNode]?.filter fun binding ↦ now < binding.expires with
  | some binding => pure binding.endpoint
  | none => throw .unknownNode

/-- The number that `install_stream` takes is skipped to one when it wraps. -/
def takeId (shared : Shared I) : Shared I :=
  { shared with nextId := max (shared.nextId + 1) 1 }

theorem returns_listen {nodeName : Text} {s s' : Shared I} {u : Unit} :
    (listen nodeName).Returns s u s' ↔
      validNodeName nodeName = true ∧ s' = { s with listenNode := some nodeName } := by
  simp only [listen, Method.returns_bind, Method.returns_failIf, Method.returns_modify,
    Bool.not_eq_false]
  constructor
  · rintro ⟨_, _, ⟨hvalid, rfl⟩, rfl⟩
    exact ⟨hvalid, rfl⟩
  · rintro ⟨hvalid, rfl⟩
    exact ⟨(), s, ⟨hvalid, rfl⟩, rfl⟩

theorem fails_listen {nodeName : Text} {s s' : Shared I} {error : DistError}
    (h : (listen nodeName).Fails s error s') : s = s' := by
  simp only [listen, Method.fails_bind, Method.fails_failIf, Method.fails_modify, and_false,
    exists_false, or_false] at h
  exact h.2.2

theorem within_resolve (fromNode targetNode : Text) (now : ℕ) :
    (resolve fromNode targetNode now : Method (Shared I) DistError I.EndpointId).Within Eq := by
  refine (Method.within_failIf _ _).bind fun _ ↦ Method.within_get.bind fun shared ↦ ?_
  split
  · exact Method.within_pure _
  · exact Method.within_throw _

theorem allows_iff {shared : Shared I} {header : Header} {remote : I.EndpointId} {now : ℕ} :
    shared.allows header remote now = true ↔
      shared.listenNode = some header.targetNode
        ∧ ∃ expires, shared.bindings[header.fromNode]? = some ⟨remote, expires⟩
          ∧ now < expires := by
  rw [allows, Bool.and_eq_true, decide_eq_true_iff]
  refine and_congr_right fun _ ↦ ?_
  cases shared.bindings[header.fromNode]? with
  | none => simp
  | some binding =>
    obtain ⟨endpoint, expires⟩ := binding
    simp only [Bool.and_eq_true, decide_eq_true_iff, Option.some.injEq, Binding.mk.injEq]
    constructor
    · rintro ⟨rfl, hlive⟩
      exact ⟨expires, ⟨rfl, rfl⟩, hlive⟩
    · rintro ⟨_, ⟨rfl, rfl⟩, hlive⟩
      exact ⟨rfl, hlive⟩

end Shared

end NervesP2P
