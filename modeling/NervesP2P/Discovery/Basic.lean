import NervesP2P.Lib.Text

/-!
# The data model of capability discovery

The values the discovery daemon exchanges and stores: announcements and withdrawals, the predicates
of a query, and the peers it returns, together with the checks a message has to pass before it is
believed.

## What is assumed of `iroh`

Endpoint identities, secret keys and signatures are types of the `iroh` crate. The `Iroh` structure
collects what the code uses of them: the byte conversions with their inversion laws, and signing
and verification, of which nothing is assumed here. Results that need verification to mean anything
say so where they are stated.

Maps keyed by a text or an endpoint are `ExtTreeMap`s, the ordered extensional maps of the standard
library: two maps with the same entries are equal, and iteration is in key order. A hash map is
modelled by the same type, and whatever iterates over one takes the order as a parameter.
-/

open Std (ExtTreeMap TransCmp TransOrd LawfulEqCmp LawfulEqOrd OrientedCmp)

namespace NervesP2P

/-! ## The `iroh` interface -/

/-- What the discovery code uses of the `iroh` crate. -/
structure Iroh where
  /-- Public keys, the identities of endpoints. -/
  EndpointId : Type
  /-- Ed25519 signatures. -/
  Signature : Type
  /-- Secret keys. -/
  SecretKey : Type
  /-- `EndpointId::as_bytes`. -/
  asBytes : EndpointId → List.Vector UInt8 32
  /-- `EndpointId::from_bytes`, which refuses bytes that encode no public key. -/
  fromBytes : List.Vector UInt8 32 → Option EndpointId
  /-- The two are inverse to each other. -/
  fromBytes_eq_some_iff : ∀ {b e}, fromBytes b = some e ↔ asBytes e = b
  /-- `Signature::to_bytes`. -/
  toBytes : Signature → List.Vector UInt8 64
  /-- `Signature::try_from`. -/
  tryFrom : List.Vector UInt8 64 → Option Signature
  /-- The two are inverse to each other. -/
  tryFrom_eq_some_iff : ∀ {b s}, tryFrom b = some s ↔ toBytes s = b
  /-- `EndpointId::verify`. -/
  verify : EndpointId → List UInt8 → Signature → Bool
  /-- `SecretKey::public`. -/
  publicKey : SecretKey → EndpointId
  /-- `SecretKey::sign`. -/
  sign : SecretKey → List UInt8 → Signature

namespace Iroh

variable {I : Iroh}

theorem asBytes_injective : Function.Injective I.asBytes := by
  intro a b h
  have ha := I.fromBytes_eq_some_iff.mpr h
  rw [I.fromBytes_eq_some_iff.mpr rfl] at ha
  exact (Option.some_inj.mp ha).symm

instance : DecidableEq I.EndpointId := fun a b ↦
  decidable_of_iff (I.asBytes a = I.asBytes b) asBytes_injective.eq_iff

/-- Endpoints are ordered by their key bytes. -/
instance : Ord I.EndpointId := ⟨compareOn fun e ↦ (I.asBytes e).toList⟩

instance : TransOrd I.EndpointId :=
  inferInstanceAs (TransCmp (compareOn fun e : I.EndpointId ↦ (I.asBytes e).toList))

instance : LawfulEqOrd I.EndpointId where
  compare_self {a} := Std.compare_self (a := (I.asBytes a).toList)
  eq_of_compare h := asBytes_injective (Subtype.ext (Std.compare_eq_iff_eq.mp h))

/-- The smallest instance, with one key whose signatures always verify. Nothing that needs
signatures to mean something holds of it; concrete runs are evaluated in it. -/
def single : Iroh where
  EndpointId := Unit
  Signature := Unit
  SecretKey := Unit
  asBytes _ := List.Vector.replicate 32 0
  fromBytes b := if List.Vector.replicate 32 0 = b then some () else none
  fromBytes_eq_some_iff {b e} := by
    rw [Option.ite_none_right_eq_some]
    exact and_iff_left rfl
  toBytes _ := List.Vector.replicate 64 0
  tryFrom b := if List.Vector.replicate 64 0 = b then some () else none
  tryFrom_eq_some_iff {b s} := by
    rw [Option.ite_none_right_eq_some]
    exact and_iff_left rfl
  verify _ _ _ := true
  publicKey _ := ()
  sign _ _ := ()

theorem signature_pair {b : List.Vector UInt8 64} {s : Unit} :
    (if List.Vector.replicate 64 0 = b then some () else none) = some s
      ↔ List.Vector.replicate 64 0 = b := by
  rw [Option.ite_none_right_eq_some]
  exact and_iff_left rfl

/-- Two keys, whose signatures always verify. -/
def pair : Iroh where
  EndpointId := Bool
  Signature := Unit
  SecretKey := Bool
  asBytes e := List.Vector.replicate 32 (if e then 1 else 0)
  fromBytes b := [false, true].find? fun e ↦ List.Vector.replicate 32 (if e then 1 else 0) = b
  fromBytes_eq_some_iff {b e} := by
    constructor
    · intro h
      have hfound := List.find?_some h
      exact of_decide_eq_true hfound
    · rintro rfl
      cases e <;> decide
  toBytes _ := List.Vector.replicate 64 0
  tryFrom b := if List.Vector.replicate 64 0 = b then some () else none
  tryFrom_eq_some_iff := @signature_pair
  verify _ _ _ := true
  publicKey key := key
  sign _ _ := ()

end Iroh

/-! ## Errors -/

inductive Error where
  | malformed
  | unsupportedVersion
  | messageTooLarge
  | wrongFleet
  | unauthorizedEndpoint
  | invalidSignature
  | invalidRecord
  | staleSequence
  | noMatchingPeer
  | peerUnavailable
  | rateLimited
  | sequenceStoreFailed
  deriving DecidableEq, Repr

def Error.toString : Error → String
  | .malformed => "malformed"
  | .unsupportedVersion => "unsupported_version"
  | .messageTooLarge => "message_too_large"
  | .wrongFleet => "wrong_fleet"
  | .unauthorizedEndpoint => "unauthorized_endpoint"
  | .invalidSignature => "invalid_signature"
  | .invalidRecord => "invalid_record"
  | .staleSequence => "stale_sequence"
  | .noMatchingPeer => "no_matching_peer"
  | .peerUnavailable => "peer_unavailable"
  | .rateLimited => "rate_limited"
  | .sequenceStoreFailed => "sequence_store_failed"

/-! ## Messages

The fields are those of the source, with the types that carry their bounds: a fleet identifier has
32 bytes, a port is never zero, and numbers are machine words. What a type does not say is left to
validation. -/

abbrev FleetId := List.Vector UInt8 32

/-- A port number, which is never zero. -/
abbrev NonZeroU16 := {port : UInt16 // port ≠ 0}

/-- The value of an announced capability. -/
inductive CapabilityValue where
  | bool (value : Bool)
  | uint (value : UInt64)
  | text (value : Text)
  | textList (values : List Text)
  deriving DecidableEq

/-- How much work a peer runs and how much it can take. -/
structure Load where
  running : UInt64
  capacity : UInt64
  deriving DecidableEq

abbrev Capabilities := ExtTreeMap Text CapabilityValue

/-- A signed statement of what an endpoint can do. -/
structure Announcement (I : Iroh) where
  fleetId : FleetId
  endpointId : I.EndpointId
  nodeName : Text
  partisanIp : List.Vector UInt8 4
  partisanPort : NonZeroU16
  sequence : UInt64
  ttlMs : UInt64
  capabilities : Capabilities
  load : Load

/-- A signed retraction of an endpoint's announcements. -/
structure Withdrawal (I : Iroh) where
  fleetId : FleetId
  endpointId : I.EndpointId
  sequence : UInt64

/-- The two kinds of signed message. -/
inductive Message (I : Iroh) where
  | announcement (value : Announcement I)
  | withdrawal (value : Withdrawal I)

namespace Message

variable {I : Iroh}

def endpointId : Message I → I.EndpointId
  | announcement value => value.endpointId
  | withdrawal value => value.endpointId

def fleetId : Message I → FleetId
  | announcement value => value.fleetId
  | withdrawal value => value.fleetId

/-- The sequence number of either kind; the code reads it inside its two arms. -/
def sequence : Message I → UInt64
  | announcement value => value.sequence
  | withdrawal value => value.sequence

end Message

inductive Predicate where
  | equals (name : Text) (expected : CapabilityValue)
  | atLeast (name : Text) (minimum : UInt64)
  | contains (name : Text) (needle : Text)

structure Peer (I : Iroh) where
  endpointId : I.EndpointId
  nodeName : Text
  partisanIp : List.Vector UInt8 4
  partisanPort : NonZeroU16
  sequence : UInt64
  capabilities : Capabilities

/-! ## Validation

Each check gives an error of its own, and the first that fails decides. Nothing here looks at
signatures or at the tables of a receiver. -/

def isAsciiLowercase (b : UInt8) : Bool := 97 ≤ b && b ≤ 122

def isAsciiDigit (b : UInt8) : Bool := 48 ≤ b && b ≤ 57

def isAsciiAlphanumeric (b : UInt8) : Bool :=
  isAsciiLowercase b || (65 ≤ b && b ≤ 90) || isAsciiDigit b

/-- What stands before and after the first `sep`. A separator below 128 never occurs inside the
encoding of another character, so splitting the bytes splits the string. -/
def splitOnce (sep : UInt8) (bs : List UInt8) : Option (List UInt8 × List UInt8) :=
  if sep ∈ bs then some (bs.takeWhile (· != sep), (bs.dropWhile (· != sep)).tail) else none

/-- `name@host`, with bounded parts over the alphabets of node names. -/
def validNodeName (value : Text) : Bool :=
  match splitOnce 64 value.bytes with
  | none => false
  | some (name, host) =>
    !host.contains 64
      && (1 ≤ name.length && name.length ≤ 64)
      && (1 ≤ host.length && host.length ≤ 189)
      -- `_` and `-` in the name, `.` and `-` in the host
      && name.all (fun b ↦ isAsciiAlphanumeric b || b == 95 || b == 45)
      && host.all (fun b ↦ isAsciiAlphanumeric b || b == 46 || b == 45)

def validCapability (name : Text) (value : CapabilityValue) : Bool :=
  (1 ≤ name.len && name.len ≤ 64)
    && name.bytes.head?.any isAsciiLowercase
    && name.bytes.all (fun b ↦
      isAsciiLowercase b || isAsciiDigit b || b == 95 || b == 46 || b == 45)
    && match value with
      | .bool _ | .uint _ => true
      | .text text => text.len ≤ 256
      | .textList values =>
        values.length ≤ 32
          && values.all (fun text ↦ text.len ≤ 256)
          && values.dedup.length == values.length

variable {I : Iroh}

def validateAnnouncement (value : Announcement I) : Except Error Unit :=
  if value.sequence = 0
      ∨ ¬(5000 ≤ value.ttlMs ∧ value.ttlMs ≤ 60000)
      ∨ validNodeName value.nodeName = false
      ∨ 32 < value.capabilities.size
      ∨ value.load.capacity = 0
      ∨ 65535 < value.load.capacity
      ∨ value.load.capacity < value.load.running
      ∨ (value.capabilities.toList.any fun entry ↦ !validCapability entry.1 entry.2) = true
  then .error .invalidRecord
  else .ok ()

def validateWithdrawal (value : Withdrawal I) : Except Error Unit :=
  if value.sequence = 0 then .error .invalidRecord else .ok ()

/-- The check the receiver applies to either kind of message. -/
def validateMessage : Message I → Except Error Unit
  | .announcement value => validateAnnouncement value
  | .withdrawal value => validateWithdrawal value

/-- What validation gives about an announcement, as a conjunction. -/
theorem validateAnnouncement_eq_ok_iff {value : Announcement I} :
    validateAnnouncement value = .ok () ↔
      value.sequence ≠ 0 ∧ (5000 ≤ value.ttlMs ∧ value.ttlMs ≤ 60000)
        ∧ validNodeName value.nodeName = true ∧ value.capabilities.size ≤ 32
        ∧ value.load.capacity ≠ 0 ∧ value.load.capacity ≤ 65535
        ∧ value.load.running ≤ value.load.capacity
        ∧ ∀ entry ∈ value.capabilities.toList, validCapability entry.1 entry.2 = true := by
  rw [validateAnnouncement]
  constructor
  · intro h
    split at h
    · cases h
    · next hn =>
      simp only [List.any_eq_true, Bool.not_eq_true'] at hn
      grind
  · rintro ⟨hseq, httl, hname, hcaps, hcap, hmax, hload, hvalid⟩
    rw [if_neg]
    simp only [List.any_eq_true, Bool.not_eq_true']
    grind

end NervesP2P
