import NervesP2P.Discovery.Basic
import NervesP2P.Lib.BigEndian
import NervesP2P.Lib.SortBy

/-!
# Encoding messages

The deterministic CBOR the protocol is written in. An item starts with a head, a three-bit major
type with an argument in the shortest of five widths; texts and byte strings follow their length,
and a map lists its fields by increasing encoded key, shorter keys first.

Signing wraps an encoded body: the signature covers a domain separator followed by the body, and
the envelope is again a map, of the body and the signature.
-/

open Std (ExtTreeMap TransCmp TransOrd LawfulEqCmp LawfulEqOrd OrientedCmp)

namespace NervesP2P

/-! ## Items

The keys of a map are sorted after they were encoded, as the order is one of encodings. -/

/-- A head: the major type in the top three bits, the argument in the shortest form. -/
def encodeHead (major : UInt8) (value : UInt64) : List UInt8 :=
  let lead := major <<< 5
  if value ≤ 23 then [lead ||| value.toUInt8]
  else if value ≤ 0xff then [lead ||| 24, value.toUInt8]
  else if value ≤ 0xffff then (lead ||| 25) :: beBytes 2 value.toUInt16.toNat
  else if value ≤ 0xffffffff then (lead ||| 26) :: beBytes 4 value.toUInt32.toNat
  else (lead ||| 27) :: beBytes 8 value.toNat

def encodeUint (value : UInt64) : List UInt8 := encodeHead 0 value

def encodeText (value : String) : List UInt8 :=
  encodeHead 3 (UInt64.ofNat value.utf8ByteSize) ++ utf8 value

def encodeBytes (value : List UInt8) : List UInt8 :=
  encodeHead 2 (UInt64.ofNat value.length) ++ value

/-- The order of map keys: shorter encodings first, then bytewise. -/
def canonicalCmp (a b : List UInt8) : Ordering :=
  (compare a.length b.length).then (compare a b)

instance : TransCmp canonicalCmp :=
  inferInstanceAs (TransCmp (compareLex (compareOn List.length) compare))

instance : LawfulEqCmp canonicalCmp where
  eq_of_compare h := by
    rw [canonicalCmp, Ordering.then_eq_eq] at h
    exact Std.compare_eq_iff_eq.mp h.2

/-- A field of a map before sorting: its encoded key and its encoded value. -/
def field (name : String) (value : List UInt8) : List UInt8 × List UInt8 := (encodeText name, value)

def encodeMap (fields : List (List UInt8 × List UInt8)) : List UInt8 :=
  let fields := sortBy (fun a b ↦ canonicalCmp a.1 b.1) fields
  encodeHead 5 (UInt64.ofNat fields.length) ++ fields.flatMap fun f ↦ f.1 ++ f.2

/-! ## Messages -/

def encodeCapability : CapabilityValue → List UInt8
  | .bool false => [0xf4]
  | .bool true => [0xf5]
  | .uint value => encodeUint value
  | .text value => encodeText value.str
  | .textList values =>
    encodeHead 4 (UInt64.ofNat values.length) ++ values.flatMap fun value ↦ encodeText value.str

def encodeCapabilities (values : Capabilities) : List UInt8 :=
  encodeMap (values.toList.map fun entry ↦ field entry.1.str (encodeCapability entry.2))

variable {I : Iroh}

def encodeAnnouncement (value : Announcement I) : List UInt8 :=
  encodeMap [
    field "version" (encodeUint 1),
    field "kind" (encodeText "announcement"),
    field "fleet_id" (encodeBytes value.fleetId.toList),
    field "endpoint_id" (encodeBytes (I.asBytes value.endpointId).toList),
    field "node_name" (encodeText value.nodeName.str),
    field "partisan_ip" (encodeBytes value.partisanIp.toList),
    field "partisan_port" (encodeUint value.partisanPort.val.toUInt64),
    field "sequence" (encodeUint value.sequence),
    field "ttl_ms" (encodeUint value.ttlMs),
    field "capabilities" (encodeCapabilities value.capabilities),
    field "load" (encodeMap [
      field "running" (encodeUint value.load.running),
      field "capacity" (encodeUint value.load.capacity)])]

def encodeWithdrawal (value : Withdrawal I) : List UInt8 :=
  encodeMap [
    field "version" (encodeUint 1),
    field "kind" (encodeText "withdrawal"),
    field "fleet_id" (encodeBytes value.fleetId.toList),
    field "endpoint_id" (encodeBytes (I.asBytes value.endpointId).toList),
    field "sequence" (encodeUint value.sequence)]

def encodeMessage : Message I → List UInt8
  | .announcement value => encodeAnnouncement value
  | .withdrawal value => encodeWithdrawal value

def encodeEnvelope (body : List UInt8) (signature : List.Vector UInt8 64) : List UInt8 :=
  encodeMap [
    field "body" (encodeBytes body),
    field "signature" (encodeBytes signature.toList)]

/-! ## Signing -/

/-- The domain separator every signature covers. -/
def domain : List UInt8 := utf8 "elixir-rpc/cdp/v1" ++ [0]

def maxMessageSize : ℕ := 16 * 1024

def signBody (body : List UInt8) (secret : I.SecretKey) : Except Error (List UInt8) :=
  let envelope := encodeEnvelope body (I.toBytes (I.sign secret (domain ++ body)))
  if maxMessageSize < envelope.length then .error .messageTooLarge else .ok envelope

def signAnnouncement (announcement : Announcement I) (secret : I.SecretKey) :
    Except Error (List UInt8) := do
  validateAnnouncement announcement
  if announcement.endpointId ≠ I.publicKey secret then throw .invalidSignature
  signBody (encodeAnnouncement announcement) secret

def signWithdrawal (withdrawal : Withdrawal I) (secret : I.SecretKey) :
    Except Error (List UInt8) := do
  validateWithdrawal withdrawal
  if withdrawal.endpointId ≠ I.publicKey secret then throw .invalidSignature
  signBody (encodeWithdrawal withdrawal) secret

end NervesP2P
