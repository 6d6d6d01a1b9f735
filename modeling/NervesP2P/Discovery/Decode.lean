import NervesP2P.Discovery.Encode
import NervesP2P.Lib.Reader

/-!
# Decoding messages

The reader of the wire format, item by item, and the decoders of the envelope and of the two kinds
of message built on it. Every map is read by the same loop, `mapEntries`: a key that has to be
strictly above the previous one, then whatever the key calls for, with the fields found so far in
an accumulator.

Each top-level decoder ends by encoding what it found and comparing it with its input. That check
makes it sound at once; that it never rejects an encoding is the content of the next module.
-/

open Std (ExtTreeMap TransCmp TransOrd LawfulEqCmp LawfulEqOrd OrientedCmp)

namespace NervesP2P

namespace Reader

/-! ## Items

A reader of an item either returns a value and what is left of the input, or it rejects. The widths
of a head and the encoding of texts are checked here and not where the values are used. -/

/-- The argument of a head that spells it out in `width` bytes. A value below `least` has a shorter
form and is rejected. -/
def headArgument (width : ℕ) (least : UInt64) : Reading Error UInt64 := do
  let bytes ← take .malformed width
  let value := UInt64.ofNat (ofBeBytes bytes)
  check .malformed (least ≤ value)
  pure value

def head (expectedMajor : UInt8) : Reading Error UInt64 := do
  let initial ← okOr .malformed (← take .malformed 1).head?
  check .malformed (initial >>> 5 = expectedMajor)
  let additional := initial &&& 0x1f
  if additional ≤ 23 then pure additional.toUInt64
  else if additional = 24 then headArgument 1 24
  else if additional = 25 then headArgument 2 0x100
  else if additional = 26 then headArgument 4 0x10000
  else if additional = 27 then headArgument 8 0x100000000
  else throw .malformed

/-- A length. It is read as a 64-bit word, which is the width of a length. -/
def length (major : UInt8) : Reading Error ℕ := do
  let value ← head major
  pure value.toNat

def uint : Reading Error UInt64 := head 0

def mapLen : Reading Error ℕ := length 5

def text : Reading Error Text := do
  let len ← length 3
  let bytes ← take .malformed len
  okOr .malformed (Text.ofBytes? bytes)

def byteString : Reading Error (List UInt8) := do
  let len ← length 2
  take .malformed len

def readArray (n : ℕ) : Reading Error (List.Vector UInt8 n) := do
  let bytes ← byteString
  okOr .malformed (toArray? n bytes)

/-- A map key, which has to come after `previous`, with its encoding. -/
def canonicalKey (previous : Option (List UInt8)) : Reading Error (Text × List UInt8) := do
  let key ← consumed text
  check .malformed (∀ last ∈ previous, canonicalCmp last key.2 = .lt)
  pure key

/-- A capability value other than a Boolean, by its major type. -/
def capabilityOf (major : UInt8) : Reading Error CapabilityValue :=
  if major = 0 then do
    let value ← uint
    pure (.uint value)
  else if major = 3 then do
    let value ← text
    pure (.text value)
  else if major = 4 then do
    let len ← length 4
    check .invalidRecord (len ≤ 32)
    let values ← times text len
    pure (.textList values)
  else throw .malformed

def capability : Reading Error CapabilityValue := do
  let byte ← peek .malformed
  if byte = 0xf4 then do
    let _ ← take .malformed 1
    pure (.bool false)
  else if byte = 0xf5 then do
    let _ ← take .malformed 1
    pure (.bool true)
  else capabilityOf (byte >>> 5)

/-! ## Maps

A loop has its accumulator, and what a key calls for depends on what has been found: a field that
comes twice is rejected by the order of the keys, before its value is looked at. -/

/-- Read `n` entries of a map whose keys come after `previous`. `entry` reads the value of a key
and records it. -/
def mapEntries {σ : Type} (entry : Text → σ → Reading Error σ) :
    ℕ → Option (List UInt8) → σ → Reading Error σ
  | 0, _, fields => pure fields
  | n + 1, previous, fields => do
    let key ← canonicalKey previous
    let fields ← entry key.1 fields
    mapEntries entry n (some key.2) fields

end Reader

open Reader

structure LoadFields where
  running : Option UInt64 := none
  capacity : Option UInt64 := none

def loadEntry (key : Text) (fields : LoadFields) : Reading Error LoadFields :=
  match key.str with
  | "running" => do
    let value ← uint
    pure { fields with running := some value }
  | "capacity" => do
    let value ← uint
    pure { fields with capacity := some value }
  | _ => throw .malformed

def decodeLoad : Reading Error Load := do
  let len ← mapLen
  check .malformed (len = 2)
  let fields ← mapEntries loadEntry len none {}
  let running ← okOr .malformed fields.running
  let capacity ← okOr .malformed fields.capacity
  pure ⟨running, capacity⟩

def capabilityEntry (key : Text) (values : Capabilities) : Reading Error Capabilities := do
  let value ← capability
  pure (values.insert key value)

def decodeCapabilities : Reading Error Capabilities := do
  let len ← mapLen
  check .invalidRecord (len ≤ 32)
  mapEntries capabilityEntry len none ∅

/-! ## Envelopes -/

section Envelope

variable (I : Iroh)

structure EnvelopeFields where
  body : Option ByteVec := none
  signature : Option I.Signature := none

def envelopeEntry (key : Text) (fields : EnvelopeFields I) : Reading Error (EnvelopeFields I) :=
  match key.str with
  | "body" => do
    let bytes ← byteString
    let body ← okOr .malformed (toVec? bytes)
    pure { fields with body := some body }
  | "signature" => do
    let bytes ← readArray 64
    let signature ← okOr .malformed (I.tryFrom bytes)
    pure { fields with signature := some signature }
  | _ => throw .malformed

def readEnvelope : Reading Error (ByteVec × I.Signature) := do
  let len ← mapLen
  check .malformed (len = 2)
  let fields ← mapEntries (envelopeEntry I) len none {}
  finish .malformed
  let body ← okOr .malformed fields.body
  let signature ← okOr .malformed fields.signature
  pure (body, signature)

def decodeEnvelope (bytes : List UInt8) : Except Error (ByteVec × I.Signature) :=
  match readEnvelope I (Reader.new bytes) with
  | .error e => .error e
  | .ok (envelope, _) =>
    if encodeEnvelope envelope.1.val (I.toBytes envelope.2) = bytes then .ok envelope
    else .error .malformed

end Envelope

/-! ## Messages -/

section Message

variable (I : Iroh)

structure MessageFields where
  version : Option UInt64 := none
  kind : Option Text := none
  fleetId : Option FleetId := none
  endpointId : Option I.EndpointId := none
  nodeName : Option Text := none
  partisanIp : Option (List.Vector UInt8 4) := none
  partisanPort : Option NonZeroU16 := none
  sequence : Option UInt64 := none
  ttlMs : Option UInt64 := none
  capabilities : Option Capabilities := none
  load : Option Load := none

/-- A port number: below `2 ^ 16` and not zero. -/
def toPort? (value : UInt64) : Option NonZeroU16 :=
  if value ≤ 0xffff then
    if h : value.toUInt16 ≠ 0 then some ⟨value.toUInt16, h⟩ else none
  else none

def messageEntry (key : Text) (fields : MessageFields I) : Reading Error (MessageFields I) :=
  match key.str with
  | "version" => do
    let value ← uint
    pure { fields with version := some value }
  | "kind" => do
    let value ← text
    pure { fields with kind := some value }
  | "fleet_id" => do
    let value ← readArray 32
    pure { fields with fleetId := some value }
  | "endpoint_id" => do
    let bytes ← readArray 32
    let value ← okOr .malformed (I.fromBytes bytes)
    pure { fields with endpointId := some value }
  | "node_name" => do
    let value ← text
    pure { fields with nodeName := some value }
  | "partisan_ip" => do
    let value ← readArray 4
    pure { fields with partisanIp := some value }
  | "partisan_port" => do
    let value ← uint
    let port ← okOr .invalidRecord (toPort? value)
    pure { fields with partisanPort := some port }
  | "sequence" => do
    let value ← uint
    pure { fields with sequence := some value }
  | "ttl_ms" => do
    let value ← uint
    pure { fields with ttlMs := some value }
  | "capabilities" => do
    let value ← decodeCapabilities
    pure { fields with capabilities := some value }
  | "load" => do
    let value ← decodeLoad
    pure { fields with load := some value }
  | _ => throw .malformed

/-- The message a complete set of `len` fields denotes. -/
def MessageFields.toMessage (len : ℕ) (fields : MessageFields I) : Reading Error (Message I) := do
  let version ← okOr .malformed fields.version
  check .unsupportedVersion (version = 1)
  let fleetId ← okOr .malformed fields.fleetId
  let endpointId ← okOr .malformed fields.endpointId
  let sequence ← okOr .malformed fields.sequence
  match fields.kind.map Text.str with
  | some "announcement" => do
    check .malformed (len = 11)
    let nodeName ← okOr .malformed fields.nodeName
    let partisanIp ← okOr .malformed fields.partisanIp
    let partisanPort ← okOr .malformed fields.partisanPort
    let ttlMs ← okOr .malformed fields.ttlMs
    let capabilities ← okOr .malformed fields.capabilities
    let load ← okOr .malformed fields.load
    pure (.announcement ⟨fleetId, endpointId, nodeName, partisanIp, partisanPort, sequence, ttlMs,
      capabilities, load⟩)
  | some "withdrawal" => do
    check .malformed (len = 5)
    pure (.withdrawal ⟨fleetId, endpointId, sequence⟩)
  | _ => throw .invalidRecord

def readMessage : Reading Error (Message I) := do
  let len ← mapLen
  let fields ← mapEntries (messageEntry I) len none {}
  finish .malformed
  fields.toMessage I len

def decodeMessage (bytes : List UInt8) : Except Error (Message I) :=
  match readMessage I (Reader.new bytes) with
  | .error e => .error e
  | .ok (message, _) =>
    if encodeMessage message = bytes then .ok message else .error .malformed

end Message

end NervesP2P
