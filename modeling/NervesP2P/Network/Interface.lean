import NervesP2P.Daemon.Publishing
import NervesP2P.Lib.Convert
import NervesP2P.Port.Basic

/-!
# The daemon's interface in JSON

What a node says of itself and what it asks for crosses the port to the daemon as JSON: the
attributes of `publish`, the predicates of `find`, and the peers in its answer. The daemon's own
values are more narrow than JSON, so parsing refuses some, and printing has to give back what was
parsed.

Each parser here accepts exactly what the printer next to it prints, so that parsing and printing
are inverse to each other: a capability (`jsonCapability_eq_ok_iff`), an address
(`parseIpv4_eq_some_iff`), and with the order of the fields left open, a whole object of
capabilities. A string is a `Text` here as soon as the daemon has parsed it; no frame is long enough
for the difference.
-/

open Std (ExtTreeMap)

namespace NervesP2P

open Port (Json)

/-- A string of a frame. -/
def jsonText? (value : String) : Except HandleError Text :=
  match Text.ofBytes? (utf8 value) with
  | some text => .ok text
  | none => .error (.discovery .malformed)

theorem jsonText?_eq_ok_iff {value : String} {text : Text} :
    jsonText? value = .ok text ↔ value = text.str := by
  rw [jsonText?]
  constructor
  · intro h
    split at h
    · next text' htext =>
      obtain rfl := Except.ok.inj h
      have hbytes := Text.bytes_of_ofBytes? htext
      rw [Text.bytes] at hbytes
      have hstring := congrArg fromUtf8 hbytes
      rw [fromUtf8_utf8, fromUtf8_utf8] at hstring
      exact (Option.some.inj hstring).symm
    · cases h
  · rintro rfl
    have htext := Text.ofBytes?_bytes text
    rw [Text.bytes] at htext
    rw [htext]

/-! ## Capabilities

A value of a capability is a Boolean, a number or a list of texts in JSON as in the daemon, and
there is no other way to write one. Objects are different. Their fields may come in any order in a
publication and are printed in the order of their names, so that what is printed again is a
rearrangement. -/

/-- An element of a list of texts. -/
def jsonListItem : Json → Except HandleError Text
  | .string value => jsonText? value
  | _ => .error .invalidCapability

def jsonCapability : Json → Except HandleError CapabilityValue
  | .bool value => .ok (.bool value)
  | .integer value =>
    -- `as_u64`
    if 0 ≤ value ∧ value < 2 ^ 64 then .ok (.uint (UInt64.ofNat value.toNat))
    else .error .invalidCapability
  | .string value => (jsonText? value).map .text
  | .array values => (values.mapM jsonListItem).map .textList
  | .null | .float _ | .object _ => .error .invalidCapability

def capabilityJson : CapabilityValue → Json
  | .bool value => .bool value
  | .uint value => .integer value.toNat
  | .text value => .string value.str
  | .textList values => .array (values.map fun value ↦ .string value.str)

theorem jsonListItem_eq_ok_iff {json : Json} {text : Text} :
    jsonListItem json = .ok text ↔ json = .string text.str := by
  cases json with
  | string value => rw [jsonListItem, jsonText?_eq_ok_iff, Json.string.injEq]
  | _ => simp [jsonListItem]

theorem forall₂_listItem_iff {values : List Json} {texts : List Text} :
    List.Forall₂ (fun json text ↦ jsonListItem json = .ok text) values texts
      ↔ values = texts.map fun text ↦ .string text.str := by
  simp only [jsonListItem_eq_ok_iff]
  rw [← List.forall₂_eq_eq_eq, List.forall₂_map_right_iff]

/-- **A capability is accepted exactly if it is what one is printed as.** -/
theorem jsonCapability_eq_ok_iff {json : Json} {value : CapabilityValue} :
    jsonCapability json = .ok value ↔ json = capabilityJson value := by
  cases json with
  | null | float | object => cases value <;> simp [jsonCapability, capabilityJson]
  | bool b => cases value <;> simp [jsonCapability, capabilityJson]
  | string s =>
    rw [jsonCapability, map_eq_ok_iff]
    cases value with
    | text t => simp [jsonText?_eq_ok_iff, capabilityJson]
    | _ => simp [capabilityJson]
  | array values =>
    rw [jsonCapability, map_eq_ok_iff]
    cases value with
    | textList texts => simp [mapM_eq_ok_iff, forall₂_listItem_iff, capabilityJson]
    | _ => simp [capabilityJson]
  | integer n =>
    rw [jsonCapability]
    cases value with
    | uint v =>
      rw [capabilityJson, Json.integer.injEq]
      constructor
      · intro h
        split at h
        · next hrange =>
          obtain rfl := CapabilityValue.uint.inj (Except.ok.inj h)
          rw [UInt64.toNat_ofNat', Nat.mod_eq_of_lt (by omega)]
          omega
        · cases h
      · rintro rfl
        have hlt := v.toNat_lt
        rw [if_pos ⟨by omega, by omega⟩, Int.toNat_natCast, UInt64.ofNat_toNat]
    | _ => split <;> simp [capabilityJson]

/-- A field of an object of capabilities. -/
def jsonEntry (field : String × Json) : Except HandleError (Text × CapabilityValue) := do
  let name ← jsonText? field.1
  let value ← jsonCapability field.2
  pure (name, value)

/-- The capabilities of a publication. -/
def jsonCapabilities (fields : List (String × Json)) : Except HandleError Capabilities :=
  (fields.mapM jsonEntry).map fun entries ↦ (∅ : Capabilities).insertMany entries

def entryJson (entry : Text × CapabilityValue) : String × Json :=
  (entry.1.str, capabilityJson entry.2)

/-- The fields of an object of capabilities. -/
def capabilitiesJson (capabilities : Capabilities) : List (String × Json) :=
  capabilities.toList.map entryJson

theorem jsonEntry_eq_ok_iff {field : String × Json} {entry : Text × CapabilityValue} :
    jsonEntry field = .ok entry ↔ field = entryJson entry := by
  obtain ⟨name, json⟩ := field
  obtain ⟨text, value⟩ := entry
  rw [entryJson, Prod.mk.injEq, ← jsonText?_eq_ok_iff, ← jsonCapability_eq_ok_iff, jsonEntry]
  cases hname : jsonText? name <;> cases hvalue : jsonCapability json <;>
    simp [bind, Except.bind, pure, Except.pure]

theorem jsonEntries_eq_ok_iff {fields : List (String × Json)}
    {entries : List (Text × CapabilityValue)} :
    fields.mapM jsonEntry = .ok entries ↔ fields = entries.map entryJson := by
  rw [mapM_eq_ok_iff]
  simp only [jsonEntry_eq_ok_iff]
  rw [← List.forall₂_eq_eq_eq, List.forall₂_map_right_iff]

/-- **What is published is printed again**, with its fields in the order of their names. -/
theorem capabilitiesJson_of_jsonCapabilities {fields : List (String × Json)}
    (hdistinct : (fields.map Prod.fst).Nodup) {capabilities : Capabilities}
    (h : jsonCapabilities fields = .ok capabilities) :
    (capabilitiesJson capabilities).Perm fields := by
  obtain ⟨entries, hentries, rfl⟩ := map_eq_ok_iff.mp h
  obtain rfl := jsonEntries_eq_ok_iff.mp hentries
  refine (toList_insertMany_perm ?_).map entryJson
  rw [List.map_map] at hdistinct
  refine List.Nodup.of_map Text.str ?_
  rwa [List.map_map]

/-! ## Addresses

The parser of the standard library is strict: four parts between points, each with at most three
digits and without a leading zero. This makes it the inverse of printing. No part contains a point,
so the parts are found again. -/

/-- The digits of a byte. -/
def octetText (octet : UInt8) : List Char := (toString octet.toNat).toList

/-- `Ipv4Addr::to_string`. -/
def ipv4Text (ip : List.Vector UInt8 4) : String :=
  String.ofList (['.'].intercalate (ip.toList.map octetText))

/-- A part of an address: at most three digits, without a leading zero, and a byte. -/
def parseOctet (part : List Char) : Option UInt8 :=
  let value := part.foldl (fun value c ↦ 10 * value + (c.toNat - '0'.toNat)) 0
  if part ≠ [] ∧ part.length ≤ 3 ∧ (part.all Char.isDigit) = true
      ∧ (part.head? = some '0' → part.length = 1) ∧ value < 256 then
    some (UInt8.ofNat value)
  else none

/-- `Ipv4Addr::from_str`: four parts between points. -/
def parseIpv4 (text : String) : Option (List.Vector UInt8 4) :=
  match text.toList.splitOn '.' with
  | [a, b, c, d] => do
    let a ← parseOctet a
    let b ← parseOctet b
    let c ← parseOctet c
    let d ← parseOctet d
    pure ⟨[a, b, c, d], rfl⟩
  | _ => none

theorem parseOctet_octetText (octet : UInt8) : parseOctet (octetText octet) = some octet := by
  have hall : ∀ n < 256, parseOctet (octetText (UInt8.ofNat n)) = some (UInt8.ofNat n) := by
    decide +kernel
  have h := hall octet.toNat octet.toNat_lt
  rwa [UInt8.ofNat_toNat] at h

theorem exists_digitChar {c : Char} (h : c.isDigit = true) : ∃ d < 10, c = Nat.digitChar d := by
  obtain ⟨hle, hge⟩ : 48 ≤ c.toNat ∧ c.toNat ≤ 57 := Char.isDigit_iff_toNat.mp h
  have hall : ∀ d < 10, Nat.digitChar d = Char.ofNat (48 + d) := by decide
  refine ⟨c.toNat - 48, by omega, ?_⟩
  rw [hall _ (by omega), Nat.add_sub_cancel' hle, Char.ofNat_toNat]

theorem octetText_of_parseOctet {part : List Char} {octet : UInt8}
    (h : parseOctet part = some octet) : octetText octet = part := by
  have hone : ∀ a < 10, ((parseOctet [Nat.digitChar a]).all
      fun octet ↦ octetText octet = [Nat.digitChar a]) = true := by
    decide +kernel
  have htwo : ∀ a < 10, ∀ b < 10, ((parseOctet [Nat.digitChar a, Nat.digitChar b]).all
      fun octet ↦ octetText octet = [Nat.digitChar a, Nat.digitChar b]) = true := by
    decide +kernel
  have hthree : ∀ a < 10, ∀ b < 10, ∀ c < 10,
      ((parseOctet [Nat.digitChar a, Nat.digitChar b, Nat.digitChar c]).all fun octet ↦
        octetText octet = [Nat.digitChar a, Nat.digitChar b, Nat.digitChar c]) = true := by
    decide +kernel
  have hdigits : part ≠ [] ∧ part.length ≤ 3 ∧ ∀ c ∈ part, ∃ d < 10, c = Nat.digitChar d := by
    rw [parseOctet, Option.ite_none_right_eq_some] at h
    obtain ⟨⟨hne, hlength, hall, -⟩, -⟩ := h
    exact ⟨hne, hlength, fun c hc ↦ exists_digitChar (List.all_eq_true.mp hall c hc)⟩
  have hprinted : ∀ digits : List Char,
      ((parseOctet digits).all fun octet ↦ octetText octet = digits) = true →
        parseOctet digits = some octet → octetText octet = digits := by
    intro digits hall hparse
    rw [hparse] at hall
    simpa using hall
  obtain ⟨hne, hlength, hchars⟩ := hdigits
  match part, hne, hlength, hchars with
  | [a], _, _, hchars =>
    obtain ⟨a, ha, rfl⟩ := hchars a (by simp)
    exact hprinted _ (hone a ha) h
  | [a, b], _, _, hchars =>
    obtain ⟨a, ha, rfl⟩ := hchars a (by simp)
    obtain ⟨b, hb, rfl⟩ := hchars b (by simp)
    exact hprinted _ (htwo a ha b hb) h
  | [a, b, c], _, _, hchars =>
    obtain ⟨a, ha, rfl⟩ := hchars a (by simp)
    obtain ⟨b, hb, rfl⟩ := hchars b (by simp)
    obtain ⟨c, hc, rfl⟩ := hchars c (by simp)
    exact hprinted _ (hthree a ha b hb c hc) h
  | _ :: _ :: _ :: _ :: _, _, hlength, _ =>
    simp only [List.length_cons] at hlength
    omega

theorem parseOctet_eq_some_iff {part : List Char} {octet : UInt8} :
    parseOctet part = some octet ↔ part = octetText octet := by
  constructor
  · exact fun h ↦ (octetText_of_parseOctet h).symm
  · rintro rfl
    exact parseOctet_octetText octet

theorem point_notMem_octetText (octet : UInt8) : '.' ∉ octetText octet := by
  have hall : ∀ n < 256, '.' ∉ octetText (UInt8.ofNat n) := by decide +kernel
  have h := hall octet.toNat octet.toNat_lt
  rwa [UInt8.ofNat_toNat] at h

/-- **An address is accepted exactly if it is what one is printed as.** -/
theorem parseIpv4_eq_some_iff {text : String} {ip : List.Vector UInt8 4} :
    parseIpv4 text = some ip ↔ text = ipv4Text ip := by
  rw [parseIpv4, ipv4Text]
  constructor
  · intro h
    split at h
    · next a b c d hsplit =>
      simp only [Option.bind_eq_bind, Option.bind_eq_some_iff, parseOctet_eq_some_iff,
        Option.pure_def] at h
      obtain ⟨a, rfl, b, rfl, c, rfl, d, rfl, hip⟩ := h
      obtain rfl := Option.some.inj hip
      rw [List.Vector.toList_mk, List.map_cons, List.map_cons, List.map_cons, List.map_cons,
        List.map_nil, ← hsplit, List.intercalate_splitOn, String.ofList_toList]
    · cases h
  · rintro rfl
    match ip with
    | ⟨[a, b, c, d], _⟩ =>
      rw [String.toList_ofList, List.splitOn_intercalate '.' ?_ (by simp)]
      · simp [parseOctet_octetText]
      · intro part hpart
        obtain ⟨octet, -, rfl⟩ := List.mem_map.mp hpart
        exact point_notMem_octetText octet

/-! ## Publications

Parsing has two stages, as in the source. A frame whose attributes have other types is no command at
all; what is left to the handler is refused by it, with an error of its own. -/

/-- An unsigned number of so many bits. -/
def Port.Json.unsigned? (bits : ℕ) : Json → Option ℕ
  | .integer value => if 0 ≤ value ∧ value < 2 ^ bits then some value.toNat else none
  | _ => none

def Port.Json.string? : Json → Option String
  | .string value => some value
  | _ => none

def Port.Json.object? : Json → Option (List (String × Json))
  | .object fields => some fields
  | _ => none

/-- The attributes of a `publish`, as they are in the frame. -/
structure Publication where
  ttlMs : UInt64
  partisanIp : String
  partisanPort : UInt16
  capabilities : List (String × Json)
  load : Load

/-- A frame with other attributes is no command. -/
def parsePublication (json : Json) : Option Publication := do
  let ttlMs ← (json.get? "ttl_ms").bind (Json.unsigned? 64)
  let partisanIp ← (json.get? "partisan_ip").bind Json.string?
  let partisanPort ← (json.get? "partisan_port").bind (Json.unsigned? 16)
  let capabilities ← (json.get? "capabilities").bind Json.object?
  let load ← json.get? "load"
  let running ← (load.get? "running").bind (Json.unsigned? 64)
  let capacity ← (load.get? "capacity").bind (Json.unsigned? 64)
  pure {
    ttlMs := UInt64.ofNat ttlMs, partisanIp, partisanPort := UInt16.ofNat partisanPort, capabilities
    load := ⟨UInt64.ofNat running, UInt64.ofNat capacity⟩ }

/-- What the handler of `publish` makes of them. -/
def Publication.draft (publication : Publication) : Except HandleError Draft :=
  match parseIpv4 publication.partisanIp with
  | none => .error (.discovery .invalidRecord)
  | some partisanIp =>
    if hport : publication.partisanPort ≠ 0 then
      (jsonCapabilities publication.capabilities).map fun capabilities ↦ {
        ttlMs := publication.ttlMs
        partisanIp := partisanIp
        partisanPort := ⟨publication.partisanPort, hport⟩
        capabilities := capabilities
        load := publication.load }
    else .error (.discovery .invalidRecord)

theorem Publication.of_draft {publication : Publication} {draft : Draft}
    (h : publication.draft = .ok draft) :
    draft.ttlMs = publication.ttlMs ∧ ipv4Text draft.partisanIp = publication.partisanIp
      ∧ draft.partisanPort.val = publication.partisanPort ∧ draft.load = publication.load
      ∧ jsonCapabilities publication.capabilities = .ok draft.capabilities := by
  rw [Publication.draft] at h
  split at h
  · cases h
  · next ip hip =>
    split at h
    · obtain ⟨capabilities, hcapabilities, rfl⟩ := map_eq_ok_iff.mp h
      exact ⟨rfl, (parseIpv4_eq_some_iff.mp hip).symm, rfl, rfl, hcapabilities⟩
    · cases h

/-! ## Queries

Predicates are parsed in the same two stages. -/

/-- A predicate of a `find`, as it is in the frame. -/
inductive JsonPredicate where
  | equals (name : Text) (value : Json)
  | atLeast (name : Text) (value : UInt64)
  | contains (name : Text) (value : Text)

def Port.Json.text? (json : Json) : Option Text := json.string?.bind fun s ↦ Text.ofBytes? (utf8 s)

/-- A frame with another predicate is no command. -/
def parsePredicate (json : Json) : Option JsonPredicate := do
  let op ← (json.get? "op").bind Json.string?
  let name ← (json.get? "name").bind Json.text?
  let value ← json.get? "value"
  if op = "equals" then pure (.equals name value)
  else if op = "at_least" then (value.unsigned? 64).map fun n ↦ .atLeast name (UInt64.ofNat n)
  else if op = "contains" then value.text?.map fun needle ↦ .contains name needle
  else none

def jsonPredicate : JsonPredicate → Except HandleError Predicate
  | .equals name value => (jsonCapability value).map fun value ↦ .equals name value
  | .atLeast name value => .ok (.atLeast name value)
  | .contains name value => .ok (.contains name value)

/-- The predicates of a `find`; where one does not parse, the frame is no command. -/
def parsePredicates (predicates : List Json) : Option (Except HandleError (List Predicate)) :=
  (predicates.mapM parsePredicate).map fun parsed ↦ parsed.mapM jsonPredicate

/-! ## Answers -/

section Answers

variable {I : Iroh} (endpointText : I.EndpointId → String)

/-- A peer in the answer to a `find`, given how endpoints are shown. -/
def peerJson (peer : Peer I) : Json :=
  .object [
    ("endpoint_id", .string (endpointText peer.endpointId)),
    ("node_name", .string peer.nodeName.str),
    ("partisan_ip", .string (ipv4Text peer.partisanIp)),
    ("partisan_port", .integer peer.partisanPort.val.toNat),
    ("sequence", .integer peer.sequence.toNat),
    ("capabilities", .object (capabilitiesJson peer.capabilities))]

/-- The answer to a `find` that succeeds. -/
def peersJson (peers : List (Peer I)) : List (String × Json) :=
  [("peers", .array (peers.map (peerJson endpointText)))]

end Answers

/-! ## What is advertised is found

Here the parts come together. The attributes are parsed to a draft, which the daemon signs as an
announcement; a registry takes it in; a query finds it; and the peer is printed. The middle of this
is the theorem on what is published, and the two ends are the parser and the printer of this
module. -/

/-- An answer says of a node where it listens and what it can do as the node has said it, with the
capabilities in any order. -/
structure Advertises (attributes answer : Json) : Prop where
  partisanIp : answer.get? "partisan_ip" = attributes.get? "partisan_ip"
  partisanPort : answer.get? "partisan_port" = attributes.get? "partisan_port"
  capabilities : ∃ fields fields', attributes.get? "capabilities" = some (.object fields)
    ∧ answer.get? "capabilities" = some (.object fields') ∧ fields'.Perm fields

theorem Port.Json.unsigned?_eq_some_iff {bits n : ℕ} {json : Json} :
    json.unsigned? bits = some n ↔ json = .integer n ∧ n < 2 ^ bits := by
  cases json <;> simp only [unsigned?, reduceCtorEq, false_and]
  next value =>
    simp only [Option.ite_none_right_eq_some, Option.some.injEq, Json.integer.injEq]
    have hpower : ((2 ^ bits : ℕ) : ℤ) = 2 ^ bits := by push_cast; rfl
    omega

theorem Port.Json.string?_eq_some_iff {json : Json} {s : String} :
    json.string? = some s ↔ json = .string s := by
  cases json <;> simp [string?]

theorem Port.Json.object?_eq_some_iff {json : Json} {fields : List (String × Json)} :
    json.object? = some fields ↔ json = .object fields := by
  cases json <;> simp [object?]

/-- The attributes of a publication are those of its frame. -/
theorem of_parsePublication {json : Json} {publication : Publication}
    (h : parsePublication json = some publication) :
    json.get? "partisan_ip" = some (.string publication.partisanIp)
      ∧ json.get? "partisan_port" = some (.integer publication.partisanPort.toNat)
      ∧ json.get? "capabilities" = some (.object publication.capabilities) := by
  simp only [parsePublication, Option.bind_eq_bind, Option.bind_eq_some_iff, Option.pure_def,
    Port.Json.unsigned?_eq_some_iff, Port.Json.string?_eq_some_iff,
    Port.Json.object?_eq_some_iff] at h
  obtain ⟨ttlMs, -, ip, ⟨_, hip, rfl⟩, port, ⟨_, hport, rfl, hlt⟩, fields, ⟨_, hfields, rfl⟩,
    load, -, running, -, capacity, -, hpublication⟩ := h
  obtain rfl := Option.some.inj hpublication
  refine ⟨hip, ?_, hfields⟩
  rw [hport, UInt16.toNat_ofNat_of_lt' hlt]

/-- The answer of a peer with the draft's attributes. -/
theorem Publication.advertises {I : Iroh} (endpointText : I.EndpointId → String) {json : Json}
    {publication : Publication} {draft : Draft} (hparse : parsePublication json = some publication)
    (hdraft : publication.draft = .ok draft)
    (hdistinct : (publication.capabilities.map Prod.fst).Nodup) {peer : Peer I}
    (hip : peer.partisanIp = draft.partisanIp) (hport : peer.partisanPort = draft.partisanPort)
    (hcapabilities : peer.capabilities = draft.capabilities) :
    Advertises json (peerJson endpointText peer) := by
  obtain ⟨hjsonIp, hjsonPort, hjsonFields⟩ := of_parsePublication hparse
  obtain ⟨-, hdraftIp, hdraftPort, -, hdraftCapabilities⟩ := Publication.of_draft hdraft
  refine ⟨?_, ?_, publication.capabilities, _, hjsonFields, rfl, ?_⟩
  · rw [hjsonIp, ← hdraftIp, ← hip]
    rfl
  · rw [hjsonPort, ← hdraftPort, ← hport]
    rfl
  · rw [hcapabilities]
    exact capabilitiesJson_of_jsonCapabilities hdistinct hdraftCapabilities

/-- **What is advertised is found.** Once a registry has taken in the announcement that a daemon has
signed for a `publish`, and until that announcement expires, is revoked or is replaced, a query
finds the endpoint just when the published load leaves room and the announcement matches every
predicate. Whatever the answer then says of the endpoint's address and of its capabilities are the
very attributes of the `publish`. -/
theorem advertised_found {I : Iroh} {S : Type} [SequenceStore I S] [LawfulSequenceStore I S]
    (hverify : ∀ secret bytes, I.verify (I.publicKey secret) bytes (I.sign secret bytes) = true)
    (endpointText : I.EndpointId → String) {d : Daemon I S} {attributes : Json}
    {publication : Publication} (hparse : parsePublication attributes = some publication)
    (hdistinct : (publication.capabilities.map Prod.fst).Nodup)
    {a : Announcement I} {envelope : List UInt8}
    (hsigns : d.signs (.command (.publish publication.draft)) = some (a, envelope))
    {r : Registry I S} (hreachable : r.Reachable) {now : UInt64}
    (haccepts : r.Accepts (.announcement a) now)
    (hadvance : ∃ store, (SequenceStore.advance a.endpointId a.sequence).Returns r.store () store) :
    ∃ r', (Registry.receive envelope now).Returns r () r'
      ∧ ∀ r'', Registry.Sparing (I.publicKey d.secret) ⟨a, now⟩ r' r'' →
        ∀ order predicates now', now' < saturatingAdd now publication.ttlMs →
          ((∃ peers r₃, (Registry.find order predicates now').Returns r'' peers r₃
              ∧ ∃ peer ∈ peers, peer.endpointId = I.publicKey d.secret) ↔
            publication.load.running < publication.load.capacity
              ∧ ∀ p ∈ predicates, matchesPredicate a p = true)
          ∧ ∀ peers r₃, (Registry.find order predicates now').Returns r'' peers r₃ →
            ∀ peer ∈ peers, peer.endpointId = I.publicKey d.secret →
              (peerJson endpointText peer).get? "node_name" = some (.string d.nodeName.str)
                ∧ Advertises attributes (peerJson endpointText peer) := by
  obtain ⟨draft, sequence, outbound, hcommand, -⟩ := Daemon.signs_eq_some_iff.mp hsigns
  have hdraft : publication.draft = .ok draft := by
    injection hcommand with hcommand
    injection hcommand with hcommand
  rw [hdraft] at hsigns
  obtain ⟨httl, -, -, hload, -⟩ := Publication.of_draft hdraft
  obtain ⟨r', hreturns, hfound⟩ := published_found hverify hsigns hreachable haccepts hadvance
  refine ⟨r', hreturns, fun r'' hsparing order predicates now' hnow ↦ ?_⟩
  rw [← httl] at hnow
  have hiff := hfound r'' hsparing order predicates now' hnow
  rw [← hload]
  refine ⟨⟨?_, ?_⟩, ?_⟩
  · rintro ⟨peers, r₃, hfind, peer, hmem, hendpoint⟩
    exact ((hiff peer).mp ⟨peers, r₃, hfind, hmem, hendpoint⟩).2
  · intro hmatches
    obtain ⟨peers, r₃, hfind, hmem, hendpoint⟩ := (hiff _).mpr ⟨rfl, hmatches⟩
    exact ⟨peers, r₃, hfind, _, hmem, hendpoint⟩
  · intro peers r₃ hfind peer hmem hendpoint
    obtain ⟨rfl, -⟩ := (hiff peer).mp ⟨peers, r₃, hfind, hmem, hendpoint⟩
    exact ⟨rfl, Publication.advertises endpointText hparse hdraft hdistinct rfl rfl rfl⟩

/-! ### A publication with a capability

In the world of two keys, the daemon of the second member publishes. A registry that has heard of
the first one takes the announcement in, and a query for the capability finds it. -/

def memberAttributes : Json :=
  .object [
    ("ttl_ms", .integer 5000), ("partisan_ip", .string "0.0.0.0"), ("partisan_port", .integer 1),
    ("capabilities", .object [("gpu", .bool true)]),
    ("load", .object [("running", .integer 0), ("capacity", .integer 1)])]

def memberPublication : Publication := ⟨5000, "0.0.0.0", 1, [("gpu", .bool true)], ⟨0, 1⟩⟩

def memberDraft : Draft :=
  { sampleDraft with capabilities := (Registry.member true).capabilities }

theorem parsePublication_member : parsePublication memberAttributes = some memberPublication := rfl

theorem draft_memberPublication : memberPublication.draft = .ok memberDraft := by
  have hip : parseIpv4 "0.0.0.0" = some memberDraft.partisanIp := by decide +kernel
  have hcapabilities : jsonCapabilities [("gpu", .bool true)] = .ok memberDraft.capabilities := by
    rfl
  rw [Publication.draft, memberPublication, hip]
  dsimp only
  rw [hcapabilities]
  rfl

def memberDaemon : Daemon Iroh.pair (MemorySequenceStore Iroh.pair) where
  nodeName := (Registry.member true).nodeName
  secret := true
  fleet := Registry.sample.fleetId
  outbound := ⟨∅⟩
  registry := Registry.nobodyHeard
  network := none
  main := .selecting
  events := .empty
  streams := []

theorem signs_memberDraft : memberDaemon.signs (.command (.publish (.ok memberDraft)))
    = some (Registry.member true, Registry.memberEnvelope true) := by
  have hreserve : (reserveNext (I := Iroh.pair) true).Returns memberDaemon.outbound 1
      ⟨(∅ : ExtTreeMap Iroh.pair.EndpointId UInt64).insert true 1⟩ :=
    returns_reserveNext.mpr ⟨0, by decide, by decide, rfl,
      MemorySequenceStore.returns_advance.mpr ⟨by decide, rfl⟩⟩
  refine Daemon.signs_eq_some_iff.mpr ⟨memberDraft, 1, _, rfl, rfl, hreserve, ?_⟩
  exact sign_eq_ok_iff.mpr ⟨by decide, rfl,
    signBody_eq_ok_iff.mpr ⟨rfl, (Registry.opens_memberEnvelope true).length_le⟩⟩

theorem advertised_found_sample :
    ∃ r', (Registry.receive (Registry.memberEnvelope true) 0).Returns Registry.firstHeard () r'
      ∧ ∃ peers r₃,
        (Registry.find ⟨id, List.Perm.refl⟩ [Registry.gpuRequired] 1).Returns r' peers r₃
          ∧ ∃ peer ∈ peers, peer.endpointId = true
            ∧ Advertises memberAttributes (peerJson (fun _ ↦ "") peer) := by
  obtain ⟨hadm, -⟩ := (Registry.opens_memberEnvelope true).admissible Registry.returns_bothHeard
  have hsigns : memberDaemon.signs (.command (.publish memberPublication.draft))
      = some (Registry.member true, Registry.memberEnvelope true) := by
    rw [draft_memberPublication]
    exact signs_memberDraft
  have hreachable : Registry.firstHeard.Reachable :=
    Registry.returns_firstHeard.after_eq ▸ .step (.receive _ 0) (.new _ _ _ _)
  obtain ⟨r', hreturns, hfound⟩ := advertised_found (fun _ _ ↦ rfl) (fun _ ↦ "")
    parsePublication_member (List.nodup_singleton _) hsigns hreachable
    ⟨hadm.fleet, hadm.enrolled, hadm.valid, hadm.named, hadm.fresh, hadm.not_full⟩ hadm.advances
  obtain ⟨hiff, hanswer⟩ :=
    hfound r' .refl ⟨id, List.Perm.refl⟩ [Registry.gpuRequired] 1 (by decide)
  obtain ⟨peers, r₃, hfind, peer, hmem, hendpoint⟩ := hiff.mpr ⟨by decide,
    List.forall_mem_singleton.mpr (Registry.matchesPredicate_member true)⟩
  exact ⟨r', hreturns, peers, r₃, hfind, peer, hmem, hendpoint,
    (hanswer peers r₃ hfind peer hmem hendpoint).2⟩

end NervesP2P
