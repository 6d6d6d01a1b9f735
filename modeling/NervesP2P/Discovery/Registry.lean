import NervesP2P.Discovery.Decode
import NervesP2P.Discovery.Store

/-!
# The registry of active peers

The receiver's state: who is authorized under which node name, the watermarks, the announcements
that are active, and for each endpoint the times of its recent messages. `receive` takes the bytes
of an envelope from the network and is where all of it comes together.

A method that fails keeps what it had changed before, as in the source: a message over the rate
limit still trims its endpoint's queue, and an endpoint that enrolls itself stays enrolled when a
later check rejects its message.

The records and the queues are hash maps in the source. Their iteration order is not part of the
state here: a query that iterates takes the order as a parameter, any rearrangement of the values.
-/

open Std (ExtTreeMap)

namespace NervesP2P

def maxAuthorized : ℕ := 1024

/-- How many messages of an endpoint are let through in one window. -/
def rateLimit : ℕ := 10

def rateWindowMs : UInt64 := 1000

/-! ## Authorization

The table carries its bounds with it: at most 1024 entries, each under a valid name. `authorize`
checks both before it inserts. -/

/-- The authorized endpoints and the node names they are enrolled under. -/
structure AuthorizationTable (I : Iroh) where
  entries : ExtTreeMap I.EndpointId Text
  /-- The table is bounded. -/
  size_le : entries.size ≤ maxAuthorized
  /-- Every name in it is a node name. -/
  valid : ∀ (e : I.EndpointId) (name : Text), entries[e]? = some name → validNodeName name = true

namespace AuthorizationTable

variable {I : Iroh}

@[ext] theorem ext {a b : AuthorizationTable I} (h : a.entries = b.entries) : a = b := by
  cases a
  cases b
  simpa using h

def empty : AuthorizationTable I := ⟨∅, by simp, by simp⟩

/-- A table from a list of entries, of which the last one for an endpoint counts. -/
def new (entries : List (I.EndpointId × Text)) : Except Error (AuthorizationTable I) :=
  let entries := (∅ : ExtTreeMap I.EndpointId Text).insertMany entries
  if h : entries.size ≤ maxAuthorized
      ∧ (entries.toList.all fun entry ↦ validNodeName entry.2) = true then
    .ok ⟨entries, h.1, fun e name he ↦ List.all_eq_true.mp h.2 (e, name)
      (ExtTreeMap.mem_toList_iff_getElem?_eq_some.mpr he)⟩
  else .error .invalidRecord

/-- There is a place for an endpoint: its own, or a free one. -/
def HasRoom (table : AuthorizationTable I) (endpoint : I.EndpointId) : Prop :=
  table.entries[endpoint]?.isSome ∨ table.entries.size ≠ maxAuthorized

instance (table : AuthorizationTable I) (endpoint : I.EndpointId) :
    Decidable (table.HasRoom endpoint) := inferInstanceAs (Decidable (_ ∨ _))

theorem valid_insert (table : AuthorizationTable I) {endpoint : I.EndpointId} {nodeName : Text}
    (hname : validNodeName nodeName = true) (e : I.EndpointId) (name : Text)
    (h : (table.entries.insert endpoint nodeName)[e]? = some name) :
    validNodeName name = true := by
  rw [ExtTreeMap.getElem?_insert] at h
  split at h
  · rw [Option.some_inj] at h
    rwa [← h]
  · exact table.valid e name h

theorem size_insert_le (table : AuthorizationTable I) {endpoint : I.EndpointId} (nodeName : Text)
    (h : table.HasRoom endpoint) :
    (table.entries.insert endpoint nodeName).size ≤ maxAuthorized := by
  have hsize := table.size_le
  rw [ExtTreeMap.size_insert]
  split
  · exact hsize
  · next hmem =>
    rcases h with h | h
    · exact absurd (ExtTreeMap.mem_iff_isSome_getElem?.mpr h) hmem
    · omega

def authorize (endpoint : I.EndpointId) (nodeName : Text) :
    Method (AuthorizationTable I) Error Unit := do
  let table ← get
  if h : validNodeName nodeName = true ∧ table.HasRoom endpoint then
    set (⟨table.entries.insert endpoint nodeName, table.size_insert_le nodeName h.2,
      table.valid_insert h.1⟩ : AuthorizationTable I)
  else throw .invalidRecord

def revoke (endpoint : I.EndpointId) (table : AuthorizationTable I) : AuthorizationTable I where
  entries := table.entries.erase endpoint
  size_le := ExtTreeMap.size_erase_le.trans table.size_le
  valid e name h := by
    rw [ExtTreeMap.getElem?_erase] at h
    split at h
    · cases h
    · exact table.valid e name h

def nodeName (table : AuthorizationTable I) (endpoint : I.EndpointId) : Option Text :=
  table.entries[endpoint]?

end AuthorizationTable

/-- Whether a valid signed announcement may enroll its own endpoint. -/
inductive EnrollmentPolicy where
  /-- Only endpoints already in the authorization table are accepted. -/
  | strict
  /-- An unknown endpoint is enrolled under its signed node name. -/
  | signedFleet
  deriving DecidableEq

/-! ## The registry

The source has `receive` as one function. It is cut at its two matches here, into `enroll`, `accept`
and `process`, in the order in which they run. -/

structure ActiveRecord (I : Iroh) where
  announcement : Announcement I
  receivedAt : UInt64

/-- The receiver's state. -/
@[ext] structure Registry (I : Iroh) (S : Type) where
  fleetId : FleetId
  authorization : AuthorizationTable I
  enrollment : EnrollmentPolicy
  store : S
  records : ExtTreeMap I.EndpointId (ActiveRecord I)
  rate : ExtTreeMap I.EndpointId (List UInt64)

/-- An iteration order of a hash map with values in `α`: some rearrangement of the values. -/
structure HashOrder (α : Type) where
  arrange : List α → List α
  perm : ∀ l, (arrange l).Perm l

namespace Registry

variable {I : Iroh} {S : Type}

def new (fleetId : FleetId) (authorization : AuthorizationTable I) (store : S) : Registry I S where
  fleetId := fleetId
  authorization := authorization
  enrollment := .strict
  store := store
  records := ∅
  rate := ∅

def withEnrollmentPolicy (registry : Registry I S) (enrollment : EnrollmentPolicy) :
    Registry I S :=
  { registry with enrollment }

def revoke (endpoint : I.EndpointId) (registry : Registry I S) : Registry I S :=
  { registry with
    authorization := registry.authorization.revoke endpoint
    records := registry.records.erase endpoint
    rate := registry.rate.erase endpoint }

def authorize (endpoint : I.EndpointId) (nodeName : Text) : Method (Registry I S) Error Unit :=
  Method.zoom Registry.authorization (fun authorization registry ↦ { registry with authorization })
    (AuthorizationTable.authorize endpoint nodeName)

/-- The recent times of an endpoint after those out of the window have left the front. -/
def rateWindow (registry : Registry I S) (endpoint : I.EndpointId) (now : UInt64) : List UInt64 :=
  (registry.rate[endpoint]?.getD []).dropWhile fun time ↦ saturatingAdd time rateWindowMs ≤ now

def checkRate (endpoint : I.EndpointId) (now : UInt64) : Method (Registry I S) Error Unit := do
  let registry ← get
  let times := registry.rateWindow endpoint now
  -- the queue is trimmed in place, so it stays trimmed when the limit is hit
  modify fun registry ↦ { registry with rate := registry.rate.insert endpoint times }
  Method.failIf (times.length = rateLimit) .rateLimited
  modify fun registry ↦ { registry with rate := registry.rate.insert endpoint (times ++ [now]) }

section Receive

variable [SequenceStore I S]

def acceptSequence (endpoint : I.EndpointId) (sequence : UInt64) :
    Method (Registry I S) Error Unit := do
  let registry ← get
  let stored ← liftM (SequenceStore.load registry.store endpoint)
  Method.failIf (sequence ≤ stored) .staleSequence
  Method.zoom Registry.store (fun store registry ↦ { registry with store })
    (SequenceStore.advance endpoint sequence)

/-- The match of `receive` that finds the name an endpoint is enrolled under, enrolling the sender
of an announcement where the policy allows it. -/
def enroll (message : Message I) (enrolledName : Option Text) (now : UInt64) :
    Method (Registry I S) Error Text := do
  let registry ← get
  match enrolledName, message, registry.enrollment with
  | some name, _, _ => pure name
  | none, .announcement announcement, .signedFleet => do
    liftM (validateAnnouncement announcement)
    authorize message.endpointId announcement.nodeName
    checkRate message.endpointId now
    pure announcement.nodeName
  | _, _, _ => throw .unauthorizedEndpoint

/-- The match of `receive` that takes a message in. -/
def accept (message : Message I) (enrolledName : Text) (now : UInt64) :
    Method (Registry I S) Error Unit :=
  match message with
  | .announcement announcement => do
    liftM (validateAnnouncement announcement)
    Method.failIf (announcement.nodeName ≠ enrolledName) .unauthorizedEndpoint
    acceptSequence message.endpointId announcement.sequence
    modify fun registry ↦
      { registry with records := registry.records.insert message.endpointId ⟨announcement, now⟩ }
  | .withdrawal withdrawal => do
    liftM (validateWithdrawal withdrawal)
    acceptSequence message.endpointId withdrawal.sequence
    modify fun registry ↦ { registry with records := registry.records.erase message.endpointId }

/-- The part of `receive` after decoding: fleet, enrollment, rate, signature. -/
def process (body : List UInt8) (signature : I.Signature) (message : Message I) (now : UInt64) :
    Method (Registry I S) Error Unit := do
  let registry ← get
  Method.failIf (message.fleetId ≠ registry.fleetId) .wrongFleet
  let enrolledName := registry.authorization.nodeName message.endpointId
  Method.failIf (enrolledName = none ∧ registry.enrollment = .strict) .unauthorizedEndpoint
  Method.runIf (enrolledName.isSome = true) (checkRate message.endpointId now)
  Method.failIf (I.verify message.endpointId (domain ++ body) signature = false) .invalidSignature
  let enrolledName ← enroll message enrolledName now
  accept message enrolledName now

def receive (envelope : List UInt8) (now : UInt64) : Method (Registry I S) Error Unit := do
  Method.failIf (maxMessageSize < envelope.length) .messageTooLarge
  let (body, signature) ← liftM (decodeEnvelope I envelope)
  let message ← liftM (decodeMessage I body.val)
  process body.val signature message now

end Receive

/-! ## Queries

Every query first deletes the records that have expired, so queries are methods that change the
registry. -/

def expire (now : UInt64) (registry : Registry I S) : Registry I S :=
  { registry with
    records := registry.records.filter fun _ record ↦
      now < saturatingAdd record.receivedAt record.announcement.ttlMs }

/-- The active records, in the iteration order of the hash map. -/
def values (registry : Registry I S) (order : HashOrder (ActiveRecord I)) :
    List (ActiveRecord I) :=
  order.arrange (registry.records.toList.map Prod.snd)

def active (endpoint : I.EndpointId) (now : UInt64) :
    Method (Registry I S) Error (Option (Announcement I)) := do
  modify (expire now)
  let registry ← get
  pure (registry.records[endpoint]?.map ActiveRecord.announcement)

end Registry

def matchesPredicate {I : Iroh} (announcement : Announcement I) : Predicate → Bool
  | .equals name expected => announcement.capabilities[name]? = some expected
  | .atLeast name minimum =>
    match announcement.capabilities[name]? with
    | some (.uint value) => minimum ≤ value
    | _ => false
  | .contains name needle =>
    match announcement.capabilities[name]? with
    | some (.textList values) => values.contains needle
    | _ => false

/-- Less loaded first, then the one with more room, then by endpoint. The products are taken in 128
bits, where they cannot overflow. -/
def compareRecords {I : Iroh} (a b : Announcement I) : Ordering :=
  (compare (a.load.running.toNat * b.load.capacity.toNat)
      (b.load.running.toNat * a.load.capacity.toNat)).then <|
    (compare (b.load.capacity - b.load.running) (a.load.capacity - a.load.running)).then <|
      compare a.endpointId b.endpointId

/-- What a query tells about an announcement. -/
def Announcement.peer {I : Iroh} (announcement : Announcement I) : Peer I where
  endpointId := announcement.endpointId
  nodeName := announcement.nodeName
  partisanIp := announcement.partisanIp
  partisanPort := announcement.partisanPort
  sequence := announcement.sequence
  capabilities := announcement.capabilities

namespace Registry

variable {I : Iroh} {S : Type}

/-- The peers of the unexpired records that match, in query order. -/
def foundPeers (registry : Registry I S) (order : HashOrder (ActiveRecord I))
    (predicates : List Predicate) : List (Peer I) :=
  let found := (registry.values order).filter fun record ↦
    record.announcement.load.running < record.announcement.load.capacity
      && predicates.all (matchesPredicate record.announcement)
  let sorted := sortBy (fun a b ↦ compareRecords a.announcement b.announcement) found
  sorted.map fun record ↦ record.announcement.peer

def find (order : HashOrder (ActiveRecord I)) (predicates : List Predicate) (now : UInt64) :
    Method (Registry I S) Error (List (Peer I)) := do
  modify (expire now)
  let registry ← get
  let peers := registry.foundPeers order predicates
  Method.failIf (peers.isEmpty = true) .noMatchingPeer
  pure peers

def endpointForNode (order : HashOrder (ActiveRecord I)) (nodeName : Text) (now : UInt64) :
    Method (Registry I S) Error (Option I.EndpointId) := do
  modify (expire now)
  let registry ← get
  let found := (registry.values order).find? fun record ↦ record.announcement.nodeName = nodeName
  pure (found.map fun record ↦ record.announcement.endpointId)

/-- The active bindings of endpoints to node names, with their remaining lifetimes. -/
def bindings (order : HashOrder (ActiveRecord I)) (now : UInt64) :
    Method (Registry I S) Error (List (I.EndpointId × Text × UInt64)) := do
  modify (expire now)
  let registry ← get
  pure ((registry.values order).map fun record ↦
    (record.announcement.endpointId, record.announcement.nodeName,
      saturatingSub (saturatingAdd record.receivedAt record.announcement.ttlMs) now))

end Registry

end NervesP2P
