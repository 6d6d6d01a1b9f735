import NervesP2P.Discovery.Runs

/-!
# Where active announcements come from

The network delivers whatever an adversary likes: replays, spliced and re-encoded bytes, envelopes
of other fleets. What keeps a record honest is that verification under a key succeeds only on bytes
the holder of that key has signed, and holders sign through `signAnnouncement` and `signWithdrawal`
only. A `SignedRun` carries the calls of those two functions made so far next to the registry, and
asks of every delivered envelope that it is `Unforged`.

From that alone, each record is field for field an announcement its own endpoint has passed to
`signAnnouncement` for this fleet. The bytes under a signature determine the message, because both
kinds of message are encoded injectively, and never to the same bytes.
-/

open Std (ExtTreeMap)

namespace NervesP2P

variable {I : Iroh}

/-! ## Signing

The two signing functions have the same shape: a check, the key, and the envelope. Both succeed only
on valid messages of the key's own endpoint, and these are within the bounds of the format, so that
the results about decoding apply to them. -/

/-- A call of one of the two signing functions. -/
structure SignCall (I : Iroh) where
  message : Message I
  secret : I.SecretKey

def SignCall.result (call : SignCall I) : Except Error (List UInt8) :=
  match call.message with
  | .announcement value => signAnnouncement value call.secret
  | .withdrawal value => signWithdrawal value call.secret

def SignCall.signedBytes (call : SignCall I) : List UInt8 := domain ++ encodeMessage call.message

theorem bounded_of_validCapability {name : Text} {value : CapabilityValue}
    (h : validCapability name value = true) : value.Bounded := by
  cases value with
  | textList values =>
    simp only [validCapability, Bool.and_eq_true, decide_eq_true_eq] at h
    exact h.2.1.1
  | _ => trivial

theorem bounded_of_validateMessage {m : Message I} (h : validateMessage m = .ok ()) :
    m.Bounded := by
  cases m with
  | announcement a =>
    obtain ⟨-, -, -, hsize, -, -, -, hvalid⟩ := validateAnnouncement_eq_ok_iff.mp h
    exact ⟨hsize, fun entry hentry ↦ bounded_of_validCapability (hvalid entry hentry)⟩
  | withdrawal w => trivial

theorem signBody_eq_ok_iff {body bytes : List UInt8} {secret : I.SecretKey} :
    signBody body secret = .ok bytes ↔
      bytes = encodeEnvelope body (I.toBytes (I.sign secret (domain ++ body)))
        ∧ bytes.length ≤ maxMessageSize := by
  rw [signBody]
  split
  · next hlong =>
    constructor
    · intro h
      cases h
    · rintro ⟨rfl, hlen⟩
      exact absurd hlong (not_lt.mpr hlen)
  · next hshort =>
    rw [Except.ok.injEq]
    constructor
    · rintro rfl
      exact ⟨rfl, not_lt.mp hshort⟩
    · rintro ⟨rfl, -⟩
      rfl

/-- The two signing functions have the same shape: a check, the key, and the envelope. -/
theorem sign_eq_ok_iff {check : Except Error Unit} {e : I.EndpointId} {secret : I.SecretKey}
    {body bytes : List UInt8} :
    (do check
        if e ≠ I.publicKey secret then throw .invalidSignature
        signBody body secret : Except Error (List UInt8)) = .ok bytes ↔
      check = .ok () ∧ e = I.publicKey secret ∧ signBody body secret = .ok bytes := by
  cases check with
  | error err => simp [bind, Except.bind]
  | ok u =>
    by_cases he : e = I.publicKey secret <;>
      simp [he, bind, Except.bind, throw, throwThe, MonadExceptOf.throw]

theorem SignCall.of_result {call : SignCall I} {bytes : List UInt8}
    (h : call.result = .ok bytes) :
    validateMessage call.message = .ok ()
      ∧ call.message.endpointId = I.publicKey call.secret := by
  obtain ⟨m, secret⟩ := call
  cases m with
  | announcement a =>
    obtain ⟨hvalid, hkey, -⟩ := sign_eq_ok_iff.mp h
    exact ⟨hvalid, hkey⟩
  | withdrawal w =>
    obtain ⟨hvalid, hkey, -⟩ := sign_eq_ok_iff.mp h
    exact ⟨hvalid, hkey⟩

theorem message_eq_of_signedBytes {call : SignCall I} {bytes : List UInt8} {m : Message I}
    (hresult : call.result = .ok bytes) (hm : m.Bounded)
    (h : call.signedBytes = domain ++ encodeMessage m) : call.message = m := by
  have hbody : encodeMessage call.message = encodeMessage m := List.append_cancel_left h
  have hcall := decodeMessage_eq_ok_iff.mpr
    ⟨bounded_of_validateMessage (SignCall.of_result hresult).1, hbody⟩
  have hdecode := decodeMessage_eq_ok_iff.mpr ⟨hm, rfl⟩
  rw [hcall] at hdecode
  exact Except.ok.inj hdecode

/-! ## Runs

A call of a signing function adds to the history and does nothing to the registry; a call of the
registry is any call of its interface, with unforged envelopes. For an envelope that verifies, the
holder of the key has signed the very bytes of its body, and then the same message, as bytes under a
signature determine it. So an accepted announcement was signed as such. -/

/-- Verification of the envelope's signature, under any key, succeeds only on bytes that the holder
of that key has signed. -/
def Unforged (calls : List (SignCall I)) (envelope : List UInt8) : Prop :=
  ∀ body signature e, decodeEnvelope I envelope = .ok (body, signature) →
    I.verify e (domain ++ body.val) signature = true →
      ∃ call ∈ calls, I.publicKey call.secret = e ∧ call.signedBytes = domain ++ body.val

/-- The announcement was passed to `signAnnouncement` by its own endpoint, for the fleet. -/
def SignedFor (calls : List (SignCall I)) (fleetId : FleetId) (a : Announcement I) : Prop :=
  ∃ secret, ⟨.announcement a, secret⟩ ∈ calls ∧ I.publicKey secret = a.endpointId
    ∧ a.fleetId = fleetId

theorem SignedFor.mono {calls : List (SignCall I)} {fleetId : FleetId} {a : Announcement I}
    (h : SignedFor calls fleetId a) (call : SignCall I) : SignedFor (call :: calls) fleetId a := by
  obtain ⟨secret, hmem, hrest⟩ := h
  exact ⟨secret, List.mem_cons_of_mem call hmem, hrest⟩

variable {S : Type} [SequenceStore I S]

namespace Registry

variable {r r' : Registry I S} {order : HashOrder (ActiveRecord I)} {now : UInt64}
  {calls : List (SignCall I)}

/-- Runs of a registry among endpoints that sign and a network that cannot forge. -/
inductive SignedRun : List (SignCall I) → Registry I S → Prop
  | new (fleetId : FleetId) (authorization : AuthorizationTable I) (store : S)
      (enrollment : EnrollmentPolicy) :
      SignedRun [] ((new fleetId authorization store).withEnrollmentPolicy enrollment)
  /-- An endpoint signs a message. -/
  | sign {calls : List (SignCall I)} {r : Registry I S} (call : SignCall I) (bytes : List UInt8)
      (hresult : call.result = .ok bytes) (h : SignedRun calls r) : SignedRun (call :: calls) r
  /-- The registry is called; a delivered envelope is any bytes that are not a forgery. -/
  | step {calls : List (SignCall I)} {r : Registry I S} (op : Operation I)
      (hunforged : ∀ envelope now, op = .receive envelope now → Unforged calls envelope)
      (h : SignedRun calls r) : SignedRun calls (op.run r)

theorem SignedRun.result_ok (h : SignedRun calls r) :
    ∀ call ∈ calls, ∃ bytes, call.result = .ok bytes := by
  induction h with
  | new => simp
  | sign call bytes hresult _ ih => exact List.forall_mem_cons.mpr ⟨⟨bytes, hresult⟩, ih⟩
  | step op hunforged _ ih => exact ih

/-- An accepted announcement was signed as such, for this fleet. -/
theorem Admissible.signedFor {envelope : List UInt8} {a : Announcement I}
    (hadm : r.Admissible envelope now (.announcement a)) (hunforged : Unforged calls envelope)
    (hcalls : ∀ call ∈ calls, ∃ bytes, call.result = .ok bytes) :
    SignedFor calls r.fleetId a := by
  obtain ⟨signature, henvelope, hverify⟩ := hadm.signed
  obtain ⟨-, body, hbody, hdecode, -⟩ :=
    opens_iff.mp ⟨hadm.length_le, hadm.bounded, henvelope⟩
  rw [← hbody] at hverify
  obtain ⟨⟨m, secret⟩, hmem, hkey, hbytes⟩ := hunforged body signature _ hdecode hverify
  obtain ⟨bytes, hresult⟩ := hcalls _ hmem
  rw [hbody] at hbytes
  obtain rfl := message_eq_of_signedBytes hresult hadm.bounded hbytes
  exact ⟨secret, hmem, hkey, hadm.fleet⟩

/-- **The step lemma**: whatever a call does, every record was signed for. -/
theorem signedFor_of_change {op : Operation I} (hchange : r.Change op r')
    (hunforged : ∀ envelope now, op = .receive envelope now → Unforged calls envelope)
    (hcalls : ∀ call ∈ calls, ∃ bytes, call.result = .ok bytes)
    (h : ∀ (e : I.EndpointId) (record : ActiveRecord I), r.records[e]? = some record →
      SignedFor calls r.fleetId record.announcement ∧ record.announcement.endpointId = e) :
    ∀ (e : I.EndpointId) (record : ActiveRecord I), r'.records[e]? = some record →
      SignedFor calls r'.fleetId record.announcement ∧ record.announcement.endpointId = e := by
  intro e record hrecord
  rcases hchange.record hrecord with hold | ⟨envelope, now, rfl, hadm, -, he⟩
  · rw [hchange.fleetId]
    exact h e record hold
  · rw [hchange.fleetId]
    exact ⟨hadm.signedFor (hunforged envelope now rfl) hcalls, he⟩

theorem SignedRun.records (h : SignedRun calls r) :
    ∀ (e : I.EndpointId) (record : ActiveRecord I), r.records[e]? = some record →
      SignedFor calls r.fleetId record.announcement ∧ record.announcement.endpointId = e := by
  induction h with
  | new fleetId authorization store enrollment =>
    intro e record hrecord
    simp [Registry.new, withEnrollmentPolicy] at hrecord
  | sign call bytes hresult _ ih =>
    intro e record hrecord
    exact ⟨(ih e record hrecord).1.mono call, (ih e record hrecord).2⟩
  | step op hunforged hrun ih =>
    exact signedFor_of_change (change_run op _) hunforged hrun.result_ok ih

/-! ## What queries return -/

omit [SequenceStore I S] in
theorem returns_active {e : I.EndpointId} {found : Option (Announcement I)} :
    (active e now).Returns r found r' ↔
      found = (r.expire now).records[e]?.map ActiveRecord.announcement ∧ r' = r.expire now := by
  simp [active, eq_comm, and_comm]

omit [SequenceStore I S] in
theorem returns_endpointForNode {name : Text} {found : Option I.EndpointId} :
    (endpointForNode order name now).Returns r found r' ↔
      found = (((r.expire now).values order).find? fun record ↦
          record.announcement.nodeName = name).map (fun record ↦ record.announcement.endpointId)
        ∧ r' = r.expire now := by
  simp [endpointForNode, eq_comm, and_comm]

omit [SequenceStore I S] in
theorem returns_bindings {pairs : List (I.EndpointId × Text × UInt64)} :
    (bindings order now).Returns r pairs r' ↔
      pairs = ((r.expire now).values order).map (fun record ↦
          (record.announcement.endpointId, record.announcement.nodeName,
            saturatingSub (saturatingAdd record.receivedAt record.announcement.ttlMs) now))
        ∧ r' = r.expire now := by
  simp [bindings, eq_comm, and_comm]

omit [SequenceStore I S] in
theorem mem_values {record : ActiveRecord I} :
    record ∈ r.values order ↔ ∃ e : I.EndpointId, r.records[e]? = some record := by
  rw [values, (order.perm _).mem_iff, List.mem_map]
  constructor
  · rintro ⟨⟨e, _⟩, hmem, rfl⟩
    exact ⟨e, ExtTreeMap.mem_toList_iff_getElem?_eq_some.mp hmem⟩
  · rintro ⟨e, h⟩
    exact ⟨(e, record), ExtTreeMap.mem_toList_iff_getElem?_eq_some.mpr h, rfl⟩

omit [SequenceStore I S] in
theorem exists_record_of_mem_foundPeers {predicates : List Predicate} {peer : Peer I}
    (h : peer ∈ r.foundPeers order predicates) :
    ∃ (e : I.EndpointId) (record : ActiveRecord I), r.records[e]? = some record
      ∧ peer = record.announcement.peer := by
  obtain ⟨record, hmem, rfl⟩ := List.mem_map.mp h
  rw [mem_sortBy, List.mem_filter] at hmem
  obtain ⟨e, he⟩ := mem_values.mp hmem.1
  exact ⟨e, record, he, rfl⟩

/-- **Every active announcement was signed by its own endpoint for this fleet**, and so was
everything a query returns. -/
theorem records_signed {calls : List (SignCall I)} {r : Registry I S} (h : SignedRun calls r) :
    (∀ (e : I.EndpointId) (record : ActiveRecord I), r.records[e]? = some record →
        SignedFor calls r.fleetId record.announcement ∧ record.announcement.endpointId = e)
      ∧ (∀ e now a r', (active e now).Returns r (some a) r' →
        SignedFor calls r.fleetId a ∧ a.endpointId = e)
      ∧ (∀ order predicates now peers r', (find order predicates now).Returns r peers r' →
        ∀ peer ∈ peers, ∃ a, SignedFor calls r.fleetId a ∧ peer = a.peer)
      ∧ (∀ order name now e r', (endpointForNode order name now).Returns r (some e) r' →
        ∃ a, SignedFor calls r.fleetId a ∧ a.endpointId = e ∧ a.nodeName = name)
      ∧ ∀ order now pairs r', (bindings order now).Returns r pairs r' →
        ∀ pair ∈ pairs, ∃ a, SignedFor calls r.fleetId a ∧ a.endpointId = pair.1
          ∧ a.nodeName = pair.2.1 := by
  have hrecords := h.records
  have hexpired : ∀ now order record, record ∈ (r.expire now).values order →
      SignedFor calls r.fleetId record.announcement := by
    intro now order record hmem
    obtain ⟨e, he⟩ := mem_values.mp hmem
    exact (hrecords e record (getElem?_expire.mp he).1).1
  refine ⟨hrecords, ?_, ?_, ?_, ?_⟩
  · intro e now a r' hactive
    obtain ⟨ha, -⟩ := returns_active.mp hactive
    obtain ⟨record, hrecord, rfl⟩ := Option.map_eq_some_iff.mp ha.symm
    exact hrecords e record (getElem?_expire.mp hrecord).1
  · intro order predicates now peers r' hfind peer hpeer
    obtain ⟨rfl, -, -⟩ := returns_find.mp hfind
    obtain ⟨e, record, hrecord, rfl⟩ := exists_record_of_mem_foundPeers hpeer
    exact ⟨_, (hrecords e record (getElem?_expire.mp hrecord).1).1, rfl⟩
  · intro order name now e r' hnode
    obtain ⟨he, -⟩ := returns_endpointForNode.mp hnode
    obtain ⟨record, hfound, rfl⟩ := Option.map_eq_some_iff.mp he.symm
    have hname := List.find?_some hfound
    exact ⟨record.announcement, hexpired now order record (List.mem_of_find?_eq_some hfound), rfl,
      by simpa using hname⟩
  · intro order now pairs r' hbindings pair hpair
    obtain ⟨rfl, -⟩ := returns_bindings.mp hbindings
    obtain ⟨record, hmem, rfl⟩ := List.mem_map.mp hpair
    exact ⟨record.announcement, hexpired now order record hmem, rfl, rfl⟩

/-- The only endpoint signs an announcement, and the registry takes it in. -/
theorem records_signed_sample :
    ∃ (calls : List (SignCall Iroh.single))
      (r : Registry Iroh.single (MemorySequenceStore Iroh.single)),
      r.records[sample.endpointId]? = some ⟨sample, 0⟩ ∧ SignedFor calls r.fleetId sample := by
  obtain ⟨r, hreturns, haccepted⟩ := (admissible_sampleEnvelope 0).exists_accepted
  have hresult : SignCall.result ⟨.announcement sample, ()⟩ = .ok sampleEnvelope :=
    sign_eq_ok_iff.mpr ⟨by decide, rfl,
      signBody_eq_ok_iff.mpr ⟨rfl, opens_sampleEnvelope.length_le⟩⟩
  have hunforged : Unforged [⟨.announcement sample, ()⟩] sampleEnvelope := by
    intro body signature e hdecode _
    obtain ⟨-, body', hbody, hdecode', -⟩ := opens_iff.mp opens_sampleEnvelope
    obtain rfl : body' = body := congrArg Prod.fst (Except.ok.inj (hdecode'.symm.trans hdecode))
    refine ⟨_, List.mem_singleton_self _, rfl, ?_⟩
    rw [hbody]
    rfl
  have hrun : SignedRun [⟨.announcement sample, ()⟩] r := by
    rw [← hreturns.after_eq]
    refine .step (.receive sampleEnvelope 0) ?_ (.sign _ _ hresult (.new _ _ _ _))
    rintro _ _ ⟨⟩
    exact hunforged
  have hrecord : r.records[sample.endpointId]? = some ⟨sample, 0⟩ := by
    rw [haccepted.records, getElem?_updateRecords]
    rfl
  exact ⟨_, r, hrecord, ((records_signed hrun).1 _ _ hrecord).1⟩

end Registry

end NervesP2P
