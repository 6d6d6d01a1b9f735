import NervesP2P.Discovery.Receive

/-!
# What one call of `receive` does

The two contracts of the receiver, over every registry and every byte string.

A call succeeds exactly on the envelopes that are `Admissible`, and then it takes the message in:
the watermark and the record of the sender follow the message, and every other endpoint keeps what
it had.

A call that fails should change neither the authorization table, nor a watermark, nor a record. That
is so with one exception. Under the open enrollment policy a valid signed announcement of an unknown
endpoint is enrolled before its sequence is compared with the watermark. When the watermark is
already there, because the endpoint was revoked or the process restarted on the same sequence file,
a replay is refused as stale and its sender is authorized again.
-/

open Std (ExtTreeMap)

namespace NervesP2P

namespace Registry

variable {I : Iroh} {S : Type}
variable {r r' : Registry I S} {now : UInt64} {envelope : List UInt8} {m : Message I}

/-! ## The tables after an accepted message

The two tables are updated at one endpoint each. Under the open policy the sender of an accepted
message is enrolled afterwards, and the entries are those of a table again: there was room, and the
name is valid. -/

/-- The record a message leaves for its endpoint. -/
def recordOf (message : Message I) (now : UInt64) : Option (ActiveRecord I) :=
  match message with
  | .announcement announcement => some ⟨announcement, now⟩
  | .withdrawal _ => none

theorem getElem?_updateRecords (message : Message I) (now : UInt64)
    (records : ExtTreeMap I.EndpointId (ActiveRecord I)) (e : I.EndpointId) :
    (updateRecords message now records)[e]?
      = if message.endpointId = e then recordOf message now else records[e]? := by
  cases message with
  | announcement a => exact getElem?_insert_eq _ _ _ _
  | withdrawal w => exact getElem?_erase_eq _ _ _

theorem getElem?_enrolledEntries_of_ne {e : I.EndpointId} (h : e ≠ m.endpointId) :
    (r.enrolledEntries m)[e]? = r.authorization.entries[e]? := by
  cases hname : r.authorization.nodeName m.endpointId with
  | some name => rw [enrolledEntries_of_some hname]
  | none =>
    cases m with
    | announcement a =>
      rw [enrolledEntries_of_none hname, getElem?_insert_eq]
      exact if_neg h.symm
    | withdrawal w => simp [enrolledEntries]

theorem isSome_enrolledEntries (h : r.MayEnroll m) :
    ((r.enrolledEntries m)[m.endpointId]?).isSome = true := by
  cases hname : r.authorization.nodeName m.endpointId with
  | some name =>
    rw [enrolledEntries_of_some hname, ← AuthorizationTable.nodeName, hname]
    rfl
  | none =>
    rcases h with hsome | ⟨-, ⟨a, rfl⟩, -⟩
    · rw [hname] at hsome
      cases hsome
    · rw [enrolledEntries_of_none hname, Message.endpointId.eq_def, getElem?_insert_eq, if_pos rfl]
      rfl

theorem exists_table_enrolledEntries (h : r.MayEnroll m) (hvalid : validateMessage m = .ok ()) :
    ∃ table : AuthorizationTable I, table.entries = r.enrolledEntries m := by
  cases hname : r.authorization.nodeName m.endpointId with
  | some name => exact ⟨r.authorization, (enrolledEntries_of_some hname).symm⟩
  | none =>
    rcases h with hsome | ⟨-, ⟨a, rfl⟩, hsize⟩
    · rw [hname] at hsome
      cases hsome
    · have hroom := (hasRoom_iff_of_none hname).mpr hsize
      have hnode := (validateAnnouncement_eq_ok_iff.mp hvalid).2.2.1
      rw [enrolledEntries_of_none hname]
      exact ⟨⟨_, r.authorization.size_insert_le a.nodeName hroom,
        r.authorization.valid_insert hnode⟩, rfl⟩

theorem entries_insert_ne {e : I.EndpointId} {name : Text} (h : r.authorization.nodeName e = none) :
    r.authorization.entries.insert e name ≠ r.authorization.entries := by
  intro heq
  rw [AuthorizationTable.nodeName, ← heq, getElem?_insert_eq, if_pos rfl] at h
  cases h

/-! ## Success

`Admissible` says of an envelope what is in it and why the registry accepts that, in terms of the
registry before the call and of nothing that the call computes. The bytes determine the message, so
an admissible envelope has one outcome, which is `TookIn`. -/

section Success

variable [SequenceStore I S]

/-- The envelopes a registry accepts, and the messages in them. -/
structure Admissible (registry : Registry I S) (envelope : List UInt8) (now : UInt64)
    (message : Message I) : Prop where
  /-- At most 16 KiB. -/
  length_le : envelope.length ≤ maxMessageSize
  /-- At most 32 capabilities, and no list of more than 32 texts. -/
  bounded : message.Bounded
  /-- The bytes are the envelope of the encoded message, signed by its endpoint. -/
  signed : ∃ signature, envelope = encodeEnvelope (encodeMessage message) (I.toBytes signature)
    ∧ I.verify message.endpointId (domain ++ encodeMessage message) signature = true
  fleet : message.fleetId = registry.fleetId
  enrolled : registry.MayEnroll message
  valid : validateMessage message = .ok ()
  /-- An announcement carries the name its endpoint is enrolled under. -/
  named : ∀ name, registry.authorization.nodeName message.endpointId = some name →
    Named message name
  /-- The sequence is above the watermark. -/
  fresh : registry.Fresh message.endpointId message.sequence
  not_full : ¬registry.RateFull message.endpointId now
  advances : ∃ store,
    (SequenceStore.advance message.endpointId message.sequence).Returns registry.store () store

/-- What a registry looks like once it has taken a message in. -/
structure TookIn (registry : Registry I S) (message : Message I) (now : UInt64)
    (registry' : Registry I S) : Prop where
  watermark : SequenceStore.load registry'.store message.endpointId = .ok message.sequence
  record : registry'.records[message.endpointId]? = recordOf message now
  enrolled : (registry'.authorization.nodeName message.endpointId).isSome = true
  noted : registry'.rate[message.endpointId]?
    = some (registry.rateWindow message.endpointId now ++ [now])
  /-- Nothing of another endpoint changes. -/
  other : ∀ e, e ≠ message.endpointId →
    SequenceStore.load registry'.store e = SequenceStore.load registry.store e
      ∧ registry'.records[e]? = registry.records[e]?
      ∧ registry'.authorization.nodeName e = registry.authorization.nodeName e
      ∧ registry'.rate[e]? = registry.rate[e]?
  fleetId : registry'.fleetId = registry.fleetId
  enrollment : registry'.enrollment = registry.enrollment

theorem returns_receive_iff {u : Unit} :
    (receive envelope now).Returns r u r' ↔
      ∃ m, r.Admissible envelope now m ∧ r.Accepted m now r' := by
  rw [returns_receive]
  constructor
  · rintro ⟨m, signature, hopens, h⟩
    obtain ⟨hverify, haccepts, haccepted⟩ := returns_process.mp h
    exact ⟨m, ⟨hopens.length_le, hopens.bounded, ⟨signature, hopens.eq_encode, hverify⟩,
      haccepts.fleet, haccepts.enrolled, haccepts.valid, haccepts.named, haccepts.fresh,
      haccepts.not_full, _, haccepted.store⟩, haccepted⟩
  · rintro ⟨m, hadm, haccepted⟩
    obtain ⟨signature, henvelope, hverify⟩ := hadm.signed
    refine ⟨m, signature, ⟨hadm.length_le, hadm.bounded, henvelope⟩, ?_⟩
    rw [returns_process]
    exact ⟨hverify, ⟨hadm.fleet, hadm.enrolled, hadm.valid, hadm.named, hadm.fresh,
      hadm.not_full⟩, haccepted⟩

/-- Nothing else is needed for a call to succeed. -/
theorem Admissible.exists_accepted (h : r.Admissible envelope now m) :
    ∃ r', (receive envelope now).Returns r () r' ∧ r.Accepted m now r' := by
  obtain ⟨store, hstore⟩ := h.advances
  obtain ⟨table, htable⟩ := exists_table_enrolledEntries h.enrolled h.valid
  have haccepted : r.Accepted m now { r.noteTime m.endpointId now with
      authorization := table, store, records := updateRecords m now r.records } :=
    ⟨rfl, rfl, htable, hstore, rfl, rfl⟩
  exact ⟨_, returns_receive_iff.mpr ⟨m, h, haccepted⟩, haccepted⟩

theorem Admissible.unique {m₁ m₂ : Message I} (h₁ : r.Admissible envelope now m₁)
    (h₂ : r.Admissible envelope now m₂) :
    m₁ = m₂ := by
  obtain ⟨s₁, henv₁, -⟩ := h₁.signed
  obtain ⟨s₂, henv₂, -⟩ := h₂.signed
  exact (Opens.unique ⟨h₁.length_le, h₁.bounded, henv₁⟩ ⟨h₂.length_le, h₂.bounded, henv₂⟩).1

theorem Accepted.tookIn [LawfulSequenceStore I S] (henroll : r.MayEnroll m)
    (h : r.Accepted m now r') : r.TookIn m now r' where
  watermark := LawfulSequenceStore.load_of_returns h.store
  record := by rw [h.records, getElem?_updateRecords, if_pos rfl]
  enrolled := by
    rw [AuthorizationTable.nodeName, h.authorization]
    exact isSome_enrolledEntries henroll
  noted := by rw [h.rate, getElem?_insert_eq, if_pos rfl]
  other e hne := by
    refine ⟨LawfulSequenceStore.load_of_returns_of_ne h.store hne, ?_, ?_, ?_⟩
    · rw [h.records, getElem?_updateRecords, if_neg hne.symm]
    · rw [AuthorizationTable.nodeName, h.authorization]
      exact getElem?_enrolledEntries_of_ne hne
    · rw [h.rate, getElem?_insert_eq, if_neg hne.symm]
  fleetId := h.fleetId
  enrollment := h.enrollment

theorem Opens.admissible [LawfulSequenceStore I S] {signature : I.Signature}
    (hopens : Opens envelope m signature) (h : (receive envelope now).Returns r () r') :
    r.Admissible envelope now m ∧ r.TookIn m now r' := by
  obtain ⟨m', hadm, haccepted⟩ := returns_receive_iff.mp h
  obtain ⟨signature', henvelope, -⟩ := hadm.signed
  obtain ⟨rfl, -⟩ := hopens.unique ⟨hadm.length_le, hadm.bounded, henvelope⟩
  exact ⟨hadm, haccepted.tookIn hadm.enrolled⟩

theorem Opens.tookIn [LawfulSequenceStore I S] {signature : I.Signature}
    (hopens : Opens envelope m signature) (h : (receive envelope now).Returns r () r') :
    r.TookIn m now r' :=
  (hopens.admissible h).2

theorem exists_returns_receive_iff [LawfulSequenceStore I S] :
    (∃ r', (receive envelope now).Returns r () r') ↔ ∃ m, r.Admissible envelope now m := by
  constructor
  · rintro ⟨r', h⟩
    obtain ⟨m, hadm, -⟩ := returns_receive_iff.mp h
    exact ⟨m, hadm⟩
  · rintro ⟨m, hadm⟩
    obtain ⟨r', h, -⟩ := hadm.exists_accepted
    exact ⟨r', h⟩

/-- **What `receive` accepts, and what it makes of it.** -/
theorem receive_ok_iff [LawfulSequenceStore I S] (registry : Registry I S) (envelope : List UInt8)
    (now : UInt64) :
    ((∃ registry', (receive envelope now).Returns registry () registry') ↔
        ∃ message, registry.Admissible envelope now message)
      ∧ ∀ registry' message, (receive envelope now).Returns registry () registry' →
          registry.Admissible envelope now message → registry.TookIn message now registry' := by
  refine ⟨exists_returns_receive_iff, ?_⟩
  intro registry' message h hadm
  obtain ⟨m, hadm', haccepted⟩ := returns_receive_iff.mp h
  obtain rfl := hadm.unique hadm'
  exact haccepted.tookIn hadm.enrolled

end Success

/-! ### A first message

In the world of one key, an open registry takes in the first announcement of an unknown endpoint. -/

def sample : Announcement Iroh.single where
  fleetId := List.Vector.replicate 32 0
  endpointId := ()
  nodeName := ⟨"a@b", by decide⟩
  partisanIp := List.Vector.replicate 4 0
  partisanPort := ⟨1, by decide⟩
  sequence := 1
  ttlMs := 5000
  capabilities := ∅
  load := ⟨0, 1⟩

def sampleEnvelope : List UInt8 :=
  encodeEnvelope (encodeAnnouncement sample) (Iroh.single.toBytes ())

/-- A registry without any enrolled endpoint, over the given store. -/
def started (enrollment : EnrollmentPolicy) (store : MemorySequenceStore Iroh.single) :
    Registry Iroh.single (MemorySequenceStore Iroh.single) :=
  (new (List.Vector.replicate 32 0) .empty store).withEnrollmentPolicy enrollment

theorem opens_sampleEnvelope : Opens sampleEnvelope (.announcement sample) () where
  length_le := by decide +kernel
  bounded := ⟨by decide, by simp [sample]⟩
  eq_encode := rfl

def nextSample : Announcement Iroh.single := { sample with sequence := 2 }

def nextEnvelope : List UInt8 :=
  encodeEnvelope (encodeAnnouncement nextSample) (Iroh.single.toBytes ())

theorem opens_nextEnvelope : Opens nextEnvelope (.announcement nextSample) () where
  length_le := by decide +kernel
  bounded := ⟨by decide, by simp [nextSample, sample]⟩
  eq_encode := rfl

theorem admissible_sampleEnvelope (now : UInt64) :
    (started .signedFleet ⟨∅⟩).Admissible sampleEnvelope now (.announcement sample) where
  length_le := opens_sampleEnvelope.length_le
  bounded := opens_sampleEnvelope.bounded
  signed := ⟨(), rfl, rfl⟩
  fleet := rfl
  enrolled := Or.inr ⟨rfl, ⟨sample, rfl⟩, by decide⟩
  valid := by decide
  named := by
    intro name hname
    have hnone : (started .signedFleet ⟨∅⟩).authorization.nodeName () = none := by decide
    exact absurd (hnone.symm.trans hname) (by simp)
  fresh := ⟨0, by decide, by decide⟩
  not_full := by
    rw [RateFull, rateWindow, started, withEnrollmentPolicy, new, ExtTreeMap.getElem?_empty,
      Option.getD_none, List.dropWhile_nil]
    decide
  advances := ⟨_, Method.returns_after (by decide)⟩

theorem receive_ok_sample :
    ∃ registry', (receive sampleEnvelope 0).Returns (started .signedFleet ⟨∅⟩) () registry'
      ∧ (started .signedFleet ⟨∅⟩).TookIn (.announcement sample) 0 registry' := by
  have hok := receive_ok_iff (started .signedFleet ⟨∅⟩) sampleEnvelope 0
  obtain ⟨registry', h⟩ := hok.1.mpr ⟨_, admissible_sampleEnvelope 0⟩
  exact ⟨registry', h, hok.2 registry' _ h (admissible_sampleEnvelope 0)⟩

/-! ## Failure

Of the checks of `receive` only those after the enrollment can leave something behind: the limiter,
the watermark and the store. `EnrollsThenFails` names these messages by their contents. They are
refused indeed, and leave their sender in the table; every other call that fails changes nothing of
the three. So the exception is exact. -/

section Failure

variable [SequenceStore I S]

/-- The authorization table, every watermark and every record are the same. -/
def Unchanged (registry registry' : Registry I S) : Prop :=
  registry'.authorization = registry.authorization
    ∧ (∀ e : I.EndpointId,
        SequenceStore.load registry'.store e = SequenceStore.load registry.store e)
    ∧ registry'.records = registry.records

/-- The envelope holds a signed announcement that enrolls its sender and is then refused, by the
limiter, by the watermark or by the store. -/
def EnrollsThenFails (registry : Registry I S) (envelope : List UInt8) (now : UInt64) : Prop :=
  ∃ announcement signature, Opens envelope (.announcement announcement) signature
    ∧ registry.SelfEnrolls signature announcement
    ∧ (registry.RateFull announcement.endpointId now
      ∨ ¬registry.Fresh announcement.endpointId announcement.sequence
      ∨ ∀ store, ¬(SequenceStore.advance announcement.endpointId announcement.sequence).Returns
          registry.store () store)

theorem Retained.load_eq [LawfulSequenceStore I S] {e : I.EndpointId} (h : r.Retained e now r')
    (e' : I.EndpointId) :
    SequenceStore.load r'.store e' = SequenceStore.load r.store e' := by
  rcases h.store with heq | ⟨n, err, hfails⟩
  · rw [heq]
  · exact LawfulSequenceStore.load_of_fails hfails e'

theorem SelfEnrolls.enrollsThenFails {a : Announcement I} {signature : I.Signature} {err : Error}
    (hself : r.SelfEnrolls signature a) (hopens : Opens envelope (.announcement a) signature)
    (h : (receive envelope now).Fails r err r') : r.EnrollsThenFails envelope now := by
  refine ⟨a, signature, hopens, hself, ?_⟩
  by_contra hno
  push Not at hno
  obtain ⟨hrate, hfresh, store, hstore⟩ := hno
  have hadm : r.Admissible envelope now (.announcement a) :=
    { length_le := hopens.length_le
      bounded := hopens.bounded
      signed := ⟨signature, hopens.eq_encode, hself.signed⟩
      fleet := hself.fleet
      enrolled := Or.inr ⟨hself.policy, ⟨a, rfl⟩, (hasRoom_iff_of_none hself.unknown).mp hself.room⟩
      valid := hself.valid
      named := fun name hname ↦ absurd (hself.unknown.symm.trans hname) (by simp)
      fresh := hfresh
      not_full := hrate
      advances := ⟨store, hstore⟩ }
  obtain ⟨r'', hreturns, -⟩ := hadm.exists_accepted
  exact hreturns.not_fails h

theorem EnrollsThenFails.not_returns (h : r.EnrollsThenFails envelope now) :
    ¬(receive envelope now).Returns r () r' := by
  obtain ⟨a, signature, hopens, -, hwhy⟩ := h
  intro hreturns
  obtain ⟨m, hadm, -⟩ := returns_receive_iff.mp hreturns
  obtain ⟨signature', henvelope, -⟩ := hadm.signed
  obtain ⟨rfl, -⟩ := hopens.unique ⟨hadm.length_le, hadm.bounded, henvelope⟩
  obtain ⟨store, hstore⟩ := hadm.advances
  rcases hwhy with hfull | hstale | hfails
  · exact hadm.not_full hfull
  · exact hstale hadm.fresh
  · exact hfails store hstore

/-- It leaves its sender in the table. -/
theorem EnrollsThenFails.not_unchanged {err : Error} (h : r.EnrollsThenFails envelope now)
    (hfails : (receive envelope now).Fails r err r') : ¬r.Unchanged r' := by
  obtain ⟨a, signature, hopens, hself, -⟩ := h
  rintro ⟨hsame, -⟩
  have hprocess : (process (encodeMessage (.announcement a)) signature (.announcement a) now).Fails
      r err r' := (hopens.call_receive now r).symm.trans hfails
  rcases fails_process_unknown hself.unknown hprocess with ⟨-, hnot⟩ | ⟨a', ha, -, -, hentries⟩
  · exact hnot a rfl hself
  · obtain rfl := Message.announcement.inj ha
    rw [hsame] at hentries
    exact entries_insert_ne hself.unknown hentries.symm

/-- Every other call that fails changes nothing of the kind. -/
theorem unchanged_of_fails_receive [LawfulSequenceStore I S] {err : Error}
    (hnot : ¬r.EnrollsThenFails envelope now) (hfails : (receive envelope now).Fails r err r') :
    r.Unchanged r' := by
  rcases Registry.fails_receive hfails with rfl | ⟨m, signature, hopens, hprocess⟩
  · exact ⟨rfl, fun e ↦ rfl, rfl⟩
  cases hname : r.authorization.nodeName m.endpointId with
  | some name =>
    obtain ⟨hretained, hauth⟩ := fails_process_enrolled hname hprocess
    exact ⟨hauth, hretained.load_eq, hretained.records⟩
  | none =>
    rcases fails_process_unknown hname hprocess with ⟨rfl, -⟩ | ⟨a, rfl, hself, -, -⟩
    · exact ⟨rfl, fun e ↦ rfl, rfl⟩
    · exact absurd (hself.enrollsThenFails hopens hfails) hnot

/-- **A failed `receive` changes neither the authorization table, nor a watermark, nor a record,
unless the message enrolled its sender first.** -/
theorem receive_error_unchanged_iff [LawfulSequenceStore I S] (registry : Registry I S)
    (envelope : List UInt8) (now : UInt64) :
    (∀ err registry', (receive envelope now).Fails registry err registry' →
        registry.Unchanged registry') ↔
      ¬registry.EnrollsThenFails envelope now := by
  constructor
  · intro hunchanged hboth
    rcases Method.returns_or_fails (receive envelope now) registry with ⟨u, h⟩ | ⟨err, h⟩
    · exact hboth.not_returns h
    · exact hboth.not_unchanged h (hunchanged err _ h)
  · intro hnot err registry' hfails
    exact unchanged_of_fails_receive hnot hfails

end Failure

theorem receive_error_unchanged_strict :
    ∃ registry', (receive sampleEnvelope 0).Fails (started .strict ⟨∅⟩) .unauthorizedEndpoint
        registry' ∧ (started .strict ⟨∅⟩).Unchanged registry' := by
  have hstrict : ¬(started .strict ⟨∅⟩).EnrollsThenFails sampleEnvelope 0 := by
    rintro ⟨a, signature, -, hself, -⟩
    exact absurd hself.policy (by decide)
  obtain ⟨registry', hfails⟩ : ∃ registry', (receive sampleEnvelope 0).Fails (started .strict ⟨∅⟩)
      .unauthorizedEndpoint registry' :=
    ⟨_, opens_sampleEnvelope.fails_receive (Method.fails_after (by decide))⟩
  exact ⟨registry', hfails, (receive_error_unchanged_iff _ _ _).mpr hstrict _ _ hfails⟩

/-- After a restart the store still holds the sequence of an announcement and the table is empty.
The replay is refused as stale, and its sender is enrolled. -/
theorem stale_announcement_enrolls :
    ∃ registry', (receive sampleEnvelope 0).Fails
        (started .signedFleet ⟨ExtTreeMap.empty.insert () 1⟩) .staleSequence registry'
      ∧ ¬(started .signedFleet ⟨ExtTreeMap.empty.insert () 1⟩).Unchanged registry' := by
  refine ⟨_, opens_sampleEnvelope.fails_receive (Method.fails_after (by decide)), ?_⟩
  rintro ⟨hsame, -, -⟩
  have hname := congrArg (AuthorizationTable.nodeName · ()) hsame
  exact absurd hname (by decide)

end Registry

end NervesP2P
