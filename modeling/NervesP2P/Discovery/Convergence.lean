import NervesP2P.Discovery.Acceptance
import NervesP2P.Lib.Latest

/-!
# Gossip converges

Gossip delivers the messages of a fleet to every receiver, in any order and any number of times. A
receiver that refuses whatever is not above its watermark keeps the latest message of each endpoint:
it is a last-writer-wins replica with the endpoint as the key and the sequence as the stamp. `Shows`
is the refinement: the watermark is the sequence of the message held, and the active announcement is
that message when it is an announcement.

The deliveries are envelopes, and what the receiver is given are their bytes. Two of them may carry
one message under different signatures.

## The argument

A delivery that is newer than what the registry shows is taken in and shown from then on, and one
that is not above the watermark changes nothing of what is shown. Together these two cases are the
step of a replica (`Shows.deliver`), and since validation demands a sequence above zero, the first
message of an endpoint is newer than none at all. By induction the registry does what the replica
does (`Shows.foldl_deliver`). That replicas agree whatever the order is a fact about replicas, and
is not proved here again.

What is left to assume is what would make a registry differ from a replica: that no delivery finds
the rate window of its endpoint full, and that the store takes every number.
-/

namespace NervesP2P

variable {I : Iroh} {S : Type}

/-- A signed message, and when it arrives. -/
structure Delivery (I : Iroh) where
  message : Message I
  signature : I.Signature
  now : UInt64

namespace Delivery

def envelope (delivery : Delivery I) : List UInt8 :=
  encodeEnvelope (encodeMessage delivery.message) (I.toBytes delivery.signature)

/-- A valid signed message of an enrolled endpoint under its enrolled name. -/
structure Valid (fleetId : FleetId) (table : AuthorizationTable I) (delivery : Delivery I) :
    Prop where
  opens : Registry.Opens delivery.envelope delivery.message delivery.signature
  signed : I.verify delivery.message.endpointId (domain ++ encodeMessage delivery.message)
    delivery.signature = true
  fleet : delivery.message.fleetId = fleetId
  valid : validateMessage delivery.message = .ok ()
  enrolled : ∃ name, table.nodeName delivery.message.endpointId = some name
    ∧ Registry.Named delivery.message name

end Delivery

theorem sequence_pos_of_validateMessage {m : Message I} (h : validateMessage m = .ok ()) :
    0 < m.sequence := by
  have hne : m.sequence ≠ 0 := by
    cases m with
    | announcement a => exact (validateAnnouncement_eq_ok_iff.mp h).1
    | withdrawal w =>
      intro hzero
      rw [Message.sequence] at hzero
      rw [validateMessage, validateWithdrawal, if_pos hzero] at h
      cases h
  exact UInt64.pos_iff_ne_zero.mpr hne

namespace Registry

section Deliver

variable [SequenceStore I S]

/-- Hand over one delivery, whatever comes of it. -/
def deliver (registry : Registry I S) (delivery : Delivery I) : Registry I S :=
  (receive delivery.envelope delivery.now).after registry

/-- No delivery finds the rate window of its endpoint full. -/
def NotLimited : Registry I S → List (Delivery I) → Prop
  | _, [] => True
  | registry, delivery :: deliveries =>
    ¬registry.RateFull delivery.message.endpointId delivery.now
      ∧ NotLimited (registry.deliver delivery) deliveries

/-- The watermark after the given message has been the last one taken in. -/
def watermarkOf : Option (Message I) → UInt64
  | some message => message.sequence
  | none => 0

/-- The announcement that is active then. -/
def activeOf : Option (Message I) → Option (Announcement I)
  | some (.announcement announcement) => some announcement
  | _ => none

/-- The announcement a registry holds for an endpoint. -/
def announcementOf (registry : Registry I S) (endpoint : I.EndpointId) : Option (Announcement I) :=
  registry.records[endpoint]?.map ActiveRecord.announcement

/-- The registry shows exactly the given message of each endpoint. -/
structure Shows (registry : Registry I S) (fleetId : FleetId) (table : AuthorizationTable I)
    (state : I.EndpointId → Option (Message I)) : Prop where
  fleetId : registry.fleetId = fleetId
  authorization : registry.authorization = table
  watermark : ∀ e, SequenceStore.load registry.store e = .ok (watermarkOf (state e))
  active : ∀ e, registry.announcementOf e = activeOf (state e)

theorem map_announcement_recordOf (m : Message I) (now : UInt64) :
    (recordOf m now).map ActiveRecord.announcement = activeOf (some m) := by
  cases m <;> rfl

variable {fleetId : FleetId} {table : AuthorizationTable I} {r : Registry I S}
  {state : I.EndpointId → Option (Message I)} {d : Delivery I}

theorem Shows.deliver_of_newer [LawfulSequenceStore I S] [InfallibleSequenceStore I S]
    (h : r.Shows fleetId table state) (hd : d.Valid fleetId table)
    (hrate : ¬r.RateFull d.message.endpointId d.now)
    (hnewer : watermarkOf (state d.message.endpointId) < d.message.sequence) :
    (r.deliver d).Shows fleetId table
      (Function.update state d.message.endpointId (some d.message)) := by
  obtain ⟨name, hname, hnamed⟩ := hd.enrolled
  rw [← h.authorization] at hname
  have hadm : r.Admissible d.envelope d.now d.message :=
    { length_le := hd.opens.length_le
      bounded := hd.opens.bounded
      signed := ⟨d.signature, rfl, hd.signed⟩
      fleet := hd.fleet.trans h.fleetId.symm
      enrolled := Or.inl (by rw [hname]; rfl)
      valid := hd.valid
      named := by
        intro other hother
        rw [hname, Option.some_inj] at hother
        exact hother ▸ hnamed
      fresh := ⟨_, h.watermark _, hnewer⟩
      not_full := hrate
      advances := InfallibleSequenceStore.exists_advance (h.watermark _) hnewer }
  obtain ⟨r', hreturns, haccepted⟩ := hadm.exists_accepted
  have htook := haccepted.tookIn hadm.enrolled
  rw [deliver, hreturns.after_eq]
  refine ⟨htook.fleetId.trans h.fleetId, ?_, fun e ↦ ?_, fun e ↦ ?_⟩
  · rw [← h.authorization]
    refine AuthorizationTable.ext (haccepted.authorization.trans ?_)
    exact enrolledEntries_of_some hname
  · by_cases he : e = d.message.endpointId
    · subst he
      rw [Function.update_self]
      exact htook.watermark
    · rw [Function.update_of_ne he, (htook.other e he).1]
      exact h.watermark e
  · by_cases he : e = d.message.endpointId
    · subst he
      rw [Function.update_self, announcementOf, htook.record]
      exact map_announcement_recordOf d.message d.now
    · rw [Function.update_of_ne he, announcementOf, (htook.other e he).2.1]
      exact h.active e

theorem Shows.deliver_of_stale [LawfulSequenceStore I S] (h : r.Shows fleetId table state)
    (hd : d.Valid fleetId table)
    (hstale : d.message.sequence ≤ watermarkOf (state d.message.endpointId)) :
    (r.deliver d).Shows fleetId table state := by
  obtain ⟨name, hname, -⟩ := hd.enrolled
  rw [← h.authorization] at hname
  have hnot : ∀ u r', ¬(receive d.envelope d.now).Returns r u r' := by
    intro u r' hreturns
    obtain ⟨m, hadm, -⟩ := returns_receive_iff.mp hreturns
    obtain ⟨signature, henvelope, -⟩ := hadm.signed
    obtain ⟨rfl, -⟩ := hd.opens.unique ⟨hadm.length_le, hadm.bounded, henvelope⟩
    obtain ⟨stored, hload, hlt⟩ := hadm.fresh
    rw [h.watermark] at hload
    obtain rfl := Except.ok.inj hload
    exact UInt64.lt_irrefl _ (UInt64.lt_of_le_of_lt hstale hlt)
  rcases Method.returns_or_fails (receive d.envelope d.now) r with ⟨u, hreturns⟩ | ⟨err, hfails⟩
  · exact absurd hreturns (hnot u _)
  rw [deliver]
  rcases fails_receive hfails with hsame | ⟨m, signature, hopens, hprocess⟩
  · rw [hsame]
    exact h
  obtain ⟨rfl, -⟩ := hd.opens.unique hopens
  obtain ⟨hretained, hauth⟩ := fails_process_enrolled hname hprocess
  refine ⟨hretained.fleetId.trans h.fleetId, hauth.trans h.authorization, fun e ↦ ?_, fun e ↦ ?_⟩
  · rw [hretained.load_eq]
    exact h.watermark e
  · rw [announcementOf, hretained.records]
    exact h.active e

/-- **The step lemma**: a delivery does to the registry what it does to a replica. -/
theorem Shows.deliver [LawfulSequenceStore I S] [InfallibleSequenceStore I S]
    (h : r.Shows fleetId table state) (hd : d.Valid fleetId table)
    (hrate : ¬r.RateFull d.message.endpointId d.now) :
    (r.deliver d).Shows fleetId table
      (keep Message.endpointId (fun m ↦ m.sequence.toNat) state d.message) := by
  by_cases hstale : d.message.sequence ≤ watermarkOf (state d.message.endpointId)
  · cases hstate : state d.message.endpointId with
    | some m =>
      rw [hstate] at hstale
      rw [keep_of_le hstate (UInt64.le_iff_toNat_le.mp hstale)]
      exact h.deliver_of_stale hd (hstate ▸ hstale)
    | none =>
      -- the watermark is zero then, and no valid message is at or below it
      rw [hstate] at hstale
      have hpos := sequence_pos_of_validateMessage hd.valid
      exact absurd (UInt64.lt_of_le_of_lt hstale hpos) (UInt64.lt_irrefl _)
  · have hnewer := UInt64.not_le.mp hstale
    rw [keep_of_newer]
    · exact h.deliver_of_newer hd hrate hnewer
    · intro m hstate
      rw [hstate] at hnewer
      exact UInt64.lt_iff_toNat_lt.mp hnewer

/-- **The run lemma**: the deliveries do to the registry what they do to a replica. -/
theorem Shows.foldl_deliver [LawfulSequenceStore I S] [InfallibleSequenceStore I S]
    (deliveries : List (Delivery I)) (h : r.Shows fleetId table state)
    (hvalid : ∀ d ∈ deliveries, d.Valid fleetId table) (hlimit : r.NotLimited deliveries) :
    (deliveries.foldl Registry.deliver r).Shows fleetId table
      ((deliveries.map Delivery.message).foldl
        (keep Message.endpointId fun m ↦ m.sequence.toNat) state) := by
  induction deliveries generalizing r state with
  | nil => exact h
  | cons d deliveries ih =>
    obtain ⟨hvalid, hrest⟩ := List.forall_mem_cons.mp hvalid
    exact ih (h.deliver hvalid hlimit.1) hrest hlimit.2

theorem shows_new {store : S} (hfresh : ∀ e : I.EndpointId, SequenceStore.load store e = .ok 0) :
    (Registry.new fleetId table store).Shows fleetId table fun _ ↦ none :=
  ⟨rfl, rfl, hfresh, fun e ↦ by simp [announcementOf, Registry.new, activeOf]⟩

end Deliver

/-- **Receivers of the same messages agree.** Two registries that were given the same messages, in
any order and with any repetitions, have the same watermarks and the same active announcements,
those of the latest message of each endpoint. -/
theorem deliveries_converge {S₁ S₂ : Type} [SequenceStore I S₁] [SequenceStore I S₂]
    [LawfulSequenceStore I S₁] [LawfulSequenceStore I S₂]
    [InfallibleSequenceStore I S₁] [InfallibleSequenceStore I S₂]
    (fleetId : FleetId) (table : AuthorizationTable I) (messages : Set (Message I))
    (honce : StampedOnce Message.endpointId (fun m ↦ m.sequence.toNat) messages)
    (store₁ : S₁) (store₂ : S₂)
    (hfresh₁ : ∀ e : I.EndpointId, SequenceStore.load store₁ e = .ok 0)
    (hfresh₂ : ∀ e : I.EndpointId, SequenceStore.load store₂ e = .ok 0)
    (deliveries₁ deliveries₂ : List (Delivery I))
    (hset₁ : ∀ m, m ∈ deliveries₁.map Delivery.message ↔ m ∈ messages)
    (hset₂ : ∀ m, m ∈ deliveries₂.map Delivery.message ↔ m ∈ messages)
    (hvalid₁ : ∀ d ∈ deliveries₁, d.Valid fleetId table)
    (hvalid₂ : ∀ d ∈ deliveries₂, d.Valid fleetId table)
    (hlimit₁ : (Registry.new fleetId table store₁).NotLimited deliveries₁)
    (hlimit₂ : (Registry.new fleetId table store₂).NotLimited deliveries₂) :
    ∃ latest : I.EndpointId → Option (Message I),
      Tracks Message.endpointId (fun m ↦ m.sequence.toNat) messages latest
        ∧ ∀ e : I.EndpointId,
          SequenceStore.load (deliveries₁.foldl deliver (Registry.new fleetId table store₁)).store e
              = .ok (watermarkOf (latest e))
            ∧ SequenceStore.load
                (deliveries₂.foldl deliver (Registry.new fleetId table store₂)).store e
              = .ok (watermarkOf (latest e))
            ∧ (deliveries₁.foldl deliver (Registry.new fleetId table store₁)).announcementOf e
              = activeOf (latest e)
            ∧ (deliveries₂.foldl deliver (Registry.new fleetId table store₂)).announcementOf e
              = activeOf (latest e) := by
  have hshows₁ := (shows_new hfresh₁).foldl_deliver deliveries₁ hvalid₁ hlimit₁
  have hshows₂ := (shows_new hfresh₂).foldl_deliver deliveries₂ hvalid₂ hlimit₂
  have htracks₁ := tracks_foldl_keep Message.endpointId (fun m ↦ m.sequence.toNat)
    (deliveries₁.map Delivery.message)
  have htracks₂ := tracks_foldl_keep Message.endpointId (fun m ↦ m.sequence.toNat)
    (deliveries₂.map Delivery.message)
  have hmessages₁ : {m | m ∈ deliveries₁.map Delivery.message} = messages := Set.ext hset₁
  have hmessages₂ : {m | m ∈ deliveries₂.map Delivery.message} = messages := Set.ext hset₂
  rw [hmessages₁] at htracks₁
  rw [hmessages₂] at htracks₂
  rw [htracks₂.unique honce htracks₁] at hshows₂
  exact ⟨_, htracks₁, fun e ↦ ⟨hshows₁.watermark e, hshows₂.watermark e, hshows₁.active e,
    hshows₂.active e⟩⟩

/-! ### An announcement and its withdrawal

In either order the endpoint ends up withdrawn. -/

def sampleAnnounced : Delivery Iroh.single := ⟨.announcement sample, (), 0⟩

def sampleWithdrawn : Delivery Iroh.single :=
  ⟨.withdrawal ⟨List.Vector.replicate 32 0, (), 2⟩, (), 1⟩

/-- The table with the only endpoint under the name it announces. -/
def sampleTable : AuthorizationTable Iroh.single where
  entries := (∅ : Std.ExtTreeMap Iroh.single.EndpointId Text).insert () sample.nodeName
  size_le := by decide
  valid := AuthorizationTable.valid_insert .empty
    (show validNodeName sample.nodeName = true by decide)

theorem valid_sampleAnnounced :
    sampleAnnounced.Valid (List.Vector.replicate 32 0) sampleTable where
  opens := opens_sampleEnvelope
  signed := rfl
  fleet := rfl
  valid := by decide
  enrolled := ⟨sample.nodeName, by decide, rfl⟩

theorem valid_sampleWithdrawn :
    sampleWithdrawn.Valid (List.Vector.replicate 32 0) sampleTable where
  opens := ⟨by decide +kernel, trivial, rfl⟩
  signed := rfl
  fleet := rfl
  valid := by decide
  enrolled := ⟨sample.nodeName, by decide, trivial⟩

theorem deliveries_converge_sample :
    ∃ latest : Unit → Option (Message Iroh.single),
      latest () = some sampleWithdrawn.message
        ∧ ∀ deliveries ∈ [[sampleAnnounced, sampleWithdrawn], [sampleWithdrawn, sampleAnnounced]],
          (deliveries.foldl deliver (Registry.new (List.Vector.replicate 32 0) sampleTable
            (⟨∅⟩ : MemorySequenceStore Iroh.single))).announcementOf ()
            = activeOf (latest ()) := by
  have hfresh : ∀ e : Iroh.single.EndpointId,
      SequenceStore.load (⟨∅⟩ : MemorySequenceStore Iroh.single) e = .ok 0 := by
    rintro ⟨⟩
    decide
  have hvalid : ∀ d ∈ [sampleAnnounced, sampleWithdrawn],
      d.Valid (List.Vector.replicate 32 0) sampleTable :=
    List.forall_mem_cons.mpr ⟨valid_sampleAnnounced,
      List.forall_mem_singleton.mpr valid_sampleWithdrawn⟩
  obtain ⟨latest, htracks, hshows⟩ := deliveries_converge (List.Vector.replicate 32 0) sampleTable
    {sampleAnnounced.message, sampleWithdrawn.message}
    (by
      rintro m (rfl | rfl) m' (rfl | rfl) - h
      exacts [rfl, absurd h (by decide), absurd h (by decide), rfl])
    (⟨∅⟩ : MemorySequenceStore Iroh.single) (⟨∅⟩ : MemorySequenceStore Iroh.single) hfresh hfresh
    [sampleAnnounced, sampleWithdrawn] [sampleWithdrawn, sampleAnnounced]
    (by simp) (by simp [or_comm]) hvalid
    (fun d hd ↦ hvalid d (List.mem_reverse.mp hd))
    ⟨by decide, by decide +kernel, trivial⟩ ⟨by decide, by decide +kernel, trivial⟩
  refine ⟨latest, ?_, ?_⟩
  · cases hlatest : latest () with
    | some m =>
      have h := htracks.latest () m hlatest
      have hle := h.le sampleWithdrawn.message (Or.inr rfl) rfl
      rcases h.mem with rfl | rfl
      · exact absurd hle (by decide)
      · rfl
    | none => exact absurd rfl (htracks.absent () hlatest sampleWithdrawn.message (Or.inr rfl))
  · exact List.forall_mem_cons.mpr ⟨(hshows ()).2.2.1,
      List.forall_mem_singleton.mpr (hshows ()).2.2.2⟩

end Registry

end NervesP2P
