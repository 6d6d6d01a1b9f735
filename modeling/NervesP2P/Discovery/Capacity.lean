import NervesP2P.Discovery.Durability

/-!
# Room for watermarks

The authorization table and the sequence file hold at most 1024 endpoints each, but not for the same
time. An endpoint leaves the table when it is revoked and when the program starts with another
table; its watermark stays in the file for good. So the file fills up with the endpoints of the
past, and then the messages of an endpoint that is new to it are refused, however empty the table.

`Undisturbed` are the registries that calls and restarts reach while the disk works. There the only
reason of a store to refuse a fresh number is `HasRoom`: the bound is met and the endpoint is not in
the file.
-/

open Std (ExtTreeMap)

namespace NervesP2P

variable {I : Iroh}

/-! ## A store whose writes succeed

On such a disk an `advance` either raises one number or changes nothing, and the reason is read off
the store: the number is stale, or there is no room for it. The file then always has what the memory
has, so that opening it again gives the same store (`Kept.openFile_eq`), and no number leaves it. -/

namespace FileSequenceStore

variable {s : FileSequenceStore I} {e : I.EndpointId} {n : UInt64}

/-- There is a place for the number of an endpoint: its own, or a free one. -/
def HasRoom (store : FileSequenceStore I) (endpoint : I.EndpointId) : Prop :=
  store.sequences[endpoint]?.isSome ∨ store.sequences.size ≠ maxAuthorized

/-- Writing the file never fails. -/
structure Faultless (store : FileSequenceStore I) : Prop where
  /-- A path without a directory part has no parent that could be synced. -/
  parent : store.parent ≠ some ""
  faults : store.disk.faults = []

theorem Faultless.returns_persist (h : s.Faultless) :
    persist.Returns s () { s with disk := ⟨some (sequenceBytes s.sequences), [], none, []⟩ } := by
  have hwrite := Disk.returns_atomicWrite_of_faultless h.parent h.faults (sequenceBytes s.sequences)
  simp only [persist, Method.returns_bind, Method.returns_get, Method.returns_attempt]
  exact ⟨s, s, ⟨rfl, rfl⟩, .ok (), _, Method.returns_zoom.mpr ⟨_, hwrite, rfl⟩,
    Method.returns_pure.mpr ⟨rfl, rfl⟩⟩

/-- The store after a number has been written. -/
def raised (store : FileSequenceStore I) (endpoint : I.EndpointId) (sequence : UInt64) :
    FileSequenceStore I where
  parent := store.parent
  sequences := store.sequences.insert endpoint sequence
  disk := ⟨some (sequenceBytes (store.sequences.insert endpoint sequence)), [], none, []⟩

theorem not_hasRoom_iff :
    ¬s.HasRoom e ↔ s.sequences[e]?.isNone = true ∧ s.sequences.size = maxAuthorized := by
  simp [HasRoom]

theorem Faultless.returns_advance (h : s.Faultless) (hlt : s.sequences.getD e 0 < n)
    (hroom : s.HasRoom e) :
    (advance e n).Returns s () (s.raised e n) := by
  have hpersist : persist.Returns { s with sequences := s.sequences.insert e n } ()
      (s.raised e n) := Faultless.returns_persist ⟨h.parent, h.faults⟩
  simp only [advance, load, Method.returns_bind, Method.returns_get, Method.returns_lift,
    Method.returns_failIf, Method.returns_modify, Method.returns_attempt]
  exact ⟨s, s, ⟨rfl, rfl⟩, _, s, ⟨rfl, rfl⟩, (), s, ⟨UInt64.not_le.mpr hlt, rfl⟩, (), s,
    ⟨fun hfull ↦ not_hasRoom_iff.mpr hfull hroom, rfl⟩, (), _, rfl, .ok (), _, hpersist,
    Method.returns_pure.mpr ⟨rfl, rfl⟩⟩

theorem fails_advance_of_stale (hle : n ≤ s.sequences.getD e 0) :
    (advance e n).Fails s .staleSequence s := by
  simp only [advance, load, Method.fails_bind, Method.returns_get, Method.returns_lift,
    Method.fails_failIf]
  exact Or.inr ⟨s, s, ⟨rfl, rfl⟩, Or.inr ⟨_, s, ⟨rfl, rfl⟩, Or.inl ⟨hle, trivial, rfl⟩⟩⟩

theorem fails_advance_of_full (hlt : s.sequences.getD e 0 < n) (hroom : ¬s.HasRoom e) :
    (advance e n).Fails s .sequenceStoreFailed s := by
  simp only [advance, load, Method.fails_bind, Method.returns_get, Method.returns_lift,
    Method.fails_failIf, Method.returns_failIf]
  exact Or.inr ⟨s, s, ⟨rfl, rfl⟩, Or.inr ⟨_, s, ⟨rfl, rfl⟩, Or.inr ⟨(), s,
    ⟨UInt64.not_le.mpr hlt, rfl⟩, Or.inl ⟨not_hasRoom_iff.mp hroom, trivial, rfl⟩⟩⟩⟩

/-- What a call makes of a store whose writes succeed: nothing, or one number is raised. -/
theorem Faultless.eq_of_uses {s' : FileSequenceStore I} (h : s.Faultless)
    {used : Option (I.EndpointId × UInt64)} (huses : s.Uses used s') :
    s' = s ∨ ∃ e n, s.sequences.getD e 0 < n ∧ s.HasRoom e ∧ s' = s.raised e n := by
  have hadvance : ∀ e n, (advance e n).after s = s ∨ s.sequences.getD e 0 < n ∧ s.HasRoom e
      ∧ (advance e n).after s = s.raised e n := by
    intro e n
    by_cases hlt : s.sequences.getD e 0 < n
    · by_cases hroom : s.HasRoom e
      · exact Or.inr ⟨hlt, hroom, (h.returns_advance hlt hroom).after_eq⟩
      · exact Or.inl (fails_advance_of_full hlt hroom).after_eq
    · exact Or.inl (fails_advance_of_stale (UInt64.not_lt.mp hlt)).after_eq
  have hsome : ∀ e n, (advance e n).after s = s' →
      s' = s ∨ ∃ e n, s.sequences.getD e 0 < n ∧ s.HasRoom e ∧ s' = s.raised e n := by
    intro e n hafter
    rcases hadvance e n with heq | ⟨hlt, hroom, heq⟩
    · exact Or.inl (hafter.symm.trans heq)
    · exact Or.inr ⟨e, n, hlt, hroom, hafter.symm.trans heq⟩
  cases used with
  | some entry => exact hsome entry.1 entry.2 (Method.Returns.after_eq huses)
  | none =>
    rcases huses with heq | ⟨e, n, err, hfails⟩
    · exact Or.inl heq
    · exact hsome e n hfails.after_eq

/-- What holds of a store while writing works: the file has what the memory has, and can be read
back. -/
structure Kept (store : FileSequenceStore I) : Prop extends store.Faultless where
  positive : Positive store.sequences
  size_le : store.sequences.size ≤ maxAuthorized
  file : readSequences I (store.disk.file.getD []) = .ok store.sequences

theorem kept_of_openFile {parent : Option String} {disk : Disk} (hparent : parent ≠ some "")
    (hfaults : disk.faults = []) (hopen : openFile parent false disk = .ok s) : s.Kept := by
  rw [openFile, if_neg (by decide)] at hopen
  split at hopen
  · next sequences hread =>
    obtain rfl := Except.ok.inj hopen
    obtain ⟨hpositive, hsize⟩ := of_readSequences hread
    exact ⟨⟨hparent, hfaults⟩, hpositive, hsize, hread⟩
  · cases hopen

theorem Kept.openFile_eq (h : s.Kept) :
    openFile s.parent false s.disk = .ok s := by
  rw [openFile, if_neg (by decide), h.file]

theorem size_insert_le_of_hasRoom (n : UInt64) (hsize : s.sequences.size ≤ maxAuthorized)
    (hroom : s.HasRoom e) :
    (s.sequences.insert e n).size ≤ maxAuthorized := by
  rw [ExtTreeMap.size_insert]
  split
  · exact hsize
  · next hmem =>
    rcases hroom with hsome | hne
    · exact absurd (ExtTreeMap.mem_iff_isSome_getElem?.mpr hsome) hmem
    · omega

theorem Kept.raised (h : s.Kept) (hlt : s.sequences.getD e 0 < n) (hroom : s.HasRoom e) :
    (s.raised e n).Kept := by
  have hzero : n ≠ 0 := fun hzero ↦ UInt64.not_lt_zero (hzero ▸ hlt)
  have hpositive := h.positive.insert e hzero
  have hsize := size_insert_le_of_hasRoom n h.size_le hroom
  exact ⟨⟨h.parent, rfl⟩, hpositive, hsize, readSequences_sequenceBytes hpositive hsize⟩

theorem Kept.uses {s' : FileSequenceStore I} (h : s.Kept) {used : Option (I.EndpointId × UInt64)}
    (huses : s.Uses used s') :
    s'.Kept ∧ ∀ e : I.EndpointId, s.sequences[e]?.isSome = true →
      s'.sequences[e]?.isSome = true := by
  rcases h.eq_of_uses huses with rfl | ⟨e, n, hlt, hroom, rfl⟩
  · exact ⟨h, fun e hsome ↦ hsome⟩
  · refine ⟨h.raised hlt hroom, fun e' hsome ↦ ?_⟩
    rw [FileSequenceStore.raised, getElem?_insert_eq]
    split
    · rfl
    · exact hsome

end FileSequenceStore

/-! ## Runs while the disk works

Calls and restarts in any order. A restart drops the records and may come with another table, but it
finds the file as it was left. -/

namespace Registry

/-- The registries that calls and restarts reach from a given disk while writing works. A restart
keeps the disk, and may come with any table. -/
inductive Undisturbed (disk : Disk) : Registry I (FileSequenceStore I) → Prop
  | start {parent : Option String} {store : FileSequenceStore I} (fleetId : FleetId)
      (authorization : AuthorizationTable I) (enrollment : EnrollmentPolicy)
      (hparent : parent ≠ some "") (hfaults : disk.faults = [])
      (hopen : FileSequenceStore.openFile parent false disk = .ok store) :
      Undisturbed disk ((new fleetId authorization store).withEnrollmentPolicy enrollment)
  | step {r : Registry I (FileSequenceStore I)} (op : Operation I) (h : Undisturbed disk r) :
      Undisturbed disk (op.run r)
  | restart {r : Registry I (FileSequenceStore I)} {store : FileSequenceStore I}
      (fleetId : FleetId) (authorization : AuthorizationTable I) (enrollment : EnrollmentPolicy)
      (h : Undisturbed disk r)
      (hopen : FileSequenceStore.openFile r.store.parent false r.store.disk = .ok store) :
      Undisturbed disk ((new fleetId authorization store).withEnrollmentPolicy enrollment)

theorem Undisturbed.reachable {disk : Disk} {r : Registry I (FileSequenceStore I)}
    (h : r.Undisturbed disk) : r.Reachable := by
  induction h with
  | start fleetId authorization enrollment _ _ _ => exact .new _ _ _ _
  | step op _ ih => exact .step op ih
  | restart fleetId authorization enrollment _ _ _ => exact .new _ _ _ _

/-- **The run lemma.** -/
theorem Undisturbed.kept {disk : Disk} {r : Registry I (FileSequenceStore I)}
    (h : r.Undisturbed disk) : r.store.Kept := by
  induction h with
  | start fleetId authorization enrollment hparent hfaults hopen =>
    exact FileSequenceStore.kept_of_openFile hparent hfaults hopen
  | @step r op _ ih => exact (ih.uses (r.uses_run op)).1
  | @restart r store fleetId authorization enrollment _ hopen ih =>
    exact FileSequenceStore.kept_of_openFile ih.parent ih.faults hopen

/-! ## Which messages find no room

A message is `Acceptable` when nothing but the store could refuse it, and then an error of the store
is the error of the call. Since the registry compares the number with the watermark before it asks
the store, the store does not find it stale either. What is left is room. As long as all endpoints
that have a number in the store or an entry in the table fit into the store together (`known`),
there is room for each one in the table, whatever order they come in. -/

/-- A signed message that the registry accepts if the store can take its number. -/
structure Acceptable {S : Type} [SequenceStore I S] (registry : Registry I S)
    (envelope : List UInt8) (now : UInt64) (message : Message I) : Prop where
  signed : ∃ signature, Opens envelope message signature
    ∧ I.verify message.endpointId (domain ++ encodeMessage message) signature = true
  accepts : registry.Accepts message now

section Refusal

variable {S : Type} [SequenceStore I S]

theorem Acceptable.returns_receive {r : Registry I S} {envelope : List UInt8} {now : UInt64}
    {m : Message I} (h : r.Acceptable envelope now m) {store : S}
    (hadvance : (SequenceStore.advance m.endpointId m.sequence).Returns r.store () store) :
    ∃ r', (receive envelope now).Returns r () r' ∧ r.Accepted m now r' := by
  obtain ⟨signature, hopens, hverify⟩ := h.signed
  have hadm : r.Admissible envelope now m :=
    ⟨hopens.length_le, hopens.bounded, ⟨signature, hopens.eq_encode, hverify⟩, h.accepts.fleet,
      h.accepts.enrolled, h.accepts.valid, h.accepts.named, h.accepts.fresh, h.accepts.not_full,
      store, hadvance⟩
  exact hadm.exists_accepted

theorem fails_accept_of_advance {m : Message I} {name : Text} {now : UInt64} {r : Registry I S}
    {err : Error} {store : S} (hvalid : validateMessage m = .ok ()) (hnamed : Named m name)
    (hfresh : r.Fresh m.endpointId m.sequence)
    (hadvance : (SequenceStore.advance m.endpointId m.sequence).Fails r.store err store) :
    (accept m name now).Fails r err { r with store } := by
  obtain ⟨stored, hload, hlt⟩ := hfresh
  have haccept : (acceptSequence m.endpointId m.sequence).Fails r err { r with store } := by
    simp only [acceptSequence, Method.fails_bind, Method.returns_get, Method.returns_lift,
      Method.returns_failIf]
    exact Or.inr ⟨r, r, ⟨rfl, rfl⟩, Or.inr ⟨stored, r, ⟨hload, rfl⟩, Or.inr ⟨(), r,
      ⟨UInt64.not_le.mpr hlt, rfl⟩, Method.fails_zoom.mpr ⟨store, hadvance, rfl⟩⟩⟩⟩
  cases m with
  | announcement a =>
    simp only [accept, Method.fails_bind, Method.returns_lift, Method.returns_failIf]
    exact Or.inr ⟨(), r, ⟨hvalid, rfl⟩, Or.inr ⟨(), r, ⟨not_not.mpr hnamed, rfl⟩,
      Or.inl haccept⟩⟩
  | withdrawal w =>
    simp only [accept, Method.fails_bind, Method.returns_lift]
    exact Or.inr ⟨(), r, ⟨hvalid, rfl⟩, Or.inl haccept⟩

theorem Acceptable.fails_receive {r : Registry I S} {envelope : List UInt8} {now : UInt64}
    {m : Message I} (h : r.Acceptable envelope now m)
    (henrolled : (r.authorization.nodeName m.endpointId).isSome = true) {err : Error} {store : S}
    (hadvance : (SequenceStore.advance m.endpointId m.sequence).Fails r.store err store) :
    ∃ r', (receive envelope now).Fails r err r' := by
  obtain ⟨signature, hopens, hverify⟩ := h.signed
  obtain ⟨name, hname⟩ := Option.isSome_iff_exists.mp henrolled
  have haccept : (accept m name now).Fails (r.noteTime m.endpointId now) err
      { r.noteTime m.endpointId now with store } :=
    fails_accept_of_advance h.accepts.valid (h.accepts.named name hname) h.accepts.fresh hadvance
  refine ⟨{ r.noteTime m.endpointId now with store }, hopens.fails_receive ?_⟩
  simp only [process, Method.fails_bind, Method.returns_get, Method.returns_failIf,
    Method.returns_runIf, returns_checkRate]
  exact Or.inr ⟨r, r, ⟨rfl, rfl⟩, Or.inr ⟨(), r, ⟨not_not.mpr h.accepts.fleet, rfl⟩,
    Or.inr ⟨(), r, ⟨by simp [hname], rfl⟩, Or.inr ⟨(), _,
      Or.inl ⟨by simp [hname], h.accepts.not_full, rfl⟩, Or.inr ⟨(), _, ⟨by simp [hverify], rfl⟩,
        Or.inr ⟨name, _, by rw [hname]; exact returns_enroll_some.mpr ⟨rfl, rfl⟩, haccept⟩⟩⟩⟩⟩⟩

end Refusal

/-- The endpoints that have a number in the store or an entry in the table. -/
def known (registry : Registry I (FileSequenceStore I)) : List I.EndpointId :=
  (registry.store.sequences.keys ++ registry.authorization.entries.keys).dedup

theorem hasRoom_of_known {r : Registry I (FileSequenceStore I)} (h : r.known.length ≤ maxAuthorized)
    {e : I.EndpointId} (henrolled : (r.authorization.nodeName e).isSome = true) :
    r.store.HasRoom e := by
  by_contra hfull
  obtain ⟨hnone, hsize⟩ := FileSequenceStore.not_hasRoom_iff.mp hfull
  have hnotMem : e ∉ r.store.sequences.keys := by
    rw [ExtTreeMap.mem_keys, ExtTreeMap.mem_iff_isSome_getElem?, Bool.not_eq_true,
      Option.isSome_eq_false_iff]
    exact hnone
  -- the endpoint comes on top of a full store
  have hsubset : e :: r.store.sequences.keys ⊆ r.known := by
    intro e' hmem
    rw [known, List.mem_dedup, List.mem_append]
    rcases List.mem_cons.mp hmem with rfl | hmem
    · right
      rw [ExtTreeMap.mem_keys, ExtTreeMap.mem_iff_isSome_getElem?]
      exact henrolled
    · exact Or.inl hmem
  have hnodup := List.nodup_cons.mpr ⟨hnotMem, r.store.sequences.nodup_keys⟩
  have hle := (List.subperm_of_subset hnodup hsubset).length_le
  rw [List.length_cons, ExtTreeMap.length_keys] at hle
  omega

theorem Accepts.lt_sequence {r : Registry I (FileSequenceStore I)} {m : Message I} {now : UInt64}
    (h : r.Accepts m now) : r.store.sequences.getD m.endpointId 0 < m.sequence := by
  obtain ⟨stored, hload, hlt⟩ := h.fresh
  exact Except.ok.inj hload ▸ hlt

theorem Undisturbed.returns_receive {disk : Disk} {r : Registry I (FileSequenceStore I)}
    (h : r.Undisturbed disk) {envelope : List UInt8} {now : UInt64} {m : Message I}
    (hm : r.Acceptable envelope now m) (hroom : r.store.HasRoom m.endpointId) :
    ∃ r', (receive envelope now).Returns r () r' ∧ r.Accepted m now r'
      ∧ r'.store = r.store.raised m.endpointId m.sequence := by
  have hadvance := h.kept.returns_advance hm.accepts.lt_sequence hroom
  obtain ⟨r', hreturns, haccepted⟩ := hm.returns_receive hadvance
  exact ⟨r', hreturns, haccepted, haccepted.store.after_eq.symm.trans hadvance.after_eq⟩

theorem Acceptable.fails_of_full {r : Registry I (FileSequenceStore I)} {envelope : List UInt8}
    {now : UInt64} {m : Message I} (h : r.Acceptable envelope now m)
    (henrolled : (r.authorization.nodeName m.endpointId).isSome = true)
    (hfull : ¬r.store.HasRoom m.endpointId) :
    ∃ r', (receive envelope now).Fails r .sequenceStoreFailed r' :=
  h.fails_receive henrolled (FileSequenceStore.fails_advance_of_full h.accepts.lt_sequence hfull)

/-- **Which messages the store refuses.** While the disk works, an acceptable message of an
authorized endpoint is refused exactly when the store has 1024 numbers and none of the endpoint.
Numbers never leave the store, neither by a call nor by a restart; but as long as the endpoints in
the store and in the table are at most 1024 together, no such message is refused. -/
theorem refused_iff_store_full {disk : Disk} {r : Registry I (FileSequenceStore I)}
    (h : r.Undisturbed disk) :
    r.store.sequences.size ≤ 1024
      ∧ (∀ envelope now m, r.Acceptable envelope now m →
        (r.authorization.nodeName m.endpointId).isSome = true →
          ((∃ r', (receive envelope now).Fails r .sequenceStoreFailed r') ↔
            r.store.sequences[m.endpointId]? = none ∧ r.store.sequences.size = 1024)
          ∧ ((∃ r', (receive envelope now).Returns r () r') ↔
            ¬(r.store.sequences[m.endpointId]? = none ∧ r.store.sequences.size = 1024))
          ∧ (r.known.length ≤ 1024 → ∃ r', (receive envelope now).Returns r () r'))
      ∧ ∀ e : I.EndpointId, r.store.sequences[e]?.isSome = true →
        (∀ op : Operation I, (op.run r).store.sequences[e]?.isSome = true)
          ∧ ∀ store : FileSequenceStore I,
            FileSequenceStore.openFile r.store.parent false r.store.disk = .ok store →
              store.sequences[e]?.isSome = true := by
  have hkept := h.kept
  refine ⟨hkept.size_le, fun envelope now m hm henrolled ↦ ?_, fun e hsome ↦ ⟨fun op ↦ ?_, ?_⟩⟩
  · have hfull : r.store.sequences[m.endpointId]? = none ∧ r.store.sequences.size = 1024 ↔
        ¬r.store.HasRoom m.endpointId := by
      rw [FileSequenceStore.not_hasRoom_iff, Option.isNone_iff_eq_none]
      rfl
    have hreturns : r.store.HasRoom m.endpointId → ∃ r', (receive envelope now).Returns r () r' :=
      fun hroom ↦ (h.returns_receive hm hroom).imp fun _ hr' ↦ hr'.1
    have hfails := hm.fails_of_full henrolled
    rw [hfull, not_not]
    refine ⟨⟨?_, hfails⟩, ⟨?_, hreturns⟩, fun hknown ↦ hreturns (hasRoom_of_known hknown henrolled)⟩
    · rintro ⟨r', hfailed⟩ hroom
      obtain ⟨r'', hreturned⟩ := hreturns hroom
      exact hreturned.not_fails hfailed
    · rintro ⟨r', hreturned⟩
      by_contra hno
      obtain ⟨r'', hfailed⟩ := hfails hno
      exact hreturned.not_fails hfailed
  · exact (hkept.uses (r.uses_run op)).2 e hsome
  · intro store hopen
    rw [hkept.openFile_eq] at hopen
    exact Except.ok.inj hopen ▸ hsome

/-! ### A thousand endpoints come and go

One after the other, 1024 endpoints are authorized, announce themselves and are revoked. The table
is empty then, and the next endpoint is authorized without difficulty. -/

end Registry

/-- A world in which all byte strings of the right length are keys. -/
def Iroh.wide : Iroh where
  EndpointId := List.Vector UInt8 32
  Signature := Unit
  SecretKey := List.Vector UInt8 32
  asBytes e := e
  fromBytes b := some b
  fromBytes_eq_some_iff {b e} := by rw [Option.some_inj, eq_comm]
  toBytes := Iroh.single.toBytes
  tryFrom := Iroh.single.tryFrom
  tryFrom_eq_some_iff := Iroh.single.tryFrom_eq_some_iff
  verify _ _ _ := true
  publicKey key := key
  sign _ _ := ()

namespace Registry

/-- The endpoints in the order in which they come. -/
def visitor (n : ℕ) : Iroh.wide.EndpointId := ⟨beBytes 32 n, length_beBytes 32 n⟩

theorem visitor_ne {m n : ℕ} (hm : m < 256 ^ 32) (hn : n < 256 ^ 32) (hne : m ≠ n) :
    visitor m ≠ visitor n := by
  intro heq
  have hreads := congrArg ofBeBytes (Subtype.mk.inj heq)
  rw [ofBeBytes_beBytes (w := 32) hm, ofBeBytes_beBytes (w := 32) hn] at hreads
  exact hne hreads

/-- The sample, announced by one of them. -/
def visit (e : Iroh.wide.EndpointId) : Announcement Iroh.wide where
  fleetId := sample.fleetId
  endpointId := e
  nodeName := sample.nodeName
  partisanIp := sample.partisanIp
  partisanPort := sample.partisanPort
  sequence := sample.sequence
  ttlMs := sample.ttlMs
  capabilities := sample.capabilities
  load := sample.load

def visitEnvelope (e : Iroh.wide.EndpointId) : List UInt8 :=
  encodeEnvelope (encodeAnnouncement (visit e)) (Iroh.wide.toBytes ())

theorem length_encodeAnnouncement_visit (e : Iroh.wide.EndpointId) :
    (encodeAnnouncement (visit e)).length = (encodeAnnouncement sample).length := by
  have hkeys : (Iroh.wide.asBytes e).toList.length = (Iroh.single.asBytes ()).toList.length := by
    rw [List.Vector.toList_length, List.Vector.toList_length]
  rw [encodeAnnouncement_eq, encodeAnnouncement_eq]
  simp only [entryBytes, announcementEntries, visit, List.flatMap_cons, List.length_append,
    encodeBytes, hkeys]
  rfl

theorem opens_visitEnvelope (e : Iroh.wide.EndpointId) :
    Opens (visitEnvelope e) (.announcement (visit e)) () where
  length_le := by
    have hlength : (visitEnvelope e).length = sampleEnvelope.length := by
      rw [visitEnvelope, sampleEnvelope, encodeEnvelope_eq, encodeEnvelope_eq]
      simp only [entryBytes, envelopeEntries, List.flatMap_cons, List.length_append, encodeBytes,
        length_encodeAnnouncement_visit, List.Vector.toList_length]
    rw [hlength]
    exact opens_sampleEnvelope.length_le
  bounded := opens_sampleEnvelope.bounded
  eq_encode := rfl

/-- A registry with an empty table, after the first endpoints have come and gone. -/
structure Visited (n : ℕ) (r : Registry Iroh.wide (FileSequenceStore Iroh.wide)) : Prop where
  undisturbed : r.Undisturbed Disk.blank
  fleetId : r.fleetId = sample.fleetId
  table : r.authorization.entries = ∅
  size : r.store.sequences.size = n
  absent : ∀ k, n ≤ k → k < 256 ^ 32 → r.store.sequences[visitor k]? = none

theorem visited_zero : ∃ r, Visited 0 r := by
  refine ⟨(new sample.fleetId .empty ⟨some "d", ∅, Disk.blank⟩).withEnrollmentPolicy .strict,
    .start _ _ _ (by decide) rfl rfl, rfl, rfl, rfl, fun k _ _ ↦ ExtTreeMap.getElem?_empty⟩

/-- The next endpoint is authorized, and its announcement is acceptable. -/
theorem Visited.exists_authorized {n : ℕ} {r : Registry Iroh.wide (FileSequenceStore Iroh.wide)}
    (h : Visited n r) (hn : n < 256 ^ 32) :
    ∃ r' : Registry Iroh.wide (FileSequenceStore Iroh.wide), r'.Undisturbed Disk.blank
      ∧ r'.fleetId = r.fleetId ∧ r'.store = r.store
      ∧ r'.authorization.entries
        = (∅ : ExtTreeMap Iroh.wide.EndpointId Text).insert (visitor n) sample.nodeName
      ∧ r'.Acceptable (visitEnvelope (visitor n)) 0 (.announcement (visit (visitor n))) := by
  have hroom : r.authorization.HasRoom (visitor n) := by
    refine Or.inr ?_
    rw [h.table, ExtTreeMap.size_empty]
    decide
  have hvalid : validNodeName sample.nodeName = true := by decide
  obtain ⟨table, htable⟩ : ∃ table : AuthorizationTable Iroh.wide,
      table.entries = r.authorization.entries.insert (visitor n) sample.nodeName :=
    ⟨⟨_, r.authorization.size_insert_le _ hroom, r.authorization.valid_insert hvalid⟩, rfl⟩
  have hreturns : (authorize (visitor n) sample.nodeName).Returns r ()
      { r with authorization := table } :=
    returns_authorize.mpr ⟨⟨hvalid, hroom⟩, table, rfl, htable⟩
  have hstep := h.undisturbed.step (.authorize (visitor n) sample.nodeName)
  rw [Operation.run, hreturns.after_eq] at hstep
  have hname : table.nodeName (visitor n) = some sample.nodeName := by
    rw [AuthorizationTable.nodeName, htable, getElem?_insert_eq, if_pos rfl]
  -- an endpoint outside the table has no queue yet
  have hqueue : r.rate[visitor n]? = none := by
    rw [Option.eq_none_iff_forall_not_mem]
    intro times htimes
    have henrolled := (h.undisturbed.reachable.invariant.rate _ times htimes).1
    rw [AuthorizationTable.nodeName, h.table, ExtTreeMap.getElem?_empty] at henrolled
    cases henrolled
  refine ⟨_, hstep, rfl, rfl, htable.trans (by rw [h.table]),
    ⟨(), opens_visitEnvelope _, rfl⟩, ?_⟩
  refine ⟨h.fleetId.symm, Or.inl (by rw [Message.endpointId, visit, hname]; rfl), ?_, ?_, ?_, ?_⟩
  · exact (by decide : validateAnnouncement sample = .ok ())
  · intro name hother
    exact Option.some.inj (hname.symm.trans hother)
  · refine ⟨0, ?_, (by decide : 0 < sample.sequence)⟩
    show r.store.load (visitor n) = .ok 0
    rw [FileSequenceStore.load, ExtTreeMap.getD_eq_getD_getElem?, h.absent n le_rfl hn,
      Option.getD_none]
  · rw [RateFull, rateWindow, Message.endpointId, visit, hqueue]
    decide

theorem Visited.next {n : ℕ} {r : Registry Iroh.wide (FileSequenceStore Iroh.wide)}
    (h : Visited n r) (hn : n < 1024) : ∃ r', Visited (n + 1) r' := by
  have hkeys : n < 256 ^ 32 := hn.trans (by decide)
  obtain ⟨r₁, hr₁, hfleet, hstore, htable, hacceptable⟩ := h.exists_authorized hkeys
  have hroom : r₁.store.HasRoom (visitor n) := by
    refine Or.inr ?_
    rw [hstore, h.size]
    exact hn.ne
  obtain ⟨r₂, hreturns, haccepted, hraised⟩ := hr₁.returns_receive hacceptable hroom
  have hr₂ := hr₁.step (.receive (visitEnvelope (visitor n)) 0)
  rw [Operation.run, hreturns.after_eq] at hr₂
  have hname : r₁.authorization.nodeName (visitor n) = some sample.nodeName := by
    rw [AuthorizationTable.nodeName, htable, getElem?_insert_eq, if_pos rfl]
  have habsent := h.absent n le_rfl hkeys
  have hsequences : r₂.store.sequences = r.store.sequences.insert (visitor n) sample.sequence := by
    rw [hraised, hstore]
    rfl
  refine ⟨r₂.revoke (visitor n), hr₂.step (.revoke (visitor n)), ?_, ?_, ?_, fun k hk hlt ↦ ?_⟩
  · exact haccepted.fleetId.trans (hfleet.trans h.fleetId)
  · have hentries := (haccepted.authorization.trans (enrolledEntries_of_some hname)).trans htable
    show r₂.authorization.entries.erase (visitor n) = ∅
    rw [hentries]
    refine ExtTreeMap.ext_getElem? fun e ↦ ?_
    rw [getElem?_erase_eq, getElem?_insert_eq]
    split <;> simp
  · rw [revoke, hsequences, ExtTreeMap.size_insert, if_neg, h.size]
    rw [ExtTreeMap.contains_eq_isSome_getElem?, habsent]
    decide
  · rw [revoke, hsequences, getElem?_insert_eq, if_neg]
    · exact h.absent k (by omega) hlt
    · exact visitor_ne hkeys hlt (by omega)

theorem exists_visited : ∀ n ≤ 1024, ∃ r, Visited n r := by
  intro n
  induction n with
  | zero => exact fun _ ↦ visited_zero
  | succ n ih =>
    intro hn
    obtain ⟨r, hr⟩ := ih (by omega)
    exact hr.next hn

/-- The store is full of endpoints that have been revoked, and an acceptable message of an
authorized endpoint is refused. -/
theorem newcomer_refused :
    ∃ (r : Registry Iroh.wide (FileSequenceStore Iroh.wide)) (envelope : List UInt8)
      (m : Message Iroh.wide), r.Undisturbed Disk.blank
        ∧ (r.authorization.nodeName m.endpointId).isSome = true ∧ r.Acceptable envelope 0 m
        ∧ (∃ r', (receive envelope 0).Fails r .sequenceStoreFailed r') ∧ 1024 < r.known.length := by
  obtain ⟨r, hr⟩ := exists_visited 1024 le_rfl
  obtain ⟨r₁, hr₁, -, hstore, htable, hacceptable⟩ := hr.exists_authorized (by decide)
  have henrolled : (r₁.authorization.nodeName (visitor 1024)).isSome = true := by
    rw [AuthorizationTable.nodeName, htable, getElem?_insert_eq, if_pos rfl]
    rfl
  have hfull : ¬r₁.store.HasRoom (visitor 1024) := by
    rw [FileSequenceStore.not_hasRoom_iff, hstore, hr.absent 1024 le_rfl (by decide), hr.size]
    exact ⟨rfl, rfl⟩
  refine ⟨r₁, visitEnvelope (visitor 1024), .announcement (visit (visitor 1024)), hr₁, henrolled,
    hacceptable, hacceptable.fails_of_full henrolled hfull, ?_⟩
  by_contra hknown
  exact hfull (hasRoom_of_known (not_lt.mp hknown) henrolled)

/-- The first endpoint finds room. -/
theorem refused_iff_store_full_first :
    ∃ r : Registry Iroh.wide (FileSequenceStore Iroh.wide), r.Undisturbed Disk.blank
      ∧ ∃ r', (receive (visitEnvelope (visitor 0)) 0).Returns r () r' := by
  obtain ⟨r, hr⟩ := visited_zero
  obtain ⟨r₁, hr₁, -, hstore, htable, hacceptable⟩ := hr.exists_authorized (by decide)
  have henrolled : (r₁.authorization.nodeName (visitor 0)).isSome = true := by
    rw [AuthorizationTable.nodeName, htable, getElem?_insert_eq, if_pos rfl]
    rfl
  refine ⟨r₁, hr₁, ((refused_iff_store_full hr₁).2.1 _ 0 _ hacceptable henrolled).2.1.mpr ?_⟩
  rintro ⟨-, hsize⟩
  rw [hstore, hr.size] at hsize
  cases hsize

end Registry

end NervesP2P
