import NervesP2P.Discovery.Acceptance

/-!
# Runs of a registry

A registry is driven by its interface: envelopes from the network, changes of the authorization
table, and queries, which delete what has expired. `Change` says once what a single call can do;
everything that holds in all reachable states is proved against it.

## Why `Change` and not the methods

There are as many methods as ways to ask, but they do only a few things to the state: nothing,
dropping what has expired, a new entry of the table, a revocation, a message that was taken in, and
one that was refused with what it has left behind. A property of the state needs one argument for
each of these, and it does not have to know which method has done it.
-/

open Std (ExtTreeMap)

namespace NervesP2P

/-- A call of the registry's interface. -/
inductive Operation (I : Iroh) where
  | receive (envelope : List UInt8) (now : UInt64)
  | authorize (endpoint : I.EndpointId) (nodeName : Text)
  | revoke (endpoint : I.EndpointId)
  | active (endpoint : I.EndpointId) (now : UInt64)
  | find (order : HashOrder (ActiveRecord I)) (predicates : List Predicate) (now : UInt64)
  | endpointForNode (order : HashOrder (ActiveRecord I)) (nodeName : Text) (now : UInt64)
  | bindings (order : HashOrder (ActiveRecord I)) (now : UInt64)

variable {I : Iroh} {S : Type} [SequenceStore I S]

/-- The registry a call leaves behind, whether it succeeds or fails. -/
def Operation.run : Operation I → Registry I S → Registry I S
  | .receive envelope now => (Registry.receive envelope now).after
  | .authorize endpoint nodeName => (Registry.authorize endpoint nodeName).after
  | .revoke endpoint => Registry.revoke endpoint
  | .active endpoint now => (Registry.active endpoint now).after
  | .find order predicates now => (Registry.find order predicates now).after
  | .endpointForNode order nodeName now => (Registry.endpointForNode order nodeName now).after
  | .bindings order now => (Registry.bindings order now).after

namespace Registry

variable {r r' : Registry I S} {e : I.EndpointId} {now : UInt64} {op : Operation I}

/-! ## What a call can do

The cases for `receive` are read off the results on how it ends. All other calls are short. From
`change_run` come the facts that are used everywhere: a call keeps the fleet and the policy, and a
record that a call leaves behind was there before, or is the announcement that it took in. -/

/-- Everything a call can do to a registry. -/
inductive Change (r : Registry I S) : Operation I → Registry I S → Prop
  /-- A call that failed early, or a message that did not open. -/
  | unchanged (op : Operation I) : Change r op r
  /-- Every query expires records and does nothing else. -/
  | expired (op : Operation I) (now : UInt64) : Change r op (r.expire now)
  | revoked (e : I.EndpointId) : Change r (.revoke e) (r.revoke e)
  | authorized {e : I.EndpointId} {name : Text} {table : AuthorizationTable I}
      (h : table.entries = r.authorization.entries.insert e name) :
      Change r (.authorize e name) { r with authorization := table }
  /-- A message refused after its endpoint was found enrolled, or had been enrolled. -/
  | rejected {envelope : List UInt8} {now : UInt64} {e : I.EndpointId} {r' : Registry I S}
      (h : r.Retained e now r') (henrolled : (r'.authorization.nodeName e).isSome = true)
      (hkept : ∀ e', (r.authorization.nodeName e').isSome = true →
        (r'.authorization.nodeName e').isSome = true) :
      Change r (.receive envelope now) r'
  | accepted {envelope : List UInt8} {now : UInt64} {m : Message I} {r' : Registry I S}
      (hadm : r.Admissible envelope now m) (h : r.Accepted m now r') :
      Change r (.receive envelope now) r'

omit [SequenceStore I S] in
theorem returns_find {order : HashOrder (ActiveRecord I)} {predicates : List Predicate}
    {peers : List (Peer I)} :
    (find order predicates now).Returns r peers r' ↔
      peers = (r.expire now).foundPeers order predicates ∧ peers ≠ [] ∧ r' = r.expire now := by
  simp only [find, Method.returns_bind, Method.returns_modify, Method.returns_get,
    Method.returns_failIf, Method.returns_pure, List.isEmpty_iff]
  constructor
  · rintro ⟨_, _, rfl, _, _, ⟨rfl, rfl⟩, _, _, ⟨hne, rfl⟩, rfl, rfl⟩
    exact ⟨rfl, hne, rfl⟩
  · rintro ⟨rfl, hne, rfl⟩
    exact ⟨(), _, rfl, _, _, ⟨rfl, rfl⟩, (), _, ⟨hne, rfl⟩, rfl, rfl⟩

omit [SequenceStore I S] in
theorem fails_find {order : HashOrder (ActiveRecord I)} {predicates : List Predicate}
    {err : Error} :
    (find order predicates now).Fails r err r' ↔
      (r.expire now).foundPeers order predicates = [] ∧ err = .noMatchingPeer
        ∧ r' = r.expire now := by
  simp only [find, Method.fails_bind, Method.returns_modify, Method.fails_modify,
    Method.returns_get, Method.fails_get, Method.returns_failIf, Method.fails_failIf,
    Method.fails_pure, List.isEmpty_iff]
  constructor
  · rintro (h | ⟨_, _, rfl, h | ⟨_, _, ⟨rfl, rfl⟩, ⟨hnil, rfl, rfl⟩ | ⟨_, _, -, h⟩⟩⟩)
    · exact absurd h id
    · exact absurd h id
    · exact ⟨hnil, rfl, rfl⟩
    · exact absurd h id
  · rintro ⟨hnil, rfl, rfl⟩
    exact Or.inr ⟨(), _, rfl, Or.inr ⟨_, _, ⟨rfl, rfl⟩, Or.inl ⟨hnil, rfl, rfl⟩⟩⟩

omit [SequenceStore I S] in
theorem after_find (order : HashOrder (ActiveRecord I)) (predicates : List Predicate)
    (now : UInt64) (r : Registry I S) : (find order predicates now).after r = r.expire now := by
  rcases Method.returns_or_fails (find order predicates now) r with ⟨peers, h⟩ | ⟨err, h⟩
  · exact (returns_find.mp h).2.2
  · exact (fails_find.mp h).2.2

theorem isSome_insert {table table' : AuthorizationTable I} {name : Text}
    (h : table'.entries = table.entries.insert e name) (e' : I.EndpointId) :
    (table'.nodeName e').isSome = true ↔ e = e' ∨ (table.nodeName e').isSome = true := by
  rw [AuthorizationTable.nodeName, AuthorizationTable.nodeName, h, getElem?_insert_eq]
  by_cases he : e = e' <;> simp [he]

theorem change_receive (r : Registry I S) (envelope : List UInt8) (now : UInt64) :
    r.Change (.receive envelope now) ((receive envelope now).after r) := by
  rcases Method.returns_or_fails (receive envelope now) r with ⟨u, h⟩ | ⟨err, h⟩
  · obtain ⟨m, hadm, haccepted⟩ := returns_receive_iff.mp h
    exact .accepted hadm haccepted
  rcases fails_receive h with heq | ⟨m, signature, -, hprocess⟩
  · rw [heq]
    exact .unchanged _
  cases hname : r.authorization.nodeName m.endpointId with
  | some name =>
    obtain ⟨hretained, hauth⟩ := fails_process_enrolled hname hprocess
    refine .rejected hretained ?_ ?_
    · rw [hauth, hname]
      rfl
    · intro e' he'
      rwa [hauth]
  | none =>
    rcases fails_process_unknown hname hprocess with ⟨heq, -⟩ | ⟨a, -, -, hretained, hentries⟩
    · rw [heq]
      exact .unchanged _
    · exact .rejected hretained ((isSome_insert hentries _).mpr (Or.inl rfl))
        fun e' he' ↦ (isSome_insert hentries e').mpr (Or.inr he')

/-- **Every call is one of these changes.** -/
theorem change_run (op : Operation I) (r : Registry I S) : r.Change op (op.run r) := by
  cases op with
  | receive envelope now => exact change_receive r envelope now
  | authorize e name =>
    rcases Method.returns_or_fails (authorize e name) r with ⟨u, h⟩ | ⟨err, h⟩
    · obtain ⟨-, table, hr, htable⟩ := returns_authorize.mp h
      rw [Operation.run, hr]
      exact .authorized htable
    · obtain ⟨-, -, hr⟩ := fails_authorize.mp h
      rw [Operation.run, ← hr]
      exact .unchanged _
  | revoke e => exact .revoked e
  | active e now => exact .expired _ now
  | find order predicates now =>
    rw [Operation.run, after_find]
    exact .expired _ now
  | endpointForNode order name now => exact .expired _ now
  | bindings order now => exact .expired _ now

omit [SequenceStore I S] in
theorem getElem?_expire {record : ActiveRecord I} :
    (r.expire now).records[e]? = some record ↔ r.records[e]? = some record
      ∧ now < saturatingAdd record.receivedAt record.announcement.ttlMs := by
  rw [expire, ExtTreeMap.getElem?_filter', Option.filter_eq_some_iff, decide_eq_true_iff]

theorem Change.fleetId (h : r.Change op r') :
    r'.fleetId = r.fleetId := by
  cases h with
  | unchanged | expired | revoked | authorized => rfl
  | rejected hretained => exact hretained.fleetId
  | accepted _ haccepted => exact haccepted.fleetId

theorem Change.enrollment (h : r.Change op r') :
    r'.enrollment = r.enrollment := by
  cases h with
  | unchanged | expired | revoked | authorized => rfl
  | rejected hretained => exact hretained.enrollment
  | accepted _ haccepted => exact haccepted.enrollment

/-- A record that a call leaves behind was there before, or is the announcement it took in. -/
theorem Change.record {record : ActiveRecord I} (h : r.Change op r')
    (hrecord : r'.records[e]? = some record) :
    r.records[e]? = some record ∨ ∃ envelope now, op = .receive envelope now
      ∧ r.Admissible envelope now (.announcement record.announcement)
      ∧ r.Accepted (.announcement record.announcement) now r'
      ∧ record.announcement.endpointId = e := by
  cases h with
  | unchanged => exact Or.inl hrecord
  | expired op now => exact Or.inl (getElem?_expire.mp hrecord).1
  | revoked e' =>
    rw [revoke, getElem?_erase_eq] at hrecord
    split at hrecord
    · cases hrecord
    · exact Or.inl hrecord
  | authorized htable => exact Or.inl hrecord
  | rejected hretained =>
    rw [hretained.records] at hrecord
    exact Or.inl hrecord
  | @accepted envelope now m _ hadm haccepted =>
    rw [haccepted.records, getElem?_updateRecords] at hrecord
    split at hrecord
    · next he =>
      cases m with
      | announcement a =>
        obtain rfl := Option.some.inj hrecord
        exact Or.inr ⟨envelope, now, rfl, hadm, haccepted, he⟩
      | withdrawal w => cases hrecord
    · exact Or.inl hrecord

/-! ## The invariant of all reachable registries

`Attested` is what was checked of a record, and does not depend on the other tables. `Invariant` has
what does: a record is that of an endpoint which is enrolled, with its sequence as the watermark,
and a queue is that of an endpoint which is enrolled, and no longer than the limiter lets it be.

A record stays sound while the watermark and the enrollment of its endpoint stay, so a change at one
endpoint needs no look at the others. -/

/-- The registries that any sequence of calls reaches from a new one. -/
inductive Reachable : Registry I S → Prop
  | new (fleetId : FleetId) (authorization : AuthorizationTable I) (store : S)
      (enrollment : EnrollmentPolicy) :
      Reachable ((new fleetId authorization store).withEnrollmentPolicy enrollment)
  | step {r : Registry I S} (op : Operation I) (h : Reachable r) : Reachable (op.run r)

/-- What has been checked of a record before it was kept. -/
structure Attested (r : Registry I S) (e : I.EndpointId) (record : ActiveRecord I) : Prop where
  keyed : record.announcement.endpointId = e
  fleet : record.announcement.fleetId = r.fleetId
  signed : ∃ signature,
    I.verify e (domain ++ encodeAnnouncement record.announcement) signature = true

/-- **Every record was checked.** Nothing is asked of the sequence store here. -/
theorem Reachable.attested (h : r.Reachable) {record : ActiveRecord I}
    (hrecord : r.records[e]? = some record) : r.Attested e record := by
  induction h with
  | new fleetId authorization store enrollment =>
    simp [Registry.new, withEnrollmentPolicy] at hrecord
  | @step r op _ ih =>
    have hchange := change_run op r
    rcases hchange.record hrecord with hold | ⟨envelope, now, -, hadm, -, rfl⟩
    · obtain ⟨hkeyed, hfleet, hsigned⟩ := ih hold
      exact ⟨hkeyed, hfleet.trans hchange.fleetId.symm, hsigned⟩
    · obtain ⟨signature, -, hverify⟩ := hadm.signed
      exact ⟨rfl, hadm.fleet.trans hchange.fleetId.symm, signature, hverify⟩

/-- What is known of a record kept under an endpoint. -/
structure Sound (r : Registry I S) (e : I.EndpointId) (record : ActiveRecord I) : Prop where
  keyed : record.announcement.endpointId = e
  fleet : record.announcement.fleetId = r.fleetId
  valid : validateAnnouncement record.announcement = .ok ()
  /-- The sequence is the watermark itself, not merely below it. -/
  current : SequenceStore.load r.store e = .ok record.announcement.sequence
  enrolled : (r.authorization.nodeName e).isSome = true

/-- How the tables of a registry fit together. -/
structure Invariant (r : Registry I S) : Prop where
  records : ∀ (e : I.EndpointId) (record : ActiveRecord I),
    r.records[e]? = some record → r.Sound e record
  rate : ∀ (e : I.EndpointId) (times : List UInt64), r.rate[e]? = some times →
    (r.authorization.nodeName e).isSome = true ∧ times.length ≤ rateLimit

theorem invariant_new (fleetId : FleetId) (authorization : AuthorizationTable I) (store : S)
    (enrollment : EnrollmentPolicy) :
    ((new fleetId authorization store).withEnrollmentPolicy enrollment).Invariant where
  records e record h := by simp [new, withEnrollmentPolicy] at h
  rate e times h := by simp [new, withEnrollmentPolicy] at h

/-- A record stays sound while the watermark and the enrollment of its endpoint stay. -/
theorem Sound.mono {record : ActiveRecord I} (h : r.Sound e record)
    (hfleet : r'.fleetId = r.fleetId)
    (hload : SequenceStore.load r'.store e = SequenceStore.load r.store e)
    (hname : (r.authorization.nodeName e).isSome = true →
      (r'.authorization.nodeName e).isSome = true) : r'.Sound e record :=
  ⟨h.keyed, h.fleet.trans hfleet.symm, h.valid, hload.trans h.current, hname h.enrolled⟩

omit [SequenceStore I S] in
/-- The limiter never lets a queue grow past its length. -/
theorem length_rateWindow_le (h : ∀ times, r.rate[e]? = some times → times.length ≤ rateLimit) :
    (r.rateWindow e now).length ≤ rateLimit := by
  rw [rateWindow]
  refine (List.dropWhile_sublist _).length_le.trans ?_
  cases hrate : r.rate[e]? with
  | none => simp
  | some times => exact h times hrate

theorem Invariant.expire (h : r.Invariant) (now : UInt64) :
    (r.expire now).Invariant where
  records e record hrecord :=
    (h.records e record (getElem?_expire.mp hrecord).1).mono rfl rfl id
  rate := h.rate

omit [SequenceStore I S] in
theorem nodeName_revoke_of_ne {e' : I.EndpointId} (h : e ≠ e') :
    (r.revoke e).authorization.nodeName e' = r.authorization.nodeName e' := by
  rw [AuthorizationTable.nodeName, revoke, AuthorizationTable.revoke, getElem?_erase_eq, if_neg h]
  rfl

theorem Invariant.revoke (h : r.Invariant) (e : I.EndpointId) :
    (r.revoke e).Invariant where
  records e' record hrecord := by
    rw [Registry.revoke, getElem?_erase_eq] at hrecord
    split at hrecord
    · cases hrecord
    · next hne =>
      refine (h.records e' record hrecord).mono rfl rfl fun hsome ↦ ?_
      rwa [nodeName_revoke_of_ne hne]
  rate e' times htimes := by
    rw [Registry.revoke, getElem?_erase_eq] at htimes
    split at htimes
    · cases htimes
    · next hne =>
      rw [nodeName_revoke_of_ne hne]
      exact h.rate e' times htimes

theorem Invariant.authorize (h : r.Invariant) {name : Text} {table : AuthorizationTable I}
    (htable : table.entries = r.authorization.entries.insert e name) :
    Invariant { r with authorization := table } where
  records e' record hrecord :=
    (h.records e' record hrecord).mono rfl rfl fun hsome ↦
      (isSome_insert htable e').mpr (Or.inr hsome)
  rate e' times htimes := by
    obtain ⟨hsome, hle⟩ := h.rate e' times htimes
    exact ⟨(isSome_insert htable e').mpr (Or.inr hsome), hle⟩

section Step

variable [LawfulSequenceStore I S]

theorem Invariant.rejected (h : r.Invariant) (hretained : r.Retained e now r')
    (henrolled : (r'.authorization.nodeName e).isSome = true)
    (hkept : ∀ e', (r.authorization.nodeName e').isSome = true →
      (r'.authorization.nodeName e').isSome = true) : r'.Invariant where
  records e' record hrecord := by
    rw [hretained.records] at hrecord
    exact (h.records e' record hrecord).mono hretained.fleetId (hretained.load_eq e') (hkept e')
  rate e' times htimes := by
    have hwindow : (r.rateWindow e now).length ≤ rateLimit :=
      length_rateWindow_le fun times ht ↦ (h.rate e times ht).2
    have hold : r.rate[e']? = some times →
        (r'.authorization.nodeName e').isSome = true ∧ times.length ≤ rateLimit := fun ht ↦
      ⟨hkept e' (h.rate e' times ht).1, (h.rate e' times ht).2⟩
    rcases hretained.rate with heq | heq | ⟨hnotfull, heq⟩
    · rw [heq] at htimes
      exact hold htimes
    · rw [heq, trimTimes, getElem?_insert_eq] at htimes
      split at htimes
      · next he =>
        obtain rfl := Option.some_inj.mp htimes
        exact ⟨he ▸ henrolled, hwindow⟩
      · exact hold htimes
    · rw [heq, noteTime, getElem?_insert_eq] at htimes
      split at htimes
      · next he =>
        obtain rfl := Option.some_inj.mp htimes
        refine ⟨he ▸ henrolled, ?_⟩
        rw [List.length_append, List.length_singleton]
        exact Nat.lt_of_le_of_ne hwindow hnotfull
      · exact hold htimes

theorem Invariant.accepted (h : r.Invariant) {envelope : List UInt8} {m : Message I}
    (hadm : r.Admissible envelope now m) (haccepted : r.Accepted m now r') : r'.Invariant := by
  have htook := haccepted.tookIn hadm.enrolled
  have hkept : ∀ e, (r.authorization.nodeName e).isSome = true →
      (r'.authorization.nodeName e).isSome = true := by
    intro e hsome
    by_cases he : e = m.endpointId
    · rw [he]
      exact htook.enrolled
    · rwa [(htook.other e he).2.2.1]
  refine ⟨fun e record hrecord ↦ ?_, fun e times htimes ↦ ?_⟩
  · by_cases he : e = m.endpointId
    · subst he
      rw [htook.record] at hrecord
      cases m with
      | announcement a =>
        obtain rfl := Option.some_inj.mp hrecord
        exact ⟨rfl, hadm.fleet.trans htook.fleetId.symm, hadm.valid, htook.watermark,
          htook.enrolled⟩
      | withdrawal w => cases hrecord
    · obtain ⟨hload, hrec, -, -⟩ := htook.other e he
      rw [hrec] at hrecord
      exact (h.records e record hrecord).mono htook.fleetId hload (hkept e)
  · by_cases he : e = m.endpointId
    · subst he
      refine ⟨htook.enrolled, ?_⟩
      have hwindow : (r.rateWindow m.endpointId now).length ≤ rateLimit :=
        length_rateWindow_le fun times ht ↦ (h.rate _ times ht).2
      rw [htook.noted, Option.some_inj] at htimes
      rw [← htimes, List.length_append, List.length_singleton]
      exact Nat.lt_of_le_of_ne hwindow hadm.not_full
    · obtain ⟨-, -, -, hrate⟩ := htook.other e he
      rw [hrate] at htimes
      exact ⟨hkept e (h.rate e times htimes).1, (h.rate e times htimes).2⟩

/-- **The step lemma.** -/
theorem Invariant.change (h : r.Invariant) (hchange : r.Change op r') : r'.Invariant := by
  cases hchange with
  | unchanged op => exact h
  | expired op now => exact h.expire now
  | revoked e => exact h.revoke e
  | authorized htable => exact h.authorize htable
  | rejected hretained henrolled hkept => exact h.rejected hretained henrolled hkept
  | accepted hadm haccepted => exact h.accepted hadm haccepted

theorem Reachable.invariant (h : r.Reachable) : r.Invariant := by
  induction h with
  | new fleetId authorization store enrollment =>
    exact invariant_new fleetId authorization store enrollment
  | step op _ ih => exact ih.change (change_run op _)

/-- **What holds in every reachable registry**: the records and the queues fit the other tables, and
no table has more than 1024 entries. -/
theorem reachable_registry {r : Registry I S} (h : r.Reachable) :
    r.Invariant
      ∧ (r.authorization.entries.size ≤ 1024
        ∧ ∀ (e : I.EndpointId) (name : Text), r.authorization.nodeName e = some name →
          validNodeName name = true)
      ∧ r.records.size ≤ 1024 ∧ r.rate.size ≤ 1024 := by
  have hinv := h.invariant
  refine ⟨hinv, ⟨r.authorization.size_le, r.authorization.valid⟩, ?_, ?_⟩
  · refine (size_le_size_of_isSome fun e hsome ↦ ?_).trans r.authorization.size_le
    obtain ⟨record, hrecord⟩ := Option.isSome_iff_exists.mp hsome
    exact (hinv.records e record hrecord).enrolled
  · refine (size_le_size_of_isSome fun e hsome ↦ ?_).trans r.authorization.size_le
    obtain ⟨times, htimes⟩ := Option.isSome_iff_exists.mp hsome
    exact (hinv.rate e times htimes).1

end Step

theorem exists_reachable_sample (now : UInt64) :
    ∃ r : Registry Iroh.single (MemorySequenceStore Iroh.single),
      r.Reachable ∧ r.records[sample.endpointId]? = some ⟨sample, now⟩ := by
  obtain ⟨r, hreturns, haccepted⟩ := (admissible_sampleEnvelope now).exists_accepted
  refine ⟨r, ?_, ?_⟩
  · rw [← hreturns.after_eq]
    exact .step (.receive sampleEnvelope now) (.new _ _ _ _)
  · rw [haccepted.records, getElem?_updateRecords]
    rfl

/-- A reachable registry with a record. -/
theorem reachable_registry_sample :
    ∃ r : Registry Iroh.single (MemorySequenceStore Iroh.single),
      r.records[sample.endpointId]? = some ⟨sample, 0⟩ ∧ r.Invariant ∧ r.records.size ≤ 1024 := by
  obtain ⟨r, hreachable, hrecord⟩ := exists_reachable_sample 0
  have hall := reachable_registry hreachable
  exact ⟨r, hrecord, hall.1, hall.2.2.1⟩

/-! ### Two members

In the world of two keys, an open registry hears of both endpoints. They differ in their names and
in one capability. -/

/-- An announcement of one of the two endpoints. -/
def member (e : Iroh.pair.EndpointId) : Announcement Iroh.pair where
  fleetId := sample.fleetId
  endpointId := e
  nodeName := cond e ⟨"c@d", by decide⟩ sample.nodeName
  partisanIp := sample.partisanIp
  partisanPort := sample.partisanPort
  sequence := 1
  ttlMs := sample.ttlMs
  capabilities := (∅ : Capabilities).insert ⟨"gpu", by decide⟩ (.bool e)
  load := sample.load

/-- What only the second of them satisfies. -/
def gpuRequired : Predicate := .equals ⟨"gpu", by decide⟩ (.bool true)

theorem matchesPredicate_member (e : Bool) : matchesPredicate (member e) gpuRequired = e := by
  revert e
  decide +kernel

def memberEnvelope (e : Bool) : List UInt8 :=
  encodeEnvelope (encodeAnnouncement (member e)) (Iroh.pair.toBytes ())

theorem opens_memberEnvelope (e : Bool) :
    Opens (memberEnvelope e) (.announcement (member e)) () where
  length_le := by
    revert e
    decide +kernel
  bounded := by
    refine ⟨?_, fun entry hentry ↦ ?_⟩
    · revert e
      decide +kernel
    · have hvalue : ((∅ : Capabilities).insert ⟨"gpu", by decide⟩ (.bool e))[entry.1]?
          = some entry.2 := ExtTreeMap.mem_toList_iff_getElem?_eq_some.mp hentry
      rw [getElem?_insert_eq] at hvalue
      split at hvalue
      · rw [← Option.some.inj hvalue]
        trivial
      · exact absurd hvalue (getElem?_empty_ne_some _ _)
  eq_encode := rfl

/-- An open registry that has heard of nobody, of the first and of both. -/
def nobodyHeard : Registry Iroh.pair (MemorySequenceStore Iroh.pair) :=
  (new sample.fleetId .empty ⟨∅⟩).withEnrollmentPolicy .signedFleet

def firstHeard : Registry Iroh.pair (MemorySequenceStore Iroh.pair) :=
  (process (encodeAnnouncement (member false)) () (.announcement (member false)) 0).after
    nobodyHeard

def bothHeard : Registry Iroh.pair (MemorySequenceStore Iroh.pair) :=
  (process (encodeAnnouncement (member true)) () (.announcement (member true)) 0).after firstHeard

theorem returns_firstHeard :
    (receive (memberEnvelope false) 0).Returns nobodyHeard () firstHeard :=
  returns_receive.mpr ⟨_, _, opens_memberEnvelope false, Method.returns_after (by decide +kernel)⟩

theorem returns_bothHeard : (receive (memberEnvelope true) 0).Returns firstHeard () bothHeard :=
  returns_receive.mpr ⟨_, _, opens_memberEnvelope true, Method.returns_after (by decide +kernel)⟩

theorem reachable_bothHeard : bothHeard.Reachable := by
  rw [← returns_bothHeard.after_eq, ← returns_firstHeard.after_eq]
  exact .step (.receive _ 0) (.step (.receive _ 0) (.new _ _ _ _))

theorem getElem?_bothHeard (e : Iroh.pair.EndpointId) :
    bothHeard.records[e]? = some ⟨member e, 0⟩ := by
  have hboth := (opens_memberEnvelope true).tookIn returns_bothHeard
  have hfirst := (opens_memberEnvelope false).tookIn returns_firstHeard
  cases e with
  | true => exact hboth.record
  | false => exact (hboth.other false Bool.false_ne_true).2.1.trans hfirst.record

end Registry

end NervesP2P
