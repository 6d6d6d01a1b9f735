import NervesP2P.Discovery.Selection

/-!
# Queries leave no trace

Every query begins by deleting the records that have expired, so it changes the registry it looks
at. As long as time does not run backwards nobody can tell. A record that has expired once has
expired for good, and apart from the queries nothing reads a record: `receive` writes and erases
records but decides by the other tables.

Two registries `AgreeFrom` a time if they are the same after everything that has expired by then is
deleted. Whatever happens at that time or later has the same result in both, and the two still
agree afterwards.

A run is compared with itself after queries have been put in anywhere. The hash map may show its
records in different orders in the two runs, so the calls that iterate are only the same up to that
order; for `bindings` the answer is the set of what is returned, and for `endpoint_for_node`, which
takes the first record it meets, nothing is promised.
-/

open Std (ExtTreeMap)

namespace NervesP2P

variable {I : Iroh} {S : Type}

namespace Registry

/-! ## Registries that agree from a time on

To agree from a time on is to have all other tables in common, and those records that are still
active then (`agreeFrom_iff`). A query in only one of two registries goes unnoticed, because what it
deletes has expired. -/

/-- The registries differ only in records that have expired by then. -/
def AgreeFrom (time : UInt64) (r r' : Registry I S) : Prop := r.expire time = r'.expire time

variable {time : UInt64} {r r' : Registry I S}

theorem expire_expire {time' : UInt64} (h : time ≤ time') (r : Registry I S) :
    (r.expire time).expire time' = r.expire time' := by
  refine Registry.ext rfl rfl rfl rfl (ExtTreeMap.ext_getElem? fun e ↦ Option.ext fun record ↦ ?_)
    rfl
  rw [getElem?_expire, getElem?_expire, getElem?_expire]
  constructor
  · rintro ⟨⟨hrecord, -⟩, hlive⟩
    exact ⟨hrecord, hlive⟩
  · rintro ⟨hrecord, hlive⟩
    exact ⟨⟨hrecord, UInt64.lt_of_le_of_lt h hlive⟩, hlive⟩

theorem AgreeFrom.mono (h : AgreeFrom time r r') {time' : UInt64} (hle : time ≤ time') :
    AgreeFrom time' r r' := by
  rw [AgreeFrom, ← expire_expire hle r, h, expire_expire hle]

/-- A query in only one of two registries goes unnoticed. -/
theorem AgreeFrom.expire (h : AgreeFrom time r r') {now : UInt64} (hle : time ≤ now) :
    AgreeFrom now r (r'.expire now) := by
  rw [AgreeFrom, expire_expire (UInt64.le_refl now)]
  exact h.mono hle

theorem agreeFrom_iff :
    AgreeFrom time r r' ↔ ∃ records : ExtTreeMap I.EndpointId (ActiveRecord I),
      r' = { r with records } ∧ ∀ (e : I.EndpointId) (record : ActiveRecord I),
        time < saturatingAdd record.receivedAt record.announcement.ttlMs →
          (r.records[e]? = some record ↔ records[e]? = some record) := by
  constructor
  · intro h
    obtain ⟨hfleet, hauthorization, henrollment, hstore, hrecords, hrate⟩ := Registry.ext_iff.mp h
    refine ⟨r'.records, Registry.ext hfleet.symm hauthorization.symm henrollment.symm hstore.symm
      rfl hrate.symm, fun e record hlive ↦ ?_⟩
    have hsame : (r.expire time).records[e]? = some record
        ↔ (r'.expire time).records[e]? = some record := by rw [hrecords]
    rw [getElem?_expire, getElem?_expire] at hsame
    simpa only [hlive, and_true] using hsame
  · rintro ⟨records, rfl, hsame⟩
    refine Registry.ext rfl rfl rfl rfl
      (ExtTreeMap.ext_getElem? fun e ↦ Option.ext fun record ↦ ?_) rfl
    rw [getElem?_expire, getElem?_expire]
    exact and_congr_left (hsame e record)

/-! ## The calls that change the registry

For each part of `receive`, in the order of the source: the same result in both registries, and
agreement afterwards. Records are inserted and erased at one key, which keeps the agreement of the
others. -/

theorem AgreeFrom.updateRecords (h : AgreeFrom time r r') (m : Message I) (now : UInt64) :
    AgreeFrom time { r with records := Registry.updateRecords m now r.records }
      { r' with records := Registry.updateRecords m now r'.records } := by
  obtain ⟨records, rfl, hsame⟩ := agreeFrom_iff.mp h
  refine agreeFrom_iff.mpr ⟨_, rfl, fun e record hlive ↦ ?_⟩
  rw [getElem?_updateRecords, getElem?_updateRecords]
  split
  · exact Iff.rfl
  · exact hsame e record hlive

theorem agrees_authorize (e : I.EndpointId) (name : Text) :
    (authorize e name : Method (Registry I S) Error Unit).Agrees (AgreeFrom time)
      (authorize e name) := by
  refine Method.agrees_zoom _ (fun r r' h ↦ ?_) fun table r r' h ↦ ?_
  · obtain ⟨records, rfl, -⟩ := agreeFrom_iff.mp h
    rfl
  · obtain ⟨records, rfl, hsame⟩ := agreeFrom_iff.mp h
    exact agreeFrom_iff.mpr ⟨records, rfl, hsame⟩

theorem AgreeFrom.revoke (h : AgreeFrom time r r') (e : I.EndpointId) :
    AgreeFrom time (r.revoke e) (r'.revoke e) := by
  obtain ⟨records, rfl, hsame⟩ := agreeFrom_iff.mp h
  refine agreeFrom_iff.mpr ⟨records.erase e, rfl, fun e' record hlive ↦ ?_⟩
  rw [Registry.revoke, getElem?_erase_eq, getElem?_erase_eq]
  split
  · exact Iff.rfl
  · exact hsame e' record hlive

theorem agrees_checkRate (e : I.EndpointId) (now : UInt64) :
    (checkRate e now : Method (Registry I S) Error Unit).Agrees (AgreeFrom time)
      (checkRate e now) := by
  have hrate : ∀ (times : List UInt64) (r r' : Registry I S), AgreeFrom time r r' →
      AgreeFrom time { r with rate := r.rate.insert e times }
        { r' with rate := r'.rate.insert e times } := by
    intro times r r' h
    obtain ⟨records, rfl, hsame⟩ := agreeFrom_iff.mp h
    exact agreeFrom_iff.mpr ⟨records, rfl, hsame⟩
  refine Method.agrees_get_bind fun r r' h ↦ ?_
  obtain ⟨records, rfl, -⟩ := agreeFrom_iff.mp h
  exact (Method.agrees_modify (hrate _)).bind fun _ ↦ (Method.agrees_failIf _ _).bind fun _ ↦
    Method.agrees_modify (hrate _)

theorem agrees_enroll (m : Message I) (enrolledName : Option Text) (now : UInt64) :
    (enroll m enrolledName now : Method (Registry I S) Error Text).Agrees (AgreeFrom time)
      (enroll m enrolledName now) := by
  refine Method.agrees_get_bind fun r r' h ↦ ?_
  obtain ⟨records, rfl, -⟩ := agreeFrom_iff.mp h
  dsimp only
  split
  · exact Method.agrees_pure _
  · exact (Method.agrees_lift _).bind fun _ ↦ (agrees_authorize _ _).bind fun _ ↦
      (agrees_checkRate _ _).bind fun _ ↦ Method.agrees_pure _
  · exact Method.agrees_throw _

variable [SequenceStore I S]

theorem agrees_acceptSequence (e : I.EndpointId) (sequence : UInt64) :
    (acceptSequence e sequence : Method (Registry I S) Error Unit).Agrees (AgreeFrom time)
      (acceptSequence e sequence) := by
  refine Method.agrees_get_bind fun r r' h ↦ ?_
  obtain ⟨records, rfl, -⟩ := agreeFrom_iff.mp h
  refine (Method.agrees_lift _).bind fun stored ↦ (Method.agrees_failIf _ _).bind fun _ ↦ ?_
  refine Method.agrees_zoom _ (fun r r' h ↦ ?_) fun store r r' h ↦ ?_
  · obtain ⟨records, rfl, -⟩ := agreeFrom_iff.mp h
    rfl
  · obtain ⟨records, rfl, hsame⟩ := agreeFrom_iff.mp h
    exact agreeFrom_iff.mpr ⟨records, rfl, hsame⟩

theorem agrees_accept (m : Message I) (name : Text) (now : UInt64) :
    (accept m name now : Method (Registry I S) Error Unit).Agrees (AgreeFrom time)
      (accept m name now) := by
  cases m with
  | announcement a =>
    exact (Method.agrees_lift _).bind fun _ ↦ (Method.agrees_failIf _ _).bind fun _ ↦
      (agrees_acceptSequence _ _).bind fun _ ↦
        Method.agrees_modify fun r r' h ↦ h.updateRecords (.announcement a) now
  | withdrawal w =>
    exact (Method.agrees_lift _).bind fun _ ↦ (agrees_acceptSequence _ _).bind fun _ ↦
      Method.agrees_modify fun r r' h ↦ h.updateRecords (.withdrawal w) now

theorem agrees_process (body : List UInt8) (signature : I.Signature) (m : Message I)
    (now : UInt64) :
    (process body signature m now : Method (Registry I S) Error Unit).Agrees (AgreeFrom time)
      (process body signature m now) := by
  refine Method.agrees_get_bind fun r r' h ↦ ?_
  obtain ⟨records, rfl, -⟩ := agreeFrom_iff.mp h
  exact (Method.agrees_failIf _ _).bind fun _ ↦ (Method.agrees_failIf _ _).bind fun _ ↦
    ((agrees_checkRate _ _).runIf _).bind fun _ ↦ (Method.agrees_failIf _ _).bind fun _ ↦
      (agrees_enroll _ _ _).bind fun _ ↦ agrees_accept _ _ _

/-- **No decision of `receive` depends on a record.** -/
theorem agrees_receive (envelope : List UInt8) (now : UInt64) :
    (receive envelope now : Method (Registry I S) Error Unit).Agrees (AgreeFrom time)
      (receive envelope now) :=
  (Method.agrees_failIf _ _).bind fun _ ↦ (Method.agrees_lift _).bind fun _ ↦
    (Method.agrees_lift _).bind fun _ ↦ agrees_process _ _ _ _

/-! ## Answers

A call is the same in the two runs up to the iteration order of the hash map, and its answer must
not show that order. After a query at the same time the two registries are not only in agreement but
the same. -/

end Registry

/-- What the caller of an operation gets to see. -/
inductive Outcome (I : Iroh) where
  | received (result : Except Error Unit)
  | authorized (result : Except Error Unit)
  | revoked
  | active (result : Except Error (Option (Announcement I)))
  | found (result : Except Error (List (Peer I)))
  /-- Which of several endpoints of a name is returned depends on the hash map. -/
  | resolved
  | bindings (pairs : Set (I.EndpointId × Text × UInt64))

namespace Operation

def time : Operation I → Option UInt64
  | .receive _ now | .active _ now | .find _ _ now | .endpointForNode _ _ now | .bindings _ now =>
    some now
  | .authorize _ _ | .revoke _ => none

/-- The calls that only ask. -/
def isQuery : Operation I → Bool
  | .active _ _ | .find _ _ _ | .endpointForNode _ _ _ | .bindings _ _ => true
  | _ => false

/-- The same call, with perhaps another iteration order of the hash map. -/
inductive Same : Operation I → Operation I → Prop
  | refl (op : Operation I) : Same op op
  | find (order order' : HashOrder (ActiveRecord I)) (predicates : List Predicate)
      (now : UInt64) : Same (.find order predicates now) (.find order' predicates now)
  | endpointForNode (order order' : HashOrder (ActiveRecord I)) (name : Text) (now : UInt64) :
      Same (.endpointForNode order name now) (.endpointForNode order' name now)
  | bindings (order order' : HashOrder (ActiveRecord I)) (now : UInt64) :
      Same (.bindings order now) (.bindings order' now)

theorem Same.time {op op' : Operation I} (h : op.Same op') : op.time = op'.time := by
  cases h <;> rfl

variable [SequenceStore I S]

def answer : Operation I → Registry I S → Outcome I
  | .receive envelope now, r => .received ((Registry.receive envelope now).call r).1
  | .authorize e name, r => .authorized ((Registry.authorize e name).call r).1
  | .revoke _, _ => .revoked
  | .active e now, r => .active ((Registry.active e now).call r).1
  | .find order predicates now, r => .found ((Registry.find order predicates now).call r).1
  | .endpointForNode _ _ _, _ => .resolved
  | .bindings order now, r =>
    .bindings {pair | ∃ pairs r', (Registry.bindings order now).Returns r pairs r' ∧ pair ∈ pairs}

theorem run_of_isQuery {op : Operation I} (h : op.isQuery = true) :
    ∃ now, op.time = some now ∧ ∀ r : Registry I S, op.run r = r.expire now := by
  cases op with
  | active e now => exact ⟨now, rfl, fun r ↦ rfl⟩
  | find order predicates now =>
    exact ⟨now, rfl, fun r ↦ Registry.after_find order predicates now r⟩
  | endpointForNode order name now => exact ⟨now, rfl, fun r ↦ rfl⟩
  | bindings order now => exact ⟨now, rfl, fun r ↦ rfl⟩
  | receive | authorize | revoke => cases h

end Operation

namespace Registry

theorem call_find (order : HashOrder (ActiveRecord I)) (predicates : List Predicate)
    (now : UInt64) (r : Registry I S) :
    ((find order predicates now).call r).1 = if (r.expire now).foundPeers order predicates = []
      then .error .noMatchingPeer else .ok ((r.expire now).foundPeers order predicates) := by
  split
  · next hnil => exact congrArg Prod.fst (fails_find.mpr ⟨hnil, rfl, rfl⟩)
  · next hne => exact congrArg Prod.fst (returns_find.mpr ⟨rfl, hne, rfl⟩)

theorem mem_bindings {order : HashOrder (ActiveRecord I)} {now : UInt64} {r : Registry I S}
    {pair : I.EndpointId × Text × UInt64} :
    (∃ pairs r', (bindings order now).Returns r pairs r' ∧ pair ∈ pairs) ↔
      ∃ (e : I.EndpointId) (record : ActiveRecord I), (r.expire now).records[e]? = some record
        ∧ (record.announcement.endpointId, record.announcement.nodeName,
          saturatingSub (saturatingAdd record.receivedAt record.announcement.ttlMs) now)
            = pair := by
  constructor
  · rintro ⟨pairs, r', hreturns, hpair⟩
    obtain ⟨rfl, -⟩ := returns_bindings.mp hreturns
    obtain ⟨record, hmem, rfl⟩ := List.mem_map.mp hpair
    obtain ⟨e, hrecord⟩ := mem_values.mp hmem
    exact ⟨e, record, hrecord, rfl⟩
  · rintro ⟨e, record, hrecord, rfl⟩
    exact ⟨_, _, returns_bindings.mpr ⟨rfl, rfl⟩,
      List.mem_map.mpr ⟨record, mem_values.mpr ⟨e, hrecord⟩, rfl⟩⟩

variable {time : UInt64} {r r' : Registry I S}

theorem AgreeFrom.expire_both (h : AgreeFrom time r r') {now : UInt64} (hle : time ≤ now) :
    AgreeFrom now (r.expire now) (r'.expire now) :=
  congrArg (Registry.expire now) (h.mono hle)

theorem AgreeFrom.foundPeers (h : AgreeFrom time r r') (hr : r.Keyed) (hr' : r'.Keyed)
    {now : UInt64} (hle : time ≤ now) (order order' : HashOrder (ActiveRecord I))
    (predicates : List Predicate) :
    (r.expire now).foundPeers order predicates = (r'.expire now).foundPeers order' predicates := by
  have hsame : r.expire now = r'.expire now := h.mono hle
  rw [hr.foundPeers_expire, hr'.foundPeers_expire, selection, selection, hsame]

variable [SequenceStore I S]

/-- **The step lemma**: a call has the same answer in registries that agree up to its time, and they
agree from then on. -/
theorem AgreeFrom.run {op op' : Operation I} (h : AgreeFrom time r r') (hop : op.Same op')
    (hr : r.Keyed) (hr' : r'.Keyed) (htime : ∀ now, op.time = some now → time ≤ now) :
    op.answer r = op'.answer r' ∧ AgreeFrom (op.time.getD time) (op.run r) (op'.run r') := by
  have hfind : ∀ (order order' : HashOrder (ActiveRecord I)) (predicates : List Predicate)
      (now : UInt64), time ≤ now → (Operation.find order predicates now).answer r
          = (Operation.find order' predicates now).answer r'
        ∧ AgreeFrom now ((find order predicates now).after r)
          ((find order' predicates now).after r') := by
    intro order order' predicates now hle
    rw [after_find, after_find]
    refine ⟨?_, h.expire_both hle⟩
    simp only [Operation.answer, call_find, h.foundPeers hr hr' hle order order']
  have hbindings : ∀ (order order' : HashOrder (ActiveRecord I)) (now : UInt64), time ≤ now →
      (Operation.bindings order now).answer r = (Operation.bindings order' now).answer r' := by
    intro order order' now hle
    have hsame : r.expire now = r'.expire now := h.mono hle
    simp only [Operation.answer, mem_bindings, hsame]
  cases hop with
  | refl =>
    cases op with
    | receive envelope now =>
      obtain ⟨hresult, hafter⟩ := agrees_receive envelope now r r' h
      exact ⟨congrArg Outcome.received hresult, hafter.mono (htime now rfl)⟩
    | authorize e name =>
      obtain ⟨hresult, hafter⟩ := agrees_authorize e name r r' h
      exact ⟨congrArg Outcome.authorized hresult, hafter⟩
    | revoke e => exact ⟨rfl, h.revoke e⟩
    | active e now =>
      have hsame : r.expire now = r'.expire now := h.mono (htime now rfl)
      refine ⟨congrArg (fun found : Registry I S ↦ Outcome.active
        (.ok (found.records[e]?.map ActiveRecord.announcement))) hsame, ?_⟩
      exact h.expire_both (htime now rfl)
    | find order predicates now => exact hfind order order predicates now (htime now rfl)
    | endpointForNode order name now => exact ⟨rfl, h.expire_both (htime now rfl)⟩
    | bindings order now =>
      exact ⟨hbindings order order now (htime now rfl), h.expire_both (htime now rfl)⟩
  | find order order' predicates now => exact hfind order order' predicates now (htime now rfl)
  | endpointForNode order order' name now => exact ⟨rfl, h.expire_both (htime now rfl)⟩
  | bindings order order' now =>
    exact ⟨hbindings order order' now (htime now rfl), h.expire_both (htime now rfl)⟩

/-! ## Runs

The calls that were put in are marked. The run lemma goes along the marked list: a marked call
changes one registry only, an unmarked one is made in both. -/

def answers : List (Operation I) → Registry I S → List (Outcome I)
  | [], _ => []
  | op :: ops, r => op.answer r :: answers ops (op.run r)

/-- The calls of a sequence in which some are marked as put in. -/
def original (padded : List (Operation I × Bool)) : List (Operation I) :=
  (padded.filter fun entry ↦ !entry.2).map Prod.fst

/-- The answers of the other calls, while all of them are made. -/
def originalAnswers : List (Operation I × Bool) → Registry I S → List (Outcome I)
  | [], _ => []
  | (op, true) :: padded, r => originalAnswers padded (op.run r)
  | (op, false) :: padded, r => op.answer r :: originalAnswers padded (op.run r)

def times (padded : List (Operation I × Bool)) : List UInt64 :=
  padded.filterMap fun entry ↦ entry.1.time

omit [SequenceStore I S] in
theorem times_cons {op : Operation I} {extra : Bool} {padded : List (Operation I × Bool)}
    (hsorted : (times ((op, extra) :: padded)).Pairwise (· ≤ ·))
    (hstart : ∀ now ∈ times ((op, extra) :: padded), time ≤ now) :
    (∀ now, op.time = some now → time ≤ now)
      ∧ (times padded).Pairwise (· ≤ ·) ∧ ∀ now ∈ times padded, op.time.getD time ≤ now := by
  cases htime : op.time with
  | none =>
    have htimes : times ((op, extra) :: padded) = times padded := List.filterMap_cons_none htime
    rw [htimes] at hsorted hstart
    exact ⟨by simp, hsorted, hstart⟩
  | some now =>
    have htimes : times ((op, extra) :: padded) = now :: times padded :=
      List.filterMap_cons_some htime
    rw [htimes] at hsorted hstart
    obtain ⟨hfirst, hrest⟩ := List.pairwise_cons.mp hsorted
    refine ⟨?_, hrest, hfirst⟩
    rintro _ ⟨⟩
    exact hstart now List.mem_cons_self

/-- **The run lemma.** -/
theorem AgreeFrom.answers {padded : List (Operation I × Bool)} {calls : List (Operation I)}
    (h : AgreeFrom time r r') (hr : r.Reachable) (hr' : r'.Reachable)
    (hcalls : List.Forall₂ Operation.Same calls (original padded))
    (hextra : ∀ op, (op, true) ∈ padded → op.isQuery = true)
    (hsorted : (times padded).Pairwise (· ≤ ·)) (hstart : ∀ now ∈ times padded, time ≤ now) :
    answers calls r = originalAnswers padded r' := by
  induction padded generalizing calls time r r' with
  | nil =>
    cases hcalls
    rfl
  | cons entry padded ih =>
    obtain ⟨op, extra⟩ := entry
    obtain ⟨hnow, hsorted', hstart'⟩ := times_cons hsorted hstart
    have hextra' : ∀ op, (op, true) ∈ padded → op.isQuery = true := fun op hmem ↦
      hextra op (List.mem_cons_of_mem _ hmem)
    cases extra with
    | true =>
      obtain ⟨now, htime, hrun⟩ := Operation.run_of_isQuery (S := S)
        (hextra op List.mem_cons_self)
      have hafter : AgreeFrom (op.time.getD time) r (op.run r') := by
        rw [htime, hrun]
        exact h.expire (hnow now htime)
      exact ih hafter hr (.step op hr') hcalls hextra' hsorted' hstart'
    | false =>
      obtain ⟨first, rest, hsame, hrest, rfl⟩ := List.forall₂_cons_right_iff.mp hcalls
      obtain ⟨hanswer, hafter⟩ := h.run hsame hr.keyed hr'.keyed fun now htime ↦
        hnow now (hsame.time.symm.trans htime)
      rw [hsame.time] at hafter
      rw [Registry.answers, originalAnswers, hanswer,
        ih hafter (.step first hr) (.step op hr') hrest hextra' hsorted' hstart']

/-- **Queries leave no trace.** Putting queries into a sequence of calls, anywhere and with times
that do not run backwards, changes no answer of the others. -/
theorem queries_leave_no_trace {r : Registry I S} (h : r.Reachable) {calls : List (Operation I)}
    {padded : List (Operation I × Bool)}
    (hcalls : List.Forall₂ Operation.Same calls (original padded))
    (hextra : ∀ op, (op, true) ∈ padded → op.isQuery = true)
    (hsorted : (times padded).Pairwise (· ≤ ·)) :
    answers calls r = originalAnswers padded r := by
  have hsame : AgreeFrom 0 r r := rfl
  exact hsame.answers h h hcalls hextra hsorted fun _ _ ↦ UInt64.zero_le

/-- The sample is received and later sent again. That the registry was asked in between, when the
record had expired, changes nothing about either answer. -/
theorem queries_leave_no_trace_sample :
    answers [.receive sampleEnvelope 0, .receive sampleEnvelope 9000] (started .signedFleet ⟨∅⟩)
      = originalAnswers [(.receive sampleEnvelope 0, false), (.active sample.endpointId 9000, true),
        (.receive sampleEnvelope 9000, false)] (started .signedFleet ⟨∅⟩) := by
  refine queries_leave_no_trace (.new _ _ _ _) (List.forall₂_same.mpr fun op _ ↦ .refl op) ?_
    (by decide)
  intro op hop
  simp only [List.mem_cons, Prod.mk.injEq, Bool.true_eq_false, and_false, and_true,
    List.not_mem_nil, or_false, false_or] at hop
  rw [hop]
  rfl

end Registry

end NervesP2P
