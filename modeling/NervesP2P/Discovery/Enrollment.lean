import NervesP2P.Discovery.Provenance

/-!
# Enrollment over time

The authorization table and the records are separate maps, and only `receive` looks at both: a name
is compared with the enrolled one when an announcement arrives, and never again. What a query shows
later is right as long as nothing changes the table under the record.

## Revocation

`revoke` removes the entry, the record and the queue of an endpoint together, and leaves the
watermark. Under the strict policy that is final until someone authorizes the endpoint again. The
open policy has no memory of a revocation: the endpoint is then an unknown one, and its next
announcement enrolls it. What remains in either case is the watermark, which nothing lowers.

## Renaming

`authorize` of an endpoint that is enrolled already replaces its name and, unlike `revoke`, keeps
the record. The record then shows a name that the endpoint is no longer enrolled under, until it
expires or the endpoint announces itself again.
-/

open Std (ExtTreeMap)

namespace NervesP2P

variable {I : Iroh} {S : Type}

namespace Registry

variable {r : Registry I S} {e : I.EndpointId} {op : Operation I} {now : UInt64}

/-! ## What a call does to the table

The enrollment of an endpoint is changed by three kinds of calls: one that authorizes it, one that
revokes it, and an announcement that enrolls its sender. `nodeName_run` says so for all of the
interface at once. In particular an announcement that is accepted carries the name that its endpoint
is enrolled under afterwards, since it has given the name or was compared with it. -/

/-- The call gives the endpoint the name. -/
inductive Names (r : Registry I S) : Operation I → I.EndpointId → Text → Prop
  | authorize {e : I.EndpointId} {name : Text} {r' : Registry I S}
      (h : (Registry.authorize e name).Returns r () r') : Names r (.authorize e name) e name
  | receive {envelope : List UInt8} {now : UInt64} {a : Announcement I} {signature : I.Signature}
      (hopens : Opens envelope (.announcement a) signature) (h : r.SelfEnrolls signature a) :
      Names r (.receive envelope now) a.endpointId a.nodeName

theorem Names.unique {e' : I.EndpointId} {name name' : Text} (h : r.Names op e name)
    (h' : r.Names op e' name') : e = e' := by
  cases h with
  | authorize _ =>
    cases h' with
    | authorize _ => rfl
  | receive hopens _ =>
    cases h' with
    | receive hopens' _ =>
      obtain ⟨heq, -⟩ := hopens.unique hopens'
      rw [Message.announcement.inj heq]

theorem nodeName_revoke_self (r : Registry I S) (e : I.EndpointId) :
    (r.revoke e).authorization.nodeName e = none := by
  rw [AuthorizationTable.nodeName, revoke, AuthorizationTable.revoke, getElem?_erase_eq, if_pos rfl]

theorem nodeName_of_insert {table table' : AuthorizationTable I} {e₀ : I.EndpointId}
    {name₀ : Text} (h : table'.entries = table.entries.insert e₀ name₀) (e : I.EndpointId) :
    table'.nodeName e = if e₀ = e then some name₀ else table.nodeName e := by
  rw [AuthorizationTable.nodeName, h, getElem?_insert_eq, AuthorizationTable.nodeName]

section Calls

variable [SequenceStore I S]

theorem Accepted.nodeName {r' : Registry I S} {envelope : List UInt8} {a : Announcement I}
    (h : r.Accepted (.announcement a) now r') (hadm : r.Admissible envelope now (.announcement a)) :
    r'.authorization.nodeName a.endpointId = some a.nodeName := by
  rw [AuthorizationTable.nodeName, h.authorization]
  cases hname : r.authorization.nodeName a.endpointId with
  | some name =>
    have hsame : a.nodeName = name := hadm.named name hname
    rw [enrolledEntries_of_some (m := .announcement a) hname, hsame]
    exact hname
  | none => rw [enrolledEntries_of_none hname, getElem?_insert_eq, if_pos rfl]

theorem nodeName_receive (envelope : List UInt8) (now : UInt64) (r : Registry I S)
    (e : I.EndpointId) :
    ((receive envelope now).after r).authorization.nodeName e = r.authorization.nodeName e
      ∨ ∃ name, r.Names (.receive envelope now) e name
        ∧ ((receive envelope now).after r).authorization.nodeName e = some name := by
  -- where the table gets an entry, it is that of the announcement
  have hinsert : ∀ (a : Announcement I) (signature : I.Signature) (r' : Registry I S),
      Opens envelope (.announcement a) signature → r.SelfEnrolls signature a →
      r'.authorization.entries = r.authorization.entries.insert a.endpointId a.nodeName →
      r'.authorization.nodeName e = r.authorization.nodeName e
        ∨ ∃ name, r.Names (.receive envelope now) e name
          ∧ r'.authorization.nodeName e = some name := by
    intro a signature r' hopens hself hentries
    rw [nodeName_of_insert hentries]
    split
    · next he => exact Or.inr ⟨a.nodeName, he ▸ .receive hopens hself, rfl⟩
    · exact Or.inl rfl
  rcases Method.returns_or_fails (receive envelope now) r with ⟨u, h⟩ | ⟨err, h⟩
  · obtain ⟨m, hadm, haccepted⟩ := returns_receive_iff.mp h
    obtain ⟨signature, henvelope, hsigned⟩ := hadm.signed
    have hopens : Opens envelope m signature := ⟨hadm.length_le, hadm.bounded, henvelope⟩
    have hentries := haccepted.authorization
    cases hname : r.authorization.nodeName m.endpointId with
    | some name =>
      rw [enrolledEntries_of_some hname] at hentries
      exact Or.inl (congrArg (fun table : ExtTreeMap I.EndpointId Text ↦ table[e]?) hentries)
    | none =>
      rcases hadm.enrolled with hsome | ⟨hpolicy, ⟨a, rfl⟩, hsize⟩
      · rw [hname] at hsome
        cases hsome
      · rw [enrolledEntries_of_none hname] at hentries
        exact hinsert a signature _ hopens
          ⟨⟨hpolicy, hname, hadm.valid, Or.inr hsize.ne⟩, hadm.fleet, hsigned⟩ hentries
  · rcases fails_receive h with heq | ⟨m, signature, hopens, hprocess⟩
    · rw [heq]
      exact Or.inl rfl
    cases hname : r.authorization.nodeName m.endpointId with
    | some name =>
      rw [(fails_process_enrolled hname hprocess).2]
      exact Or.inl rfl
    | none =>
      rcases fails_process_unknown hname hprocess with ⟨heq, -⟩ | ⟨a, rfl, hself, -, hentries⟩
      · rw [heq]
        exact Or.inl rfl
      · exact hinsert a signature _ hopens hself hentries

/-- **What a call does to the enrollment of an endpoint**: nothing, unless it revokes the endpoint
or gives it a name. -/
theorem nodeName_run (op : Operation I) (r : Registry I S) (e : I.EndpointId) :
    (op.run r).authorization.nodeName e = r.authorization.nodeName e
      ∨ op = .revoke e
      ∨ ∃ name, r.Names op e name ∧ (op.run r).authorization.nodeName e = some name := by
  cases op with
  | receive envelope now => exact (nodeName_receive envelope now r e).imp_right Or.inr
  | authorize e₀ name₀ =>
    rcases Method.returns_or_fails (authorize e₀ name₀) r with ⟨u, h⟩ | ⟨err, h⟩
    · obtain ⟨-, table, heq, htable⟩ := returns_authorize.mp h
      rw [Operation.run, heq, nodeName_of_insert htable]
      split
      · next he =>
        subst he
        exact Or.inr (Or.inr ⟨name₀, .authorize h, rfl⟩)
      · exact Or.inl rfl
    · obtain ⟨-, -, heq⟩ := fails_authorize.mp h
      rw [Operation.run, ← heq]
      exact Or.inl rfl
  | revoke e₀ =>
    by_cases he : e₀ = e
    · exact Or.inr (Or.inl (he ▸ rfl))
    · exact Or.inl (nodeName_revoke_of_ne he)
  | active e₀ now => exact Or.inl rfl
  | find order predicates now =>
    rw [Operation.run, after_find]
    exact Or.inl rfl
  | endpointForNode order name now => exact Or.inl rfl
  | bindings order now => exact Or.inl rfl

end Calls

/-! ## What queries show

Four queries show names: that for the record of an endpoint, the search by predicates, the search
for the endpoint of a name, and the list of all bindings. All of them read unexpired records and
nothing else, so what they show together is one relation, `Reports`. -/

/-- A query shows the endpoint under the name. -/
inductive Reports (r : Registry I S) : I.EndpointId → Text → Prop
  | active {e : I.EndpointId} {now : UInt64} {a : Announcement I} {r' : Registry I S}
      (h : (active e now).Returns r (some a) r') : Reports r e a.nodeName
  | find {order : HashOrder (ActiveRecord I)} {predicates : List Predicate} {now : UInt64}
      {peers : List (Peer I)} {r' : Registry I S} {peer : Peer I}
      (h : (find order predicates now).Returns r peers r') (hpeer : peer ∈ peers) :
      Reports r peer.endpointId peer.nodeName
  | endpointForNode {order : HashOrder (ActiveRecord I)} {name : Text} {now : UInt64}
      {e : I.EndpointId} {r' : Registry I S}
      (h : (endpointForNode order name now).Returns r (some e) r') : Reports r e name
  | bindings {order : HashOrder (ActiveRecord I)} {now : UInt64}
      {found : List (I.EndpointId × Text × UInt64)} {r' : Registry I S}
      {binding : I.EndpointId × Text × UInt64} (h : (bindings order now).Returns r found r')
      (hbinding : binding ∈ found) : Reports r binding.1 binding.2.1

theorem reports_of_record {record : ActiveRecord I} (hrecord : r.records[e]? = some record)
    (hlive : now < saturatingAdd record.receivedAt record.announcement.ttlMs) :
    r.Reports e record.announcement.nodeName := by
  have hactive := getElem?_expire.mpr ⟨hrecord, hlive⟩
  have hshown : (active e now).Returns r (some record.announcement) (r.expire now) := by
    rw [returns_active, hactive]
    exact ⟨rfl, rfl⟩
  exact .active hshown

variable [SequenceStore I S]

/-- **Queries show records**, each under its own endpoint. -/
theorem Reports.record (hreachable : r.Reachable) {name : Text} (h : r.Reports e name) :
    ∃ record, r.records[e]? = some record ∧ record.announcement.nodeName = name := by
  -- a record of the hash map is one of the registry, and carries its key
  have hvalues : ∀ {order : HashOrder (ActiveRecord I)} {now : UInt64} {record : ActiveRecord I},
      record ∈ (r.expire now).values order →
        r.records[record.announcement.endpointId]? = some record := by
    intro order now record hmem
    obtain ⟨e, he⟩ := mem_values.mp hmem
    have hrecord := (getElem?_expire.mp he).1
    rwa [(hreachable.attested hrecord).keyed]
  cases h with
  | active h =>
    obtain ⟨hanswer, -⟩ := returns_active.mp h
    obtain ⟨record, hrecord, rfl⟩ := Option.map_eq_some_iff.mp hanswer.symm
    exact ⟨record, (getElem?_expire.mp hrecord).1, rfl⟩
  | find h hpeer =>
    obtain ⟨rfl, -, -⟩ := returns_find.mp h
    obtain ⟨e, record, he, rfl⟩ := exists_record_of_mem_foundPeers hpeer
    have hrecord := (getElem?_expire.mp he).1
    refine ⟨record, ?_, rfl⟩
    rwa [← (hreachable.attested hrecord).keyed] at hrecord
  | endpointForNode h =>
    obtain ⟨hanswer, -⟩ := returns_endpointForNode.mp h
    obtain ⟨record, hfind, rfl⟩ := Option.map_eq_some_iff.mp hanswer.symm
    have hname := List.find?_some hfind
    exact ⟨record, hvalues (List.mem_of_find?_eq_some hfind), of_decide_eq_true hname⟩
  | bindings h hbinding =>
    obtain ⟨rfl, -⟩ := returns_bindings.mp h
    obtain ⟨record, hmem, rfl⟩ := List.mem_map.mp hbinding
    exact ⟨record, hvalues hmem, rfl⟩

/-! ## Renaming

The invariant `NamesAgree` compares the two maps. It is kept by every call but one that renames an
endpoint with a record, and such a call succeeds whenever the new name is valid, because an endpoint
with a record has its place in the table already. -/

/-- Every record carries the name its endpoint is enrolled under. -/
def NamesAgree (r : Registry I S) : Prop :=
  ∀ (e : I.EndpointId) (record : ActiveRecord I), r.records[e]? = some record →
    r.authorization.nodeName e = some record.announcement.nodeName

/-- The call authorizes an endpoint under another name than that of its record. -/
def Renames (r : Registry I S) (op : Operation I) : Prop :=
  ∃ e name record, op = .authorize e name ∧ validNodeName name = true
    ∧ r.records[e]? = some record ∧ record.announcement.nodeName ≠ name

/-- **The step lemma.** -/
theorem NamesAgree.run (h : r.NamesAgree) (hop : ¬r.Renames op) : (op.run r).NamesAgree := by
  intro e record hrecord
  rcases (change_run op r).record hrecord with hold | ⟨envelope, now, rfl, hadm, haccepted, rfl⟩
  · rcases nodeName_run op r e with heq | rfl | ⟨name, hnames, heq⟩
    · rw [heq]
      exact h e record hold
    · rw [Operation.run, revoke, getElem?_erase_eq, if_pos rfl] at hrecord
      cases hrecord
    · cases hnames with
      | authorize hreturns =>
        obtain ⟨⟨hvalid, -⟩, -⟩ := returns_authorize.mp hreturns
        have hsame : record.announcement.nodeName = name := by
          by_contra hne
          exact hop ⟨e, name, record, rfl, hvalid, hold, hne⟩
        rw [heq, hsame]
      | receive hopens hself =>
        -- an endpoint that has a record is not an unknown one
        exact absurd ((h _ record hold).symm.trans hself.unknown) (by simp)
  · exact haccepted.nodeName hadm

omit [SequenceStore I S] in
theorem NamesAgree.returns_authorize (h : r.NamesAgree) {record : ActiveRecord I}
    (hrecord : r.records[e]? = some record) {name : Text} (hvalid : validNodeName name = true) :
    ∃ table : AuthorizationTable I,
      (authorize e name).Returns r () { r with authorization := table }
      ∧ table.nodeName e = some name := by
  have hroom : r.authorization.HasRoom e := Or.inl (Option.isSome_of_eq_some (h e record hrecord))
  refine ⟨⟨_, r.authorization.size_insert_le name hroom, r.authorization.valid_insert hvalid⟩,
    Registry.returns_authorize.mpr ⟨⟨hvalid, hroom⟩, _, rfl, rfl⟩, ?_⟩
  rw [nodeName_of_insert rfl, if_pos rfl]

theorem Renames.not_namesAgree (h : r.Renames op) (hagree : r.NamesAgree) :
    ¬(op.run r).NamesAgree := by
  obtain ⟨e, name, record, rfl, hvalid, hrecord, hne⟩ := h
  obtain ⟨table, hreturns, hname⟩ := hagree.returns_authorize hrecord hvalid
  rw [Operation.run, hreturns.after_eq]
  intro hagree'
  exact hne (Option.some.inj ((hagree' e record hrecord).symm.trans hname))

/-- The registries reached without giving an endpoint another name than that of its record. -/
inductive SteadyRun : Registry I S → Prop
  | new (fleetId : FleetId) (authorization : AuthorizationTable I) (store : S)
      (enrollment : EnrollmentPolicy) :
      SteadyRun ((new fleetId authorization store).withEnrollmentPolicy enrollment)
  | step {r : Registry I S} (op : Operation I) (h : SteadyRun r) (hop : ¬r.Renames op) :
      SteadyRun (op.run r)

theorem SteadyRun.reachable (h : r.SteadyRun) : r.Reachable := by
  induction h with
  | new fleetId authorization store enrollment =>
    exact .new fleetId authorization store enrollment
  | step op _ _ ih => exact .step op ih

theorem SteadyRun.namesAgree (h : r.SteadyRun) : r.NamesAgree := by
  induction h with
  | new fleetId authorization store enrollment =>
    intro e record hrecord
    simp [Registry.new, withEnrollmentPolicy] at hrecord
  | step op _ hop ih => exact ih.run hop

/-- **Names agree with enrollment as long as nobody is renamed.** Then no query shows a name that
its endpoint is not enrolled under. The first call that renames an endpoint with a record breaks the
agreement. -/
theorem names_agree_unless_renamed {r : Registry I S} (h : r.SteadyRun) :
    r.NamesAgree
      ∧ (∀ e name, r.Reports e name → r.authorization.nodeName e = some name)
      ∧ ∀ op, r.Renames op → ¬(op.run r).NamesAgree := by
  refine ⟨h.namesAgree, fun e name hreports ↦ ?_, fun op hop ↦ hop.not_namesAgree h.namesAgree⟩
  obtain ⟨record, hrecord, rfl⟩ := hreports.record h.reachable
  exact h.namesAgree e record hrecord

/-! ### A renamed endpoint

The only endpoint of the small world announces itself as `a@b`, and is then authorized as `e@f`. -/

theorem exists_steadyRun_sample :
    ∃ r : Registry Iroh.single (MemorySequenceStore Iroh.single),
      r.SteadyRun ∧ r.records[sample.endpointId]? = some ⟨sample, 0⟩ := by
  obtain ⟨r, hreturns, haccepted⟩ := (admissible_sampleEnvelope 0).exists_accepted
  refine ⟨r, ?_, ?_⟩
  · rw [← hreturns.after_eq]
    refine .step (.receive sampleEnvelope 0) (.new _ _ _ _) ?_
    rintro ⟨e, name, record, heq, -⟩
    cases heq
  · rw [haccepted.records, getElem?_updateRecords]
    rfl

theorem names_agree_unless_renamed_sample :
    ∃ r : Registry Iroh.single (MemorySequenceStore Iroh.single),
      r.SteadyRun ∧ r.authorization.nodeName sample.endpointId = some sample.nodeName := by
  obtain ⟨r, hrun, hrecord⟩ := exists_steadyRun_sample
  exact ⟨r, hrun, (names_agree_unless_renamed hrun).1 _ _ hrecord⟩

theorem renamedNode_size : "e@f".utf8ByteSize < 2 ^ 64 := by decide

def renamedNode : Text := ⟨"e@f", renamedNode_size⟩

/-- Once its operator has given the endpoint another name, a query still shows the old one. -/
theorem renamed_reports_old_name :
    ∃ (r : Registry Iroh.single (MemorySequenceStore Iroh.single)) (e : Iroh.single.EndpointId)
      (name : Text), r.Reachable ∧ ¬r.NamesAgree ∧ r.Reports e name
        ∧ r.authorization.nodeName e ≠ some name := by
  obtain ⟨r, hrun, hrecord⟩ := exists_steadyRun_sample
  obtain ⟨table, hreturns, hname⟩ :=
    hrun.namesAgree.returns_authorize hrecord (show validNodeName renamedNode = true by decide)
  have hreachable : Reachable { r with authorization := table } := by
    rw [← hreturns.after_eq]
    exact .step (.authorize _ _) hrun.reachable
  have hne : some renamedNode ≠ some sample.nodeName := by decide
  -- the record has stayed, and has not expired at time 0
  have hshown : Reports { r with authorization := table } sample.endpointId sample.nodeName :=
    reports_of_record (r := { r with authorization := table }) hrecord
      (show 0 < saturatingAdd 0 sample.ttlMs by decide)
  refine ⟨_, sample.endpointId, sample.nodeName, hreachable, fun hagree ↦ ?_, hshown, ?_⟩
  · exact hne (hname.symm.trans (hagree _ _ hrecord))
  · rw [hname]
    exact hne

/-! ## Revocation

What a revocation leaves is said of all registries that further calls lead to (`Continues`), with
conditions on the calls. An endpoint without a record gets one by an announcement only. Under the
strict policy no message of an endpoint without an entry is accepted, so that nothing of it comes
back (`Excludes`); under both policies no call lowers a watermark. -/

section Revocation

/-- The call does not authorize the endpoint. -/
def Spares (e : I.EndpointId) (op : Operation I) : Prop := ∀ name, op ≠ .authorize e name

/-- The call takes in an announcement of the endpoint. -/
def TakesIn (r : Registry I S) (e : I.EndpointId) (op : Operation I) : Prop :=
  ∃ envelope now a signature r', op = .receive envelope now
    ∧ Opens envelope (.announcement a) signature ∧ a.endpointId = e
    ∧ (receive envelope now).Returns r () r'

/-- The registries that calls of the given kind lead to. -/
inductive Continues (allowed : Registry I S → Operation I → Prop) (start : Registry I S) :
    Registry I S → Prop
  | refl : Continues allowed start start
  | step {r : Registry I S} {op : Operation I} (h : Continues allowed start r)
      (hop : allowed r op) : Continues allowed start (op.run r)

theorem Continues.single {allowed : Registry I S → Operation I → Prop} {start : Registry I S}
    (op : Operation I) (hop : allowed start op) : Continues allowed start (op.run start) :=
  .step .refl hop

theorem Continues.invariant {allowed : Registry I S → Operation I → Prop}
    {P : Registry I S → Prop} {start : Registry I S} (h : Continues allowed start r)
    (hstart : P start) (hstep : ∀ r op, P r → allowed r op → P (op.run r)) : P r := by
  induction h with
  | refl => exact hstart
  | step _ hop ih => exact hstep _ _ ih hop

theorem Continues.reachable {allowed : Registry I S → Operation I → Prop} {start : Registry I S}
    (h : Continues allowed start r) (hstart : start.Reachable) :
    r.Reachable :=
  h.invariant hstart fun _ op hr _ ↦ .step op hr

theorem records_run_eq_none (hnone : r.records[e]? = none) (hop : ¬r.TakesIn e op) :
    (op.run r).records[e]? = none := by
  rw [Option.eq_none_iff_forall_not_mem]
  intro record hrecord
  rcases (change_run op r).record hrecord with hold | ⟨envelope, now, rfl, hadm, haccepted, he⟩
  · exact absurd (hnone.symm.trans hold) (by simp)
  · obtain ⟨signature, henvelope, -⟩ := hadm.signed
    exact hop ⟨envelope, now, _, signature, _, rfl, ⟨hadm.length_le, hadm.bounded, henvelope⟩, he,
      returns_receive_iff.mpr ⟨_, hadm, haccepted⟩⟩

theorem not_returns_receive_of_strict (hstrict : r.enrollment = .strict)
    (hnone : r.authorization.nodeName e = none) {envelope : List UInt8} {m : Message I}
    {signature : I.Signature} (hopens : Opens envelope m signature) (he : m.endpointId = e)
    (r' : Registry I S) :
    ¬(receive envelope now).Returns r () r' := by
  intro h
  obtain ⟨m', hadm, -⟩ := returns_receive_iff.mp h
  obtain ⟨signature', henvelope, -⟩ := hadm.signed
  obtain ⟨rfl, -⟩ := hopens.unique ⟨hadm.length_le, hadm.bounded, henvelope⟩
  rcases hadm.enrolled with hsome | ⟨hpolicy, -⟩
  · rw [he, hnone] at hsome
    cases hsome
  · exact absurd (hpolicy.symm.trans hstrict) (by decide)

/-- Nothing of the endpoint is in a registry that enrolls nobody by itself. -/
structure Excludes (r : Registry I S) (e : I.EndpointId) : Prop where
  policy : r.enrollment = .strict
  entry : r.authorization.nodeName e = none
  record : r.records[e]? = none

theorem Excludes.run (h : r.Excludes e) (hop : Spares e op) : (op.run r).Excludes e where
  policy := (change_run op r).enrollment.trans h.policy
  entry := by
    rcases nodeName_run op r e with heq | rfl | ⟨name, hnames, -⟩
    · exact heq.trans h.entry
    · exact nodeName_revoke_self r e
    · cases hnames with
      | authorize _ => exact absurd rfl (hop name)
      | receive _ hself => exact absurd (hself.policy.symm.trans h.policy) (by decide)
  record := by
    refine records_run_eq_none h.record ?_
    rintro ⟨envelope, now, a, signature, r', -, hopens, he, hreturns⟩
    exact not_returns_receive_of_strict h.policy h.entry hopens he r' hreturns

omit [SequenceStore I S] in
theorem records_revoke_self (r : Registry I S) (e : I.EndpointId) :
    (r.revoke e).records[e]? = none := by
  rw [revoke, getElem?_erase_eq, if_pos rfl]

/-- The watermark of an endpoint is at least the given one. -/
def WatermarkAbove (floor : UInt64) (e : I.EndpointId) (r : Registry I S) : Prop :=
  ∃ stored, SequenceStore.load r.store e = .ok stored ∧ floor ≤ stored

theorem WatermarkAbove.run [LawfulSequenceStore I S] {floor : UInt64}
    (h : WatermarkAbove floor e r) (op : Operation I) :
    WatermarkAbove floor e (op.run r) := by
  have hchange := change_run op r
  obtain ⟨stored, hload, hle⟩ := h
  generalize op.run r = r' at hchange
  cases hchange with
  | unchanged | expired | revoked | authorized => exact ⟨stored, hload, hle⟩
  | rejected hretained => exact ⟨stored, (hretained.load_eq e).trans hload, hle⟩
  | @accepted envelope now m _ hadm haccepted =>
    have htook := haccepted.tookIn hadm.enrolled
    by_cases he : e = m.endpointId
    · subst he
      obtain ⟨current, hcurrent, hlt⟩ := hadm.fresh
      obtain rfl := Except.ok.inj (hload.symm.trans hcurrent)
      exact ⟨m.sequence, htook.watermark, UInt64.le_trans hle (UInt64.le_of_lt hlt)⟩
    · exact ⟨stored, (htook.other e he).1.trans hload, hle⟩

/-- **What a revocation leaves.** Until the endpoint is authorized again, a strict registry accepts
no message of it, and no query shows it. An open registry may enroll it anew, but no query shows it
before one of its announcements has been accepted. In either case only messages above the watermark
at the revocation are accepted from then on, authorized again or not. -/
theorem revocation_sticks [LawfulSequenceStore I S] {r : Registry I S} (h : r.Reachable)
    (e : I.EndpointId) :
    (∀ r', Continues (fun _ op ↦ Spares e op) (r.revoke e) r' → r.enrollment = .strict →
        (∀ envelope now m signature, Opens envelope m signature → m.endpointId = e →
          ∀ r'', ¬(receive envelope now).Returns r' () r'')
        ∧ ∀ name, ¬r'.Reports e name)
      ∧ (∀ r', Continues (fun r op ↦ Spares e op ∧ ¬r.TakesIn e op) (r.revoke e) r' →
        ∀ name, ¬r'.Reports e name)
      ∧ ∀ watermark, SequenceStore.load r.store e = .ok watermark →
        ∀ r', Continues (fun _ _ ↦ True) (r.revoke e) r' →
          ∀ envelope now m signature r'', Opens envelope m signature → m.endpointId = e →
            (receive envelope now).Returns r' () r'' → watermark < m.sequence := by
  have hrevoked : (r.revoke e).Reachable := .step (.revoke e) h
  have hhidden : ∀ r' : Registry I S, r'.Reachable → r'.records[e]? = none →
      ∀ name, ¬r'.Reports e name := by
    intro r' hr' hnone name hreports
    obtain ⟨record, hrecord, -⟩ := hreports.record hr'
    exact absurd (hnone.symm.trans hrecord) (by simp)
  refine ⟨fun r' hr' hstrict ↦ ?_, fun r' hr' ↦ ?_, fun watermark hload r' hr' ↦ ?_⟩
  · have hexcludes : r'.Excludes e := hr'.invariant (P := fun r ↦ r.Excludes e)
      ⟨hstrict, nodeName_revoke_self r e, records_revoke_self r e⟩ fun _ _ hex hop ↦ hex.run hop
    refine ⟨fun envelope now m signature hopens he ↦ ?_,
      hhidden r' (hr'.reachable hrevoked) hexcludes.record⟩
    exact not_returns_receive_of_strict hexcludes.policy hexcludes.entry hopens he
  · refine hhidden r' (hr'.reachable hrevoked) ?_
    exact hr'.invariant (P := fun r ↦ r.records[e]? = none) (records_revoke_self r e)
      fun _ _ hnone hop ↦ records_run_eq_none hnone hop.2
  · have habove : WatermarkAbove watermark e r' := hr'.invariant (P := WatermarkAbove watermark e)
      ⟨watermark, hload, UInt64.le_refl _⟩ fun _ op habove _ ↦ habove.run op
    intro envelope now m signature r'' hopens he hreturns
    obtain ⟨m', hadm, -⟩ := returns_receive_iff.mp hreturns
    obtain ⟨signature', henvelope, -⟩ := hadm.signed
    obtain ⟨rfl, -⟩ := hopens.unique ⟨hadm.length_le, hadm.bounded, henvelope⟩
    obtain ⟨stored, hstored, hle⟩ := habove
    obtain ⟨current, hcurrent, hlt⟩ := hadm.fresh
    rw [he, hstored] at hcurrent
    obtain rfl := Except.ok.inj hcurrent
    exact UInt64.lt_of_le_of_lt hle hlt

theorem reports_of_returns [LawfulSequenceStore I S] {envelope : List UInt8} {received : UInt64}
    {a : Announcement I} {signature : I.Signature} {r' : Registry I S}
    (hopens : Opens envelope (.announcement a) signature)
    (h : (receive envelope received).Returns r () r')
    (hlive : now < saturatingAdd received a.ttlMs) : r'.Reports a.endpointId a.nodeName :=
  reports_of_record (hopens.tookIn h).record hlive

end Revocation

/-! ### A revoked endpoint that comes back

The endpoint of the small world is known to an open registry, is revoked, and announces itself once
more with the next number. -/

/-- An open registry after the sample. -/
def heardSample : Registry Iroh.single (MemorySequenceStore Iroh.single) :=
  (process (encodeAnnouncement sample) () (.announcement sample) 0).after (started .signedFleet ⟨∅⟩)

theorem returns_heardSample :
    (receive sampleEnvelope 0).Returns (started .signedFleet ⟨∅⟩) () heardSample :=
  returns_receive.mpr ⟨_, (), opens_sampleEnvelope, Method.returns_after (by decide +kernel)⟩

theorem reachable_heardSample : heardSample.Reachable := by
  rw [← returns_heardSample.after_eq]
  exact .step (.receive sampleEnvelope 0) (.new _ _ _ _)

theorem returns_nextEnvelope : ∃ r',
    (receive nextEnvelope 1).Returns (heardSample.revoke sample.endpointId) () r' :=
  ⟨_, returns_receive.mpr
    ⟨_, (), opens_nextEnvelope, Method.returns_after (by decide +kernel)⟩⟩

/-- After the revocation, and without being authorized again, the endpoint has its next message
accepted and is shown by a query. -/
theorem revoked_endpoint_returns :
    ∃ (r r' : Registry Iroh.single (MemorySequenceStore Iroh.single))
      (e : Iroh.single.EndpointId), r.Reachable ∧ r.records[e]?.isSome = true
        ∧ Continues (fun _ op ↦ Spares e op) (r.revoke e) r'
        ∧ (receive nextEnvelope 1).Returns (r.revoke e) () r'
        ∧ ∃ name, r'.Reports e name := by
  obtain ⟨r', hreturns⟩ := returns_nextEnvelope
  have hshown := reports_of_returns opens_nextEnvelope hreturns
    (show 1 < saturatingAdd 1 nextSample.ttlMs by decide)
  refine ⟨heardSample, r', sample.endpointId, reachable_heardSample, by decide +kernel, ?_,
    hreturns, _, hshown⟩
  rw [← hreturns.after_eq]
  refine .single (.receive nextEnvelope 1) ?_
  rintro name ⟨⟩

/-- A strict registry that has authorized the endpoint. -/
def invited : Registry Iroh.single (MemorySequenceStore Iroh.single) :=
  (Operation.authorize sample.endpointId sample.nodeName).run (started .strict ⟨∅⟩)

/-- The same registry after the sample. -/
def invitedHeard : Registry Iroh.single (MemorySequenceStore Iroh.single) :=
  (process (encodeAnnouncement sample) () (.announcement sample) 0).after invited

theorem returns_invitedHeard : (receive sampleEnvelope 0).Returns invited () invitedHeard :=
  returns_receive.mpr ⟨_, (), opens_sampleEnvelope, Method.returns_after (by decide +kernel)⟩

theorem reachable_invitedHeard : invitedHeard.Reachable := by
  rw [← returns_invitedHeard.after_eq]
  exact .step (.receive sampleEnvelope 0) (.step (.authorize _ _) (.new _ _ _ _))

theorem invitedHeard_reports : invitedHeard.Reports sample.endpointId sample.nodeName :=
  reports_of_returns opens_sampleEnvelope returns_invitedHeard
    (show 1 < saturatingAdd 0 sample.ttlMs by decide)

/-- The message that comes back to an open registry is above the watermark. A strict registry showed
the endpoint before the revocation; it takes no message of it any more and does not show it. -/
theorem revocation_sticks_sample :
    (∃ r', (receive nextEnvelope 1).Returns (heardSample.revoke sample.endpointId) () r'
      ∧ 1 < nextSample.sequence)
      ∧ invitedHeard.Reports sample.endpointId sample.nodeName
      ∧ (∀ r', ¬(receive nextEnvelope 1).Returns (invitedHeard.revoke sample.endpointId) () r')
      ∧ ∀ name, ¬(invitedHeard.revoke sample.endpointId).Reports sample.endpointId name := by
  obtain ⟨r', hreturns⟩ := returns_nextEnvelope
  have hopen := (revocation_sticks reachable_heardSample sample.endpointId).2.2 1
    (by decide +kernel) _ .refl _ _ _ () r' opens_nextEnvelope rfl hreturns
  have hstrict := (revocation_sticks reachable_invitedHeard sample.endpointId).1 _ .refl
    (by decide +kernel)
  exact ⟨⟨r', hreturns, hopen⟩, invitedHeard_reports,
    hstrict.1 nextEnvelope 1 _ () opens_nextEnvelope rfl, hstrict.2⟩

end Registry

end NervesP2P
