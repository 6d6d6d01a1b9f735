import NervesP2P.Discovery.Enrollment
import NervesP2P.Discovery.Selection
import NervesP2P.Dist.Bindings

/-!
# Endpoints by name

Discovery keeps one record for each endpoint, and an endpoint is enrolled under one name. In the
other direction nothing is enforced: an operator may authorize two endpoints under one name, and an
open registry enrolls any unknown endpoint under the name it signs. `endpoint_for_node` then returns
the first record its hash map happens to show, and the table of the distribution keeps the last.

What can be said of every registry is which answers are possible (`Resolves`, `Synchronises`): any
endpoint with an active record of the name, and only those. The order of the hash map therefore
matters exactly when two endpoints share a name. They never do in a run that gives a name to an
endpoint only while no other endpoint goes by it (`ExclusiveRun`).
-/

open Std (ExtTreeMap)

namespace NervesP2P

variable {I : Iroh} {S : Type}

theorem HashOrder.exists_arrange {α : Type} {l l' : List α} (h : l'.Perm l) :
    ∃ order : HashOrder α, order.arrange l = l' := by
  classical
  refine ⟨⟨fun values ↦ if values = l then l' else values, fun values ↦ ?_⟩, if_pos rfl⟩
  split
  · next heq => exact heq ▸ h
  · exact List.Perm.refl values

namespace Registry

variable {r : Registry I S} {now : UInt64} {name : Text} {e : I.EndpointId}

/-! ## Possible answers

The order in which a hash map shows its values can be any, and each order gives an answer. To say
which answers are possible is to say which record can come first, or last, and that is any of those
that have the name. -/

/-- The endpoint has an active record of the name. -/
def Bound (r : Registry I S) (now : UInt64) (e : I.EndpointId) (name : Text) : Prop :=
  ∃ record, r.records[e]? = some record ∧ Unexpired now record
    ∧ record.announcement.nodeName = name

/-- No two endpoints have an active record of the same name. -/
def Unambiguous (r : Registry I S) (now : UInt64) : Prop :=
  ∀ e e' name, r.Bound now e name → r.Bound now e' name → e = e'

/-- The lookup of a name may give the answer. -/
def Resolves (r : Registry I S) (now : UInt64) (name : Text) (answer : Option I.EndpointId) :
    Prop :=
  ∃ order r', (endpointForNode order name now).Returns r answer r'

/-- The bindings of the registry may turn the shared table into the other one. -/
def Synchronises (r : Registry I S) (now : UInt64) (instant : ℕ) (shared shared' : Shared I) :
    Prop :=
  ∃ order pairs r', (bindings order now).Returns r pairs r'
    ∧ shared' = shared.replaceBindings pairs instant

/-- What a record contributes to the shared table. -/
def bindingOf (now : UInt64) (instant : ℕ) (record : ActiveRecord I) : Text × Binding I :=
  Shared.bind instant (record.announcement.endpointId, record.announcement.nodeName,
    saturatingSub (saturatingAdd record.receivedAt record.announcement.ttlMs) now)

/-- The active records, in an order of no importance. -/
def activeRecords (r : Registry I S) (now : UInt64) : List (ActiveRecord I) :=
  (r.expire now).records.toList.map Prod.snd

theorem mem_activeRecords {record : ActiveRecord I} :
    record ∈ r.activeRecords now ↔
      ∃ e : I.EndpointId, r.records[e]? = some record ∧ Unexpired now record := by
  have hmem : record ∈ (r.expire now).values ⟨id, List.Perm.refl⟩
      ↔ ∃ e : I.EndpointId, (r.expire now).records[e]? = some record := mem_values
  refine hmem.trans (exists_congr fun e ↦ ?_)
  rw [getElem?_expire, unexpired_iff]

theorem resolves_iff {answer : Option I.EndpointId} :
    r.Resolves now name answer ↔
      ∃ l : List (ActiveRecord I), l.Perm (r.activeRecords now)
        ∧ answer = (l.find? fun record ↦ record.announcement.nodeName = name).map
          fun record ↦ record.announcement.endpointId := by
  constructor
  · rintro ⟨order, r', h⟩
    exact ⟨_, order.perm _, (returns_endpointForNode.mp h).1⟩
  · rintro ⟨l, hperm, hanswer⟩
    obtain ⟨order, rfl⟩ := HashOrder.exists_arrange hperm
    exact ⟨order, _, returns_endpointForNode.mpr ⟨hanswer, rfl⟩⟩

theorem synchronises_iff {instant : ℕ} {shared shared' : Shared I} :
    r.Synchronises now instant shared shared' ↔
      ∃ l : List (ActiveRecord I), l.Perm (r.activeRecords now)
        ∧ shared' = { shared with bindings := collect (l.map (bindingOf now instant)) } := by
  constructor
  · rintro ⟨order, pairs, r', h, rfl⟩
    obtain ⟨rfl, -⟩ := returns_bindings.mp h
    refine ⟨_, order.perm _, ?_⟩
    rw [Shared.replaceBindings, List.map_map]
    rfl
  · rintro ⟨l, hperm, rfl⟩
    obtain ⟨order, rfl⟩ := HashOrder.exists_arrange hperm
    refine ⟨order, _, _, returns_bindings.mpr ⟨rfl, rfl⟩, ?_⟩
    rw [Shared.replaceBindings, List.map_map]
    rfl

section Answers

variable [SequenceStore I S]

theorem Reachable.bound_iff (h : r.Reachable) :
    r.Bound now e name ↔ ∃ record ∈ r.activeRecords now,
      record.announcement.nodeName = name ∧ record.announcement.endpointId = e := by
  constructor
  · rintro ⟨record, hrecord, hlive, hname⟩
    exact ⟨record, mem_activeRecords.mpr ⟨e, hrecord, hlive⟩, hname,
      (h.attested hrecord).keyed⟩
  · rintro ⟨record, hmem, hname, rfl⟩
    obtain ⟨e, hrecord, hlive⟩ := mem_activeRecords.mp hmem
    rw [← (h.attested hrecord).keyed] at hrecord
    exact ⟨record, hrecord, hlive, hname⟩

/-- **A lookup may give any endpoint with an active record of the name**, and no other. -/
theorem Reachable.resolves_some (h : r.Reachable) :
    r.Resolves now name (some e) ↔ r.Bound now e name := by
  rw [resolves_iff, h.bound_iff]
  constructor
  · rintro ⟨l, hperm, hanswer⟩
    obtain ⟨record, hfind, he⟩ := Option.map_eq_some_iff.mp hanswer.symm
    obtain ⟨hmem, hname⟩ := exists_perm_find?.mp ⟨l, hperm, hfind⟩
    exact ⟨record, hmem, of_decide_eq_true hname, he⟩
  · rintro ⟨record, hmem, hname, rfl⟩
    obtain ⟨l, hperm, hfind⟩ : ∃ l : List (ActiveRecord I), l.Perm (r.activeRecords now)
        ∧ (l.find? fun record ↦ record.announcement.nodeName = name) = some record :=
      exists_perm_find?.mpr ⟨hmem, decide_eq_true hname⟩
    exact ⟨l, hperm, by rw [hfind]; rfl⟩

theorem Reachable.resolves_none (h : r.Reachable) :
    r.Resolves now name none ↔ ∀ e, ¬r.Bound now e name := by
  rw [resolves_iff]
  constructor
  · rintro ⟨l, hperm, hanswer⟩ e hbound
    obtain ⟨record, hmem, hname, -⟩ := h.bound_iff.mp hbound
    have hnone := (perm_find?_eq_none hperm).mp (Option.map_eq_none_iff.mp hanswer.symm)
    exact hnone record hmem (decide_eq_true hname)
  · intro hnone
    refine ⟨_, List.Perm.refl _, ?_⟩
    rw [eq_comm, Option.map_eq_none_iff, perm_find?_eq_none (List.Perm.refl _)]
    intro record hmem hname
    exact hnone _ (h.bound_iff.mpr ⟨record, hmem, of_decide_eq_true hname, rfl⟩)

/-- **The shared table may bind a name to any endpoint with an active record of it**, and to no
other. -/
theorem Reachable.synchronises_binding (h : r.Reachable) {instant : ℕ} {shared : Shared I} :
    (∃ shared' expires, r.Synchronises now instant shared shared'
        ∧ shared'.bindings[name]? = some ⟨e, expires⟩) ↔ r.Bound now e name := by
  rw [h.bound_iff]
  constructor
  · rintro ⟨shared', expires, hsync, hget⟩
    obtain ⟨l, hperm, rfl⟩ := synchronises_iff.mp hsync
    obtain ⟨record, hmem, heq⟩ := exists_perm_collect.mp ⟨l, hperm, hget⟩
    exact ⟨record, hmem, congrArg Prod.fst heq, congrArg (fun entry ↦ entry.2.endpoint) heq⟩
  · rintro ⟨record, hmem, rfl, rfl⟩
    have hlast : ∃ l : List (ActiveRecord I), l.Perm (r.activeRecords now)
        ∧ (collect (l.map (bindingOf now instant)) : ExtTreeMap Text (Binding I))[
          record.announcement.nodeName]? = some (bindingOf now instant record).2 :=
      (exists_perm_collect (f := bindingOf now instant)).mpr ⟨record, hmem, rfl⟩
    obtain ⟨l, hperm, hget⟩ := hlast
    exact ⟨_, _, synchronises_iff.mpr ⟨l, hperm, rfl⟩, hget⟩

/-! ## When the order matters

Two endpoints that share a name give two possible answers. Without such a pair there is at most
one. -/

theorem Reachable.unambiguous_iff_resolves (h : r.Reachable) :
    r.Unambiguous now ↔
      ∀ name a a', r.Resolves now name a → r.Resolves now name a' → a = a' := by
  constructor
  · intro hone name a a' ha ha'
    cases a with
    | none =>
      cases a' with
      | none => rfl
      | some e' => exact absurd (h.resolves_some.mp ha') (h.resolves_none.mp ha e')
    | some e =>
      cases a' with
      | none => exact absurd (h.resolves_some.mp ha) (h.resolves_none.mp ha' e)
      | some e' =>
        rw [hone e e' name (h.resolves_some.mp ha) (h.resolves_some.mp ha')]
  · intro hsame e e' name he he'
    exact Option.some.inj
      (hsame name _ _ (h.resolves_some.mpr he) (h.resolves_some.mpr he'))

theorem Reachable.unambiguous_iff_synchronises (h : r.Reachable) :
    r.Unambiguous now ↔ ∀ instant shared s s', r.Synchronises now instant shared s →
      r.Synchronises now instant shared s' → s = s' := by
  constructor
  · intro hone instant shared s s' hs hs'
    obtain ⟨l, hperm, rfl⟩ := synchronises_iff.mp hs
    obtain ⟨l', hperm', rfl⟩ := synchronises_iff.mp hs'
    have hentry : ∀ name b b', (name, b) ∈ l.map (bindingOf now instant) →
        (name, b') ∈ l.map (bindingOf now instant) → b = b' := by
      intro name b b' hb hb'
      obtain ⟨record, hmem, heq⟩ := List.mem_map.mp hb
      obtain ⟨record', hmem', heq'⟩ := List.mem_map.mp hb'
      obtain ⟨e, hrecord, hlive⟩ := mem_activeRecords.mp (hperm.mem_iff.mp hmem)
      obtain ⟨e', hrecord', hlive'⟩ := mem_activeRecords.mp (hperm.mem_iff.mp hmem')
      -- one name, so one endpoint, so one record
      obtain rfl := hone e e' name ⟨record, hrecord, hlive, congrArg Prod.fst heq⟩
        ⟨record', hrecord', hlive', congrArg Prod.fst heq'⟩
      obtain rfl := Option.some.inj (hrecord.symm.trans hrecord')
      exact congrArg Prod.snd (heq.symm.trans heq')
    rw [collect_eq_of_perm ((hperm'.trans hperm.symm).map _) hentry]
  · intro hsame e e' name he he'
    have hbinds : ∀ e, r.Bound now e name → ∃ s expires, r.Synchronises now 0 Shared.new s
        ∧ s.bindings[name]? = some ⟨e, expires⟩ := fun _ ↦ h.synchronises_binding.mpr
    obtain ⟨s, expires, hs, hget⟩ := hbinds e he
    obtain ⟨s', expires', hs', hget'⟩ := hbinds e' he'
    rw [hsame _ _ s s' hs hs', hget'] at hget
    exact (congrArg Binding.endpoint (Option.some.inj hget)).symm

end Answers

/-! ## Exclusive names

Names are given by authorization and by enrollment, and they are kept by entries and by records. So
what has to be exclusive is both: a registry holds no name after a call that it did not hold before,
other than the one the call gave. -/

/-- The endpoint goes by the name: it is enrolled under it, or has a record of it. -/
def Holds (r : Registry I S) (e : I.EndpointId) (name : Text) : Prop :=
  r.authorization.nodeName e = some name
    ∨ ∃ record, r.records[e]? = some record ∧ record.announcement.nodeName = name

/-- No two endpoints go by the same name. -/
def Exclusive (r : Registry I S) : Prop :=
  ∀ e e' name, r.Holds e name → r.Holds e' name → e = e'

variable [SequenceStore I S]

/-- **What gives a name**: a registry holds no name after a call that it did not hold before, other
than the one the call gave. -/
theorem holds_of_run {op : Operation I} (h : (op.run r).Holds e name) :
    r.Holds e name ∨ r.Names op e name := by
  have henrolled : (op.run r).authorization.nodeName e = some name →
      r.Holds e name ∨ r.Names op e name := by
    intro hname
    rcases nodeName_run op r e with heq | rfl | ⟨name', hnames, heq⟩
    · exact Or.inl (Or.inl (heq.symm.trans hname))
    · exact absurd ((nodeName_revoke_self r e).symm.trans hname) (by simp)
    · obtain rfl := Option.some.inj (heq.symm.trans hname)
      exact Or.inr hnames
  rcases h with hname | ⟨record, hrecord, rfl⟩
  · exact henrolled hname
  · rcases (change_run op r).record hrecord with
      hold | ⟨envelope, now, -, hadm, haccepted, rfl⟩
    · exact Or.inl (Or.inr ⟨record, hold, rfl⟩)
    -- a record that is new carries the name its endpoint is enrolled under now
    · exact henrolled (haccepted.nodeName hadm)

/-- The registries reached by calls that give a name to an endpoint only while no other endpoint
goes by it, from a table of different names. -/
inductive ExclusiveRun : Registry I S → Prop
  | new (fleetId : FleetId) {authorization : AuthorizationTable I} (store : S)
      (enrollment : EnrollmentPolicy)
      (h : ∀ e e' name, authorization.nodeName e = some name →
        authorization.nodeName e' = some name → e = e') :
      ExclusiveRun ((new fleetId authorization store).withEnrollmentPolicy enrollment)
  | step {r : Registry I S} {op : Operation I} (h : ExclusiveRun r)
      (hfree : ∀ e name, r.Names op e name → ∀ e', r.Holds e' name → e' = e) :
      ExclusiveRun (op.run r)

/-- **The step lemma.** -/
theorem Exclusive.run {op : Operation I} (h : r.Exclusive)
    (hfree : ∀ e name, r.Names op e name → ∀ e', r.Holds e' name → e' = e) :
    (op.run r).Exclusive := by
  intro e e' name he he'
  rcases holds_of_run he with hold | hnew
  · rcases holds_of_run he' with hold' | hnew'
    · exact h e e' name hold hold'
    · exact hfree e' name hnew' e hold
  · rcases holds_of_run he' with hold' | hnew'
    · exact (hfree e name hnew e' hold').symm
    · exact hnew.unique hnew'

theorem ExclusiveRun.exclusive (h : r.ExclusiveRun) : r.Exclusive := by
  induction h with
  | new fleetId store enrollment hnames =>
    intro e e' name he he'
    rcases he with he | ⟨record, hrecord, -⟩
    · rcases he' with he' | ⟨record, hrecord, -⟩
      · exact hnames e e' name he he'
      · simp [Registry.new, withEnrollmentPolicy] at hrecord
    · simp [Registry.new, withEnrollmentPolicy] at hrecord
  | step _ hfree ih => exact ih.run hfree

/-- **Names and endpoints.** Which endpoint a name resolves to, and which one the shared table binds
it to, may be any that has an active record of it. Neither depends on the order of the hash map if
and only if no two endpoints share a name, and they never do where names are given to one endpoint
at a time. -/
theorem names_resolve {r : Registry I S} (h : r.Reachable) :
    (∀ now name e, r.Resolves now name (some e) ↔ r.Bound now e name)
      ∧ (∀ now name, r.Resolves now name none ↔ ∀ e, ¬r.Bound now e name)
      ∧ (∀ now instant shared name e, (∃ shared' expires,
          r.Synchronises now instant shared shared'
            ∧ shared'.bindings[name]? = some ⟨e, expires⟩) ↔ r.Bound now e name)
      ∧ (∀ now, (r.Unambiguous now ↔
          ∀ name a a', r.Resolves now name a → r.Resolves now name a' → a = a')
        ∧ (r.Unambiguous now ↔ ∀ instant shared s s', r.Synchronises now instant shared s →
          r.Synchronises now instant shared s' → s = s'))
      ∧ (r.ExclusiveRun → ∀ (e e' : I.EndpointId) (record record' : ActiveRecord I),
          r.records[e]? = some record → r.records[e']? = some record' →
          record.announcement.nodeName = record'.announcement.nodeName → e = e') := by
  refine ⟨fun now name e ↦ h.resolves_some, fun now name ↦ h.resolves_none,
    fun now instant shared name e ↦ h.synchronises_binding,
    fun now ↦ ⟨h.unambiguous_iff_resolves, h.unambiguous_iff_synchronises⟩, ?_⟩
  intro hrun e e' record record' hrecord hrecord' hname
  exact hrun.exclusive e e' _ (Or.inr ⟨record, hrecord, rfl⟩)
    (Or.inr ⟨record', hrecord', hname.symm⟩)

theorem bound_bothHeard_iff {e e' : Iroh.pair.EndpointId} :
    bothHeard.Bound now e' (member e).nodeName ↔ now.toNat < 5000 ∧ e = e' := by
  have hnames : ∀ e e' : Bool, (member e').nodeName = (member e).nodeName ↔ e = e' := by
    decide
  have hdeadline : min ((0 : UInt64).toNat + sample.ttlMs.toNat) (2 ^ 64 - 1) = 5000 := by decide
  have hlive : Unexpired now ⟨member e', 0⟩ ↔ now.toNat < 5000 := by
    rw [← hdeadline]
    exact Iff.rfl
  constructor
  · rintro ⟨record, hrecord, hactive, hname⟩
    obtain rfl := Option.some.inj ((getElem?_bothHeard e').symm.trans hrecord)
    exact ⟨hlive.mp hactive, (hnames e e').mp hname⟩
  · rintro ⟨hactive, rfl⟩
    exact ⟨_, getElem?_bothHeard e, hlive.mpr hactive, rfl⟩

/-- The names of two members resolve each to its own endpoint, and to nothing once their records
have expired. -/
theorem names_resolve_sample :
    bothHeard.Reachable
      ∧ (∀ e e', bothHeard.Resolves 0 (member e).nodeName (some e') ↔ e = e')
      ∧ ∀ e, bothHeard.Resolves 5000 (member e).nodeName none := by
  obtain ⟨hsome, hnone, -⟩ := names_resolve reachable_bothHeard
  refine ⟨reachable_bothHeard, fun e e' ↦ ?_, fun e ↦ ?_⟩
  · rw [hsome, bound_bothHeard_iff]
    exact and_iff_right (by decide)
  · rw [hnone]
    exact fun e' hbound ↦ absurd (bound_bothHeard_iff.mp hbound).1 (by decide)

end Registry

/-! ## Two endpoints of one name

In the world of two keys, both endpoints announce the name of the sample to an open registry. -/

namespace Registry

/-- The sample, announced by one of the two endpoints. -/
def twin (e : Iroh.pair.EndpointId) : Announcement Iroh.pair where
  fleetId := sample.fleetId
  endpointId := e
  nodeName := sample.nodeName
  partisanIp := sample.partisanIp
  partisanPort := sample.partisanPort
  sequence := sample.sequence
  ttlMs := sample.ttlMs
  capabilities := sample.capabilities
  load := sample.load

/-- The call that delivers the announcement of an endpoint. -/
def receiveTwin (e : Iroh.pair.EndpointId) : Operation Iroh.pair :=
  .receive (encodeEnvelope (encodeAnnouncement (twin e)) (Iroh.pair.toBytes ())) 0

/-- An open registry that has heard of both. -/
def twins : Registry Iroh.pair (MemorySequenceStore Iroh.pair) :=
  (receiveTwin true).run <| (receiveTwin false).run <|
    (new sample.fleetId .empty ⟨∅⟩).withEnrollmentPolicy .signedFleet

theorem bound_twins (e : Iroh.pair.EndpointId) : twins.Bound 0 e sample.nodeName := by
  have hheard : ∀ e : Bool, (fun key : Iroh.pair.EndpointId ↦ twins.records[key]?.any fun record ↦
      Unexpired 0 record ∧ record.announcement.nodeName = sample.nodeName) e = true := by
    decide +kernel
  obtain ⟨record, hrecord, h⟩ := (Option.any_eq_true _ _).mp (hheard e)
  obtain ⟨hlive, hname⟩ := of_decide_eq_true h
  exact ⟨record, hrecord, hlive, hname⟩

/-- Two endpoints have an active record of one name. What the name resolves to, and what it is bound
to, depends on the order of the hash map. -/
theorem name_of_two_endpoints :
    ∃ (r : Registry Iroh.pair (MemorySequenceStore Iroh.pair)) (e e' : Iroh.pair.EndpointId)
      (name : Text), r.Reachable ∧ e ≠ e'
        ∧ (∃ record record', r.records[e]? = some record ∧ r.records[e']? = some record'
          ∧ record.announcement.nodeName = name ∧ record'.announcement.nodeName = name)
        ∧ r.Resolves 0 name (some e) ∧ r.Resolves 0 name (some e')
        ∧ ∃ s s', r.Synchronises 0 0 .new s ∧ r.Synchronises 0 0 .new s' ∧ s ≠ s' := by
  have hreachable : twins.Reachable := .step _ (.step _ (.new _ _ _ _))
  have hne : (false : Iroh.pair.EndpointId) ≠ true := by simp
  obtain ⟨record, hrecord, -, hname⟩ := bound_twins false
  obtain ⟨record', hrecord', -, hname'⟩ := bound_twins true
  refine ⟨twins, false, true, sample.nodeName, hreachable, hne,
    ⟨record, record', hrecord, hrecord', hname, hname'⟩, hreachable.resolves_some.mpr
    (bound_twins false), hreachable.resolves_some.mpr (bound_twins true), ?_⟩
  obtain ⟨s, expires, hs, hget⟩ : ∃ s expires, twins.Synchronises 0 0 .new s
      ∧ s.bindings[sample.nodeName]? = some ⟨false, expires⟩ :=
    hreachable.synchronises_binding.mpr (bound_twins false)
  obtain ⟨s', expires', hs', hget'⟩ : ∃ s expires, twins.Synchronises 0 0 .new s
      ∧ s.bindings[sample.nodeName]? = some ⟨true, expires⟩ :=
    hreachable.synchronises_binding.mpr (bound_twins true)
  refine ⟨s, s', hs, hs', ?_⟩
  rintro rfl
  rw [hget] at hget'
  exact hne (congrArg Binding.endpoint (Option.some.inj hget'))

end Registry

end NervesP2P
