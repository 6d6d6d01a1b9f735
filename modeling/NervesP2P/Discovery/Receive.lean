import NervesP2P.Discovery.Codec
import NervesP2P.Discovery.Registry
import NervesP2P.Lib.Maps

/-!
# How `receive` ends

Every call of `receive` is taken apart here, once: which messages it accepts and what that makes of
the registry, and what a rejected message leaves behind. Later modules use these results and do not
look inside the method again.

## Acceptance

`returns_receive` and `returns_process` together say that a call succeeds exactly when the bytes
open to a message (`Opens`), the signature verifies, the present state accepts it (`Accepts`), and
the store can be advanced; `Accepted` then determines the new registry.

## Rejection

A rejected message may have used up a place in its endpoint's rate queue, and the store may have
seen an `advance` that failed (`Retained`). There is one more thing it can leave behind: an
announcement of an unknown endpoint is enrolled *before* the limiter, the sequence and the store
have been asked, so under the open policy the authorization table keeps the new entry although the
message is refused. `fails_process_unknown` has that case apart.
-/

open Std (ExtTreeMap)

namespace NervesP2P

variable {I : Iroh} {S : Type}

/-! ## The authorization table -/

namespace AuthorizationTable

theorem returns_authorize {e : I.EndpointId} {name : Text} {t t' : AuthorizationTable I}
    {u : Unit} :
    (authorize e name).Returns t u t' ↔
      (validNodeName name = true ∧ t.HasRoom e) ∧ t'.entries = t.entries.insert e name := by
  rw [authorize, Method.returns_bind]
  constructor
  · rintro ⟨table, s, hget, h⟩
    obtain ⟨rfl, rfl⟩ := Method.returns_get.mp hget
    split at h
    · next hok => exact ⟨hok, by rw [Method.returns_set.mp h]⟩
    · exact absurd h Method.returns_throw
  · rintro ⟨hok, hentries⟩
    refine ⟨t, t, Method.returns_get.mpr ⟨rfl, rfl⟩, ?_⟩
    rw [dif_pos hok, Method.returns_set]
    exact AuthorizationTable.ext hentries

theorem fails_authorize {e : I.EndpointId} {name : Text} {t t' : AuthorizationTable I}
    {err : Error} :
    (authorize e name).Fails t err t' ↔
      ¬(validNodeName name = true ∧ t.HasRoom e) ∧ .invalidRecord = err ∧ t = t' := by
  rw [authorize, Method.fails_bind]
  constructor
  · rintro (hget | ⟨table, s, hget, h⟩)
    · exact absurd hget Method.fails_get
    obtain ⟨rfl, rfl⟩ := Method.returns_get.mp hget
    split at h
    · exact absurd h Method.fails_set
    · next hno => exact ⟨hno, Method.fails_throw.mp h⟩
  · rintro ⟨hno, herr⟩
    refine Or.inr ⟨t, t, Method.returns_get.mpr ⟨rfl, rfl⟩, ?_⟩
    rw [dif_neg hno]
    exact Method.fails_throw.mpr herr

end AuthorizationTable

namespace Registry

variable {r r' : Registry I S} {m : Message I} {now : UInt64} {err : Error} {name : Text}
  {signature : I.Signature} {u : Unit} {e : I.EndpointId} {envelope body : List UInt8}

/-! ## The rate limiter

The limiter trims the queue before it decides, and that stays whatever it decides. -/

/-- The rate limiter refuses a message of the endpoint at this time. -/
def RateFull (registry : Registry I S) (endpoint : I.EndpointId) (now : UInt64) : Prop :=
  (registry.rateWindow endpoint now).length = rateLimit

instance (registry : Registry I S) (endpoint : I.EndpointId) (now : UInt64) :
    Decidable (registry.RateFull endpoint now) := inferInstanceAs (Decidable (_ = _))

/-- The registry after the limiter has refused a message. -/
def trimTimes (registry : Registry I S) (endpoint : I.EndpointId) (now : UInt64) : Registry I S :=
  { registry with rate := registry.rate.insert endpoint (registry.rateWindow endpoint now) }

/-- The registry after the limiter has let a message through. -/
def noteTime (registry : Registry I S) (endpoint : I.EndpointId) (now : UInt64) : Registry I S :=
  { registry with
    rate := registry.rate.insert endpoint (registry.rateWindow endpoint now ++ [now]) }

theorem returns_checkRate :
    (checkRate e now).Returns r u r' ↔ ¬r.RateFull e now ∧ r' = r.noteTime e now := by
  simp [checkRate, RateFull, noteTime, insert_insert_self]

theorem fails_checkRate :
    (checkRate e now).Fails r err r' ↔
      r.RateFull e now ∧ Error.rateLimited = err ∧ r' = r.trimTimes e now := by
  simp [checkRate, RateFull, trimTimes, eq_comm]

/-! ## Enrollment

An endpoint that has an entry keeps its name, and its message is asked of the limiter before its
signature is looked at. For one that has none the order is another: the announcement has to pass all
checks, signature included, then it gets its entry, and only then the limiter is asked. -/

theorem returns_authorize :
    (authorize e name).Returns r u r' ↔
      (validNodeName name = true ∧ r.authorization.HasRoom e)
        ∧ ∃ table : AuthorizationTable I, r' = { r with authorization := table }
          ∧ table.entries = r.authorization.entries.insert e name := by
  simp only [authorize, Method.returns_zoom, AuthorizationTable.returns_authorize]
  constructor
  · rintro ⟨table, ⟨hok, htable⟩, rfl⟩
    exact ⟨hok, table, rfl, htable⟩
  · rintro ⟨hok, table, rfl, htable⟩
    exact ⟨table, ⟨hok, htable⟩, rfl⟩

theorem fails_authorize :
    (authorize e name).Fails r err r' ↔
      ¬(validNodeName name = true ∧ r.authorization.HasRoom e) ∧ .invalidRecord = err
        ∧ r = r' := by
  simp only [authorize, Method.fails_zoom, AuthorizationTable.fails_authorize]
  constructor
  · rintro ⟨table, ⟨hno, rfl, rfl⟩, rfl⟩
    exact ⟨hno, rfl, rfl⟩
  · rintro ⟨hno, rfl, rfl⟩
    exact ⟨_, ⟨hno, rfl, rfl⟩, rfl⟩

theorem hasRoom_iff_of_none (h : r.authorization.nodeName e = none) :
    r.authorization.HasRoom e ↔ r.authorization.entries.size < maxAuthorized := by
  rw [AuthorizationTable.nodeName] at h
  have hsize := r.authorization.size_le
  simp only [AuthorizationTable.HasRoom, h, Option.isSome_none, Bool.false_eq_true, false_or]
  omega

/-- An announcement that may enroll its sender: the policy, the checks, and a free place. -/
structure Enrolls (registry : Registry I S) (announcement : Announcement I) : Prop where
  policy : registry.enrollment = .signedFleet
  unknown : registry.authorization.nodeName announcement.endpointId = none
  valid : validateAnnouncement announcement = .ok ()
  room : registry.authorization.HasRoom announcement.endpointId

/-- The registry with the sender of an announcement enrolled. -/
def Enrolled (registry : Registry I S) (announcement : Announcement I)
    (registry' : Registry I S) : Prop :=
  ∃ table : AuthorizationTable I, registry' = { registry with authorization := table }
    ∧ table.entries
      = registry.authorization.entries.insert announcement.endpointId announcement.nodeName

theorem returns_enroll_some {found : Text} :
    (enroll m (some name) now).Returns r found r' ↔ name = found ∧ r = r' := by
  simp only [enroll, Method.returns_bind, Method.returns_get, Method.returns_pure]
  constructor
  · rintro ⟨_, _, ⟨rfl, rfl⟩, h⟩
    exact h
  · intro h
    exact ⟨_, _, ⟨rfl, rfl⟩, h⟩

theorem fails_enroll_some : ¬(enroll m (some name) now).Fails r err r' := by
  simp only [enroll, Method.fails_bind, Method.fails_get, Method.fails_pure]
  rintro (h | ⟨_, _, -, h⟩) <;> exact h

theorem returns_enroll_none {found : Text}
    (hunknown : r.authorization.nodeName m.endpointId = none) :
    (enroll m none now).Returns r found r' ↔
      ∃ a, m = .announcement a ∧ r.Enrolls a ∧ ¬r.RateFull a.endpointId now
        ∧ found = a.nodeName ∧ ∃ r₁, r.Enrolled a r₁ ∧ r' = r₁.noteTime a.endpointId now := by
  simp only [enroll, Method.returns_bind, Method.returns_get]
  constructor
  · rintro ⟨_, _, ⟨rfl, rfl⟩, h⟩
    split at h
    · next heq => cases heq
    · next a _ hpolicy =>
      simp only [Method.returns_bind, Method.returns_lift, returns_authorize, returns_checkRate,
        Method.returns_pure] at h
      obtain ⟨_, _, ⟨hvalid, rfl⟩, _, _, ⟨⟨-, hroom⟩, table, rfl, htable⟩, _, _, ⟨hrate, rfl⟩,
        rfl, rfl⟩ := h
      exact ⟨a, rfl, ⟨hpolicy, hunknown, hvalid, hroom⟩, hrate, rfl, _, ⟨table, rfl, htable⟩, rfl⟩
    · exact absurd h Method.returns_throw
  · rintro ⟨a, rfl, ⟨hpolicy, -, hvalid, hroom⟩, hrate, rfl, _, ⟨table, rfl, htable⟩, rfl⟩
    refine ⟨_, _, ⟨rfl, rfl⟩, ?_⟩
    nth_rewrite 1 [hpolicy]
    simp only [Method.returns_bind, Method.returns_lift, returns_authorize, returns_checkRate,
      Method.returns_pure]
    have hname := (validateAnnouncement_eq_ok_iff.mp hvalid).2.2.1
    exact ⟨(), _, ⟨hvalid, rfl⟩, (), _, ⟨⟨hname, hroom⟩, table, rfl, htable⟩, (), _, ⟨hrate, rfl⟩,
      trivial, rfl⟩

theorem fails_enroll_none (hunknown : r.authorization.nodeName m.endpointId = none)
    (h : (enroll m none now).Fails r err r') :
    (r' = r ∧ ∀ a, m = .announcement a → ¬r.Enrolls a)
      ∨ ∃ a, m = .announcement a ∧ r.Enrolls a ∧ r.RateFull a.endpointId now
        ∧ Error.rateLimited = err
        ∧ ∃ r₁, r.Enrolled a r₁ ∧ r' = r₁.trimTimes a.endpointId now := by
  simp only [enroll, Method.fails_bind, Method.fails_get, Method.returns_get] at h
  rcases h with h | ⟨_, _, ⟨rfl, rfl⟩, h⟩
  · exact absurd h id
  split at h
  · next heq => cases heq
  · next a _ hpolicy =>
    simp only [Method.fails_bind, Method.returns_lift, Method.fails_lift, returns_authorize,
      fails_authorize, fails_checkRate, Method.fails_pure] at h
    rcases h with ⟨hinvalid, rfl⟩ | ⟨_, _, ⟨hvalid, rfl⟩, h⟩
    · refine Or.inl ⟨rfl, ?_⟩
      rintro _ ⟨⟩ henrolls
      rw [henrolls.valid] at hinvalid
      cases hinvalid
    rcases h with ⟨hno, -, rfl⟩ | ⟨_, _, ⟨⟨-, hroom⟩, table, rfl, htable⟩, h⟩
    · refine Or.inl ⟨rfl, ?_⟩
      rintro _ ⟨⟩ henrolls
      exact hno ⟨(validateAnnouncement_eq_ok_iff.mp hvalid).2.2.1, henrolls.room⟩
    rcases h with ⟨hfull, herr, rfl⟩ | ⟨_, _, -, h⟩
    · exact Or.inr ⟨a, rfl, ⟨hpolicy, hunknown, hvalid, hroom⟩, hfull, herr, _,
        ⟨table, rfl, htable⟩, rfl⟩
    · exact absurd h id
  · next hother =>
    obtain ⟨-, rfl⟩ := Method.fails_throw.mp h
    refine Or.inl ⟨rfl, ?_⟩
    rintro a rfl henrolls
    exact hother a rfl rfl henrolls.policy

/-! ## What a message does to the tables

What follows describes the registry after acceptance by its tables, as functions of the registry
before and of the message. -/

/-- What a message does to the active records. -/
def updateRecords (message : Message I) (now : UInt64)
    (records : ExtTreeMap I.EndpointId (ActiveRecord I)) :
    ExtTreeMap I.EndpointId (ActiveRecord I) :=
  match message with
  | .announcement announcement => records.insert announcement.endpointId ⟨announcement, now⟩
  | .withdrawal withdrawal => records.erase withdrawal.endpointId

/-- An announcement carries the given node name; a withdrawal carries none. -/
def Named (message : Message I) (name : Text) : Prop :=
  match message with
  | .announcement announcement => announcement.nodeName = name
  | .withdrawal _ => True

/-- The endpoint may send: it is enrolled, or this announcement enrolls it. -/
def MayEnroll (registry : Registry I S) (message : Message I) : Prop :=
  (registry.authorization.nodeName message.endpointId).isSome = true
    ∨ registry.enrollment = .signedFleet ∧ (∃ announcement, message = .announcement announcement)
      ∧ registry.authorization.entries.size < maxAuthorized

/-- The entries of the authorization table after a message has been accepted. -/
def enrolledEntries (registry : Registry I S) (message : Message I) :
    ExtTreeMap I.EndpointId Text :=
  match registry.authorization.nodeName message.endpointId, message with
  | none, .announcement announcement =>
    registry.authorization.entries.insert announcement.endpointId announcement.nodeName
  | _, _ => registry.authorization.entries

theorem enrolledEntries_of_some (h : r.authorization.nodeName m.endpointId = some name) :
    r.enrolledEntries m = r.authorization.entries := by
  simp [enrolledEntries, h]

theorem enrolledEntries_of_none {a : Announcement I}
    (h : r.authorization.nodeName a.endpointId = none) :
    r.enrolledEntries (.announcement a)
      = r.authorization.entries.insert a.endpointId a.nodeName := by
  simp [enrolledEntries, Message.endpointId, h]

section Store

variable [SequenceStore I S]

/-! ## Taking a message in

First come the checks of the message itself. Then the sequence is compared with the store and the
store is advanced; after that nothing can fail any more. -/

/-- The sequence is above what the store holds. -/
def Fresh (registry : Registry I S) (endpoint : I.EndpointId) (sequence : UInt64) : Prop :=
  ∃ stored, SequenceStore.load registry.store endpoint = .ok stored ∧ stored < sequence

theorem returns_acceptSequence {n : UInt64} :
    (acceptSequence e n).Returns r u r' ↔
      r.Fresh e n ∧ ∃ store, (SequenceStore.advance e n).Returns r.store u store
        ∧ r' = { r with store } := by
  simp only [acceptSequence, Fresh, Method.returns_bind, Method.returns_get, Method.returns_lift,
    Method.returns_failIf, Method.returns_zoom]
  constructor
  · rintro ⟨_, _, ⟨rfl, rfl⟩, stored, _, ⟨hload, rfl⟩, _, _, ⟨hstale, rfl⟩, h⟩
    exact ⟨⟨stored, hload, UInt64.not_le.mp hstale⟩, h⟩
  · rintro ⟨⟨stored, hload, hlt⟩, h⟩
    exact ⟨_, _, ⟨rfl, rfl⟩, stored, _, ⟨hload, rfl⟩, (), _, ⟨UInt64.not_le.mpr hlt, rfl⟩, h⟩

/-- A failed `acceptSequence` leaves the registry as it was, but for what a failed `advance` does to
the store. -/
theorem fails_acceptSequence {n : UInt64} (h : (acceptSequence e n).Fails r err r') :
    r' = r ∨ ∃ store, (SequenceStore.advance e n).Fails r.store err store
      ∧ r' = { r with store } := by
  simp only [acceptSequence, Method.returns_get, Method.returns_lift,
    Method.returns_failIf, Method.fails_bind, Method.fails_get, Method.fails_lift,
    Method.fails_failIf, Method.fails_zoom] at h
  grind

theorem returns_accept :
    (accept m name now).Returns r u r' ↔
      validateMessage m = .ok () ∧ Named m name ∧ r.Fresh m.endpointId m.sequence
        ∧ ∃ store, (SequenceStore.advance m.endpointId m.sequence).Returns r.store () store
          ∧ r' = { r with store, records := updateRecords m now r.records } := by
  cases m with
  | announcement a =>
    simp only [accept, Method.returns_bind, Method.returns_lift, Method.returns_failIf,
      returns_acceptSequence, Method.returns_modify]
    constructor
    · rintro ⟨_, _, ⟨hvalid, rfl⟩, _, _, ⟨hname, rfl⟩, _, _, ⟨hfresh, store, hadv, rfl⟩, rfl⟩
      exact ⟨hvalid, not_not.mp hname, hfresh, store, hadv, rfl⟩
    · rintro ⟨hvalid, hname, hfresh, store, hadv, rfl⟩
      exact ⟨(), _, ⟨hvalid, rfl⟩, (), _, ⟨not_not.mpr hname, rfl⟩, (), _,
        ⟨hfresh, store, hadv, rfl⟩, rfl⟩
  | withdrawal w =>
    simp only [accept, Method.returns_bind, Method.returns_lift, returns_acceptSequence,
      Method.returns_modify]
    constructor
    · rintro ⟨_, _, ⟨hvalid, rfl⟩, _, _, ⟨hfresh, store, hadv, rfl⟩, rfl⟩
      exact ⟨hvalid, trivial, hfresh, store, hadv, rfl⟩
    · rintro ⟨hvalid, -, hfresh, store, hadv, rfl⟩
      exact ⟨(), _, ⟨hvalid, rfl⟩, (), _, ⟨hfresh, store, hadv, rfl⟩, rfl⟩

theorem fails_accept (h : (accept m name now).Fails r err r') :
    r' = r ∨ ∃ store, (SequenceStore.advance m.endpointId m.sequence).Fails r.store err store
      ∧ r' = { r with store } := by
  cases m with
  | announcement a =>
    simp only [accept, Method.fails_bind, Method.returns_lift, Method.fails_lift,
      Method.returns_failIf, Method.fails_failIf, Method.fails_modify] at h
    rcases h with ⟨-, rfl⟩ | ⟨_, _, ⟨-, rfl⟩, ⟨-, -, rfl⟩ | ⟨_, _, ⟨-, rfl⟩, hseq | hmod⟩⟩
    · exact Or.inl rfl
    · exact Or.inl rfl
    · exact fails_acceptSequence hseq
    · obtain ⟨_, _, -, hmod⟩ := hmod
      exact absurd hmod id
  | withdrawal w =>
    simp only [accept, Method.fails_bind, Method.returns_lift, Method.fails_lift,
      Method.fails_modify] at h
    rcases h with ⟨-, rfl⟩ | ⟨_, _, ⟨-, rfl⟩, hseq | hmod⟩
    · exact Or.inl rfl
    · exact fails_acceptSequence hseq
    · obtain ⟨_, _, -, hmod⟩ := hmod
      exact absurd hmod id

/-! ## Acceptance

The two ways to be accepted, of an endpoint that is enrolled and of one that enrolls itself, differ
in the order of their checks, and in that the second needs a free place in the table. `Accepts` is
one condition for both. -/

/-- Everything the receiver asks of a signed message in its present state, except that the store
can be advanced. -/
structure Accepts (registry : Registry I S) (message : Message I) (now : UInt64) : Prop where
  fleet : message.fleetId = registry.fleetId
  enrolled : registry.MayEnroll message
  valid : validateMessage message = .ok ()
  named : ∀ name, registry.authorization.nodeName message.endpointId = some name →
    Named message name
  fresh : registry.Fresh message.endpointId message.sequence
  not_full : ¬registry.RateFull message.endpointId now

/-- What accepting a message makes of the registry. -/
structure Accepted (registry : Registry I S) (message : Message I) (now : UInt64)
    (registry' : Registry I S) : Prop where
  fleetId : registry'.fleetId = registry.fleetId
  enrollment : registry'.enrollment = registry.enrollment
  authorization : registry'.authorization.entries = registry.enrolledEntries message
  store : (SequenceStore.advance message.endpointId message.sequence).Returns registry.store ()
    registry'.store
  records : registry'.records = updateRecords message now registry.records
  rate : registry'.rate = registry.rate.insert message.endpointId
    (registry.rateWindow message.endpointId now ++ [now])

theorem returns_process_enrolled (hname : r.authorization.nodeName m.endpointId = some name) :
    (process body signature m now).Returns r u r' ↔
      m.fleetId = r.fleetId ∧ ¬r.RateFull m.endpointId now
        ∧ I.verify m.endpointId (domain ++ body) signature = true
        ∧ (accept m name now).Returns (r.noteTime m.endpointId now) u r' := by
  simp only [process, Method.returns_bind, Method.returns_get, Method.returns_failIf,
    Method.returns_runIf, returns_checkRate]
  constructor
  · rintro ⟨_, _, ⟨rfl, rfl⟩, _, _, ⟨hfleet, rfl⟩, _, _, ⟨-, rfl⟩, _, _, hrate, _, _,
      ⟨hsigned, rfl⟩, _, _, henroll, haccept⟩
    rw [hname, returns_enroll_some] at henroll
    obtain ⟨rfl, rfl⟩ := henroll
    rcases hrate with ⟨-, hrate, rfl⟩ | ⟨hnone, -⟩
    · exact ⟨not_not.mp hfleet, hrate, Bool.not_eq_false _ ▸ hsigned, haccept⟩
    · simp [hname] at hnone
  · rintro ⟨hfleet, hrate, hsigned, haccept⟩
    refine ⟨r, r, ⟨rfl, rfl⟩, (), r, ⟨not_not.mpr hfleet, rfl⟩, (), r, ⟨by simp [hname], rfl⟩, (),
      _, Or.inl ⟨by simp [hname], hrate, rfl⟩, (), _, ⟨by simp [hsigned], rfl⟩, name, _, ?_,
      haccept⟩
    rw [hname, returns_enroll_some]
    exact ⟨rfl, rfl⟩

theorem returns_process_unknown (hname : r.authorization.nodeName m.endpointId = none) :
    (process body signature m now).Returns r u r' ↔
      m.fleetId = r.fleetId ∧ I.verify m.endpointId (domain ++ body) signature = true
        ∧ ∃ a, m = .announcement a ∧ r.Enrolls a ∧ ¬r.RateFull a.endpointId now
          ∧ ∃ r₁, r.Enrolled a r₁
            ∧ (accept m a.nodeName now).Returns (r₁.noteTime a.endpointId now) u r' := by
  simp only [process, Method.returns_bind, Method.returns_get, Method.returns_failIf,
    Method.returns_runIf, returns_checkRate]
  constructor
  · rintro ⟨_, _, ⟨rfl, rfl⟩, _, _, ⟨hfleet, rfl⟩, _, _, ⟨-, rfl⟩, _, _, hrate, _, _,
      ⟨hsigned, rfl⟩, _, _, henroll, haccept⟩
    rcases hrate with ⟨hsome, -⟩ | ⟨-, rfl⟩
    · simp [hname] at hsome
    rw [hname, returns_enroll_none hname] at henroll
    obtain ⟨a, rfl, henrolls, hrate, rfl, r₁, henrolled, rfl⟩ := henroll
    exact ⟨not_not.mp hfleet, Bool.not_eq_false _ ▸ hsigned, a, rfl, henrolls, hrate, r₁, henrolled,
      haccept⟩
  · rintro ⟨hfleet, hsigned, a, rfl, henrolls, hrate, r₁, henrolled, haccept⟩
    refine ⟨r, r, ⟨rfl, rfl⟩, (), r, ⟨not_not.mpr hfleet, rfl⟩, (), r, ⟨?_, rfl⟩, (), r,
      Or.inr ⟨by simp [hname], rfl⟩, (), r, ⟨by simp [hsigned], rfl⟩, a.nodeName, _, ?_, haccept⟩
    · simp [henrolls.policy]
    · rw [hname, returns_enroll_none hname]
      exact ⟨a, rfl, henrolls, hrate, rfl, r₁, henrolled, rfl⟩

/-- **Exactly the admissible messages are accepted.** -/
theorem returns_process :
    (process (encodeMessage m) signature m now).Returns r u r' ↔
      I.verify m.endpointId (domain ++ encodeMessage m) signature = true
        ∧ r.Accepts m now ∧ r.Accepted m now r' := by
  cases hname : r.authorization.nodeName m.endpointId with
  | some name =>
    rw [returns_process_enrolled hname, returns_accept]
    constructor
    · rintro ⟨hfleet, hrate, hsigned, hvalid, hnamed, hfresh, store, hadvance, rfl⟩
      refine ⟨hsigned, ⟨hfleet, Or.inl (by simp [hname]), hvalid, ?_, hfresh, hrate⟩,
        ⟨rfl, rfl, (enrolledEntries_of_some hname).symm, hadvance, rfl, rfl⟩⟩
      intro other hother
      rw [hname, Option.some_inj] at hother
      rwa [← hother]
    · rintro ⟨hsigned, ⟨hfleet, -, hvalid, hnamed, hfresh, hrate⟩,
        ⟨hfleetId, henrollment, hauth, hadvance, hrecords, hnoted⟩⟩
      refine ⟨hfleet, hrate, hsigned, hvalid, hnamed name hname, hfresh, r'.store, hadvance, ?_⟩
      rw [enrolledEntries_of_some hname] at hauth
      exact Registry.ext hfleetId (AuthorizationTable.ext hauth) henrollment rfl hrecords hnoted
  | none =>
    rw [returns_process_unknown hname]
    constructor
    · rintro ⟨hfleet, hsigned, a, rfl, henrolls, hrate, r₁, ⟨table, rfl, htable⟩, haccept⟩
      obtain ⟨hvalid, -, hfresh, store, hadvance, rfl⟩ := returns_accept.mp haccept
      refine ⟨hsigned, ⟨hfleet, Or.inr ⟨henrolls.policy, ⟨a, rfl⟩, ?_⟩, hvalid, ?_, hfresh, hrate⟩,
        ⟨rfl, rfl, ?_, hadvance, rfl, rfl⟩⟩
      · exact (hasRoom_iff_of_none hname).mp henrolls.room
      · intro other hother
        rw [hname] at hother
        cases hother
      · exact htable.trans (enrolledEntries_of_none hname).symm
    · rintro ⟨hsigned, ⟨hfleet, henroll, hvalid, hnamed, hfresh, hrate⟩,
        ⟨hfleetId, henrollment, hauth, hadvance, hrecords, hnoted⟩⟩
      rcases henroll with hsome | ⟨hpolicy, ⟨a, rfl⟩, hsize⟩
      · simp [hname] at hsome
      refine ⟨hfleet, hsigned, a, rfl, ⟨hpolicy, hname, hvalid, ?_⟩, hrate, _,
        ⟨r'.authorization, rfl, ?_⟩, ?_⟩
      · exact (hasRoom_iff_of_none hname).mpr hsize
      · exact hauth.trans (enrolledEntries_of_none hname)
      · rw [returns_accept]
        refine ⟨hvalid, rfl, hfresh, r'.store, hadvance, ?_⟩
        exact Registry.ext hfleetId rfl henrollment rfl hrecords hnoted

/-! ## Rejection

The cases are those of enrollment. A message of an enrolled endpoint fails on its fleet, or after
the limiter was asked. A message of an unknown endpoint fails before anything has changed, or it has
enrolled its sender and fails on the limiter or later. -/

/-- What a rejected message may have done apart from enrolling its sender: it used up a place in
the rate queue of its endpoint, and the store has seen a failed `advance`. -/
structure Retained (r : Registry I S) (e : I.EndpointId) (now : UInt64) (r' : Registry I S) :
    Prop where
  fleetId : r'.fleetId = r.fleetId
  enrollment : r'.enrollment = r.enrollment
  records : r'.records = r.records
  store : r'.store = r.store
    ∨ ∃ n err, (SequenceStore.advance e n).Fails r.store err r'.store
  rate : r'.rate = r.rate ∨ r'.rate = (r.trimTimes e now).rate
    ∨ ¬r.RateFull e now ∧ r'.rate = (r.noteTime e now).rate

theorem Retained.refl (r : Registry I S) (e : I.EndpointId) (now : UInt64) : r.Retained e now r :=
  ⟨rfl, rfl, rfl, Or.inl rfl, Or.inl rfl⟩

/-- How a call fails once it has asked the limiter: the limiter refuses it, or notes its time and a
later check fails, which leaves nothing else behind but a failed `advance`. -/
inductive FailsLimited (r : Registry I S) (e : I.EndpointId) (now : UInt64) (err : Error) :
    Registry I S → Prop
  | refused (hfull : r.RateFull e now) (herr : Error.rateLimited = err) :
      FailsLimited r e now err (r.trimTimes e now)
  | noted (hrate : ¬r.RateFull e now) (store : S)
      (hstore : store = r.store ∨ ∃ n err, (SequenceStore.advance e n).Fails r.store err store) :
      FailsLimited r e now err { r.noteTime e now with store }

theorem FailsLimited.retained (h : r.FailsLimited e now err r') :
    r.Retained e now r' ∧ r'.authorization = r.authorization := by
  cases h with
  | refused => exact ⟨⟨rfl, rfl, rfl, Or.inl rfl, Or.inr (Or.inl rfl)⟩, rfl⟩
  | noted hrate store hstore => exact ⟨⟨rfl, rfl, rfl, hstore, Or.inr (Or.inr ⟨hrate, rfl⟩)⟩, rfl⟩

/-- Past the limiter, a failed `accept` leaves the noted time behind. -/
theorem FailsLimited.of_fails_accept (hrate : ¬r.RateFull m.endpointId now)
    (h : (accept m name now).Fails (r.noteTime m.endpointId now) err r') :
    r.FailsLimited m.endpointId now err r' := by
  rcases fails_accept h with rfl | ⟨store, hadvance, rfl⟩
  · exact .noted hrate r.store (Or.inl rfl)
  · exact .noted hrate store (Or.inr ⟨_, _, hadvance⟩)

/-- The announcement enrolls its sender: it is for this fleet, signed, and may enroll. -/
structure SelfEnrolls (registry : Registry I S) (signature : I.Signature)
    (announcement : Announcement I) : Prop extends registry.Enrolls announcement where
  fleet : announcement.fleetId = registry.fleetId
  signed : I.verify announcement.endpointId (domain ++ encodeAnnouncement announcement) signature
    = true

/-- A message of an enrolled endpoint fails on its fleet, or after the limiter was asked. -/
theorem fails_process_known (hname : r.authorization.nodeName m.endpointId = some name)
    (h : (process body signature m now).Fails r err r') :
    (m.fleetId ≠ r.fleetId ∧ r' = r)
      ∨ (m.fleetId = r.fleetId ∧ r.FailsLimited m.endpointId now err r') := by
  simp only [process, Method.fails_bind, Method.fails_get, Method.returns_get,
    Method.fails_failIf, Method.returns_failIf, Method.fails_runIf, Method.returns_runIf,
    fails_checkRate, returns_checkRate] at h
  rcases h with h | ⟨_, _, ⟨rfl, rfl⟩, ⟨hfleet, -, rfl⟩ | ⟨_, _, ⟨hfleet, rfl⟩, h⟩⟩
  · exact absurd h id
  · exact Or.inl ⟨hfleet, rfl⟩
  refine Or.inr ⟨not_not.mp hfleet, ?_⟩
  rcases h with ⟨⟨hnone, -⟩, -⟩ | ⟨_, _, ⟨-, rfl⟩, h⟩
  · rw [hname] at hnone
    cases hnone
  simp only [hname, Option.isSome_some, true_and, not_true_eq_false, false_and, or_false] at h
  rcases h with ⟨hfull, herr, rfl⟩ | ⟨_, _, ⟨hrate, rfl⟩, ⟨-, -, rfl⟩ | ⟨_, _, ⟨-, rfl⟩, h⟩⟩
  · exact .refused hfull herr
  · exact .noted hrate r.store (Or.inl rfl)
  rcases h with h | ⟨_, _, henroll, h⟩
  · exact absurd h fails_enroll_some
  obtain ⟨rfl, rfl⟩ := returns_enroll_some.mp henroll
  exact .of_fails_accept hrate h

theorem fails_process_enrolled (hname : r.authorization.nodeName m.endpointId = some name)
    (h : (process body signature m now).Fails r err r') :
    r.Retained m.endpointId now r' ∧ r'.authorization = r.authorization := by
  rcases fails_process_known hname h with ⟨-, rfl⟩ | ⟨-, hlimited⟩
  · exact ⟨Retained.refl _ _ _, rfl⟩
  · exact hlimited.retained

theorem fails_process_stranger (hname : r.authorization.nodeName m.endpointId = none)
    (h : (process (encodeMessage m) signature m now).Fails r err r') :
    (r' = r ∧ ∀ a, m = .announcement a → ¬r.SelfEnrolls signature a)
      ∨ ∃ a, m = .announcement a ∧ r.SelfEnrolls signature a
        ∧ ∃ r₁, r.Enrolled a r₁ ∧ r₁.FailsLimited a.endpointId now err r' := by
  simp only [process, Method.fails_bind, Method.fails_get, Method.returns_get,
    Method.fails_failIf, Method.returns_failIf, Method.fails_runIf, Method.returns_runIf,
    fails_checkRate, returns_checkRate] at h
  rcases h with h | ⟨_, _, ⟨rfl, rfl⟩, ⟨hfleet, -, rfl⟩ | ⟨_, _, ⟨hfleet, rfl⟩, h⟩⟩
  · exact absurd h id
  · refine Or.inl ⟨rfl, ?_⟩
    rintro a rfl hself
    exact hfleet hself.fleet
  rcases h with ⟨⟨-, hstrict⟩, -, rfl⟩ | ⟨_, _, ⟨-, rfl⟩, h⟩
  · refine Or.inl ⟨rfl, ?_⟩
    rintro a rfl hself
    exact absurd (hself.policy.symm.trans hstrict) (by decide)
  simp only [hname, Option.isSome_none, Bool.false_eq_true, false_and, not_false_eq_true,
    true_and, false_or] at h
  rcases h with ⟨_, _, rfl, ⟨hunsigned, -, rfl⟩ | ⟨_, _, ⟨hsigned, rfl⟩, h⟩⟩
  · refine Or.inl ⟨rfl, ?_⟩
    rintro a rfl hself
    exact absurd (hself.signed.symm.trans hunsigned) (by decide)
  rcases h with h | ⟨found, r₁, henroll, h⟩
  · rcases fails_enroll_none hname h with
      ⟨rfl, hnot⟩ | ⟨a, rfl, henrolls, hfull, herr, _, ⟨t, rfl, ht⟩, rfl⟩
    · exact Or.inl ⟨rfl, fun a ha hself ↦ hnot a ha hself.toEnrolls⟩
    · exact Or.inr ⟨a, rfl, ⟨henrolls, not_not.mp hfleet, Bool.not_eq_false _ ▸ hsigned⟩, _,
        ⟨t, rfl, ht⟩, .refused hfull herr⟩
  · obtain ⟨a, rfl, henrolls, hrate, -, _, ⟨t, rfl, ht⟩, rfl⟩ :=
      (returns_enroll_none hname).mp henroll
    exact Or.inr ⟨a, rfl, ⟨henrolls, not_not.mp hfleet, Bool.not_eq_false _ ▸ hsigned⟩, _,
      ⟨t, rfl, ht⟩, .of_fails_accept (m := .announcement a) hrate h⟩

theorem fails_process_unknown (hname : r.authorization.nodeName m.endpointId = none)
    (h : (process (encodeMessage m) signature m now).Fails r err r') :
    (r' = r ∧ ∀ a, m = .announcement a → ¬r.SelfEnrolls signature a)
      ∨ ∃ a, m = .announcement a ∧ r.SelfEnrolls signature a ∧ r.Retained a.endpointId now r'
        ∧ r'.authorization.entries
          = r.authorization.entries.insert a.endpointId a.nodeName := by
  rcases fails_process_stranger hname h with hsame | ⟨a, ha, hself, _, ⟨t, rfl, ht⟩, hlimited⟩
  · exact Or.inl hsame
  · obtain ⟨hretained, hauth⟩ := hlimited.retained
    -- the enrolled registry has the other tables of the one before
    refine Or.inr ⟨a, ha, hself, ⟨hretained.fleetId, hretained.enrollment, hretained.records,
      hretained.store, hretained.rate⟩, ?_⟩
    rw [hauth]
    exact ht

/-! ## Opening an envelope

The bytes come apart in two steps, the envelope and the body in it, and both decoders are inverse to
encoders. Hence an envelope has one content, and `Opens` can be said from the side of the
encoder. -/

/-- The bytes are a short enough envelope of the message under the signature. -/
structure Opens (envelope : List UInt8) (message : Message I) (signature : I.Signature) : Prop where
  length_le : envelope.length ≤ maxMessageSize
  bounded : message.Bounded
  eq_encode : envelope = encodeEnvelope (encodeMessage message) (I.toBytes signature)

theorem opens_iff :
    Opens envelope m signature ↔
      envelope.length ≤ maxMessageSize ∧ ∃ body : ByteVec, body.val = encodeMessage m
        ∧ decodeEnvelope I envelope = .ok (body, signature) ∧ decodeMessage I body.val = .ok m := by
  constructor
  · rintro ⟨hlen, hbounded, rfl⟩
    have hbody := length_le_length_encodeEnvelope (encodeMessage m) (I.toBytes signature)
    have hlt : (encodeMessage m).length < 2 ^ 64 :=
      (hbody.trans hlen).trans_lt (show maxMessageSize < 2 ^ 64 by decide)
    exact ⟨hlen, ⟨encodeMessage m, hlt⟩, rfl, decodeEnvelope_eq_ok_iff.mpr rfl,
      decodeMessage_eq_ok_iff.mpr ⟨hbounded, rfl⟩⟩
  · rintro ⟨hlen, body, hbody, henvelope, hmessage⟩
    refine ⟨hlen, (decodeMessage_eq_ok_iff.mp hmessage).1, ?_⟩
    rw [← decodeEnvelope_eq_ok_iff.mp henvelope, hbody]

/-- An envelope has one content. -/
theorem Opens.unique {m₁ m₂ : Message I} {s₁ s₂ : I.Signature} (h₁ : Opens envelope m₁ s₁)
    (h₂ : Opens envelope m₂ s₂) : m₁ = m₂ ∧ s₁ = s₂ := by
  obtain ⟨-, body₁, -, henv₁, hmsg₁⟩ := opens_iff.mp h₁
  obtain ⟨-, body₂, -, henv₂, hmsg₂⟩ := opens_iff.mp h₂
  rw [henv₁, Except.ok.injEq, Prod.mk.injEq] at henv₂
  obtain ⟨rfl, rfl⟩ := henv₂
  rw [hmsg₁, Except.ok.injEq] at hmsg₂
  exact ⟨hmsg₂, rfl⟩

/-! ## The whole method -/

theorem returns_receive :
    (receive envelope now).Returns r u r' ↔
      ∃ m signature, Opens envelope m signature
        ∧ (process (encodeMessage m) signature m now).Returns r u r' := by
  simp only [receive, Method.returns_bind, Method.returns_failIf, Method.returns_lift, opens_iff]
  constructor
  · rintro ⟨_, _, ⟨hlen, rfl⟩, ⟨body, signature⟩, _, ⟨henv, rfl⟩, m, _, ⟨hmsg, rfl⟩, h⟩
    have hbody := (decodeMessage_eq_ok_iff.mp hmsg).2
    exact ⟨m, signature, ⟨not_lt.mp hlen, body, hbody.symm, henv, hmsg⟩, hbody ▸ h⟩
  · rintro ⟨m, signature, ⟨hlen, body, hbody, henv, hmsg⟩, h⟩
    exact ⟨(), _, ⟨not_lt.mpr hlen, rfl⟩, (body, signature), _, ⟨henv, rfl⟩, m, _, ⟨hmsg, rfl⟩,
      hbody ▸ h⟩

theorem Opens.fails_receive (hopens : Opens envelope m signature)
    (h : (process (encodeMessage m) signature m now).Fails r err r') :
    (receive envelope now).Fails r err r' := by
  obtain ⟨hlen, body, hbody, henv, hmsg⟩ := opens_iff.mp hopens
  simp only [receive, Method.fails_bind, Method.fails_failIf, Method.returns_failIf,
    Method.fails_lift, Method.returns_lift]
  exact Or.inr ⟨(), r, ⟨not_lt.mpr hlen, rfl⟩, Or.inr ⟨(body, signature), r, ⟨henv, rfl⟩,
    Or.inr ⟨m, r, ⟨hmsg, rfl⟩, hbody ▸ h⟩⟩⟩

theorem Opens.call_receive (h : Opens envelope m signature) (now : UInt64) (r : Registry I S) :
    (receive envelope now).call r = (process (encodeMessage m) signature m now).call r := by
  rcases Method.returns_or_fails (process (encodeMessage m) signature m now) r with
    ⟨u, hreturns⟩ | ⟨err, hfails⟩
  · exact (returns_receive.mpr ⟨m, signature, h, hreturns⟩).trans hreturns.symm
  · exact (h.fails_receive hfails).trans hfails.symm

/-- A rejected envelope changed nothing, or was opened and failed later. -/
theorem fails_receive (h : (receive envelope now).Fails r err r') :
    r' = r ∨ ∃ m signature, Opens envelope m signature
      ∧ (process (encodeMessage m) signature m now).Fails r err r' := by
  simp only [receive, Method.fails_bind, Method.fails_failIf, Method.returns_failIf,
    Method.fails_lift, Method.returns_lift] at h
  rcases h with ⟨-, -, rfl⟩ | ⟨_, _, ⟨hlen, rfl⟩, ⟨-, rfl⟩ | ⟨⟨body, signature⟩, _, ⟨henv, rfl⟩, h⟩⟩
  · exact Or.inl rfl
  · exact Or.inl rfl
  rcases h with ⟨-, rfl⟩ | ⟨m, _, ⟨hmsg, rfl⟩, h⟩
  · exact Or.inl rfl
  have hbody := (decodeMessage_eq_ok_iff.mp hmsg).2
  exact Or.inr ⟨m, signature, opens_iff.mpr ⟨not_lt.mp hlen, body, hbody.symm, henv, hmsg⟩,
    hbody ▸ h⟩

end Store

end Registry

end NervesP2P
