import NervesP2P.Discovery.Runs
import NervesP2P.Lib.SlidingWindow

/-!
# The rate limiter is a sliding window

`receive` asks the limiter in two places: for an enrolled endpoint before the signature is looked
at, and for an endpoint that has just enrolled itself, after. Both go to the same queue, which is
trimmed at its front only. `rateChecked` follows `receive` to the place where it asks, and
`rate_receive` says that nothing else of a call touches the queues.

Along a run the queue of an endpoint then `Tracks` the list of the calls that were let through, and
the limit is exact: a call is refused when ten calls have passed in the last second and only then.
-/

open Std (ExtTreeMap)

namespace NervesP2P

/-- A message counts for `rateWindowMs`. -/
def rateSpan : Span UInt64 where
  expired now time := saturatingAdd time rateWindowMs ≤ now
  of_older := by
    intro now time time' hle hexpired
    rw [UInt64.le_iff_toNat_le] at hle
    rw [decide_eq_true_iff, ← UInt64.not_lt, lt_saturatingAdd_iff] at hexpired ⊢
    omega
  of_later := by
    intro now now' time hle hexpired
    rw [decide_eq_true_iff] at hexpired ⊢
    exact UInt64.le_trans hexpired hle

theorem expired_eq_false_iff {now time : UInt64} (hnow : now.toNat + 1000 < 2 ^ 64) :
    rateSpan.expired now time = false ↔ now.toNat < time.toNat + 1000 := by
  rw [rateSpan, decide_eq_false_iff_not, UInt64.not_le, lt_saturatingAdd_iff]
  change _ < _ + 1000 ∧ _ ↔ _
  omega

namespace Registry

variable {I : Iroh} {S : Type}

/-! ## What a call asks of the limiter

`rateChecked` repeats the checks of `receive` that stand before the limiter, and no others. So it
says of a call whether it is counted without saying how the call ends. -/

/-- The endpoint for which `receive` asks the limiter, if it comes to that. -/
def rateChecked (registry : Registry I S) (envelope : List UInt8) : Option I.EndpointId := do
  guard (envelope.length ≤ maxMessageSize)
  let (body, signature) ← (decodeEnvelope I envelope).toOption
  let message ← (decodeMessage I body.val).toOption
  guard (message.fleetId = registry.fleetId)
  match registry.authorization.nodeName message.endpointId, message, registry.enrollment with
  | some _, _, _ => pure message.endpointId
  | none, .announcement announcement, .signedFleet => do
    -- everything that stands before the limiter on the way of a new endpoint
    guard (I.verify message.endpointId (domain ++ body.val) signature = true)
    guard (validateAnnouncement announcement = .ok ())
    guard (validNodeName announcement.nodeName = true
      ∧ registry.authorization.HasRoom message.endpointId)
    pure message.endpointId
  | _, _, _ => none

/-- The message comes from an enrolled endpoint or enrolls its sender. -/
def Admits (registry : Registry I S) (message : Message I) (signature : I.Signature) : Prop :=
  (registry.authorization.nodeName message.endpointId).isSome = true
    ∨ ∃ announcement, message = .announcement announcement
      ∧ registry.SelfEnrolls signature announcement

theorem toOption_eq_some_iff {ε α : Type} {x : Except ε α} {a : α} :
    x.toOption = some a ↔ x = .ok a := by
  cases x <;> simp [Except.toOption]

theorem rateChecked_eq_some_iff {r : Registry I S} {envelope : List UInt8} {e : I.EndpointId} :
    r.rateChecked envelope = some e ↔ ∃ m signature, Opens envelope m signature
      ∧ m.endpointId = e ∧ m.fleetId = r.fleetId ∧ r.Admits m signature := by
  simp only [rateChecked, opens_iff, Option.bind_eq_bind, Option.bind_eq_some_iff,
    Option.guard_eq_some', toOption_eq_some_iff]
  constructor
  · rintro ⟨_, hlen, ⟨body, signature⟩, henv, m, hmsg, _, hfleet, h⟩
    have hbody := (decodeMessage_eq_ok_iff.mp hmsg).2.symm
    refine ⟨m, signature, ⟨hlen, body, hbody, henv, hmsg⟩, ?_⟩
    split at h
    · next name hname => exact ⟨Option.some.inj h, hfleet, Or.inl (by rw [hname]; rfl)⟩
    · next a hpolicy hname =>
      simp only [Option.bind_eq_some_iff, Option.guard_eq_some'] at h
      obtain ⟨_, hsigned, _, hvalid, _, ⟨-, hroom⟩, he⟩ := h
      rw [hbody] at hsigned
      exact ⟨Option.some.inj he, hfleet,
        Or.inr ⟨a, rfl, ⟨hpolicy, hname, hvalid, hroom⟩, hfleet, hsigned⟩⟩
    · cases h
  · rintro ⟨m, signature, ⟨hlen, body, hbody, henv, hmsg⟩, rfl, hfleet, hadmits⟩
    refine ⟨(), hlen, (body, signature), henv, m, hmsg, (), hfleet, ?_⟩
    rcases hadmits with hsome | ⟨a, rfl, ⟨⟨hpolicy, hunknown, hvalid, hroom⟩, -, hsigned⟩⟩
    · obtain ⟨name, hname⟩ := Option.isSome_iff_exists.mp hsome
      rw [hname]
      rfl
    · have hnode := (validateAnnouncement_eq_ok_iff.mp hvalid).2.2.1
      simp only [Message.endpointId, hunknown, hpolicy, hbody, encodeMessage]
      simp only [hsigned, hvalid, hnode, hroom]
      rfl

/-! ## What a call does to the queues

A message that gets to the limiter does to the queues what the limiter does, whatever becomes of it
afterwards, and one that does not get there leaves them alone. -/

theorem after_checkRate (r : Registry I S) (e : I.EndpointId) (now : UInt64) :
    (checkRate e now).after r
      = if r.RateFull e now then r.trimTimes e now else r.noteTime e now := by
  split
  · next hfull => exact (fails_checkRate.mpr ⟨hfull, rfl, rfl⟩).after_eq
  · next hrate => exact Method.Returns.after_eq (a := ()) (returns_checkRate.mpr ⟨hrate, rfl⟩)

section Store

variable [SequenceStore I S]

theorem FailsLimited.rate {r r' : Registry I S} {e : I.EndpointId} {now : UInt64} {err : Error}
    (h : r.FailsLimited e now err r') : r'.rate = ((checkRate e now).after r).rate := by
  rw [after_checkRate]
  cases h with
  | refused hfull => rw [if_pos hfull]
  | noted hrate => rw [if_neg hrate]

/-- A message that gets to the limiter does to the queues what the limiter does. -/
theorem rate_process_of_admits {r : Registry I S} {m : Message I} {signature : I.Signature}
    (hfleet : m.fleetId = r.fleetId) (hadmits : r.Admits m signature) (now : UInt64) :
    ((process (encodeMessage m) signature m now).after r).rate
      = ((checkRate m.endpointId now).after r).rate := by
  rcases Method.returns_or_fails (process (encodeMessage m) signature m now) r with
    ⟨u, h⟩ | ⟨err, h⟩
  · obtain ⟨-, haccepts, haccepted⟩ := returns_process.mp h
    rw [haccepted.rate, after_checkRate, if_neg haccepts.not_full]
    rfl
  rcases hadmits with hsome | ⟨a, rfl, hself⟩
  · obtain ⟨name, hname⟩ := Option.isSome_iff_exists.mp hsome
    rcases fails_process_known hname h with ⟨hother, -⟩ | ⟨-, hlimited⟩
    · exact absurd hfleet hother
    · exact hlimited.rate
  · rcases fails_process_stranger hself.unknown h with
      ⟨-, hnot⟩ | ⟨a', ha', -, _, ⟨table, rfl, -⟩, hlimited⟩
    · exact absurd hself (hnot a rfl)
    · obtain rfl := Message.announcement.inj ha'
      rw [hlimited.rate, after_checkRate, after_checkRate, apply_ite Registry.rate,
        apply_ite Registry.rate]
      rfl

theorem Accepts.admits {r : Registry I S} {m : Message I} {signature : I.Signature} {now : UInt64}
    (h : r.Accepts m now)
    (hsigned : I.verify m.endpointId (domain ++ encodeMessage m) signature = true) :
    r.Admits m signature := by
  cases hname : r.authorization.nodeName m.endpointId with
  | some name => exact Or.inl (by rw [hname]; rfl)
  | none =>
    rcases h.enrolled with hsome | ⟨hpolicy, ⟨a, rfl⟩, hsize⟩
    · exact Or.inl hsome
    · exact Or.inr ⟨a, rfl, ⟨hpolicy, hname, h.valid, (hasRoom_iff_of_none hname).mpr hsize⟩,
        h.fleet, hsigned⟩

theorem process_of_not_admits {r : Registry I S} {m : Message I} {signature : I.Signature}
    (h : ¬(m.fleetId = r.fleetId ∧ r.Admits m signature)) (now : UInt64) :
    (process (encodeMessage m) signature m now).after r = r := by
  rcases Method.returns_or_fails (process (encodeMessage m) signature m now) r with
    ⟨u, hreturns⟩ | ⟨err, hfails⟩
  · obtain ⟨hsigned, haccepts, -⟩ := returns_process.mp hreturns
    exact absurd ⟨haccepts.fleet, haccepts.admits hsigned⟩ h
  cases hname : r.authorization.nodeName m.endpointId with
  | some name =>
    rcases fails_process_known hname hfails with ⟨-, heq⟩ | ⟨hfleet, -⟩
    · exact heq
    · exact absurd ⟨hfleet, Or.inl (by rw [hname]; rfl)⟩ h
  | none =>
    rcases fails_process_stranger hname hfails with ⟨heq, -⟩ | ⟨a, rfl, hself, -⟩
    · exact heq
    · exact absurd ⟨hself.fleet, Or.inr ⟨a, rfl, hself⟩⟩ h

theorem Opens.after_receive {envelope : List UInt8} {m : Message I} {signature : I.Signature}
    (h : Opens envelope m signature) (now : UInt64) (r : Registry I S) :
    (receive envelope now).after r = (process (encodeMessage m) signature m now).after r :=
  congrArg Prod.snd (h.call_receive now r)

/-- **A call touches the queues only through the limiter.** -/
theorem rate_receive (r : Registry I S) (envelope : List UInt8) (now : UInt64) :
    ((receive envelope now).after r).rate = match r.rateChecked envelope with
      | none => r.rate
      | some e => ((checkRate e now).after r).rate := by
  cases hchecked : r.rateChecked envelope with
  | some e =>
    obtain ⟨m, signature, hopens, rfl, hfleet, hadmits⟩ := rateChecked_eq_some_iff.mp hchecked
    rw [hopens.after_receive, rate_process_of_admits hfleet hadmits]
  | none =>
    by_cases hopens : ∃ (m : Message I) (signature : I.Signature), Opens envelope m signature
    · obtain ⟨m, signature, hopens⟩ := hopens
      rw [hopens.after_receive, process_of_not_admits]
      rintro ⟨hfleet, hadmits⟩
      rw [rateChecked_eq_some_iff.mpr ⟨m, signature, hopens, rfl, hfleet, hadmits⟩] at hchecked
      cases hchecked
    · rcases Method.returns_or_fails (receive envelope now) r with ⟨u, hreturns⟩ | ⟨err, hfails⟩
      · obtain ⟨m, signature, h, -⟩ := returns_receive.mp hreturns
        exact absurd ⟨m, signature, h⟩ hopens
      · rcases fails_receive hfails with heq | ⟨m, signature, h, -⟩
        · rw [heq]
        · exact absurd ⟨m, signature, h⟩ hopens

/-! ## Runs

`passes` is the abstract window: the times of the calls that were let through for one endpoint,
newest last. `TracksRate` says that the queue stands for it, with everything missing that had left
the window when the limiter last looked. The limiter keeps this for the endpoint it is asked for and
for every other, and no other call touches a queue, unless it revokes the endpoint; so it holds
along every run (`TracksRate.run`, `TracksRate.runAll`), from the empty queues of a new registry on.

The rest are facts about the window. The limiter is full when as many passes count as it allows,
those that count are the passes of the last second while the clock is in range, and no second ever
has more than ten of them. -/

/-- The limiter lets a call of `receive` through, for this endpoint. -/
def Passes (registry : Registry I S) (endpoint : I.EndpointId) (envelope : List UInt8)
    (now : UInt64) : Prop :=
  registry.rateChecked envelope = some endpoint ∧ ¬registry.RateFull endpoint now

omit [SequenceStore I S] in
instance (registry : Registry I S) (endpoint : I.EndpointId) (envelope : List UInt8)
    (now : UInt64) : Decidable (registry.Passes endpoint envelope now) :=
  inferInstanceAs (Decidable (_ ∧ _))

/-- The signature of a message of an enrolled endpoint is verified: in `process` the limiter stands
right before it. -/
def Verifies (registry : Registry I S) (endpoint : I.EndpointId) (envelope : List UInt8)
    (now : UInt64) : Prop :=
  (registry.authorization.nodeName endpoint).isSome = true
    ∧ registry.Passes endpoint envelope now

instance (registry : Registry I S) (endpoint : I.EndpointId) (envelope : List UInt8)
    (now : UInt64) : Decidable (registry.Verifies endpoint envelope now) :=
  inferInstanceAs (Decidable (_ ∧ _))

end Store

end Registry

def Operation.receivedAt {I : Iroh} : Operation I → Option UInt64
  | .receive _ now => some now
  | _ => none

namespace Registry

variable {I : Iroh} {S : Type} [SequenceStore I S]
variable {e : I.EndpointId} {r : Registry I S} {times : List UInt64} {last now : UInt64}

def runAll (ops : List (Operation I)) (registry : Registry I S) : Registry I S :=
  ops.foldl (fun registry op ↦ op.run registry) registry

/-- The time of a call of `receive` that a condition counts. -/
def counted (counts : Registry I S → List UInt8 → UInt64 → Bool) (registry : Registry I S) :
    Operation I → List UInt64
  | .receive envelope now => if counts registry envelope now then [now] else []
  | _ => []

/-- The times of those calls along a run. -/
def countedAll (counts : Registry I S → List UInt8 → UInt64 → Bool) :
    List (Operation I) → Registry I S → List UInt64
  | [], _ => []
  | op :: ops, registry => registry.counted counts op ++ countedAll counts ops (op.run registry)

/-- When the limiter let calls through for an endpoint. -/
def passes (endpoint : I.EndpointId) : List (Operation I) → Registry I S → List UInt64 :=
  countedAll fun registry envelope now ↦ registry.Passes endpoint envelope now

/-- When signatures of the endpoint were verified while it was enrolled. -/
def verifications (endpoint : I.EndpointId) : List (Operation I) → Registry I S → List UInt64 :=
  countedAll fun registry envelope now ↦ registry.Verifies endpoint envelope now

theorem verifications_sublist_passes (e : I.EndpointId) (ops : List (Operation I))
    (r : Registry I S) : (verifications e ops r).Sublist (passes e ops r) := by
  induction ops generalizing r with
  | nil => exact List.Sublist.refl _
  | cons op ops ih =>
    refine List.Sublist.append ?_ (ih (op.run r))
    cases op with
    | receive envelope now =>
      by_cases hverifies : r.Verifies e envelope now
      · simp [counted, hverifies, hverifies.2]
      · simp [counted, hverifies]
    | _ => exact List.Sublist.refl _

/-- The queue of an endpoint stands for the calls that passed. -/
def TracksRate (registry : Registry I S) (endpoint : I.EndpointId) (last : UInt64)
    (passes : List UInt64) : Prop :=
  rateSpan.Tracks rateLimit last passes (registry.rate[endpoint]?.getD [])

omit [SequenceStore I S] in
theorem TracksRate.congr {r' : Registry I S} (h : r.TracksRate e last times)
    (hrate : r'.rate[e]? = r.rate[e]?) :
    r'.TracksRate e last times := by
  rwa [TracksRate, hrate]

omit [SequenceStore I S] in
theorem TracksRate.later (h : r.TracksRate e last times) (hnow : last ≤ now) :
    r.TracksRate e now times := Span.Tracks.later h hnow

omit [SequenceStore I S] in
theorem rateWindow_eq_dropWhile (r : Registry I S) (e : I.EndpointId) (now : UInt64) :
    r.rateWindow e now = (r.rate[e]?.getD []).dropWhile (rateSpan.expired now) := by
  simp only [rateWindow, rateSpan]

omit [SequenceStore I S] in
theorem TracksRate.checkRate (h : r.TracksRate e last times) (hnow : last ≤ now)
    (e' : I.EndpointId) :
    ((checkRate e' now).after r).TracksRate e now
      (times ++ if e' = e ∧ ¬r.RateFull e now then [now] else []) := by
  rw [after_checkRate]
  by_cases he : e' = e
  · subst he
    by_cases hfull : r.RateFull e' now
    · simp only [hfull, not_true_eq_false, and_false, if_false, if_true, List.append_nil]
      rw [TracksRate, trimTimes, getElem?_insert_eq, if_pos rfl, Option.getD_some,
        rateWindow_eq_dropWhile]
      exact Span.Tracks.trim h hnow
    · simp only [hfull, not_false_eq_true, and_true, if_false, if_true]
      rw [RateFull, rateWindow_eq_dropWhile] at hfull
      rw [TracksRate, noteTime, getElem?_insert_eq, if_pos rfl, Option.getD_some,
        rateWindow_eq_dropWhile]
      exact Span.Tracks.push h hnow hfull
  · simp only [he, false_and, if_false, List.append_nil]
    refine (h.later hnow).congr ?_
    split
    · rw [trimTimes, getElem?_insert_eq, if_neg he]
    · rw [noteTime, getElem?_insert_eq, if_neg he]

theorem rate_run {op : Operation I} (r : Registry I S) (hreceive : op.receivedAt = none)
    (hrevoke : op ≠ .revoke e) :
    (op.run r).rate[e]? = r.rate[e]? := by
  have hchange := change_run op r
  generalize op.run r = r' at hchange
  cases hchange with
  | unchanged | expired | authorized => rfl
  | revoked e' =>
    rw [revoke, getElem?_erase_eq, if_neg]
    rintro rfl
    exact hrevoke rfl
  | rejected => cases hreceive
  | accepted => cases hreceive

/-- **One call.** -/
theorem TracksRate.run (h : r.TracksRate e last times) (op : Operation I)
    (hrevoke : op ≠ .revoke e) (hclock : ∀ now ∈ op.receivedAt, last ≤ now) :
    (op.run r).TracksRate e (op.receivedAt.getD last)
      (times ++ r.counted (fun r envelope now ↦ r.Passes e envelope now) op) := by
  cases op with
  | receive envelope now =>
    have hnow : last ≤ now := hclock now rfl
    have hrate := rate_receive r envelope now
    change ((receive envelope now).after r).TracksRate e now
      (times ++ if decide (r.Passes e envelope now) = true then [now] else [])
    rw [if_congr decide_eq_true_iff rfl rfl, if_congr (Iff.of_eq (Passes.eq_def ..)) rfl rfl]
    cases hchecked : r.rateChecked envelope with
    | none =>
      rw [hchecked] at hrate
      simp only [reduceCtorEq, false_and, if_false, List.append_nil]
      refine (h.later hnow).congr ?_
      rw [hrate]
    | some e' =>
      rw [hchecked] at hrate
      simp only [Option.some.injEq]
      refine (h.checkRate hnow e').congr ?_
      rw [hrate]
  | _ =>
    rw [counted, List.append_nil]
    · exact h.congr (rate_run r rfl hrevoke)
    · intro envelope now heq
      cases heq

/-- **All calls of a run.** -/
theorem TracksRate.runAll (h : r.TracksRate e last times) {ops : List (Operation I)}
    (hrevoke : ∀ op ∈ ops, op ≠ .revoke e)
    (hclock : (last :: ops.filterMap Operation.receivedAt).Pairwise (· ≤ ·)) :
    ∃ last', (last' = last ∨ last' ∈ ops.filterMap Operation.receivedAt)
      ∧ (runAll ops r).TracksRate e last' (times ++ passes e ops r) := by
  induction ops generalizing r last times with
  | nil => exact ⟨last, Or.inl rfl, by simpa [Registry.runAll, passes, countedAll] using h⟩
  | cons op ops ih =>
    rw [List.forall_mem_cons] at hrevoke
    -- the clock of the rest starts where this call leaves it
    have hrest : (op.receivedAt.getD last :: ops.filterMap Operation.receivedAt).Pairwise (· ≤ ·)
        ∧ (∀ now ∈ op.receivedAt, last ≤ now) := by
      cases hat : op.receivedAt with
      | none =>
        rw [List.filterMap_cons_none hat] at hclock
        exact ⟨hclock, by simp⟩
      | some now =>
        rw [List.filterMap_cons_some hat] at hclock
        obtain ⟨hlast, hclock⟩ := List.pairwise_cons.mp hclock
        refine ⟨hclock, ?_⟩
        rintro _ ⟨⟩
        exact hlast now List.mem_cons_self
    obtain ⟨last', hlast', htracks⟩ := ih (h.run op hrevoke.1 hrest.2) hrevoke.2 hrest.1
    refine ⟨last', ?_, ?_⟩
    · cases hat : op.receivedAt with
      | none =>
        rw [List.filterMap_cons_none hat]
        rwa [hat] at hlast'
      | some now =>
        rw [List.filterMap_cons_some hat, List.mem_cons]
        rw [hat] at hlast'
        exact Or.inr hlast'
    · rwa [List.append_assoc] at htracks

omit [SequenceStore I S] in
theorem tracksRate_new (fleetId : FleetId) (authorization : AuthorizationTable I) (store : S)
    (enrollment : EnrollmentPolicy) (e : I.EndpointId) :
    ((new fleetId authorization store).withEnrollmentPolicy enrollment).TracksRate e 0 [] := by
  have hnone : ((new fleetId authorization store).withEnrollmentPolicy enrollment).rate[e]?
      = none := ExtTreeMap.getElem?_empty
  rw [TracksRate, hnone]
  exact rateSpan.tracks_nil rateLimit 0

omit [SequenceStore I S] in
theorem TracksRate.rateFull_iff (h : r.TracksRate e last times) (hnow : last ≤ now) :
    r.RateFull e now ↔ (rateSpan.window now times).length = rateLimit := by
  rw [RateFull, rateWindow_eq_dropWhile, h.trimmed now hnow]

omit [SequenceStore I S] in
theorem exists_fails_checkRate_iff :
    (∃ r', (checkRate e now).Fails r .rateLimited r') ↔ r.RateFull e now := by
  simp [fails_checkRate]

omit [SequenceStore I S] in
/-- While the clock is in range, the window is the last second. -/
theorem TracksRate.window_eq (h : r.TracksRate e last times) (hle : last ≤ now)
    (hnow : now.toNat + 1000 < 2 ^ 64) :
    rateSpan.window now times
      = times.filter fun time ↦ now.toNat < time.toNat + 1000 ∧ time ≤ now := by
  refine List.filter_congr fun time htime ↦ ?_
  have htime : time ≤ now := UInt64.le_trans (h.le_last time htime) hle
  rw [Bool.eq_iff_iff, Bool.not_eq_true', expired_eq_false_iff hnow, decide_eq_true_iff]
  exact ⟨fun hlt ↦ ⟨hlt, htime⟩, And.left⟩

omit [SequenceStore I S] in
theorem TracksRate.length_filter_le (h : r.TracksRate e last times)
    (hlast : last.toNat + 1000 < 2 ^ 64) (a : ℕ) :
    (times.filter fun time ↦ a ≤ time.toNat ∧ time.toNat < a + 1000).length ≤ rateLimit := by
  refine Span.Tracks.length_filter_le h _ fun time now hnow htime hinside _ ↦ ?_
  have hle := UInt64.le_iff_toNat_le.mp (h.le_last now hnow)
  rw [decide_eq_true_iff] at htime hinside
  rw [expired_eq_false_iff (by omega)]
  omega

/-- **The rate limiter is an exact sliding window.** In any run from a new registry in which the
clock does not run backwards and the endpoint is not revoked, the next call is refused exactly when
ten calls have passed in the second before it. So no second has more than ten verifications, and a
call that does not pass for the endpoint, be it refused or of another endpoint, has no influence on
later decisions. -/
theorem rate_limit_exact (fleetId : FleetId) (authorization : AuthorizationTable I) (store : S)
    (enrollment : EnrollmentPolicy) (e : I.EndpointId) (ops : List (Operation I)) (now : UInt64)
    (hrevoke : ∀ op ∈ ops, op ≠ .revoke e)
    (hclock : (ops.filterMap Operation.receivedAt ++ [now]).Pairwise (· ≤ ·))
    (hnow : now.toNat ≤ 2 ^ 64 - 1 - 1000) :
    let start := (new fleetId authorization store).withEnrollmentPolicy enrollment
    ((∃ r', (checkRate e now).Fails (runAll ops start) .rateLimited r') ↔
        ((passes e ops start).filter fun time ↦
          now.toNat < time.toNat + 1000 ∧ time ≤ now).length = 10)
      ∧ (∀ a : ℕ, ((verifications e ops start).filter fun time ↦
          a ≤ time.toNat ∧ time.toNat < a + 1000).length ≤ 10)
      ∧ ∀ envelope, ¬(runAll ops start).Passes e envelope now → ∀ later, now ≤ later →
          ((∃ r', (checkRate e later).Fails ((receive envelope now).after (runAll ops start))
              .rateLimited r') ↔
            ∃ r', (checkRate e later).Fails (runAll ops start) .rateLimited r') := by
  intro start
  obtain ⟨htimes, -, hbefore⟩ := List.pairwise_append.mp hclock
  have hzero : ((0 : UInt64) :: ops.filterMap Operation.receivedAt).Pairwise (· ≤ ·) :=
    List.pairwise_cons.mpr ⟨fun time _ ↦ UInt64.zero_le, htimes⟩
  obtain ⟨last, hlast, htracks⟩ :=
    (tracksRate_new fleetId authorization store enrollment e).runAll hrevoke hzero
  have hle : last ≤ now := by
    rcases hlast with rfl | hmem
    · exact UInt64.zero_le
    · exact hbefore last hmem now (List.mem_singleton_self now)
  have hrange : now.toNat + 1000 < 2 ^ 64 := by omega
  refine ⟨?_, ?_, ?_⟩
  · rw [exists_fails_checkRate_iff, htracks.rateFull_iff hle, htracks.window_eq hle hrange]
    rfl
  · intro a
    have hlast : last.toNat + 1000 < 2 ^ 64 := by
      have := UInt64.le_iff_toNat_le.mp hle
      omega
    exact ((verifications_sublist_passes e ops start).filter _).length_le.trans
      (htracks.length_filter_le hlast a)
  · intro envelope hnot later hlater
    have hcounted : (runAll ops start).counted (fun r envelope now ↦ r.Passes e envelope now)
        (.receive envelope now) = [] := if_neg (by rwa [decide_eq_true_iff])
    have hnext := htracks.run (.receive envelope now) (by simp)
      (by simpa [Operation.receivedAt])
    rw [hcounted, List.append_nil] at hnext
    rw [exists_fails_checkRate_iff, exists_fails_checkRate_iff,
      htracks.rateFull_iff (UInt64.le_trans hle hlater)]
    exact hnext.rateFull_iff hlater

/-- Ten calls pass at one time, and the eleventh is refused. -/
theorem rate_limit_sample :
    passes () (List.replicate 10 (.receive sampleEnvelope 5)) (started .signedFleet ⟨∅⟩)
        = List.replicate 10 5
      ∧ ∃ r', (checkRate () 5).Fails (runAll (List.replicate 10 (.receive sampleEnvelope 5))
        (started .signedFleet ⟨∅⟩)) .rateLimited r' := by
  have hpasses : passes () (List.replicate 10 (.receive sampleEnvelope 5))
      (started .signedFleet ⟨∅⟩) = List.replicate 10 5 := by decide +kernel
  refine ⟨hpasses, (rate_limit_exact _ _ _ _ _ _ 5 (by simp) (by decide) (by decide)).1.mpr ?_⟩
  rw [← started, hpasses]
  decide

end Registry

end NervesP2P
