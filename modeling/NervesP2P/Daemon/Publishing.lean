import NervesP2P.Daemon.Ingest
import NervesP2P.Discovery.Provenance

/-!
# What a daemon publishes

Only `publish` makes a daemon sign something. It takes a number from the outbound store, signs the
announcement under it, and gives the envelope to its own registry before anyone else sees it.

For most of what is said about many daemons, it is enough to know of a step what was read from
outside in it. `Acts` is `Daemon.Step` with that label: a command, an envelope from the gossip, or
nothing. Every step is one of these (`Step.acts`), and a step that reads nothing is `Silent`: it
keeps both stores, and of the records it only drops what has expired.

## From publishing to being found

An announcement has three stations: it is signed by the daemon of its endpoint, it is taken in by
some registry, and it is found there by a query. The first is `Acts.of_signs`. The second needs of
the registry that it is ready for the message, which is `Registry.Accepts`. The third holds until
the record is gone, and `Sparing` says under which calls it is not: none that receives something
newer of the endpoint, none that revokes it, and no query after the record has expired.
-/

open Std (ExtTreeMap)

namespace NervesP2P

variable {I : Iroh} {S : Type} [SequenceStore I S]

/-! ## Steps and what they read

`Acts` has as many cases as later proofs want to look at, and no more. A turn of the loop handles a
command, takes an envelope from the gossip, or is silent, and all steps of streams are silent. -/

/-- What the loop reads from outside in a step. -/
inductive Taken (I : Iroh) where
  | command (command : Command I)
  | gossip (envelope : List UInt8)
  | nothing

/-- The envelope in it that the registry is given. -/
def Taken.envelope? : Taken I → Option (List UInt8)
  | .command (.ingest envelope _ _) => envelope
  | .gossip envelope => some envelope
  | _ => none

/-- One registry comes from another by calls of its interface, and every envelope received on the
way is an allowed one. -/
def Registry.Calls (allowed : List UInt8 → Prop) : Registry I S → Registry I S → Prop :=
  Relation.ReflTransGen fun r r' ↦ ∃ op : Operation I, r' = op.run r
    ∧ ∀ envelope now, op = .receive envelope now → allowed envelope

namespace Daemon

variable {d d' : Daemon I S} {taken : Taken I}

/-- The daemon once the handler of a command answers or awaits. -/
def afterCommand (d : Daemon I S) (command : Command I) (now : UInt64) : Daemon I S :=
  match (handle command now).call d with
  | (.ok _, d') => d'
  | (.error _, d') => { d' with main := .selecting }

/-- Who the daemon is and both of its stores stay, and records only expire. -/
structure Silent (d d' : Daemon I S) : Prop where
  nodeName : d'.nodeName = d.nodeName
  secret : d'.secret = d.secret
  fleet : d'.fleet = d.fleet
  outbound : d'.outbound = d.outbound
  registry : Relation.ReflTransGen (fun r r' ↦ ∃ now, r' = r.expire now) d.registry d'.registry

omit [SequenceStore I S] in
theorem Silent.refl (d : Daemon I S) : d.Silent d := ⟨rfl, rfl, rfl, rfl, .refl⟩

omit [SequenceStore I S] in
theorem Silent.trans {d'' : Daemon I S} (h : d.Silent d') (h' : d'.Silent d'') :
    d.Silent d'' where
  nodeName := h'.nodeName.trans h.nodeName
  secret := h'.secret.trans h.secret
  fleet := h'.fleet.trans h.fleet
  outbound := h'.outbound.trans h.outbound
  registry := h.registry.trans h'.registry

instance : IsPreorder (Daemon I S) Silent where
  refl := Silent.refl
  trans _ _ _ := Silent.trans

/-- The steps of a daemon with what they read. -/
inductive Acts (d : Daemon I S) : Taken I → Daemon I S → Prop
  | command (command : Command I) (now : UInt64) (h : d.main = .selecting) :
      Acts d (.command command) (d.afterCommand command now)
  | gossip (envelope : List UInt8) {now : UInt64} {next : Next} (h : d.main = .polling now next) :
      Acts d (.gossip envelope)
        { d with registry := (Registry.receive envelope now).after d.registry }
  | silent {labels : List (Label I)} {d' : Daemon I S} (h : d.Step labels d')
      (hsilent : d.Silent d') : Acts d .nothing d'

theorem Acts.step (h : d.Acts taken d') :
    ∃ labels, d.Step labels d' := by
  cases h with
  | command command now hmain =>
    rw [afterCommand]
    rcases hcall : (handle command now).call d with ⟨error | response, d'⟩
    · exact ⟨_, .fails (.command command now hmain) hcall⟩
    · exact ⟨_, .returns (.command command now hmain) hcall⟩
  | gossip envelope hmain => exact ⟨_, .returns (.received envelope hmain) rfl⟩
  | silent hstep => exact ⟨_, hstep⟩

section Silent

open Method

omit [SequenceStore I S] in
theorem silent_main (d : Daemon I S) (main : Main) : d.Silent { d with main } :=
  ⟨rfl, rfl, rfl, rfl, .refl⟩

omit [SequenceStore I S] in
theorem silent_resume (order : HashOrder (ActiveRecord I)) (now : UInt64) (next : Next)
    (d : Daemon I S) : d.Silent ((resume order now next).after d) := by
  cases next with
  | tick | ingested | listen | connect => exact d.silent_main _
  | published sequence envelope =>
    refine (within_get.bind fun daemon ↦ ?_) d
    split
    · exact fun d ↦ d.silent_main _
    · exact fun d ↦ d.silent_main _
  | find predicates =>
    refine ((within_lift _).bind fun predicates ↦ Within.bind (fun d ↦ ?_) fun _ d ↦
      d.silent_main _) d
    refine ⟨rfl, rfl, rfl, rfl, .single ⟨now, ?_⟩⟩
    exact Registry.after_find order predicates now d.registry

/-- A turn of the loop handles a command, takes an envelope from the gossip, or is silent. -/
theorem Turn.takes {m : Method (Daemon I S) HandleError (Option (Response I))} (h : d.Turn m) :
    (∃ command now, d.main = .selecting ∧ m = handle command now)
      ∨ (∃ envelope now next, d.main = .polling now next
        ∧ m = do
          modify fun daemon ↦
            { daemon with registry := (Registry.receive envelope now).after daemon.registry }
          pure none)
      ∨ d.Silent (m.after d) := by
  cases h with
  | command command now hmain => exact Or.inl ⟨command, now, hmain, rfl⟩
  | received envelope hmain => exact Or.inr (Or.inl ⟨envelope, _, _, hmain, rfl⟩)
  | joinFails | pollFails | startFails | broadcastFails => exact Or.inr (Or.inr (Silent.refl d))
  | tick now _ =>
    exact Or.inr (Or.inr ((within_get.bind fun daemon d ↦ d.silent_main _) d))
  | eof | polled | broadcast => exact Or.inr (Or.inr (d.silent_main _))
  | resume order _ => exact Or.inr (Or.inr (silent_resume order _ _ d))
  | started => exact Or.inr (Or.inr ⟨rfl, rfl, rfl, rfl, .refl⟩)

end Silent

omit [SequenceStore I S] in
theorem silent_syncDistBindings (order : HashOrder (ActiveRecord I)) (now : UInt64) (instant : ℕ)
    (d : Daemon I S) (main : Main) :
    d.Silent { d.syncDistBindings order now instant with main } := by
  rw [syncDistBindings_eq]
  split
  · exact d.silent_main main
  · exact ⟨rfl, rfl, rfl, rfl, .single ⟨now, rfl⟩⟩

/-- **Every step of a daemon is one of them.** -/
theorem Step.acts {labels : List (Label I)} (h : d.Step labels d') :
    ∃ taken, d.Acts taken d' := by
  have hstep := h
  cases h with
  | returns hturn hm =>
    rcases hturn.takes with ⟨command, now, hmain, rfl⟩ | ⟨envelope, now, next, hmain, rfl⟩ | hsilent
    · have hafter : d.afterCommand command now = d' := by rw [afterCommand, hm]
      rw [← hafter]
      exact ⟨_, .command command now hmain⟩
    · obtain rfl := hm.after_eq
      exact ⟨_, .gossip envelope hmain⟩
    · exact ⟨_, .silent hstep (hm.after_eq ▸ hsilent)⟩
  | @fails d₁ _ _ hturn hm =>
    rcases hturn.takes with ⟨command, now, hmain, rfl⟩ | ⟨envelope, now, next, hmain, rfl⟩ | hsilent
    · have hafter : d.afterCommand command now = { d₁ with main := .selecting } := by
        rw [afterCommand, hm]
      rw [← hafter]
      exact ⟨_, .command command now hmain⟩
    · rcases Method.fails_bind.mp hm with hm | ⟨_, _, -, hm⟩
      · exact absurd hm Method.fails_modify
      · exact absurd hm Method.fails_pure
    · rw [hm.after_eq] at hsilent
      exact ⟨_, .silent hstep (hsilent.trans (d₁.silent_main _))⟩
  | syncs order instant hmain =>
    exact ⟨_, .silent hstep (d.silent_syncDistBindings order _ instant _)⟩
  | listens _ h | resolves _ h =>
    obtain ⟨shared, shared', -, -, rfl⟩ := returns_onDist.mp h
    exact ⟨_, .silent hstep ⟨rfl, rfl, rfl, rfl, .refl⟩⟩
  | listenFails _ h =>
    rw [of_fails_onDist h fun _ _ _ ↦ Shared.fails_listen] at hstep ⊢
    exact ⟨_, .silent hstep (d.silent_main _)⟩
  | resolveFails _ h =>
    rw [of_fails_onDist h fun _ _ _ ↦ (Shared.within_resolve _ _ _).of_fails] at hstep ⊢
    exact ⟨_, .silent hstep (d.silent_main _)⟩
  | drains | incoming | moves | connected | allowed | emits =>
    exact ⟨_, .silent hstep ⟨rfl, rfl, rfl, rfl, .refl⟩⟩

/-! ## Signing

`Reads` is what a command does that is not `publish`: the outbound store stays, and the registry is
given no other envelope than the one the command carries. Expiry is no exception, as it is what a
query does. -/

/-- The announcement that a step signs, and its envelope: those of a `publish` whose number could
be reserved and whose announcement could be signed. -/
def signs (d : Daemon I S) : Taken I → Option (Announcement I × List UInt8)
  | .command (.publish (.ok draft)) =>
    match ((reserveNext (I.publicKey d.secret)).call d.outbound).1 with
    | .ok sequence =>
      match signAnnouncement (d.announcement draft sequence) d.secret with
      | .ok envelope => some (d.announcement draft sequence, envelope)
      | .error _ => none
    | .error _ => none
  | _ => none

/-- Who the daemon is and its outbound store stay, and the registry is only called, with no other
envelopes than the allowed ones. -/
structure Reads (allowed : List UInt8 → Prop) (d d' : Daemon I S) : Prop where
  nodeName : d'.nodeName = d.nodeName
  secret : d'.secret = d.secret
  fleet : d'.fleet = d.fleet
  outbound : d'.outbound = d.outbound
  registry : d.registry.Calls allowed d'.registry

theorem Reads.refl (allowed : List UInt8 → Prop) (d : Daemon I S) : d.Reads allowed d :=
  ⟨rfl, rfl, rfl, rfl, .refl⟩

instance (allowed : List UInt8 → Prop) : IsPreorder (Daemon I S) (Reads allowed) where
  refl := Reads.refl allowed
  trans _ _ _ h h' := ⟨h'.nodeName.trans h.nodeName, h'.secret.trans h.secret,
    h'.fleet.trans h.fleet, h'.outbound.trans h.outbound, h.registry.trans h'.registry⟩

omit [SequenceStore I S] in
theorem expire_eq_run [SequenceStore I S] (r : Registry I S) (now : UInt64) :
    r.expire now = (Operation.bindings ⟨id, List.Perm.refl⟩ now).run r := rfl

theorem Silent.reads (h : d.Silent d') (allowed : List UInt8 → Prop) :
    d.Reads allowed d' := by
  refine ⟨h.nodeName, h.secret, h.fleet, h.outbound, Relation.ReflTransGen.mono ?_ _ _ h.registry⟩
  rintro r _ ⟨now, rfl⟩
  exact ⟨_, expire_eq_run r now, by simp⟩

section Reads

open Method

variable {α : Type} {allowed : List UInt8 → Prop}

theorem reads_of_eq (hnodeName : d'.nodeName = d.nodeName) (hsecret : d'.secret = d.secret)
    (hfleet : d'.fleet = d.fleet) (houtbound : d'.outbound = d.outbound)
    (hregistry : d'.registry = d.registry) :
    d.Reads allowed d' :=
  ⟨hnodeName, hsecret, hfleet, houtbound, hregistry ▸ .refl⟩

theorem reads_main (d : Daemon I S) (main : Main) : d.Reads allowed { d with main } :=
  reads_of_eq rfl rfl rfl rfl rfl

theorem reads_parsed_bind {β : Type} {value : Option α} {f : α → Method (Daemon I S) HandleError β}
    (h : ∀ v, value = some v → (f v).Within (Reads allowed)) :
    (parsed value >>= f).Within (Reads allowed) := by
  cases value with
  | none => exact fun d ↦ Reads.refl allowed d
  | some v => exact fun d ↦ h v rfl d

theorem reads_onRegistry {m : Method (Registry I S) Error α} (op : Operation I)
    (h : ∀ r, m.after r = op.run r)
    (hallowed : ∀ envelope now, op = .receive envelope now → allowed envelope) :
    (onRegistry m).Within (Reads allowed) := fun d ↦
  ⟨rfl, rfl, rfl, rfl, .single ⟨op, h d.registry, hallowed⟩⟩

theorem reads_await (main : Main) :
    (await main : Method (Daemon I S) HandleError (Option (Response I))).Within (Reads allowed) :=
  fun d ↦ d.reads_main main

theorem reads_poll (now : UInt64) (next : Next) :
    (poll now next : Method (Daemon I S) HandleError (Option (Response I))).Within
      (Reads allowed) :=
  within_get.bind fun _ ↦ reads_await _

theorem reads_onStream (number : UInt64) (m : Method Side DistError Unit) :
    (onStream number m : Method (Daemon I S) HandleError (Option (Response I))).Within
      (Reads allowed) := by
  refine within_get.bind fun daemon ↦ (within_failIf _ _).bind fun _ ↦
    Within.bind (fun d ↦ ?_) fun _ ↦ within_pure _
  exact reads_of_eq rfl rfl rfl rfl rfl

/-- Every other command than `publish` keeps the outbound store, and gives the registry no other
envelope than the one it carries. -/
theorem reads_handle (command : Command I) (now : UInt64)
    (hpublish : ∀ draft, command ≠ .publish draft) :
    (handle command now : Method (Daemon I S) HandleError (Option (Response I))).Within
      (Reads fun envelope ↦ (Taken.command command).envelope? = some envelope) := by
  cases command with
  | publish draft => exact absurd rfl (hpublish draft)
  | identity => exact within_get.bind fun _ ↦ within_pure _
  | authorize endpoint nodeName =>
    refine reads_parsed_bind fun e _ ↦ Within.bind ?_ fun _ ↦ within_pure _
    exact reads_onRegistry (.authorize e nodeName) (fun _ ↦ rfl) (by simp)
  | networkStart =>
    exact within_get.bind fun _ ↦ (within_failIf _ _).bind fun _ ↦ reads_await _
  | ingest envelope endpoint nodeName =>
    refine reads_parsed_bind fun e _ ↦ Within.bind ?_ fun _ ↦ reads_parsed_bind fun bytes hbytes ↦
      Within.bind ?_ fun _ ↦ reads_await _
    · exact reads_onRegistry (.authorize e nodeName) (fun _ ↦ rfl) (by simp)
    · refine reads_onRegistry (.receive bytes now) (fun _ ↦ rfl) ?_
      rintro _ _ ⟨⟩
      exact hbytes
  | find predicates => exact reads_poll now _
  | distListen nodeName =>
    exact within_get.bind fun _ ↦ (within_failIf _ _).bind fun _ ↦ reads_poll now _
  | distConnect fromNode targetNode =>
    exact within_get.bind fun _ ↦ (within_failIf _ _).bind fun _ ↦ reads_poll now _
  | distSend stream bytes => exact reads_parsed_bind fun bytes _ ↦ reads_onStream stream _
  | distCredit stream bytes => exact reads_onStream stream _
  | distClose stream => exact reads_onStream stream _
  | shutdown => exact (within_modify fun d ↦ d.reads_main .stopped).bind fun _ ↦ within_pure _

end Reads

/-! ## Publishing

The handler of `publish` has three ways to end. Its number cannot be reserved, its announcement
cannot be signed, or it is signed, and then the envelope goes to the registry, whatever that says to
it. In the first two cases it has at most used a number up. -/

omit [SequenceStore I S] in
theorem returns_onOutbound {α : Type} {m : Method S Error α} {a : α} :
    (onOutbound m).Returns d a d' ↔
      ∃ s', m.Returns d.outbound a s' ∧ d' = { d with outbound := s' } := by
  simp only [onOutbound, Method.returns_mapError, Method.returns_zoom]

omit [SequenceStore I S] in
theorem fails_onOutbound {α : Type} {m : Method S Error α} {error : HandleError} :
    (onOutbound m).Fails d error d' ↔ ∃ err s', m.Fails d.outbound err s'
      ∧ error = .discovery err ∧ d' = { d with outbound := s' } := by
  simp only [onOutbound, Method.fails_mapError, Method.fails_zoom]
  constructor
  · rintro ⟨err, ⟨s', h, rfl⟩, rfl⟩
    exact ⟨err, s', h, rfl, rfl⟩
  · rintro ⟨err, s', h, rfl, rfl⟩
    exact ⟨err, ⟨s', h, rfl⟩, rfl⟩

/-- What `publish` does once its announcement is signed, whatever the registry says to it. -/
theorem after_publish_of_signed (now : UInt64) {draft : Draft} {sequence : UInt64} {outbound : S}
    {envelope : List UInt8}
    (hreserve : (reserveNext (I.publicKey d.secret)).Returns d.outbound sequence outbound)
    (hsign : signAnnouncement (d.announcement draft sequence) d.secret = .ok envelope) :
    ∃ main, d.afterCommand (.publish (.ok draft)) now = { d with
      outbound, registry := (Registry.receive envelope now).after d.registry, main } := by
  have hreserved := returns_onOutbound.mpr ⟨outbound, hreserve, rfl⟩
  rcases hreceive : (Registry.receive envelope now).call d.registry with ⟨err | u, registry⟩
  · have hfails : (handle (.publish (.ok draft)) now).Fails d (.discovery err)
        { d with outbound, registry } := by
      simp only [handle, Method.fails_bind, Method.returns_lift, Method.returns_get]
      refine Or.inr ⟨draft, d, ⟨rfl, rfl⟩, Or.inr ⟨d, d, ⟨rfl, rfl⟩, Or.inr ⟨sequence, _,
        hreserved, Or.inr ⟨envelope, _, ⟨?_, rfl⟩, Or.inl ?_⟩⟩⟩⟩
      · rw [hsign]
        rfl
      · exact fails_onRegistry.mpr ⟨err, registry, hreceive, rfl, rfl⟩
    refine ⟨.selecting, ?_⟩
    rw [afterCommand, hfails, Method.after, hreceive]
  · have hreturns : (handle (.publish (.ok draft)) now).Returns d none
        { d with outbound, registry, main := .syncing now (.published sequence envelope) } := by
      simp only [handle, await, Method.returns_bind, Method.returns_lift, Method.returns_get,
        Method.returns_modify, Method.returns_pure]
      refine ⟨draft, d, ⟨rfl, rfl⟩, d, d, ⟨rfl, rfl⟩, sequence, _, hreserved, envelope, _,
        ⟨?_, rfl⟩, (), _, returns_onRegistry.mpr ⟨registry, hreceive, rfl⟩, (), _, rfl, trivial,
        rfl⟩
      rw [hsign]
      rfl
    refine ⟨.syncing now (.published sequence envelope), ?_⟩
    rw [afterCommand, hreturns, Method.after, hreceive]

theorem after_publish_of_unsigned (now : UInt64) {draft : Except HandleError Draft}
    (h : d.signs (.command (.publish draft)) = none) :
    ∃ outbound main, d.afterCommand (.publish draft) now = { d with outbound, main }
      ∧ (outbound = d.outbound
        ∨ outbound = (reserveNext (I.publicKey d.secret)).after d.outbound) := by
  cases draft with
  | error error => exact ⟨_, .selecting, rfl, Or.inl rfl⟩
  | ok draft =>
    rcases hreserve : (reserveNext (I.publicKey d.secret)).call d.outbound with ⟨err | n, outbound⟩
    · have hfails : (handle (.publish (.ok draft)) now).Fails d (.discovery err)
          { d with outbound } := by
        simp only [handle, Method.fails_bind, Method.returns_lift, Method.returns_get]
        exact Or.inr ⟨draft, d, ⟨rfl, rfl⟩, Or.inr ⟨d, d, ⟨rfl, rfl⟩,
          Or.inl (fails_onOutbound.mpr ⟨err, outbound, hreserve, rfl, rfl⟩)⟩⟩
      refine ⟨outbound, .selecting, ?_, Or.inr ?_⟩
      · rw [afterCommand, hfails]
      · rw [Method.after, hreserve]
    · simp only [signs, hreserve] at h
      split at h
      · cases h
      · next err hsign =>
        have hfails : (handle (.publish (.ok draft)) now).Fails d (.discovery err)
            { d with outbound } := by
          simp only [handle, Method.fails_bind, Method.returns_lift, Method.returns_get,
            Method.fails_lift]
          refine Or.inr ⟨draft, d, ⟨rfl, rfl⟩, Or.inr ⟨d, d, ⟨rfl, rfl⟩, Or.inr ⟨n, _,
            returns_onOutbound.mpr ⟨outbound, hreserve, rfl⟩, Or.inl ⟨?_, rfl⟩⟩⟩⟩
          rw [hsign]
          rfl
        refine ⟨outbound, .selecting, ?_, Or.inr ?_⟩
        · rw [afterCommand, hfails]
        · rw [Method.after, hreserve]

theorem signs_eq_some_iff {a : Announcement I} {envelope : List UInt8} :
    d.signs taken = some (a, envelope) ↔ ∃ draft sequence outbound,
      taken = .command (.publish (.ok draft)) ∧ a = d.announcement draft sequence
        ∧ (reserveNext (I.publicKey d.secret)).Returns d.outbound sequence outbound
        ∧ signAnnouncement a d.secret = .ok envelope := by
  constructor
  · intro h
    unfold signs at h
    split at h
    · next draft =>
      split at h
      · next sequence hreserve =>
        split at h
        · next hsign =>
          obtain ⟨rfl, rfl⟩ := Prod.mk.inj (Option.some.inj h)
          exact ⟨draft, sequence, _, rfl, rfl, Method.returns_after hreserve, hsign⟩
        · cases h
      · cases h
    · cases h
  · rintro ⟨draft, sequence, outbound, rfl, rfl, hreserve, hsign⟩
    have hresult : ((reserveNext (I.publicKey d.secret)).call d.outbound).1 = .ok sequence :=
      congrArg Prod.fst hreserve
    simp only [signs, hresult, hsign]

/-- **A step that signs is a `publish`**: it has reserved the number of its announcement, and the
registry of the daemon itself is the first to be given the envelope. -/
theorem Acts.of_signs {a : Announcement I} {envelope : List UInt8} (h : d.Acts taken d')
    (hsigns : d.signs taken = some (a, envelope)) :
    ∃ draft sequence now outbound main, a = d.announcement draft sequence
      ∧ (reserveNext (I.publicKey d.secret)).Returns d.outbound sequence outbound
      ∧ signAnnouncement a d.secret = .ok envelope
      ∧ d' = { d with
          outbound, registry := (Registry.receive envelope now).after d.registry, main } := by
  obtain ⟨draft, sequence, outbound, rfl, rfl, hreserve, hsign⟩ := signs_eq_some_iff.mp hsigns
  cases h with
  | command command now hmain =>
    obtain ⟨main, hafter⟩ := after_publish_of_signed now hreserve hsign
    exact ⟨draft, sequence, now, outbound, main, rfl, hreserve, hsign, hafter⟩

/-- **A step that signs nothing** keeps the outbound store or has used a number up, and gives the
registry no other envelope than the one it has read. -/
theorem Acts.of_unsigned (h : d.Acts taken d') (hsigns : d.signs taken = none) :
    ∃ outbound, (outbound = d.outbound
        ∨ outbound = (reserveNext (I.publicKey d.secret)).after d.outbound)
      ∧ Reads (fun envelope ↦ taken.envelope? = some envelope) { d with outbound } d' := by
  cases h with
  | command command now hmain =>
    by_cases hpublish : ∃ draft, command = .publish draft
    · obtain ⟨draft, rfl⟩ := hpublish
      obtain ⟨outbound, main, hafter, houtbound⟩ := after_publish_of_unsigned now hsigns
      rw [hafter]
      exact ⟨outbound, houtbound, reads_of_eq rfl rfl rfl rfl rfl⟩
    · have hreads := reads_handle command now (fun draft h ↦ hpublish ⟨draft, h⟩) d
      refine ⟨d.outbound, Or.inl rfl, ?_⟩
      rw [Method.after] at hreads
      rw [afterCommand]
      split
      · next hcall =>
        rw [hcall] at hreads
        exact hreads
      · next hcall =>
        rw [hcall] at hreads
        exact trans_of (Reads _) hreads (reads_main _ _)
  | gossip envelope hmain =>
    refine ⟨d.outbound, Or.inl rfl, rfl, rfl, rfl, rfl, .single ⟨.receive envelope _, rfl, ?_⟩⟩
    rintro _ _ ⟨⟩
    rfl
  | silent hstep hsilent => exact ⟨d.outbound, Or.inl rfl, hsilent.reads _⟩

end Daemon

/-! ## Being found

`Has` is what keeps a record in place, the record itself and its sequence as the watermark of the
endpoint: a message of the endpoint that is accepted is newer than the watermark, so one that is not
newer is refused, and a refused message changes neither a record nor a watermark. `Has.run` is the
step lemma, for one call that spares the record, and `Has.sparing` the run lemma. While the record
is there, the peers of its endpoint in the answer to a query are read off it (`Has.found_iff`). -/

/-- A call of a registry leaves a record alone that it holds for an endpoint: what it receives of
the endpoint is not newer, it does not revoke the endpoint, and it asks before the record expires.
-/
def Operation.Spares (e : I.EndpointId) (sequence deadline : UInt64) : Operation I → Prop
  | .receive envelope _ => ∀ m signature, Registry.Opens envelope m signature →
      m.endpointId = e → m.sequence ≤ sequence
  | .authorize _ _ => True
  | .revoke e' => e' ≠ e
  | .active _ now | .find _ _ now | .endpointForNode _ _ now | .bindings _ now => now < deadline

namespace Registry

/-- The record a registry holds for an endpoint, with its sequence as the watermark. -/
structure Has (r : Registry I S) (e : I.EndpointId) (record : ActiveRecord I) : Prop where
  held : r.records[e]? = some record
  watermark : SequenceStore.load r.store e = .ok record.announcement.sequence

/-- When a record expires. -/
def deadline (record : ActiveRecord I) : UInt64 :=
  saturatingAdd record.receivedAt record.announcement.ttlMs

variable {r : Registry I S} {e : I.EndpointId} {record : ActiveRecord I}

theorem Has.of_fails [LawfulSequenceStore I S] {envelope : List UInt8} {now : UInt64}
    {r' : Registry I S} {err : Error} (h : r.Has e record)
    (hfails : (receive envelope now).Fails r err r') : r'.Has e record := by
  have hretained : ∀ e', r.Retained e' now r' → r'.Has e record := fun e' hretained ↦
    ⟨by rw [hretained.records]; exact h.held, by rw [hretained.load_eq]; exact h.watermark⟩
  rcases fails_receive hfails with rfl | ⟨m, signature, -, hprocess⟩
  · exact h
  cases hname : r.authorization.nodeName m.endpointId with
  | some name => exact hretained _ (fails_process_enrolled hname hprocess).1
  | none =>
    rcases fails_process_unknown hname hprocess with ⟨rfl, -⟩ | ⟨a, -, -, hkept, -⟩
    · exact h
    · exact hretained _ hkept

theorem Has.of_returns [LawfulSequenceStore I S] {envelope : List UInt8} {now : UInt64}
    {r' : Registry I S} (h : r.Has e record) (hreturns : (receive envelope now).Returns r () r')
    (hspares : ∀ m signature, Opens envelope m signature → m.endpointId = e →
      m.sequence ≤ record.announcement.sequence) : r'.Has e record := by
  obtain ⟨m, hadm, haccepted⟩ := returns_receive_iff.mp hreturns
  obtain ⟨signature, henvelope, -⟩ := hadm.signed
  have hother : e ≠ m.endpointId := by
    rintro rfl
    obtain ⟨stored, hload, hlt⟩ := hadm.fresh
    rw [h.watermark] at hload
    obtain rfl := Except.ok.inj hload
    have hle := hspares m signature ⟨hadm.length_le, hadm.bounded, henvelope⟩ rfl
    exact UInt64.lt_irrefl _ (UInt64.lt_of_lt_of_le hlt hle)
  obtain ⟨hload, hrecord, -, -⟩ := (haccepted.tookIn hadm.enrolled).other e hother
  exact ⟨hrecord.trans h.held, hload.trans h.watermark⟩

theorem Has.expire {now : UInt64} (h : r.Has e record) (hnow : now < deadline record) :
    (r.expire now).Has e record :=
  ⟨getElem?_expire.mpr ⟨h.held, hnow⟩, h.watermark⟩

/-- **The step lemma**: a call that spares a record keeps it. -/
theorem Has.run [LawfulSequenceStore I S] {op : Operation I} (h : r.Has e record)
    (hspares : op.Spares e record.announcement.sequence (deadline record)) :
    (op.run r).Has e record := by
  cases op with
  | receive envelope now =>
    rcases Method.returns_or_fails (receive envelope now) r with ⟨u, hreturns⟩ | ⟨err, hfails⟩
    · exact h.of_returns hreturns hspares
    · exact h.of_fails hfails
  | authorize e' name =>
    rcases Method.returns_or_fails (authorize e' name) r with ⟨u, hreturns⟩ | ⟨err, hfails⟩
    · obtain ⟨-, table, hr, -⟩ := returns_authorize.mp hreturns
      rw [Operation.run, hr]
      exact ⟨h.held, h.watermark⟩
    · obtain ⟨-, -, hr⟩ := fails_authorize.mp hfails
      rw [Operation.run, ← hr]
      exact h
  | revoke e' =>
    refine ⟨?_, h.watermark⟩
    rw [Operation.run, revoke, getElem?_erase_eq, if_neg hspares]
    exact h.held
  | find order predicates now =>
    rw [Operation.run, after_find]
    exact h.expire hspares
  | active _ now | endpointForNode _ _ now | bindings _ now => exact h.expire hspares

/-- One registry comes from another by calls that spare a record. -/
def Sparing (e : I.EndpointId) (record : ActiveRecord I) : Registry I S → Registry I S → Prop :=
  Relation.ReflTransGen fun r r' ↦ ∃ op : Operation I, r' = op.run r
    ∧ op.Spares e record.announcement.sequence (deadline record)

/-- **The run lemma.** -/
theorem Has.sparing [LawfulSequenceStore I S] {r' : Registry I S} (h : r.Has e record)
    (hsparing : Sparing e record r r') : r'.Has e record := by
  induction hsparing with
  | refl => exact h
  | tail _ hop ih =>
    obtain ⟨op, rfl, hspares⟩ := hop
    exact ih.run hspares

theorem Sparing.reachable {r' : Registry I S} (h : r.Reachable) (hsparing : Sparing e record r r') :
    r'.Reachable := by
  induction hsparing with
  | refl => exact h
  | tail _ hop ih =>
    obtain ⟨op, rfl, -⟩ := hop
    exact .step op ih

omit [SequenceStore I S] in
theorem mem_foundPeers {order : HashOrder (ActiveRecord I)} {predicates : List Predicate}
    {peer : Peer I} : peer ∈ r.foundPeers order predicates ↔
      ∃ (e : I.EndpointId) (record : ActiveRecord I), r.records[e]? = some record
        ∧ record.announcement.load.running < record.announcement.load.capacity
        ∧ (∀ p ∈ predicates, matchesPredicate record.announcement p = true)
        ∧ record.announcement.peer = peer := by
  simp only [foundPeers, List.mem_map, mem_sortBy, List.mem_filter, mem_values, Bool.and_eq_true,
    decide_eq_true_eq, List.all_eq_true]
  constructor
  · rintro ⟨record, ⟨⟨e, he⟩, hload, hall⟩, hpeer⟩
    exact ⟨e, record, he, hload, hall, hpeer⟩
  · rintro ⟨e, record, he, hload, hall, hpeer⟩
    exact ⟨record, ⟨⟨e, he⟩, hload, hall⟩, hpeer⟩

theorem Has.found_iff (hreachable : r.Reachable) (h : r.Has e record)
    {order : HashOrder (ActiveRecord I)} {predicates : List Predicate} {now : UInt64}
    (hnow : now < deadline record) {peer : Peer I} :
    (∃ peers r', (find order predicates now).Returns r peers r' ∧ peer ∈ peers
        ∧ peer.endpointId = e) ↔
      peer = record.announcement.peer
        ∧ record.announcement.load.running < record.announcement.load.capacity
        ∧ ∀ p ∈ predicates, matchesPredicate record.announcement p = true := by
  have hexpired := (h.expire hnow).held
  constructor
  · rintro ⟨peers, r', hfind, hmem, hendpoint⟩
    obtain ⟨rfl, -, -⟩ := returns_find.mp hfind
    obtain ⟨e', record', hrecord', hload, hall, rfl⟩ := mem_foundPeers.mp hmem
    obtain rfl : e' = e :=
      (hreachable.attested (getElem?_expire.mp hrecord').1).keyed.symm.trans hendpoint
    obtain rfl := Option.some.inj (hrecord'.symm.trans hexpired)
    exact ⟨rfl, hload, hall⟩
  · rintro ⟨rfl, hload, hall⟩
    have hmem : record.announcement.peer ∈ (r.expire now).foundPeers order predicates :=
      mem_foundPeers.mpr ⟨e, record, hexpired, hload, hall, rfl⟩
    exact ⟨_, _, returns_find.mpr ⟨rfl, List.ne_nil_of_mem hmem, rfl⟩, hmem,
      (hreachable.attested h.held).keyed⟩

end Registry

/-- **What is published is found.** A registry that is ready for an announcement a daemon has signed
takes its envelope in. From then on, until the announcement expires, is revoked or is replaced by a
newer one, the queries that find the endpoint are those its draft satisfies, and they find exactly
what the draft says. -/
theorem published_found [LawfulSequenceStore I S]
    (hverify : ∀ secret bytes, I.verify (I.publicKey secret) bytes (I.sign secret bytes) = true)
    {d : Daemon I S} {draft : Draft} {a : Announcement I} {envelope : List UInt8}
    (hsigns : d.signs (.command (.publish (.ok draft))) = some (a, envelope))
    {r : Registry I S} (hreachable : r.Reachable) {now : UInt64}
    (haccepts : r.Accepts (.announcement a) now)
    (hadvance : ∃ store, (SequenceStore.advance a.endpointId a.sequence).Returns r.store () store) :
    ∃ r', (Registry.receive envelope now).Returns r () r'
      ∧ ∀ r'', Registry.Sparing (I.publicKey d.secret) ⟨a, now⟩ r' r'' →
        ∀ order predicates now', now' < saturatingAdd now draft.ttlMs → ∀ peer,
          (∃ peers r₃, (Registry.find order predicates now').Returns r'' peers r₃ ∧ peer ∈ peers
              ∧ peer.endpointId = I.publicKey d.secret) ↔
            peer = ⟨I.publicKey d.secret, d.nodeName, draft.partisanIp, draft.partisanPort,
                a.sequence, draft.capabilities⟩
              ∧ draft.load.running < draft.load.capacity
              ∧ ∀ p ∈ predicates, matchesPredicate a p = true := by
  obtain ⟨draft', sequence, outbound, hcommand, rfl, -, hsign⟩ := Daemon.signs_eq_some_iff.mp hsigns
  obtain rfl : draft' = draft := by
    injection hcommand with hcommand
    injection hcommand with hcommand
    injection hcommand with hcommand
    exact hcommand.symm
  obtain ⟨hvalid, -, hbody⟩ := sign_eq_ok_iff.mp hsign
  obtain ⟨rfl, hlength⟩ := signBody_eq_ok_iff.mp hbody
  have hadm : r.Admissible _ now (.announcement (d.announcement draft' sequence)) :=
    { length_le := hlength
      bounded := bounded_of_validateMessage haccepts.valid
      signed := ⟨_, rfl, hverify d.secret _⟩
      fleet := haccepts.fleet
      enrolled := haccepts.enrolled
      valid := haccepts.valid
      named := haccepts.named
      fresh := haccepts.fresh
      not_full := haccepts.not_full
      advances := hadvance }
  obtain ⟨r', hreturns, haccepted⟩ := hadm.exists_accepted
  have htook := haccepted.tookIn hadm.enrolled
  have hhas : r'.Has (I.publicKey d.secret) ⟨d.announcement draft' sequence, now⟩ :=
    ⟨htook.record, htook.watermark⟩
  have hreach' : r'.Reachable := hreturns.after_eq ▸ .step (.receive _ now) hreachable
  refine ⟨r', hreturns, fun r'' hsparing order predicates now' hnow peer ↦ ?_⟩
  exact (hhas.sparing hsparing).found_iff (hsparing.reachable hreach') hnow

/-- What the sample announcement says. -/
def sampleDraft : Draft where
  ttlMs := Registry.sample.ttlMs
  partisanIp := Registry.sample.partisanIp
  partisanPort := Registry.sample.partisanPort
  capabilities := Registry.sample.capabilities
  load := Registry.sample.load

end NervesP2P
