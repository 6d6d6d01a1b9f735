import NervesP2P.Daemon.Identity

/-!
# What a refused envelope leaves behind

`ingest` is for envelopes that come in by hand: the command names an endpoint and the node it is,
and carries the envelope. The handler authorizes the endpoint under that name and only then decodes
the envelope and gives it to `receive`. It takes nothing back when that fails. So the binding of the
command stays, also where the endpoint was enrolled under another name before.

An `ingest` fails before anything has changed, or after its endpoint was authorized
(`fails_ingest`), and in the second case whatever the registry has by then stays
(`exists_fails_ingest`). The exact condition under which nothing has changed follows from two facts
about the parts: to authorize an endpoint under the name it has changes nothing, and a call of
`receive` that fails keeps everybody who is enrolled under the same name, but may have enrolled the
sender.
-/

open Std (ExtTreeMap)

namespace NervesP2P

namespace Registry

variable {I : Iroh} {S : Type}

theorem entries_insert_eq_iff {r : Registry I S} {e : I.EndpointId} {name : Text} :
    r.authorization.entries.insert e name = r.authorization.entries ↔
      r.authorization.nodeName e = some name := by
  rw [AuthorizationTable.nodeName]
  constructor
  · intro heq
    rw [← heq, getElem?_insert_eq, if_pos rfl]
  · intro hname
    refine ExtTreeMap.ext_getElem? fun e' ↦ ?_
    rw [getElem?_insert_eq]
    split
    · next he => rw [← he, hname]
    · rfl

theorem returns_authorize_of_nodeName {r r' : Registry I S} {e : I.EndpointId} {name : Text}
    (hname : r.authorization.nodeName e = some name)
    (h : (authorize e name).Returns r () r') : r' = r := by
  obtain ⟨-, table, rfl, htable⟩ := returns_authorize.mp h
  rw [entries_insert_eq_iff.mpr hname] at htable
  rw [AuthorizationTable.ext htable]

variable [SequenceStore I S]

theorem nodeName_of_fails_receive {envelope : List UInt8} {now : UInt64} {r r' : Registry I S}
    {err : Error} {e : I.EndpointId} {name : Text} (h : (receive envelope now).Fails r err r')
    (hname : r.authorization.nodeName e = some name) :
    r'.authorization.nodeName e = some name := by
  rcases fails_receive h with rfl | ⟨m, signature, -, hprocess⟩
  · exact hname
  cases hsender : r.authorization.nodeName m.endpointId with
  | some name' => rwa [(fails_process_enrolled hsender hprocess).2]
  | none =>
    rcases fails_process_unknown hsender hprocess with ⟨rfl, -⟩ | ⟨a, rfl, hself, -, hentries⟩
    · exact hname
    · rw [AuthorizationTable.nodeName, hentries, getElem?_insert_eq, if_neg]
      · exact hname
      · rintro rfl
        rw [hself.unknown] at hname
        cases hname

end Registry

namespace Daemon

variable {I : Iroh} {S : Type} [SequenceStore I S]

omit [SequenceStore I S] in
theorem fails_onRegistry {α : Type} {m : Method (Registry I S) Error α} {d d' : Daemon I S}
    {error : HandleError} :
    (onRegistry m).Fails d error d' ↔ ∃ err r', m.Fails d.registry err r'
      ∧ error = .discovery err ∧ d' = { d with registry := r' } := by
  simp only [onRegistry, Method.fails_mapError, Method.fails_zoom]
  constructor
  · rintro ⟨err, ⟨r', h, rfl⟩, rfl⟩
    exact ⟨err, r', h, rfl, rfl⟩
  · rintro ⟨err, r', h, rfl, rfl⟩
    exact ⟨err, ⟨r', h, rfl⟩, rfl⟩

omit [SequenceStore I S] in
theorem returns_onRegistry {α : Type} {m : Method (Registry I S) Error α} {d d' : Daemon I S}
    {a : α} :
    (onRegistry m).Returns d a d' ↔
      ∃ r', m.Returns d.registry a r' ∧ d' = { d with registry := r' } := by
  simp only [onRegistry, Method.returns_mapError, Method.returns_zoom]

/-- The envelope of an `ingest` is refused by a registry: it is no hex text, or it holds no message
that the registry admits. -/
def Refuses (registry : Registry I S) (envelope : Option (List UInt8)) (now : UInt64) : Prop :=
  ∀ bytes, envelope = some bytes → ∀ m, ¬registry.Admissible bytes now m

theorem refuses_iff [LawfulSequenceStore I S] {registry : Registry I S}
    {envelope : Option (List UInt8)} {now : UInt64} :
    Refuses registry envelope now ↔ ∀ bytes, envelope = some bytes →
      ∀ registry', ¬(Registry.receive bytes now).Returns registry () registry' := by
  refine forall₂_congr fun bytes _ ↦ ?_
  rw [← not_exists, ← not_exists, Registry.exists_returns_receive_iff]

theorem fails_ingest {envelope : Option (List UInt8)} {endpoint : Option I.EndpointId}
    {nodeName : Text} {now : UInt64} {d d' : Daemon I S} {error : HandleError}
    (h : (handle (.ingest envelope endpoint nodeName) now).Fails d error d') :
    d' = d ∨ ∃ e r₁, endpoint = some e ∧ (Registry.authorize e nodeName).Returns d.registry () r₁
      ∧ (envelope = none ∧ d' = { d with registry := r₁ }
        ∨ ∃ bytes err r', envelope = some bytes ∧ (Registry.receive bytes now).Fails r₁ err r'
          ∧ d' = { d with registry := r' }) := by
  cases endpoint with
  | none =>
    rcases Method.fails_bind.mp h with h | ⟨_, _, h, -⟩
    · exact Or.inl (Method.fails_throw.mp h).2.symm
    · exact absurd h Method.returns_throw
  | some e =>
    rcases Method.fails_bind.mp h with h | ⟨_, _, h, hrest⟩
    · exact absurd h Method.fails_pure
    obtain ⟨rfl, rfl⟩ := Method.returns_pure.mp h
    rcases Method.fails_bind.mp hrest with h | ⟨u, _, h, hrest⟩
    · obtain ⟨err, r', hfails, -, rfl⟩ := fails_onRegistry.mp h
      obtain ⟨-, -, rfl⟩ := Registry.fails_authorize.mp hfails
      exact Or.inl rfl
    obtain ⟨r₁, hauthorized, rfl⟩ := returns_onRegistry.mp h
    refine Or.inr ⟨e, r₁, rfl, hauthorized, ?_⟩
    cases envelope with
    | none =>
      rcases Method.fails_bind.mp hrest with h | ⟨_, _, h, -⟩
      · exact Or.inl ⟨rfl, (Method.fails_throw.mp h).2.symm⟩
      · exact absurd h Method.returns_throw
    | some bytes =>
      rcases Method.fails_bind.mp hrest with h | ⟨_, _, h, hrest⟩
      · exact absurd h Method.fails_pure
      obtain ⟨rfl, rfl⟩ := Method.returns_pure.mp h
      rcases Method.fails_bind.mp hrest with h | ⟨_, _, -, h⟩
      · obtain ⟨err, r', hfails, -, rfl⟩ := fails_onRegistry.mp h
        exact Or.inr ⟨bytes, err, r', rfl, hfails, rfl⟩
      · rcases Method.fails_bind.mp h with h | ⟨_, _, -, h⟩
        · exact absurd h Method.fails_modify
        · exact absurd h Method.fails_pure

theorem exists_fails_ingest [LawfulSequenceStore I S] {envelope : Option (List UInt8)}
    {e : I.EndpointId} {nodeName : Text} {now : UInt64} {d : Daemon I S} {r₁ : Registry I S}
    (hauthorized : (Registry.authorize e nodeName).Returns d.registry () r₁)
    (hrefuses : Refuses r₁ envelope now) :
    ∃ error r', (handle (.ingest envelope (some e) nodeName) now).Fails d error
        { d with registry := r' }
      ∧ (envelope = none ∧ r' = r₁
        ∨ ∃ bytes err, envelope = some bytes ∧ (Registry.receive bytes now).Fails r₁ err r') := by
  have hdone :
      (onRegistry (Registry.authorize e nodeName)).Returns d () { d with registry := r₁ } :=
    returns_onRegistry.mpr ⟨r₁, hauthorized, rfl⟩
  cases envelope with
  | none =>
    refine ⟨.discovery .malformed, r₁, ?_, Or.inl ⟨rfl, rfl⟩⟩
    refine Method.fails_bind.mpr (Or.inr ⟨e, d, Method.returns_pure.mpr ⟨rfl, rfl⟩, ?_⟩)
    refine Method.fails_bind.mpr (Or.inr ⟨(), _, hdone, ?_⟩)
    exact Method.fails_bind.mpr (Or.inl (Method.fails_throw.mpr ⟨rfl, rfl⟩))
  | some bytes =>
    rcases Method.returns_or_fails (Registry.receive bytes now) r₁ with ⟨u, h⟩ | ⟨err, h⟩
    · exact absurd h (refuses_iff.mp hrefuses bytes rfl _)
    refine ⟨.discovery err, _, ?_, Or.inr ⟨bytes, err, rfl, h⟩⟩
    refine Method.fails_bind.mpr (Or.inr ⟨e, d, Method.returns_pure.mpr ⟨rfl, rfl⟩, ?_⟩)
    refine Method.fails_bind.mpr (Or.inr ⟨(), _, hdone, ?_⟩)
    refine Method.fails_bind.mpr (Or.inr ⟨bytes, _, Method.returns_pure.mpr ⟨rfl, rfl⟩, ?_⟩)
    exact Method.fails_bind.mpr (Or.inl (fails_onRegistry.mpr ⟨err, _, h, rfl, rfl⟩))

/-- **A refused `ingest` changes neither the authorization table, nor a watermark, nor a record,
unless it was refused after its endpoint had been authorized.** Then it needs that the endpoint had
the name of the command before, and that the message did not enroll yet another sender. -/
theorem ingest_error_unchanged_iff [LawfulSequenceStore I S] (d : Daemon I S)
    (envelope : Option (List UInt8)) (endpoint : Option I.EndpointId) (nodeName : Text)
    (now : UInt64) :
    (∀ error d', (handle (.ingest envelope endpoint nodeName) now).Fails d error d' →
        d.registry.Unchanged d'.registry) ↔
      ∀ e r₁, endpoint = some e → (Registry.authorize e nodeName).Returns d.registry () r₁ →
        Refuses r₁ envelope now →
          d.registry.authorization.nodeName e = some nodeName
            ∧ ∀ bytes, envelope = some bytes → ¬d.registry.EnrollsThenFails bytes now := by
  constructor
  · rintro hunchanged e r₁ rfl hauthorized hrefuses
    obtain ⟨error, r', hfails, hwhy⟩ := exists_fails_ingest hauthorized hrefuses
    have hsame := hunchanged _ _ hfails
    have hnamed : r₁.authorization.nodeName e = some nodeName := by
      obtain ⟨-, table, rfl, htable⟩ := Registry.returns_authorize.mp hauthorized
      rw [AuthorizationTable.nodeName, htable, getElem?_insert_eq, if_pos rfl]
    -- the name of the command is still there at the end, so it was there before
    have hname : d.registry.authorization.nodeName e = some nodeName := by
      rw [← hsame.1]
      rcases hwhy with ⟨-, rfl⟩ | ⟨bytes, err, -, hreceive⟩
      · exact hnamed
      · exact Registry.nodeName_of_fails_receive hreceive hnamed
    refine ⟨hname, ?_⟩
    rintro bytes rfl hboth
    obtain rfl := Registry.returns_authorize_of_nodeName hname hauthorized
    rcases hwhy with ⟨hnone, -⟩ | ⟨_, err, hbytes, hreceive⟩
    · cases hnone
    · obtain rfl := Option.some.inj hbytes
      exact hboth.not_unchanged hreceive hsame
  · intro hcond error d' hfails
    rcases fails_ingest hfails with rfl | ⟨e, r₁, rfl, hauthorized, hrest⟩
    · exact ⟨rfl, fun e ↦ rfl, rfl⟩
    have hrefuses : Refuses r₁ envelope now := by
      rw [refuses_iff]
      rintro bytes rfl registry' hreturns
      rcases hrest with ⟨hnone, -⟩ | ⟨bytes', err, r', hbytes, hreceive, -⟩
      · cases hnone
      · obtain rfl := Option.some.inj hbytes
        exact hreturns.not_fails hreceive
    obtain ⟨hname, hnot⟩ := hcond e r₁ rfl hauthorized hrefuses
    obtain rfl := Registry.returns_authorize_of_nodeName hname hauthorized
    rcases hrest with ⟨-, rfl⟩ | ⟨bytes, err, r', rfl, hreceive, rfl⟩
    · exact ⟨rfl, fun e ↦ rfl, rfl⟩
    · exact Registry.unchanged_of_fails_receive (hnot bytes rfl) hreceive

/-- A node is told that its own key belongs to another node, with an envelope that is no envelope.
The command is refused as malformed, and the key is bound to the other name. -/
theorem ingest_error_rebinds :
    home.registry.authorization.nodeName false = some homeNode
      ∧ ∃ d', (handle (.ingest (some []) (some false) Registry.sample.nodeName) 0).Fails home
          (.discovery .malformed) d'
        ∧ d'.registry.authorization.nodeName false = some Registry.sample.nodeName := by
  refine ⟨by decide +kernel, _, Method.fails_after rfl, ?_⟩
  decide +kernel

/-- Under its own name the same command changes nothing. -/
theorem ingest_error_unchanged_sample :
    ∃ d', (handle (.ingest none (some false) homeNode) 0).Fails home (.discovery .malformed) d'
      ∧ home.registry.Unchanged d'.registry := by
  have hfails : (handle (.ingest none (some false) homeNode) 0).Fails home (.discovery .malformed)
      _ := Method.fails_after rfl
  refine ⟨_, hfails, (ingest_error_unchanged_iff _ _ _ _ _).mpr ?_ _ _ hfails⟩
  rintro e r₁ he - -
  obtain rfl := Option.some.inj he
  refine ⟨by decide +kernel, ?_⟩
  intro bytes hbytes
  cases hbytes

end Daemon

end NervesP2P
