import NervesP2P.Daemon.Effects
import NervesP2P.Dist.Names

/-!
# Who an incoming stream is from

The header of an incoming stream claims a name for each end, and whoever opens a stream writes what
they like. The daemon tells the port of the stream only after the header has passed the check of
`accept`, against a table that was copied from the registry some time before.

What this guarantees is a statement about the past of a run, through three stores. The event was
preceded by the check of its own header, on its own connection (`Vouched`). At the check the target
was the name of the last successful `dist_listen`. And at the last synchronisation before the check
the registry had an unexpired announcement of the authenticated endpoint, of this fleet and under
the claimed name, with a signature that verifies (`LastSync`, `Certifies`).

The check looks at what the table holds at that moment, so the past is cut at the last
synchronisation before the check and not before the event.
-/

open Std (ExtTreeMap)

namespace NervesP2P

variable {I : Iroh} {S : Type}

/-- The registry has an unexpired announcement of the fleet that binds the endpoint to the name,
with a signature that verifies. -/
def Registry.Certifies (r : Registry I S) (fleet : FleetId) (now : UInt64) (e : I.EndpointId)
    (name : Text) : Prop :=
  ∃ record, r.records[e]? = some record ∧ Unexpired now record
    ∧ record.announcement.endpointId = e ∧ record.announcement.nodeName = name
    ∧ record.announcement.fleetId = fleet
    ∧ ∃ signature, I.verify e (domain ++ encodeAnnouncement record.announcement) signature = true

namespace Daemon

variable [SequenceStore I S]

/-! ## The past of a run

A run is a list of labels, and all that is said of the past is said of such lists. `LastSync` and
`lastListened` look for the last label of their kind, so a label of another kind leaves them as they
were. `Vouched` looks for a check, with what was true at that moment, and once it holds it holds for
good. -/

/-- The name given to the last `dist_listen` that succeeded. -/
def lastListened (trace : List (Label I)) : Option Text :=
  (trace.filterMap Label.listened?).getLast?

/-- Of the state before the last synchronisation of a run, and of the time it was made for, the
property holds. -/
def LastSync (d₀ : Daemon I S) (trace : List (Label I)) (d : Daemon I S)
    (P : Daemon I S → UInt64 → Prop) : Prop :=
  ∃ before after now instant d₁ d₂, d₀.Path before d₁ ∧ d₁.Step [.synced now instant] d₂
    ∧ d₂.Path after d ∧ trace = before ++ .synced now instant :: after
    ∧ (∀ label ∈ after, label.isSynced = false) ∧ P d₁ now

/-- The header has passed the check on the connection of a stream. At the check its target was the
name listened to, and the last synchronisation certified its sender. -/
def Vouched (d₀ : Daemon I S) (trace : List (Label I)) (d : Daemon I S) (i : ℕ)
    (remote : I.EndpointId) (header : Header) : Prop :=
  ∃ before after instant d₁ d₂, d₀.Path before d₁
    ∧ d₁.Step [.checked i header instant, .moved i .quiet] d₂ ∧ d₂.Path after d
    ∧ trace = before ++ [.checked i header instant, .moved i .quiet] ++ after
    ∧ lastListened before = some header.targetNode
    ∧ d₀.LastSync before d₁ fun d now ↦
      d.registry.Certifies d₀.fleet now remote header.fromNode

section Past

variable {d₀ d d' : Daemon I S} {trace labels : List (Label I)}

theorem LastSync.step {P : Daemon I S → UInt64 → Prop} (h : d₀.LastSync trace d P)
    (hstep : d.Step labels d') (hquiet : Quiet labels) : d₀.LastSync (trace ++ labels) d' P := by
  obtain ⟨before, after, now, instant, d₁, d₂, hbefore, hsync, hafter, rfl, hlast, hP⟩ := h
  refine ⟨before, after ++ labels, now, instant, d₁, d₂, hbefore, hsync, hafter.tail hstep,
    by simp, fun label hlabel ↦ ?_, hP⟩
  rcases List.mem_append.mp hlabel with hold | hnew
  · exact hlast label hold
  · exact (hquiet label hnew).2

theorem Vouched.step {i : ℕ} {remote : I.EndpointId} {header : Header}
    (h : d₀.Vouched trace d i remote header) (hstep : d.Step labels d') :
    d₀.Vouched (trace ++ labels) d' i remote header := by
  obtain ⟨before, after, instant, d₁, d₂, hbefore, hcheck, hafter, rfl, hlistened, hsync⟩ := h
  exact ⟨before, after ++ labels, instant, d₁, d₂, hbefore, hcheck, hafter.tail hstep, by simp,
    hlistened, hsync⟩

theorem lastListened_append_of_quiet (hquiet : Quiet labels) :
    lastListened (trace ++ labels) = lastListened trace := by
  have hnone : labels.filterMap Label.listened? = [] :=
    List.filterMap_eq_nil_iff.mpr fun label hlabel ↦ (hquiet label hlabel).1
  rw [lastListened, List.filterMap_append, hnone, List.append_nil, ← lastListened]

/-! ## The invariant

`Authentic` has one clause for each store: the name listened to, the bindings of the table, the
streams that wait to tell the port of themselves, and the events of this kind that were sent. A step
can hurt a clause only where it writes to its store, and each clause has a lemma of its own.

The bindings come from the registry: what is in the table after a synchronisation was in the
registry before it. A stream is vouched for when its header passes the check, and it stays at its
place and on its connection, so that it is still vouched for when it has its number and tells the
port. Only `install_stream` tells of a stream that came in. -/

/-- What the stores of a daemon say of its past. -/
structure Authentic (d₀ : Daemon I S) (trace : List (Label I)) (d : Daemon I S) : Prop where
  reachable : d.registry.Reachable
  fleet : d.registry.fleetId = d₀.fleet
  nodeName : d.nodeName = d₀.nodeName
  asked : ∀ name, d.main.listens? = some name → name = d₀.nodeName
  listened : ∀ label ∈ trace, ∀ name, label.listened? = some name → name = d₀.nodeName
  listening : ∀ shared name, d.network = some shared → shared.listenNode = some name →
    lastListened trace = some name
  bound : ∀ shared name binding, d.network = some shared → shared.bindings[name]? = some binding →
    d₀.LastSync trace d fun d now ↦ d.registry.Certifies d₀.fleet now binding.endpoint name
  installing : ∀ i stream fromNode targetNode, d.streams[i]? = some stream →
    stream.side.task = .installing (.incoming fromNode targetNode) →
      d₀.Vouched trace d i stream.remote ⟨fromNode, targetNode⟩
  emitted : ∀ i fromNode targetNode, .moved i (.emitted (.incoming fromNode targetNode)) ∈ trace →
    ∃ stream, d.streams[i]? = some stream
      ∧ d₀.Vouched trace d i stream.remote ⟨fromNode, targetNode⟩

theorem reachable_of_operations {r r' : Registry I S} (h : r.Reachable)
    (hops : Relation.ReflTransGen (fun r r' ↦ ∃ op : Operation I, r' = op.run r) r r') :
    r'.Reachable ∧ r'.fleetId = r.fleetId := by
  induction hops with
  | refl => exact ⟨h, rfl⟩
  | tail _ hop ih =>
    obtain ⟨op, rfl⟩ := hop
    exact ⟨.step op ih.1, (Registry.change_run op _).fleetId.trans ih.2⟩

/-- What is in the table after a synchronisation was in the registry before it. -/
theorem Authentic.certifies (h : d₀.Authentic trace d) {order : HashOrder (ActiveRecord I)}
    {now : UInt64} {instant : ℕ} {shared : Shared I} {name : Text} {binding : Binding I}
    (hshared : (d.syncDistBindings order now instant).network = some shared)
    (hbinding : shared.bindings[name]? = some binding) :
    d.registry.Certifies d₀.fleet now binding.endpoint name := by
  rw [syncDistBindings_eq] at hshared
  split at hshared
  · next hnone =>
    rw [hnone] at hshared
    cases hshared
  · obtain rfl := Option.some.inj hshared
    rw [Shared.replaceBindings, List.map_map] at hbinding
    obtain ⟨record, hmem, heq⟩ := List.mem_map.mp (mem_of_getElem?_collect hbinding)
    obtain ⟨rfl, rfl⟩ := Prod.mk.inj heq
    obtain ⟨e, he⟩ := Registry.mem_values.mp hmem
    obtain ⟨hrecord, hlive⟩ := Registry.getElem?_expire.mp he
    have hattested := h.reachable.attested hrecord
    obtain rfl := hattested.keyed
    exact ⟨record, hrecord, Registry.unexpired_iff.mpr hlive, rfl, rfl,
      hattested.fleet.trans h.fleet, hattested.signed⟩

omit [SequenceStore I S] in
theorem listenNode_syncDistBindings {order : HashOrder (ActiveRecord I)} {now : UInt64}
    {instant : ℕ} {shared : Shared I}
    (h : (d.syncDistBindings order now instant).network = some shared) :
    ∃ old, d.network = some old ∧ shared.listenNode = old.listenNode := by
  rw [syncDistBindings_eq] at h
  split at h
  · next hnone =>
    rw [hnone] at h
    cases h
  · next old hold =>
    obtain rfl := Option.some.inj h
    exact ⟨old, hold, rfl⟩

theorem Authentic.listening_step (h : d₀.Authentic trace d) (hstep : d.Step labels d')
    {shared : Shared I} {name : Text} (hshared : d'.network = some shared)
    (hname : shared.listenNode = some name) : lastListened (trace ++ labels) = some name := by
  have hchange := hstep.network
  rw [hshared] at hchange
  generalize hnetwork : some shared = network at hchange
  cases hchange with
  | kept hquiet hkept =>
    obtain ⟨old, hold, hsame, -⟩ := hkept shared hnetwork.symm
    rw [lastListened_append_of_quiet hquiet]
    exact h.listening old name hold (hsame ▸ hname)
  | fresh _ =>
    obtain rfl := Option.some.inj hnetwork
    cases hname
  | synced =>
    obtain ⟨old, hold, hsame⟩ := listenNode_syncDistBindings hnetwork.symm
    have hlast := h.listening old name hold (hsame ▸ hname)
    rwa [lastListened, List.filterMap_append, List.filterMap_cons_none rfl, List.filterMap_nil,
      List.append_nil, ← lastListened]
  | @listened target _ _ _ =>
    obtain rfl := Option.some.inj hnetwork
    obtain rfl := Option.some.inj hname
    have hnew : [Label.listened target, .answered (.ok .done)].filterMap
        (Label.listened? (I := I)) = [target] := rfl
    rw [lastListened, List.filterMap_append, hnew, List.getLast?_concat]

theorem Authentic.bound_step (h : d₀.Authentic trace d) (hpath : d₀.Path trace d)
    (hstep : d.Step labels d') {shared : Shared I} {name : Text} {binding : Binding I}
    (hshared : d'.network = some shared) (hbinding : shared.bindings[name]? = some binding) :
    d₀.LastSync (trace ++ labels) d' fun d now ↦
      d.registry.Certifies d₀.fleet now binding.endpoint name := by
  have hchange := hstep.network
  rw [hshared] at hchange
  generalize hnetwork : some shared = network at hchange
  cases hchange with
  | kept hquiet hkept =>
    obtain ⟨old, hold, -, hsame⟩ := hkept shared hnetwork.symm
    exact (h.bound old name binding hold (hsame ▸ hbinding)).step hstep hquiet
  | fresh _ =>
    obtain rfl := Option.some.inj hnetwork
    rw [Shared.new, ExtTreeMap.getElem?_empty] at hbinding
    cases hbinding
  | @synced order now instant =>
    exact ⟨trace, [], now, instant, d, d', hpath, hstep, .refl, rfl, (by simp),
      h.certifies hnetwork.symm hbinding⟩
  | @listened target old _ hold =>
    obtain rfl := Option.some.inj hnetwork
    obtain ⟨before, after, now, instant, d₁, d₂, hbefore, hsync, hafter, rfl, hlast, hP⟩ :=
      h.bound old name binding hold hbinding
    refine ⟨before, after ++ _, now, instant, d₁, d₂, hbefore, hsync, hafter.tail hstep,
      by simp, fun label hlabel ↦ ?_, hP⟩
    rcases List.mem_append.mp hlabel with hold | hnew
    · exact hlast label hold
    · rcases List.mem_cons.mp hnew with rfl | hnew
      · rfl
      · obtain rfl := List.mem_singleton.mp hnew
        rfl

/-- A header that passes the check is vouched for. -/
theorem Authentic.vouched (h : d₀.Authentic trace d) (hpath : d₀.Path trace d) {i instant : ℕ}
    {header : Header} {remote : I.EndpointId} {shared : Shared I}
    (hstep : d.Step [.checked i header instant, .moved i .quiet] d')
    (hnetwork : d.network = some shared) (hallows : shared.allows header remote instant = true) :
    d₀.Vouched (trace ++ [.checked i header instant, .moved i .quiet]) d' i remote header := by
  obtain ⟨hlisten, expires, hbinding, -⟩ := Shared.allows_iff.mp hallows
  exact ⟨trace, [], instant, d, d', hpath, hstep, .refl, (List.append_nil _).symm,
    h.listening shared _ hnetwork hlisten, h.bound shared _ _ hnetwork hbinding⟩

theorem Authentic.installing_step (h : d₀.Authentic trace d) (hpath : d₀.Path trace d)
    (hstep : d.Step labels d') {i : ℕ} {stream : Stream I} {fromNode targetNode : Text}
    (hstream : d'.streams[i]? = some stream)
    (htask : stream.side.task = .installing (.incoming fromNode targetNode)) :
    d₀.Vouched (trace ++ labels) d' i stream.remote ⟨fromNode, targetNode⟩ := by
  have hchange := hstep.stream i
  rw [hstream] at hchange
  generalize hold : d.streams[i]? = old at hchange
  cases hchange with
  | kept _ hcalled =>
    cases hcalled with
    | some hcalled =>
      rw [hcalled.remote]
      exact (h.installing i _ fromNode targetNode hold (hcalled.task ▸ htask)).step hstep
  | opened _ _ hside =>
    rcases hside with hside | ⟨_, _, hside⟩
    · rw [hside] at htask
      cases htask
    · rw [hside] at htask
      cases htask
  | moved _ _ _ hinstalls => exact absurd htask (hinstalls _)
  | connected => cases htask
  | allowed hlabels hnetwork _ hallows =>
    subst hlabels
    obtain ⟨rfl, rfl⟩ := Opening.incoming.inj (Task.installing.inj htask)
    exact h.vouched hpath hstep hnetwork hallows

theorem Step.remote (hstep : d.Step labels d') {i : ℕ} {stream : Stream I}
    (hstream : d.streams[i]? = some stream) :
    ∃ stream', d'.streams[i]? = some stream' ∧ stream'.remote = stream.remote := by
  have hchange := hstep.stream i
  rw [hstream] at hchange
  generalize d'.streams[i]? = new at hchange
  cases hchange with
  | kept _ hcalled =>
    cases hcalled with
    | some hcalled => exact ⟨_, rfl, hcalled.remote⟩
  | moved | connected | allowed => exact ⟨_, rfl, rfl⟩

/-- Only `install_stream` tells of a stream that came in. -/
theorem installing_of_emitted {s s' : Side} {fromNode targetNode : Text}
    (h : s.Step (.emitted (.incoming fromNode targetNode)) s') :
    s.task = .installing (.incoming fromNode targetNode) := by
  generalize haction : Action.emitted (.incoming fromNode targetNode) = action at h
  cases h with
  | @announce opening htask =>
    cases opening with
    | incoming =>
      obtain ⟨rfl, rfl⟩ := Event.incoming.inj (Action.emitted.inj haction)
      exact htask
    | connected => cases haction
  | _ => cases haction

theorem Authentic.emitted_step (h : d₀.Authentic trace d) (hstep : d.Step labels d') {i : ℕ}
    {fromNode targetNode : Text}
    (hmem : .moved i (.emitted (.incoming fromNode targetNode)) ∈ trace ++ labels) :
    ∃ stream, d'.streams[i]? = some stream
      ∧ d₀.Vouched (trace ++ labels) d' i stream.remote ⟨fromNode, targetNode⟩ := by
  suffices hvouched : ∃ stream, d.streams[i]? = some stream
      ∧ d₀.Vouched trace d i stream.remote ⟨fromNode, targetNode⟩ by
    obtain ⟨stream, hstream, hvouched⟩ := hvouched
    obtain ⟨stream', hstream', hremote⟩ := hstep.remote hstream
    exact ⟨stream', hstream', hremote ▸ hvouched.step hstep⟩
  rcases List.mem_append.mp hmem with hold | hnew
  · exact h.emitted i fromNode targetNode hold
  have hchange := hstep.stream i
  generalize hstream : d.streams[i]? = old, d'.streams[i]? = new at hchange
  cases hchange with
  | kept hlabels | opened hlabels => exact absurd hnew (hlabels _)
  | moved hlabels _ hside _ =>
    obtain rfl := (hlabels _).mp hnew
    exact ⟨_, rfl, h.installing i _ fromNode targetNode hstream (installing_of_emitted hside)⟩
  | connected hlabels => cases (hlabels _).mp hnew
  | allowed hlabels => simp [hlabels] at hnew

theorem Authentic.step (h : d₀.Authentic trace d) (hpath : d₀.Path trace d)
    (hstep : d.Step labels d') : d₀.Authentic (trace ++ labels) d' where
  reachable := (reachable_of_operations h.reachable hstep.registry).1
  fleet := (reachable_of_operations h.reachable hstep.registry).2.trans h.fleet
  nodeName := hstep.nodeName.trans h.nodeName
  asked name hname := by
    rcases hstep.listens? hname with hold | hown
    · exact h.asked name hold
    · exact hown.trans h.nodeName
  listened label hlabel name hname := by
    rcases List.mem_append.mp hlabel with hold | hnew
    · exact h.listened label hold name hname
    · exact h.asked name (hstep.listened hnew hname)
  listening _ _ hshared hname := h.listening_step hstep hshared hname
  bound _ _ _ hshared hbinding := h.bound_step hpath hstep hshared hbinding
  installing _ _ _ _ hstream htask := h.installing_step hpath hstep hstream htask
  emitted _ _ _ hmem := h.emitted_step hstep hmem

end Past

theorem authentic_start {nodeName : Text} {secret : I.SecretKey} {fleet : FleetId}
    {outbound inbound : S} {d : Daemon I S}
    (h : start nodeName secret fleet outbound inbound = .ok d) : d.Authentic [] d := by
  obtain ⟨authorization, -, rfl⟩ := start_eq h
  exact {
    reachable := .new _ _ _ .signedFleet
    fleet := rfl
    nodeName := rfl
    asked := fun _ hnone ↦ absurd hnone (Option.some_ne_none _).symm
    listened := fun _ hlabel ↦ absurd hlabel List.not_mem_nil
    listening := fun _ _ hnone ↦ absurd hnone (Option.some_ne_none _).symm
    bound := fun _ _ _ hnone ↦ absurd hnone (Option.some_ne_none _).symm
    installing := fun _ _ _ _ hnone ↦ absurd hnone (Option.some_ne_none _).symm
    emitted := fun _ _ _ hlabel ↦ absurd hlabel List.not_mem_nil }

/-- **Every store of a daemon is authentic**, in every run. -/
theorem authentic_path {nodeName : Text} {secret : I.SecretKey} {fleet : FleetId}
    {outbound inbound : S} {d₀ d : Daemon I S} {trace : List (Label I)}
    (hstart : start nodeName secret fleet outbound inbound = .ok d₀) (h : d₀.Path trace d) :
    d₀.Authentic trace d := by
  induction h with
  | refl => exact authentic_start hstart
  | tail hpath hstep ih => exact ih.step hpath hstep

/-- Once it has been listened to, the name of the node stays the last one. -/
theorem Authentic.lastListened_append {d₀ d : Daemon I S} {before after : List (Label I)}
    (h : d₀.Authentic (before ++ after) d) {name : Text} (hname : lastListened before = some name) :
    lastListened (before ++ after) = some name := by
  have hown : ∀ name' ∈ (before ++ after).filterMap Label.listened?, name' = d₀.nodeName := by
    intro name' hmem
    obtain ⟨label, hlabel, hname'⟩ := List.mem_filterMap.mp hmem
    exact h.listened label hlabel name' hname'
  have hmem : name ∈ (before ++ after).filterMap Label.listened? := by
    rw [List.filterMap_append]
    exact List.mem_append_left _ (List.mem_of_getLast? hname)
  have hlast := List.getLast?_eq_some_getLast (List.ne_nil_of_mem hmem)
  rw [lastListened, hlast, hown _ (List.getLast_mem _), hown name hmem]

/-- **Whoever a stream comes from has been certified.** If the port is told of an incoming stream,
its header has passed the check before on the connection of that stream. The target it names is what
was listened to last, then and now, and the last synchronisation before the check certified that the
authenticated endpoint is the node named as the sender. -/
theorem incoming_certified {nodeName : Text} {secret : I.SecretKey} {fleet : FleetId}
    {outbound inbound : S} {d₀ d : Daemon I S} {trace : List (Label I)}
    (hstart : start nodeName secret fleet outbound inbound = .ok d₀) (h : d₀.Path trace d) {i : ℕ}
    {fromNode targetNode : Text}
    (hevent : .moved i (.emitted (.incoming fromNode targetNode)) ∈ trace) :
    ∃ stream, d.streams[i]? = some stream ∧ lastListened trace = some targetNode
      ∧ d₀.Vouched trace d i stream.remote ⟨fromNode, targetNode⟩ := by
  have hauthentic := authentic_path hstart h
  obtain ⟨stream, hstream, hvouched⟩ := hauthentic.emitted i fromNode targetNode hevent
  refine ⟨stream, hstream, ?_, hvouched⟩
  obtain ⟨before, after, instant, d₁, d₂, -, -, -, rfl, hlistened, -⟩ := hvouched
  rw [List.append_assoc] at hauthentic ⊢
  exact hauthentic.lastListened_append hlistened

/-- A node that looks at the gossip listens under its name. -/
theorem path_listen {d : Daemon I S} {shared : Shared I} (hmain : d.main = .selecting)
    (hnetwork : d.network = some shared) (hvalid : validNodeName d.nodeName = true)
    (envelope : List UInt8) (now : UInt64) (instant : ℕ) :
    d.Path [.synced now instant, .listened d.nodeName, .answered (.ok .done)]
      { d.heard shared envelope now instant with
        main := .selecting
        network := some { d.heardTable shared envelope now instant with
          listenNode := some d.nodeName } } := by
  have hcommand : (handle (.distListen d.nodeName) now).Returns d none
      { d with main := .polling now (.listen d.nodeName) } := by
    simp [handle, poll, await, hnetwork]
  have hresume : Step { d.heard shared envelope now instant with
      main := .synced now (.listen d.nodeName) } (answers none)
      { d.heard shared envelope now instant with main := .listening d.nodeName } :=
    .returns (.resume ⟨id, List.Perm.refl⟩ rfl) rfl
  have hlisten : (onDist (Shared.listen d.nodeName)).Returns
      { d.heard shared envelope now instant with main := .listening d.nodeName } () _ :=
    returns_onDist.mpr ⟨_, _, rfl, Shared.returns_listen.mpr ⟨hvalid, rfl⟩, rfl⟩
  exact ((path_heard (.command _ now hmain) hcommand hnetwork envelope instant).tail hresume).tail
    (.listens rfl hlisten)

/-! ### Two nodes

In the world of two keys, the node `c@d` listens and hears of the node `a@b`, which then connects.
-/

theorem homeNode_size : "c@d".utf8ByteSize < 2 ^ 64 := by decide

def homeNode : Text := ⟨"c@d", homeNode_size⟩

/-- The announcement of the other node. -/
def hello : List UInt8 :=
  encodeEnvelope (encodeAnnouncement (Registry.twin true)) (Iroh.pair.toBytes ())

theorem homeTable_fits :
    ((∅ : ExtTreeMap Iroh.pair.EndpointId Text).insertMany [(false, homeNode)]).size ≤ maxAuthorized
      ∧ (((∅ : ExtTreeMap Iroh.pair.EndpointId Text).insertMany [(false, homeNode)]).toList.all
        fun entry ↦ validNodeName entry.2) = true := by
  decide +kernel

def homeTable : AuthorizationTable Iroh.pair where
  entries := (∅ : ExtTreeMap Iroh.pair.EndpointId Text).insertMany [(false, homeNode)]
  size_le := homeTable_fits.1
  valid e name he := List.all_eq_true.mp homeTable_fits.2 (e, name)
    (ExtTreeMap.mem_toList_iff_getElem?_eq_some.mpr he)

/-- The node, with its network. -/
def home : Daemon Iroh.pair (MemorySequenceStore Iroh.pair) where
  nodeName := homeNode
  secret := false
  fleet := Registry.sample.fleetId
  outbound := ⟨∅⟩
  registry := (Registry.new Registry.sample.fleetId homeTable ⟨∅⟩).withEnrollmentPolicy .signedFleet
  network := some .new
  main := .selecting
  events := .empty
  streams := []

theorem start_home :
    start homeNode (I := Iroh.pair) false Registry.sample.fleetId
      (⟨∅⟩ : MemorySequenceStore Iroh.pair) ⟨∅⟩ = .ok { home with network := none } := by
  have htable : AuthorizationTable.new [(Iroh.pair.publicKey false, homeNode)] = .ok homeTable := by
    rw [AuthorizationTable.new]
    exact dif_pos homeTable_fits
  unfold start
  rw [htable]
  rfl

theorem path_home : ({ home with network := none } : Daemon _ _).Path
    [.answered (.ok .networkStarted)] home := by
  have hstarting : Step { home with network := none } (answers none)
      { home with network := none, main := .starting } :=
    .returns (.command .networkStart 0 rfl) rfl
  have hstarted : Step { home with network := none, main := .starting }
      [.answered (.ok .networkStarted)] home := .returns (.started rfl) rfl
  exact (Path.refl.tail hstarting).tail hstarted

/-- The node, listening, after it has heard of the other. -/
def listening : Daemon Iroh.pair (MemorySequenceStore Iroh.pair) :=
  { home.heard .new hello 0 0 with
    main := .selecting
    network := some { home.heardTable .new hello 0 0 with listenNode := some homeNode } }

theorem allows_listening : ({ home.heardTable .new hello 0 0 with
    listenNode := some homeNode } : Shared Iroh.pair).allows ⟨Registry.sample.nodeName, homeNode⟩
      true 0 = true := by
  decide +kernel

/-- The listening node with a stream from the other. -/
def met (id : UInt64) (side : Side) : Daemon Iroh.pair (MemorySequenceStore Iroh.pair) :=
  { listening with streams := [⟨true, id, side⟩] }

theorem stream_met (id : UInt64) (side : Side) :
    (met id side).streams[0]? = some ⟨true, id, side⟩ := rfl

def reading (reader : ReadExact HeaderError Header) :
    Daemon Iroh.pair (MemorySequenceStore Iroh.pair) :=
  met 0 { Side.accepting with task := .accepting reader }

theorem step_reading (bytes : List UInt8) {reader : ReadExact HeaderError Header}
    (hne : bytes ≠ []) (hle : bytes.length ≤ reader.missing) :
    (reading reader).Step [.moved 0 (.readHeader bytes)] (reading (reader.feed bytes)) :=
  Step.moves (stream_met 0 _) rfl rfl (.readHeader hne hle rfl) (by simp)

/-- The header of the other node. -/
def greeting : Header := ⟨Registry.sample.nodeName, homeNode⟩

set_option maxRecDepth 2000 in
theorem feed_greeting : ((((readHeader.feed magic).feed [0, 3]).feed [97, 64, 98]).feed
    [0, 3]).feed [99, 64, 100] = .done (.ok greeting) := rfl

def checked : Daemon Iroh.pair (MemorySequenceStore Iroh.pair) :=
  { met 1 (Side.accepting.install (.incoming greeting.fromNode greeting.targetNode)) with
    network := some { home.heardTable .new hello 0 0 with
      nextId := 2, listenNode := some homeNode } }

theorem step_checked : (reading (.done (.ok greeting))).Step
    [.checked 0 greeting 0, .moved 0 .quiet] checked :=
  .allowed (stream_met 0 _) rfl rfl allows_listening

theorem incoming_certified_sample :
    ∃ (d₀ d : Daemon Iroh.pair (MemorySequenceStore Iroh.pair)) (trace : List (Label Iroh.pair)),
      start homeNode (I := Iroh.pair) false Registry.sample.fleetId ⟨∅⟩ ⟨∅⟩ = .ok d₀
        ∧ d₀.Path trace d
        ∧ .moved 0 (.emitted (.incoming Registry.sample.nodeName homeNode)) ∈ trace
        ∧ ∃ stream, d.streams[0]? = some stream ∧ lastListened trace = some homeNode
          ∧ d₀.Vouched trace d 0 stream.remote ⟨Registry.sample.nodeName, homeNode⟩ := by
  have hlistening : Path { home with network := none } _ listening :=
    path_home.trans (path_listen rfl rfl (by decide) hello 0 0)
  have hincoming : Path { home with network := none } _ (reading readHeader) :=
    hlistening.tail (Step.incoming (d := listening) true)
  -- the header is read in five pieces
  have hread := hincoming
    |>.tail (step_reading magic (by decide) (by decide))
    |>.tail (step_reading [0, 3] (by decide) (by decide))
    |>.tail (step_reading [97, 64, 98] (by decide) (by decide))
    |>.tail (step_reading [0, 3] (by decide) (by decide))
    |>.tail (step_reading [99, 64, 100] (by decide) (by decide))
  rw [feed_greeting] at hread
  obtain ⟨events, hputs⟩ : ∃ events, checked.events.Puts
      [(1, .incoming greeting.fromNode greeting.targetNode)] events :=
    Channel.exists_puts (by decide)
  have hevent := (hread.tail step_checked).tail (.emits (stream_met 1 _) (.announce rfl) hputs)
  exact ⟨_, _, _, start_home, hevent, List.mem_append_right _ List.mem_cons_self,
    incoming_certified start_home hevent (List.mem_append_right _ List.mem_cons_self)⟩

end Daemon

end NervesP2P
