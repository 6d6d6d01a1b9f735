import NervesP2P.Dht.Provider
import NervesP2P.Lib.Keyed
import NervesP2P.Lib.Server
import NervesP2P.Lib.SortBy
import NervesP2P.Lib.Term

/-!
# Discovery

One process asks several providers for peers and puts their answers together. There are two: one
hears of peers in the local network, the other looks up the providers of a capability in the hash
table. Each keeps what it has heard, under the identifier of the peer, and holds it for stale after
a time of its own.

## What is known

`Knowledge` says, without any caches, when a provider has heard of a peer, and whom the hash table
was last said to have found for a capability. Both can be read off the turns of the process, and
the caches are a record of just that (`Records`). What the process answers is then a matter of
freshness: it lists whom a provider has heard of lately, and nobody twice.

None of the providers learns the name of a node.
-/

open Std (ExtTreeMap)

namespace NervesP2P

namespace Coordinator

open Dht (Capability QueryEvent capabilityKey)

/-! ## Peers

The fields that no provider ever sets keep their defaults. They are part of the model all the same,
since the process asks for them: a peer is looked for by its node, and its metadata decide on
constraints. -/

abbrev PeerId := String

abbrev Pid := ℕ

/-- A value of the metadata that is not `nil`, up to the equality of Elixir. -/
inductive Meta where
  | atom (name : String)
  | text (text : String)
  | number (value : ℚ)
  | other (term : ℕ)
  deriving DecidableEq

/-- What is known of a peer. Times are in microseconds. -/
structure PeerInfo where
  peerId : Option PeerId
  node : Option String
  listenAddrs : List String
  capabilities : List Capability
  metadata : List (Key × Meta)
  lastSeen : Option ℤ
  discoverySource : String

namespace PeerInfo

def stale (info : PeerInfo) (ttlSeconds : ℤ) (now : ℤ) : Bool :=
  match info.lastSeen with
  | none => true
  | some time => Dht.seconds now - Dht.seconds time > ttlSeconds

def hasCapability (info : PeerInfo) (capability : Capability) : Bool :=
  info.capabilities.contains capability

/-- A peer that was found in the hash table; what is not given has its default. -/
def ofDht (info : Dht.PeerInfo) : PeerInfo where
  peerId := some info.peerId
  node := none
  listenAddrs := []
  capabilities := info.capabilities
  metadata := []
  lastSeen := info.lastSeen
  discoverySource := "dht"

/-- What makes two entries the same. -/
def key (info : PeerInfo) : Option PeerId × Option String := (info.peerId, info.node)

end PeerInfo

/-! ## The provider for the local network

The node tells of a peer when it is discovered, and the provider keeps it under its identifier with
the time. It knows of no capabilities, and the list that it could ask the bridge for is empty. -/

inductive Event where
  | peerDiscovered (peerId : PeerId) (addresses : List String)
  | query (event : QueryEvent)
  | other

/-- The peers that were discovered. -/
abbrev Mdns := ExtTreeMap PeerId PeerInfo

/-- What the bridge reports of a peer, if it has the expected form: its identifier, address and
protocol. -/
abbrev Discovered := Option (PeerId × String × String)

namespace Mdns

def peerInfo (peerId : PeerId) (addresses : List String) (metadata : List (Key × Meta))
    (now : ℤ) : PeerInfo where
  peerId := some peerId
  node := none
  listenAddrs := addresses
  capabilities := []
  metadata := metadata
  lastSeen := some now
  discoverySource := "mdns"

def handleEvent (event : Event) (now : ℤ) (state : Mdns) : Mdns :=
  match event with
  | .peerDiscovered peerId addresses => state.insert peerId (peerInfo peerId addresses [] now)
  | _ => state

def findCapability (capability : Capability) (now : ℤ) (state : Mdns) : List PeerInfo :=
  ((state.toList.map Prod.snd).filter (·.hasCapability capability)).filter (!·.stale 120 now)

/-- Take in the peers that the bridge knows of. -/
def scan (discovered : List Discovered) (now : ℤ) (state : Mdns) : Mdns :=
  discovered.foldl (fun acc peer ↦
    match peer with
    | some (peerId, multiaddr, protocol) =>
      acc.insert peerId (peerInfo peerId [multiaddr] [(.atom "protocol", .text protocol)] now)
    | none => acc) state

end Mdns

/-- The bridge has nothing to report: peers come as events. -/
def getDiscoveredPeers : List Discovered := []

/-! ## The coordinator

The process is a server whose state are the two providers, in the order in which they are
configured. A request for peers goes to each of them. The lists are joined and freed of everyone who
was in the list before, and the rest is sorted by the time at which a peer was last seen. Sorting
compares times, and would raise on a peer without one; that there is always a time is part of what
is proved below. -/

inductive Module where
  | mdns
  | dht
  deriving DecidableEq

structure State where
  /-- The providers, in the order in which they are asked. -/
  modules : List Module
  mdns : Mdns
  dht : Dht.State
  localCapabilities : List Capability
  subscribers : List Pid

def State.init (modules : List Module) : State := ⟨modules, ∅, .init, [], []⟩

namespace State

def cached (s : State) : Module → List PeerInfo
  | .mdns => s.mdns.toList.map Prod.snd
  | .dht => s.dht.cachedPeers.toList.map fun entry ↦ .ofDht entry.2

/-- How long a provider holds a peer for present, in seconds. -/
def ttl : Module → ℤ
  | .mdns => 120
  | .dht => 600

def discoveredBy (s : State) (now : ℤ) (m : Module) : List PeerInfo :=
  (s.cached m).filter (!·.stale (ttl m) now)

/-- Ask the providers for a node until one has found it. -/
def findPeer (s : State) (node : Option String) : Option PeerInfo :=
  s.modules.findSome? fun m ↦ (s.cached m).find? (·.node = node)

/-- The peers with a capability, and what becomes of the providers. The hash table may be asked. -/
def findCapability (s : State) (capability : Capability) (now : ℤ) (accepted : Bool) :
    List PeerInfo × Option String × State :=
  let asked := Dht.findCapability capability now accepted s.dht
  (s.modules.flatMap fun
      | .mdns => Mdns.findCapability capability now s.mdns
      | .dht => (asked.1.getD []).map .ofDht,
    if .dht ∈ s.modules then asked.2.1 else none,
    if .dht ∈ s.modules then { s with dht := asked.2.2 } else s)

/-- Each provider sees every event. -/
def handleEvent (s : State) (event : Event) (now : ℤ) : State :=
  { s with
    mdns := if .mdns ∈ s.modules then Mdns.handleEvent event now s.mdns else s.mdns
    dht :=
      match event with
      | .query event => if .dht ∈ s.modules then Dht.handleEvent event now s.dht else s.dht
      | _ => s.dht }

end State

/-- Who was seen last comes first. -/
def compareSeen (a b : PeerInfo) : Ordering :=
  compare (b.lastSeen.getD 0) (a.lastSeen.getD 0)

instance : Std.TransCmp compareSeen :=
  transCmpOn (fun x y : ℤ ↦ compare y x) fun info : PeerInfo ↦ info.lastSeen.getD 0

/-- A peer that was never seen cannot be compared. -/
def sortByLastSeen (peers : List PeerInfo) : Option (List PeerInfo) :=
  if 2 ≤ peers.length ∧ peers.any (·.lastSeen.isNone) = true then none
  else some (sortBy compareSeen peers)

/-- Everybody is listed once. -/
def uniquePeers (peers : List PeerInfo) : Option (List PeerInfo) :=
  sortByLastSeen (uniqBy PeerInfo.key peers)

inductive Message where
  | advertiseSelf
  | advertiseCapability (capability : Capability) (provided : Bool)
  | findCapability (capability : Capability) (now : ℤ) (accepted : Bool)
  | findPeer (node : Option String)
  | getDiscoveredPeers (now : ℤ)
  | subscribe (pid : Pid)
  /-- A scan is asked for, or due. -/
  | scan
  | scanTimer
  | advertiseSelfInitial
  | event (event : Event) (now : ℤ)
  | scanProvider (m : Module) (now : ℤ)
  | down (pid : Pid)
  | other

inductive Reply where
  | ok
  | allProvidersFailed
  | peers (peers : List PeerInfo)
  | found (info : PeerInfo)
  | notFound

inductive Effect where
  | reply (reply : Reply)
  | provide (key : String)
  | findProviders (key : String)
  | monitor (pid : Pid)
  | sendScanProvider (m : Module)
  | scheduleScan

/-- Everything that is advertised is advertised again. -/
def advertiseSelf (s : State) : List Effect :=
  if .dht ∈ s.modules then s.localCapabilities.map fun c ↦ .provide (capabilityKey c) else []

/-- Only one of the providers has something to scan. -/
def queueScans (s : State) : List Effect :=
  (s.modules.filter (· = .mdns)).map .sendScanProvider

def handle : Message → State → Option (List Effect × State)
  | .advertiseSelf, s =>
    some (advertiseSelf s ++ [.reply (if s.modules ≠ [] then .ok else .allProvidersFailed)], s)
  | .advertiseCapability capability provided, s =>
    let asked := if .dht ∈ s.modules then [.provide (capabilityKey capability)] else []
    if .mdns ∈ s.modules ∨ .dht ∈ s.modules ∧ provided = true then
      some (asked ++ [.reply .ok],
        { s with localCapabilities := s.localCapabilities.insert capability })
    else some (asked ++ [.reply .allProvidersFailed], s)
  | .findCapability capability now accepted, s =>
    (uniquePeers (s.findCapability capability now accepted).1).map fun peers ↦
      ((s.findCapability capability now accepted).2.1.toList.map .findProviders
        ++ [.reply (.peers peers)], (s.findCapability capability now accepted).2.2)
  | .findPeer node, s =>
    some ([.reply (match s.findPeer node with
      | some info => .found info
      | none => .notFound)], s)
  | .getDiscoveredPeers now, s =>
    (uniquePeers (s.modules.flatMap (s.discoveredBy now))).map fun peers ↦
      ([.reply (.peers peers)], s)
  | .subscribe pid, s =>
    some ([.monitor pid, .reply .ok], { s with subscribers := pid :: s.subscribers })
  | .scan, s => some (queueScans s, s)
  | .scanTimer, s => some (queueScans s ++ [.scheduleScan], s)
  | .advertiseSelfInitial, s => some (advertiseSelf s, s)
  | .event event now, s => some ([], s.handleEvent event now)
  | .scanProvider .mdns now, s =>
    some ([], if .mdns ∈ s.modules then
      { s with mdns := Mdns.scan Coordinator.getDiscoveredPeers now s.mdns } else s)
  | .scanProvider .dht _, s => if .dht ∈ s.modules then none else some ([], s)
  | .down pid, s => some ([], { s with subscribers := s.subscribers.erase pid })
  | .other, _ => none

def server (modules : List Module) : Server State Message Effect := ⟨.init modules, handle⟩

abbrev Turn := Server.Turn Message Effect

/-- What the process can have done since its start. -/
abbrev History (modules : List Module) (turns : List Turn) (s : State) : Prop :=
  (server modules).History (fun _ _ _ ↦ True) turns s

/-! ## What can be known

`Knowledge` is a function of the turns and says nothing of how the providers store anything, nor of
when they forget. A discovered peer is heard of by the first provider. Providers that are found are
heard of by the second, under the lookup that waits longest, and a new lookup goes to the end of the
line. So the lookups that wait are part of what is known.

`Records` ties the caches to it, and it looks at nothing but the caches (`Records.of_same`), so most
turns need no argument. `Records.step` is the step lemma and `records_of_history` the run lemma.
After that no proof goes back to the turns. -/

/-- What has been heard, without any caches. -/
structure Knowledge where
  /-- The lookups for which nobody has been found yet, oldest first. -/
  pending : List Capability
  /-- Whom the hash table has found when the capability was first in line. -/
  filed : Capability → List PeerId
  /-- When a provider has last heard of a peer. -/
  heard : Module → PeerId → Option ℤ

def Effect.isLookup : Effect → Bool
  | .findProviders _ => true
  | _ => false

namespace Knowledge

def empty : Knowledge := ⟨[], fun _ ↦ [], fun _ _ ↦ none⟩

/-- What is known after a turn. -/
def turn (k : Knowledge) (turn : Turn) : Knowledge :=
  match turn.1 with
  | .event (.peerDiscovered peerId _) now =>
    { k with heard := fun m p ↦ if m = .mdns ∧ p = peerId then some now else k.heard m p }
  | .event (.query ⟨_, .foundProviders peerIds⟩) now =>
    match k.pending with
    | capability :: pending =>
      { pending := pending
        filed := fun c ↦ if c = capability then peerIds else k.filed c
        heard := fun m p ↦
          if m = .dht ∧ peerIds.contains p = true then some now else k.heard m p }
    | [] => k
  | .findCapability capability _ _ =>
    if turn.2.any Effect.isLookup = true then { k with pending := k.pending ++ [capability] } else k
  | _ => k

end Knowledge

def known (turns : List Turn) : Knowledge := turns.foldl Knowledge.turn .empty

theorem known_snoc (turns : List Turn) (turn : Turn) :
    known (turns ++ [turn]) = (known turns).turn turn := by
  rw [known, List.foldl_append]
  rfl

/-- What a provider has in its cache for a peer. -/
def State.lookup (s : State) : Module → PeerId → Option PeerInfo
  | .mdns, p => s.mdns[p]?
  | .dht, p => s.dht.cachedPeers[p]?.map .ofDht

theorem mem_cached {s : State} {m : Module} {info : PeerInfo} :
    info ∈ s.cached m ↔ ∃ p, s.lookup m p = some info := by
  cases m with
  | mdns =>
    simp only [State.cached, State.lookup, List.mem_map, Prod.exists, exists_eq_right]
    exact exists_congr fun p ↦ ExtTreeMap.mem_toList_iff_getElem?_eq_some
  | dht =>
    simp only [State.cached, State.lookup, List.mem_map, Prod.exists, Option.map_eq_some_iff]
    exact exists_congr fun p ↦ exists_congr fun entry ↦ and_congr_left'
      ExtTreeMap.mem_toList_iff_getElem?_eq_some

/-- The caches are a record of what is known. -/
structure Records (k : Knowledge) (s : State) : Prop where
  heard : ∀ m ∈ s.modules, ∀ p, (s.lookup m p).bind (·.lastSeen) = k.heard m p
  /-- An entry is about its peer, has a time and no name of a node. -/
  entry : ∀ m p info, s.lookup m p = some info →
    info.peerId = some p ∧ info.node = none ∧ info.lastSeen.isSome = true
  /-- In the local network nothing is said about capabilities. -/
  plain : ∀ p info, s.lookup .mdns p = some info → info.capabilities = []
  pending : .dht ∈ s.modules → s.dht.pendingCapabilities = k.pending
  filed : .dht ∈ s.modules → ∀ c : Capability, s.dht.cachedCapabilities[c]?.getD [] = k.filed c

theorem lookup_init (modules : List Module) (m : Module) (p : PeerId) :
    (State.init modules).lookup m p = none := by
  cases m with
  | mdns => exact ExtTreeMap.getElem?_empty
  | dht =>
    simp only [State.lookup, Option.map_eq_none_iff]
    exact ExtTreeMap.getElem?_empty

theorem records_init (modules : List Module) : Records .empty (.init modules) where
  heard := fun m _ p ↦ by
    rw [lookup_init]
    rfl
  entry := fun m p info h ↦ by
    rw [lookup_init] at h
    cases h
  plain := fun p info h ↦ by
    rw [lookup_init] at h
    cases h
  pending := fun _ ↦ rfl
  filed := fun _ c ↦ congrArg (Option.getD · []) ExtTreeMap.getElem?_empty

section Step

variable {k : Knowledge} {s s' : State}

theorem Records.of_same (h : Records k s) (hmodules : s'.modules = s.modules)
    (hmdns : s'.mdns = s.mdns) (hdht : s'.dht = s.dht) : Records k s' := by
  obtain ⟨modules, mdns, dht, localCapabilities, subscribers⟩ := s
  obtain ⟨modules', mdns', dht', localCapabilities', subscribers'⟩ := s'
  simp only at hmodules hmdns hdht
  subst hmodules hmdns hdht
  exact ⟨h.heard, h.entry, h.plain, h.pending, h.filed⟩

theorem Records.peerDiscovered (h : Records k s) (peerId : PeerId) (addresses : List String)
    (now : ℤ) (done : List Effect) :
    Records (k.turn (.event (.peerDiscovered peerId addresses) now, done))
      (s.handleEvent (.peerDiscovered peerId addresses) now) := by
  by_cases hmdns : .mdns ∈ s.modules
  · have hlookup : ∀ m p, (s.handleEvent (.peerDiscovered peerId addresses) now).lookup m p
        = if m = .mdns ∧ p = peerId then some (Mdns.peerInfo peerId addresses [] now)
          else s.lookup m p := by
      intro m p
      cases m with
      | mdns =>
        simp only [State.lookup, State.handleEvent, if_pos hmdns, Mdns.handleEvent,
          getElem?_insert_eq, true_and, eq_comm]
      | dht => simp [State.lookup, State.handleEvent]
    refine ⟨fun m hm p ↦ ?_, fun m p info hinfo ↦ ?_, fun p info hinfo ↦ ?_, h.pending, h.filed⟩
    · rw [hlookup]
      simp only [Knowledge.turn]
      split
      · rfl
      · exact h.heard m hm p
    · rw [hlookup] at hinfo
      split at hinfo
      · next hand =>
        obtain rfl := Option.some.inj hinfo
        exact ⟨congrArg some hand.2.symm, rfl, rfl⟩
      · exact h.entry m p info hinfo
    · rw [hlookup] at hinfo
      split at hinfo
      · obtain rfl := Option.some.inj hinfo
        rfl
      · exact h.plain p info hinfo
  · have hsame : s.handleEvent (.peerDiscovered peerId addresses) now = s := by
      simp [State.handleEvent, hmdns]
    rw [hsame]
    refine ⟨fun m hm p ↦ ?_, h.entry, h.plain, h.pending, h.filed⟩
    simp only [Knowledge.turn]
    rw [if_neg]
    · exact h.heard m hm p
    · rintro ⟨rfl, -⟩
      exact hmdns hm

theorem Records.foundProviders (h : Records k s) (queryId : Dht.QueryId) (peerIds : List PeerId)
    (now : ℤ) (done : List Effect) :
    Records (k.turn (.event (.query ⟨queryId, .foundProviders peerIds⟩) now, done))
      (s.handleEvent (.query ⟨queryId, .foundProviders peerIds⟩) now) := by
  by_cases hdht : .dht ∈ s.modules
  · have hpending := h.pending hdht
    have hturn : s.handleEvent (.query ⟨queryId, .foundProviders peerIds⟩) now
        = { s with dht := Dht.handleEvent ⟨queryId, .foundProviders peerIds⟩ now s.dht } := by
      simp [State.handleEvent, hdht, Mdns.handleEvent]
    cases hk : k.pending with
    | nil =>
      have hsame : Dht.handleEvent ⟨queryId, .foundProviders peerIds⟩ now s.dht = s.dht := by
        simp [Dht.handleEvent, hpending, hk]
      rw [hturn, hsame]
      simp only [Knowledge.turn, hk]
      exact h
    | cons capability pending =>
      have hdhtState : Dht.handleEvent ⟨queryId, .foundProviders peerIds⟩ now s.dht
          = { cachedPeers := s.dht.cachedPeers.insertMany
                (peerIds.map fun peerId ↦ (peerId, ⟨peerId, [capability], some now⟩))
              cachedCapabilities := s.dht.cachedCapabilities.insert capability peerIds
              pendingCapabilities := pending } := by
        simp [Dht.handleEvent, hpending, hk]
      have hlookup : ∀ m p, (s.handleEvent (.query ⟨queryId, .foundProviders peerIds⟩) now).lookup
          m p = if m = .dht ∧ peerIds.contains p = true
            then some (.ofDht ⟨p, [capability], some now⟩) else s.lookup m p := by
        intro m p
        rw [hturn, hdhtState]
        cases m with
        | mdns => simp [State.lookup]
        | dht =>
          simp only [State.lookup, getElem?_insertMany_keys, true_and, List.contains_iff_mem]
          split <;> rfl
      refine ⟨fun m hm p ↦ ?_, fun m p info hinfo ↦ ?_, fun p info hinfo ↦ ?_, fun _ ↦ ?_,
        fun _ c ↦ ?_⟩
      · rw [hlookup]
        simp only [Knowledge.turn, hk]
        split
        · rfl
        · exact h.heard m hm p
      · rw [hlookup] at hinfo
        split at hinfo
        · obtain rfl := Option.some.inj hinfo
          exact ⟨rfl, rfl, rfl⟩
        · exact h.entry m p info hinfo
      · rw [hlookup] at hinfo
        simp only [reduceCtorEq, false_and, if_false] at hinfo
        exact h.plain p info hinfo
      · simp only [hturn, hdhtState, Knowledge.turn, hk]
      · simp only [hturn, hdhtState, Knowledge.turn, hk, getElem?_insert_eq, eq_comm]
        split
        · rfl
        · exact h.filed hdht c
  · have hsame : s.handleEvent (.query ⟨queryId, .foundProviders peerIds⟩) now = s := by
      simp [State.handleEvent, hdht, Mdns.handleEvent]
    rw [hsame]
    refine ⟨fun m hm p ↦ ?_, h.entry, h.plain, fun hmem ↦ absurd hmem hdht,
      fun hmem ↦ absurd hmem hdht⟩
    have hm' : m ≠ .dht := fun heq ↦ hdht (heq ▸ hm)
    simp only [Knowledge.turn]
    split
    · simp only [hm', false_and, if_false]
      exact h.heard m hm p
    · exact h.heard m hm p

theorem Records.findCapability (h : Records k s) (capability : Capability) (now : ℤ)
    (accepted : Bool) (reply : Reply) :
    Records (k.turn (.findCapability capability now accepted,
        (s.findCapability capability now accepted).2.1.toList.map .findProviders ++ [.reply reply]))
      (s.findCapability capability now accepted).2.2 := by
  by_cases hdht : .dht ∈ s.modules
  · have hasked : (s.findCapability capability now accepted).2
        = ((Dht.findCapability capability now accepted s.dht).2.1,
          { s with dht := (Dht.findCapability capability now accepted s.dht).2.2 }) := by
      simp [State.findCapability, hdht]
    rw [hasked]
    rcases Dht.find_cases capability now accepted s.dht with ⟨hquery, hrun⟩ | ⟨hquery, hrun⟩
    · rw [Dht.Input.query, Option.map_eq_none_iff] at hquery
      rw [Dht.Input.run] at hrun
      simp only [hquery, hrun, Knowledge.turn]
      exact h.of_same rfl rfl rfl
    · rw [Dht.Input.query, Option.map_eq_some_iff] at hquery
      obtain ⟨key, hkey, -⟩ := hquery
      rw [Dht.Input.run] at hrun
      have hlookup : ∀ m p, ({ s with dht := { s.dht with
            pendingCapabilities := s.dht.pendingCapabilities ++ [capability] } } : State).lookup m p
          = s.lookup m p := by
        intro m p
        cases m <;> rfl
      simp only [hkey, hrun, Knowledge.turn]
      refine ⟨fun m hm p ↦ ?_, fun m p info hinfo ↦ ?_, h.plain, fun _ ↦ ?_, h.filed⟩
      · rw [hlookup]
        exact h.heard m hm p
      · rw [hlookup] at hinfo
        exact h.entry m p info hinfo
      · exact congrArg (· ++ [capability]) (h.pending hdht)
  · have hsame : (s.findCapability capability now accepted).2 = (none, s) := by
      simp [State.findCapability, hdht]
    rw [hsame]
    exact h

/-- **The step lemma**: a turn records what can be known after it. -/
theorem Records.step (h : Records k s) {m : Message} {done : List Effect}
    (hhandle : handle m s = some (done, s')) : Records (k.turn (m, done)) s' := by
  cases m with
  | findCapability capability now accepted =>
    obtain ⟨peers, -, hpair⟩ := Option.map_eq_some_iff.mp hhandle
    obtain ⟨rfl, rfl⟩ := Prod.mk.inj hpair
    exact h.findCapability capability now accepted (.peers peers)
  | event event now =>
    obtain ⟨rfl, rfl⟩ := Prod.mk.inj (Option.some.inj hhandle)
    cases event with
    | peerDiscovered peerId addresses => exact h.peerDiscovered peerId addresses now []
    | query event =>
      obtain ⟨queryId, result⟩ := event
      cases result with
      | foundProviders peerIds => exact h.foundProviders queryId peerIds now []
      | other =>
        refine h.of_same rfl ?_ ?_
        · simp [State.handleEvent, Mdns.handleEvent]
        · simp [State.handleEvent, Dht.handleEvent_other]
    | other => exact h.of_same rfl (by simp [State.handleEvent, Mdns.handleEvent]) rfl
  | advertiseCapability capability provided =>
    simp only [handle] at hhandle
    split at hhandle <;> obtain ⟨rfl, rfl⟩ := Prod.mk.inj (Option.some.inj hhandle) <;>
      exact h.of_same rfl rfl rfl
  | getDiscoveredPeers now =>
    obtain ⟨peers, -, hpair⟩ := Option.map_eq_some_iff.mp hhandle
    obtain ⟨rfl, rfl⟩ := Prod.mk.inj hpair
    exact h
  | scanProvider m now =>
    cases m with
    | mdns =>
      obtain ⟨rfl, rfl⟩ := Prod.mk.inj (Option.some.inj hhandle)
      -- the bridge never reports a peer
      have hsame : Mdns.scan Coordinator.getDiscoveredPeers now s.mdns = s.mdns := rfl
      rw [hsame]
      split <;> exact h.of_same rfl rfl rfl
    | dht =>
      simp only [handle] at hhandle
      split at hhandle
      · cases hhandle
      · obtain ⟨rfl, rfl⟩ := Prod.mk.inj (Option.some.inj hhandle)
        exact h
  | advertiseSelf | findPeer | subscribe | scan | scanTimer | advertiseSelfInitial | down =>
    obtain ⟨rfl, rfl⟩ := Prod.mk.inj (Option.some.inj hhandle)
    exact h.of_same rfl rfl rfl
  | other => cases hhandle

end Step

theorem records_of_history {modules : List Module} {turns : List Turn} {s : State}
    (h : History modules turns s) : Records (known turns) s := by
  induction h with
  | init => exact records_init modules
  | step _ _ hhandle ih =>
    rw [known_snoc]
    exact ih.step hhandle

theorem modules_step {m : Message} {done : List Effect} {s s' : State}
    (h : handle m s = some (done, s')) : s'.modules = s.modules := by
  cases m with
  | findCapability capability now accepted =>
    obtain ⟨peers, -, hpair⟩ := Option.map_eq_some_iff.mp h
    obtain ⟨-, rfl⟩ := Prod.mk.inj hpair
    simp only [State.findCapability]
    split <;> rfl
  | getDiscoveredPeers now =>
    obtain ⟨peers, -, hpair⟩ := Option.map_eq_some_iff.mp h
    obtain ⟨-, rfl⟩ := Prod.mk.inj hpair
    rfl
  | advertiseCapability capability provided =>
    simp only [handle] at h
    split at h <;> obtain ⟨-, rfl⟩ := Prod.mk.inj (Option.some.inj h) <;> rfl
  | scanProvider m now =>
    cases m with
    | mdns =>
      obtain ⟨-, rfl⟩ := Prod.mk.inj (Option.some.inj h)
      split <;> rfl
    | dht =>
      simp only [handle] at h
      split at h
      · cases h
      · obtain ⟨-, rfl⟩ := Prod.mk.inj (Option.some.inj h)
        rfl
  | advertiseSelf | findPeer | subscribe | scan | scanTimer | advertiseSelfInitial | down | event =>
    obtain ⟨-, rfl⟩ := Prod.mk.inj (Option.some.inj h)
    rfl
  | other => cases h

theorem modules_of_history {modules : List Module} {turns : List Turn} {s : State}
    (h : History modules turns s) : s.modules = modules := by
  induction h with
  | init => rfl
  | step _ _ hhandle ih => exact (modules_step hhandle).trans ih

/-! ## What is answered

A cache may hold entries that are stale, and a provider decides with a time of its own which of them
it lists. In terms of what is known this is `Fresh`: the last time at which the provider has heard
of the peer lies within its time. Two providers may list the same peer with different times. The
process keeps the entry of the one that is configured first and sorts only then, so the time shown
is one at which the peer was heard of, and not always the last. -/

/-- A provider has heard of the peer lately. -/
def Fresh (k : Knowledge) (now : ℤ) (m : Module) (p : PeerId) (time : ℤ) : Prop :=
  k.heard m p = some time ∧ Dht.seconds now - Dht.seconds time ≤ State.ttl m

/-- **No peer is ever found by the name of its node.** Whatever has happened, none of the providers
has learned one. -/
theorem never_finds_peer {modules : List Module} {turns : List Turn} {s : State}
    (h : History modules turns s) (name : String) :
    handle (.findPeer (some name)) s = some ([.reply .notFound], s) := by
  have hrecords := records_of_history h
  have hnone : s.findPeer (some name) = none := by
    rw [State.findPeer, List.findSome?_eq_none_iff]
    intro m _
    rw [List.find?_eq_none]
    intro info hinfo hnode
    obtain ⟨p, hlookup⟩ := mem_cached.mp hinfo
    rw [(hrecords.entry m p info hlookup).2.1] at hnode
    simp at hnode
  rw [handle, hnone]

theorem never_finds_peer_sample :
    ∃ turns s, History [.mdns] turns s ∧ turns ≠ []
      ∧ handle (.findPeer (some "p@10.0.0.1")) s = some ([.reply .notFound], s) := by
  have h : History [.mdns] [(.event (.peerDiscovered "p" ["/ip4/10.0.0.1"]) 0, [])] _ :=
    Server.History.init.step trivial rfl
  exact ⟨_, _, h, List.cons_ne_nil _ _, never_finds_peer h "p@10.0.0.1"⟩

/-- Peers that were seen last come first. -/
def NewestFirst (peers : List PeerInfo) : Prop :=
  peers.Pairwise fun a b ↦ b.lastSeen.getD 0 ≤ a.lastSeen.getD 0

theorem exists_uniquePeers {l : List PeerInfo} (h : ∀ info ∈ l, info.lastSeen.isSome = true) :
    ∃ peers, uniquePeers l = some peers ∧ (peers.map PeerInfo.key).Nodup ∧ NewestFirst peers
      ∧ (∀ info ∈ peers, info ∈ l)
      ∧ ∀ key, key ∈ peers.map PeerInfo.key ↔ key ∈ l.map PeerInfo.key := by
  have hseen : (uniqBy PeerInfo.key l).any (·.lastSeen.isNone) = false := by
    rw [List.any_eq_false]
    intro info hinfo
    have hsome := h info ((uniqBy_sublist PeerInfo.key l).subset hinfo)
    rw [Option.isNone_iff_eq_none]
    intro hnone
    rw [hnone] at hsome
    cases hsome
  refine ⟨sortBy compareSeen (uniqBy PeerInfo.key l), ?_, ?_, ?_, ?_, ?_⟩
  · rw [uniquePeers, sortByLastSeen, if_neg]
    rintro ⟨-, hany⟩
    rw [hseen] at hany
    cases hany
  · exact ((sortBy_perm _ _).map _).nodup_iff.mpr (nodup_map_uniqBy _ _)
  · refine (pairwise_sortBy compareSeen (uniqBy PeerInfo.key l)).imp fun {a b} hle ↦ ?_
    by_contra hlt
    exact hle (compare_gt_iff_gt.mpr (not_le.mp hlt))
  · exact fun info hinfo ↦ (uniqBy_sublist PeerInfo.key l).subset (mem_sortBy.mp hinfo)
  · intro key
    rw [((sortBy_perm _ _).map _).mem_iff]
    exact mem_map_uniqBy

section Answers

variable {modules : List Module} {turns : List Turn} {s : State}

theorem stale_eq_false_iff {info : PeerInfo} {ttlSeconds now : ℤ} :
    info.stale ttlSeconds now = false ↔
      ∃ time, info.lastSeen = some time ∧ Dht.seconds now - Dht.seconds time ≤ ttlSeconds := by
  rw [PeerInfo.stale]
  cases info.lastSeen with
  | none => simp
  | some time => simp

theorem fresh_iff {k : Knowledge} (h : Records k s) {m : Module} (hm : m ∈ s.modules) (now : ℤ)
    (p : PeerId) (time : ℤ) :
    Fresh k now m p time ↔ ∃ info, s.lookup m p = some info ∧ info.lastSeen = some time
      ∧ info.stale (State.ttl m) now = false := by
  rw [Fresh, ← h.heard m hm p, Option.bind_eq_some_iff]
  constructor
  · rintro ⟨⟨info, hlookup, htime⟩, hfresh⟩
    exact ⟨info, hlookup, htime, stale_eq_false_iff.mpr ⟨time, htime, hfresh⟩⟩
  · rintro ⟨info, hlookup, htime, hstale⟩
    obtain ⟨time', htime', hfresh⟩ := stale_eq_false_iff.mp hstale
    obtain rfl := Option.some.inj (htime.symm.trans htime')
    exact ⟨⟨info, hlookup, htime⟩, hfresh⟩

theorem mem_discoveredBy {now : ℤ} {m : Module} {info : PeerInfo} :
    info ∈ s.discoveredBy now m ↔
      ∃ p, s.lookup m p = some info ∧ info.stale (State.ttl m) now = false := by
  rw [State.discoveredBy, List.mem_filter, mem_cached]
  simp [and_comm]

/-- Entries of caches are put in order, nobody is lost and nobody is listed twice. -/
theorem exists_answer {k : Knowledge} (h : Records k s) {l : List PeerInfo}
    (hl : ∀ info ∈ l, ∃ m p, s.lookup m p = some info) :
    ∃ peers, uniquePeers l = some peers ∧ (peers.map PeerInfo.peerId).Nodup ∧ NewestFirst peers
      ∧ (∀ info ∈ peers, info ∈ l)
      ∧ ∀ p, (∃ info ∈ peers, info.peerId = some p) ↔ ∃ info ∈ l, info.peerId = some p := by
  have hnode : ∀ info ∈ l, info.node = none := by
    intro info hinfo
    obtain ⟨m, p, hlookup⟩ := hl info hinfo
    exact (h.entry m p info hlookup).2.1
  obtain ⟨peers, hpeers, hnodup, hnewest, hfrom, hkeys⟩ :=
    exists_uniquePeers fun info hinfo ↦ by
      obtain ⟨m, p, hlookup⟩ := hl info hinfo
      exact (h.entry m p info hlookup).2.2
  refine ⟨peers, hpeers, ?_, hnewest, hfrom, fun p ↦ ⟨?_, ?_⟩⟩
  · have hkey : peers.map PeerInfo.key = (peers.map PeerInfo.peerId).map fun p ↦ (p, none) := by
      rw [List.map_map]
      exact List.map_congr_left fun info hinfo ↦ Prod.ext rfl (hnode info (hfrom info hinfo))
    rw [hkey] at hnodup
    exact hnodup.of_map
  · rintro ⟨info, hinfo, hp⟩
    exact ⟨info, hfrom info hinfo, hp⟩
  · rintro ⟨info, hinfo, hp⟩
    obtain ⟨info', hinfo', hkey⟩ := List.mem_map.mp ((hkeys _).mpr (List.mem_map_of_mem hinfo))
    exact ⟨info', hinfo', (congrArg Prod.fst hkey).trans hp⟩

/-- **Who was heard of lately is listed, and once.** The peers that the process lists are those that
one of its providers has heard of within its time, each of them once and with a time at which it was
heard of. Those that were seen last come first. -/
theorem lists_fresh_once (h : History modules turns s) (now : ℤ) :
    ∃ peers, handle (.getDiscoveredPeers now) s = some ([.reply (.peers peers)], s)
      ∧ (peers.map PeerInfo.peerId).Nodup ∧ NewestFirst peers
      ∧ (∀ info ∈ peers, ∃ m ∈ modules, ∃ p time, info.peerId = some p
        ∧ info.lastSeen = some time ∧ Fresh (known turns) now m p time)
      ∧ ∀ p, (∃ info ∈ peers, info.peerId = some p) ↔
        ∃ m ∈ modules, ∃ time, Fresh (known turns) now m p time := by
  have hrecords := records_of_history h
  have hmodules := modules_of_history h
  have hmem : ∀ info, info ∈ s.modules.flatMap (s.discoveredBy now) ↔
      ∃ m ∈ s.modules, ∃ p, s.lookup m p = some info ∧ info.stale (State.ttl m) now = false := by
    intro info
    rw [List.mem_flatMap]
    exact exists_congr fun m ↦ and_congr_right fun _ ↦ mem_discoveredBy
  obtain ⟨peers, hpeers, hnodup, hnewest, hfrom, hlisted⟩ :=
    exists_answer hrecords fun info hinfo ↦ by
      obtain ⟨m, -, p, hlookup, -⟩ := (hmem info).mp hinfo
      exact ⟨m, p, hlookup⟩
  have hentry : ∀ info ∈ peers, ∃ m ∈ modules, ∃ p time, info.peerId = some p
      ∧ info.lastSeen = some time ∧ Fresh (known turns) now m p time := by
    intro info hinfo
    obtain ⟨m, hm, p, hlookup, hstale⟩ := (hmem info).mp (hfrom info hinfo)
    obtain ⟨time, htime, -⟩ := stale_eq_false_iff.mp hstale
    exact ⟨m, hmodules ▸ hm, p, time, (hrecords.entry m p info hlookup).1, htime,
      (fresh_iff hrecords hm now p time).mpr ⟨info, hlookup, htime, hstale⟩⟩
  refine ⟨peers, ?_, hnodup, hnewest, hentry, fun p ↦ (hlisted p).trans ⟨?_, ?_⟩⟩
  · rw [handle, hpeers]
    rfl
  · rintro ⟨info, hinfo, hp⟩
    obtain ⟨m, hm, p', hlookup, hstale⟩ := (hmem info).mp hinfo
    obtain rfl := Option.some.inj ((hrecords.entry m p' info hlookup).1.symm.trans hp)
    obtain ⟨time, htime, -⟩ := stale_eq_false_iff.mp hstale
    exact ⟨m, hmodules ▸ hm, time,
      (fresh_iff hrecords hm now p' time).mpr ⟨info, hlookup, htime, hstale⟩⟩
  · rintro ⟨m, hm, time, hfresh⟩
    rw [← hmodules] at hm
    obtain ⟨info, hlookup, -, hstale⟩ := (fresh_iff hrecords hm now p time).mp hfresh
    exact ⟨info, (hmem info).mpr ⟨m, hm, p, hlookup, hstale⟩, (hrecords.entry m p info hlookup).1⟩

/-- A minute ago a peer was discovered in the local network. -/
theorem lists_fresh_once_sample :
    ∃ turns s peers, History [.mdns, .dht] turns s
      ∧ handle (.getDiscoveredPeers 60000000) s = some ([.reply (.peers peers)], s)
      ∧ ∃ info ∈ peers, info.peerId = some "p" := by
  have h : History [.mdns, .dht] [(.event (.peerDiscovered "p" ["/ip4/10.0.0.1"]) 0, [])] _ :=
    Server.History.init.step trivial rfl
  obtain ⟨peers, hreply, -, -, -, hlisted⟩ := lists_fresh_once h 60000000
  exact ⟨_, _, peers, h, hreply, (hlisted "p").mpr ⟨.mdns, by decide, 0, rfl, by decide⟩⟩

/-! ### Capabilities

Nobody in the local network has a capability that is known, so of the two providers only the hash
table has something to say here. It answers from its cache, and asks the network only when nobody in
the cache is fresh; that answer comes later, as an event. So what a call lists is what an earlier
lookup has found. -/

/-- The hash table is asked when nobody in the cache is fresh, and the answer is from the cache. -/
theorem findCapability_dht (capability : Capability) (now : ℤ) (accepted : Bool) (d : Dht.State) :
    (Dht.findCapability capability now accepted d).1.getD [] = d.freshCached capability now
      ∧ ((Dht.findCapability capability now accepted d).2.1 = none
        ∨ d.freshCached capability now = []
          ∧ (Dht.findCapability capability now accepted d).2.1
            = some (capabilityKey capability)) := by
  simp only [Dht.findCapability]
  by_cases hfresh : d.freshCached capability now = []
  · cases accepted <;> simp [hfresh]
  · simp [hfresh]

theorem Records.findCapability_mdns {k : Knowledge} (h : Records k s) (capability : Capability)
    (now : ℤ) : Mdns.findCapability capability now s.mdns = [] := by
  have hnone : (s.cached .mdns).filter (·.hasCapability capability) = [] := by
    rw [List.filter_eq_nil_iff]
    intro info hinfo
    obtain ⟨p, hlookup⟩ := mem_cached.mp hinfo
    rw [PeerInfo.hasCapability, h.plain p info hlookup]
    simp
  rw [Mdns.findCapability]
  exact congrArg (List.filter _) hnone

theorem Records.findCapability_fst {k : Knowledge} (h : Records k s) (capability : Capability)
    (now : ℤ) (accepted : Bool) :
    (s.findCapability capability now accepted).1 = s.modules.flatMap fun
      | .mdns => []
      | .dht => (s.dht.freshCached capability now).map .ofDht := by
  rw [← h.findCapability_mdns capability now,
    ← (findCapability_dht capability now accepted s.dht).1]
  rfl

theorem Records.findCapability_lookup {k : Knowledge} (h : Records k s) (capability : Capability)
    (now : ℤ) (accepted : Bool) :
    (s.findCapability capability now accepted).2.1 = none
      ∨ (s.findCapability capability now accepted).1 = []
        ∧ (s.findCapability capability now accepted).2.1 = some (capabilityKey capability) := by
  rcases (findCapability_dht capability now accepted s.dht).2 with hnone | ⟨hfresh, hkey⟩
  · left
    simp [State.findCapability, hnone]
  · by_cases hm : .dht ∈ s.modules
    · refine Or.inr ⟨?_, by simp [State.findCapability, hm, hkey]⟩
      rw [h.findCapability_fst, hfresh, List.flatMap_eq_nil_iff]
      intro m _
      cases m <;> rfl
    · left
      simp [State.findCapability, hm]

theorem Records.mem_findCapability {k : Knowledge} (h : Records k s) {capability : Capability}
    {now : ℤ} {accepted : Bool} {info : PeerInfo} :
    info ∈ (s.findCapability capability now accepted).1 ↔ .dht ∈ s.modules
      ∧ ∃ p ∈ k.filed capability, s.lookup .dht p = some info ∧ info.stale 600 now = false := by
  have hfresh : ∀ entry, entry ∈ s.dht.freshCached capability now ↔
      ∃ p ∈ s.dht.cachedCapabilities[capability]?.getD [], s.dht.cachedPeers[p]? = some entry
        ∧ (PeerInfo.ofDht entry).stale 600 now = false := by
    intro entry
    rw [Dht.State.freshCached, List.mem_filter, List.mem_filterMap]
    constructor
    · rintro ⟨⟨p, hp, hentry⟩, hstale⟩
      exact ⟨p, hp, hentry, (Bool.not_eq_true' _).mp hstale⟩
    · rintro ⟨p, hp, hentry, hstale⟩
      exact ⟨⟨p, hp, hentry⟩, (Bool.not_eq_true' _).mpr hstale⟩
  rw [h.findCapability_fst, List.mem_flatMap]
  constructor
  · rintro ⟨m, hm, hinfo⟩
    cases m with
    | mdns => cases hinfo
    | dht =>
      obtain ⟨entry, hentry, rfl⟩ := List.mem_map.mp hinfo
      obtain ⟨p, hp, hlookup, hstale⟩ := (hfresh entry).mp hentry
      rw [h.filed hm] at hp
      exact ⟨hm, p, hp, congrArg (Option.map PeerInfo.ofDht) hlookup, hstale⟩
  · rintro ⟨hm, p, hp, hlookup, hstale⟩
    obtain ⟨entry, hentry, rfl⟩ := Option.map_eq_some_iff.mp hlookup
    rw [← h.filed hm] at hp
    exact ⟨.dht, hm, List.mem_map_of_mem ((hfresh entry).mpr ⟨p, hp, hentry, hstale⟩)⟩

/-- An answer lists whom the hash table has found for a capability and was heard of lately. -/
structure Lists (k : Knowledge) (modules : List Module) (now : ℤ) (capability : Capability)
    (peers : List PeerInfo) : Prop where
  nodup : (peers.map PeerInfo.peerId).Nodup
  newest : NewestFirst peers
  entry : ∀ info ∈ peers, ∃ p time, info.peerId = some p ∧ info.lastSeen = some time
    ∧ info.metadata = [] ∧ .dht ∈ modules ∧ p ∈ k.filed capability ∧ Fresh k now .dht p time
  listed : ∀ p ∈ k.filed capability, .dht ∈ modules → ∀ time, Fresh k now .dht p time →
    ∃ info ∈ peers, info.peerId = some p ∧ info.lastSeen = some time

theorem exists_lists (h : History modules turns s) (capability : Capability) (now : ℤ)
    (accepted : Bool) :
    ∃ lookups peers s', handle (.findCapability capability now accepted) s
        = some (lookups ++ [.reply (.peers peers)], s')
      ∧ Lists (known turns) modules now capability peers
      ∧ (lookups = []
        ∨ peers = [] ∧ lookups = [.findProviders (capabilityKey capability)]) := by
  have hrecords := records_of_history h
  obtain rfl := modules_of_history h
  obtain ⟨peers, hpeers, hnodup, hnewest, hfrom, hlisted⟩ :=
    exists_answer hrecords fun info
        (hinfo : info ∈ (s.findCapability capability now accepted).1) ↦ by
      obtain ⟨-, p, -, hlookup, -⟩ := hrecords.mem_findCapability.mp hinfo
      exact ⟨.dht, p, hlookup⟩
  have hentry : ∀ info ∈ peers, ∃ p time, info.peerId = some p ∧ info.lastSeen = some time
      ∧ info.metadata = [] ∧ .dht ∈ s.modules ∧ p ∈ (known turns).filed capability
      ∧ Fresh (known turns) now .dht p time := by
    intro info hinfo
    obtain ⟨hm, p, hfiled, hlookup, hstale⟩ := hrecords.mem_findCapability.mp (hfrom info hinfo)
    obtain ⟨time, htime, -⟩ := stale_eq_false_iff.mp hstale
    obtain ⟨entry, -, hentry⟩ := Option.map_eq_some_iff.mp hlookup
    exact ⟨p, time, (hrecords.entry .dht p info hlookup).1, htime, hentry ▸ rfl, hm, hfiled,
      (fresh_iff hrecords hm now p time).mpr ⟨info, hlookup, htime, hstale⟩⟩
  refine ⟨(s.findCapability capability now accepted).2.1.toList.map .findProviders, peers,
    (s.findCapability capability now accepted).2.2, ?_, ⟨hnodup, hnewest, hentry, ?_⟩, ?_⟩
  · rw [handle, hpeers]
    rfl
  · intro p hfiled hm time hfresh
    obtain ⟨info, hlookup, -, hstale⟩ := (fresh_iff hrecords hm now p time).mp hfresh
    obtain ⟨info', hinfo', hp⟩ := (hlisted p).mpr
      ⟨info, hrecords.mem_findCapability.mpr ⟨hm, p, hfiled, hlookup, hstale⟩,
        (hrecords.entry .dht p info hlookup).1⟩
    obtain ⟨p', time', hp', htime', -, -, -, hheard, -⟩ := hentry info' hinfo'
    obtain rfl := Option.some.inj (hp.symm.trans hp')
    exact ⟨info', hinfo', hp, htime'.trans (hheard.symm.trans hfresh.1)⟩
  · rcases hrecords.findCapability_lookup capability now accepted with hnone | ⟨hnil, hkey⟩
    · left
      rw [hnone]
      rfl
    · refine Or.inr ⟨List.eq_nil_iff_forall_not_mem.mpr fun info hinfo ↦ ?_, ?_⟩
      · have hmem := hfrom info hinfo
        rw [hnil] at hmem
        cases hmem
      · rw [hkey]
        rfl

/-- **Capabilities are answered from the hash table alone.** The peers that are listed for a
capability are those that the hash table was last said to have found for it and that it was heard of
lately, each of them once. It is asked again only when there are none. -/
theorem lists_filed_once (h : History modules turns s) (capability : Capability) (now : ℤ)
    (accepted : Bool) :
    ∃ lookups peers s', handle (.findCapability capability now accepted) s
        = some (lookups ++ [.reply (.peers peers)], s')
      ∧ (peers.map PeerInfo.peerId).Nodup ∧ NewestFirst peers
      ∧ (∀ p, (∃ info ∈ peers, info.peerId = some p) ↔ .dht ∈ modules
        ∧ p ∈ (known turns).filed capability ∧ ∃ time, Fresh (known turns) now .dht p time)
      ∧ (lookups = []
        ∨ peers = [] ∧ lookups = [.findProviders (capabilityKey capability)]) := by
  obtain ⟨lookups, peers, s', hreply, hlists, hlookups⟩ := exists_lists h capability now accepted
  refine ⟨lookups, peers, s', hreply, hlists.nodup, hlists.newest, fun p ↦ ⟨?_, ?_⟩, hlookups⟩
  · rintro ⟨info, hinfo, hp⟩
    obtain ⟨p', time, hp', -, -, hm, hfiled, hfresh⟩ := hlists.entry info hinfo
    obtain rfl := Option.some.inj (hp.symm.trans hp')
    exact ⟨hm, hfiled, time, hfresh⟩
  · rintro ⟨hm, hfiled, time, hfresh⟩
    obtain ⟨info, hinfo, hp, -⟩ := hlists.listed p hfiled hm time hfresh
    exact ⟨info, hinfo, hp⟩

/-- A peer with a camera was looked up and found, and is listed from then on. -/
theorem lists_filed_once_sample :
    ∃ turns s s' lookups peers, History [.dht] turns s
      ∧ handle (.findCapability "camera" 2 true) s = some (lookups ++ [.reply (.peers peers)], s')
      ∧ ∃ info ∈ peers, info.peerId = some "p" := by
  have hasked : History [.dht] [(.findCapability "camera" 0 true,
      [.findProviders (capabilityKey "camera"), .reply (.peers [])])] _ :=
    Server.History.init.step trivial rfl
  have hfound : History [.dht] [(.findCapability "camera" 0 true,
      [.findProviders (capabilityKey "camera"), .reply (.peers [])]),
      (.event (.query ⟨0, .foundProviders ["p"]⟩) 1, [])] _ :=
    hasked.step trivial rfl
  obtain ⟨lookups, peers, s', hreply, -, -, hlisted, -⟩ := lists_filed_once hfound "camera" 2 true
  refine ⟨_, _, s', lookups, peers, hfound, hreply, (hlisted "p").mpr ⟨by decide, ?_, 1, rfl, ?_⟩⟩
  · exact List.mem_cons_self
  · decide

end Answers

end Coordinator

end NervesP2P
