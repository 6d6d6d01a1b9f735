import NervesP2P.Lib.Term

/-!
# The options of a peer-to-peer node

A node is started with a flat keyword list. The Elixir side sorts the options into subgroups, where
some of them have another name, checks two of them, and writes all of them into a map with string
keys. The native side reads that map into a record. Each of its getters takes a default for a key
that is missing and for a term it cannot decode; only the three lists of strings make it fail.

An option is thus named up to four times: in the keyword list, in its subgroup, in the map and by
the getter. Nothing checks that the names agree.
-/

namespace NervesP2P

namespace Node

/-! ## Keyword lists

The functions of `Keyword` that the configuration uses. Only validation looks at keys that come
twice. -/

/-- Atoms stand by their names. -/
abbrev Keywords := List (String × Term)

namespace Keywords

/-- `Keyword.validate!` raises for an unknown key and for a key that is there twice. -/
def valid (opts : Keywords) (known : List String) : Bool :=
  (opts.map Prod.fst).Nodup ∧ ∀ key ∈ opts.map Prod.fst, key ∈ known

def get (opts : Keywords) (key : String) (default : Term) : Term := (opts.lookup key).getD default

def take (opts : Keywords) (keys : List String) : Keywords := opts.filter (·.1 ∈ keys)

/-- One step of `rename_keys`, with the flat key and the field. -/
def renameKey (opts : Keywords) (acc : Keywords) (entry : String × String) : Keywords :=
  match opts.lookup entry.1 with
  | some value => (entry.2, value) :: acc
  | none => acc

def renameKeys (opts : Keywords) (renames : List (String × String)) : Keywords :=
  renames.foldl opts.renameKey []

def putIf (acc : Keywords) (value : Term) (key : String) : Keywords :=
  if value.isNil then acc else (key, value) :: acc

end Keywords

/-! ## The Elixir side

The overrides that are given to a `struct` have each key at most once. -/

structure Network where
  listenAddrs : Term := .list [.string "/ip4/0.0.0.0/tcp/0"]
  idleConnectionTimeoutSecs : Term := .integer 60
  maxEstablishedPerPeer : Term := .integer 2
  maxEstablishedIncoming : Term := .integer 256
  maxEstablishedOutgoing : Term := .integer 256
  maxPendingIncoming : Term := .integer 256
  maxPendingOutgoing : Term := .integer 256
  memoryMaxPercentage : Term := .nil

def Network.struct (overrides : Keywords) : Network :=
  let default : Network := {}
  { listenAddrs := overrides.get "listen_addrs" default.listenAddrs
    idleConnectionTimeoutSecs :=
      overrides.get "idle_connection_timeout_secs" default.idleConnectionTimeoutSecs
    maxEstablishedPerPeer := overrides.get "max_established_per_peer" default.maxEstablishedPerPeer
    maxEstablishedIncoming :=
      overrides.get "max_established_incoming" default.maxEstablishedIncoming
    maxEstablishedOutgoing :=
      overrides.get "max_established_outgoing" default.maxEstablishedOutgoing
    maxPendingIncoming := overrides.get "max_pending_incoming" default.maxPendingIncoming
    maxPendingOutgoing := overrides.get "max_pending_outgoing" default.maxPendingOutgoing
    memoryMaxPercentage := overrides.get "memory_max_percentage" default.memoryMaxPercentage }

structure Discovery where
  enableMdns : Term := .bool true
  mdnsAutoDial : Term := .bool true
  enableKademlia : Term := .bool true
  bootstrapPeers : Term := .list []
  dhtStatePath : Term := .nil

def Discovery.struct (overrides : Keywords) : Discovery :=
  let default : Discovery := {}
  { enableMdns := overrides.get "enable_mdns" default.enableMdns
    mdnsAutoDial := overrides.get "mdns_auto_dial" default.mdnsAutoDial
    enableKademlia := overrides.get "enable_kademlia" default.enableKademlia
    bootstrapPeers := overrides.get "bootstrap_peers" default.bootstrapPeers
    dhtStatePath := overrides.get "dht_state_path" default.dhtStatePath }

structure Gossipsub where
  topics : Term := .list []
  meshN : Term := .integer 6
  meshNLow : Term := .integer 4
  meshNHigh : Term := .integer 12
  gossipLazy : Term := .integer 6
  maxTransmitSize : Term := .integer 65536
  heartbeatIntervalMs : Term := .integer 1000
  peerScoreDisabled : Term := .bool false
  peerScore : Term := .nil
  thresholds : Term := .nil

def Gossipsub.struct (overrides : Keywords) : Gossipsub :=
  let default : Gossipsub := {}
  { topics := overrides.get "topics" default.topics
    meshN := overrides.get "mesh_n" default.meshN
    meshNLow := overrides.get "mesh_n_low" default.meshNLow
    meshNHigh := overrides.get "mesh_n_high" default.meshNHigh
    gossipLazy := overrides.get "gossip_lazy" default.gossipLazy
    maxTransmitSize := overrides.get "max_transmit_size" default.maxTransmitSize
    heartbeatIntervalMs := overrides.get "heartbeat_interval_ms" default.heartbeatIntervalMs
    peerScoreDisabled := overrides.get "peer_score_disabled" default.peerScoreDisabled
    peerScore := overrides.get "peer_score" default.peerScore
    thresholds := overrides.get "thresholds" default.thresholds }

structure RequestResponse where
  protocolName : Term := .nil
  requestTimeoutSecs : Term := .integer 30

def RequestResponse.struct (overrides : Keywords) : RequestResponse :=
  let default : RequestResponse := {}
  { protocolName := overrides.get "protocol_name" default.protocolName
    requestTimeoutSecs := overrides.get "request_timeout_secs" default.requestTimeoutSecs }

structure Relay where
  enableRelayClient : Term := .bool false
  enableRelayServer : Term := .bool false
  relayPeers : Term := .list []
  relayMaxReservations : Term := .integer 128
  relayMaxCircuits : Term := .integer 16
  relayMaxCircuitDurationSecs : Term := .integer 120
  relayMaxCircuitBytes : Term := .integer 131072

def Relay.struct (overrides : Keywords) : Relay :=
  let default : Relay := {}
  { enableRelayClient := overrides.get "enable_relay_client" default.enableRelayClient
    enableRelayServer := overrides.get "enable_relay_server" default.enableRelayServer
    relayPeers := overrides.get "relay_peers" default.relayPeers
    relayMaxReservations := overrides.get "relay_max_reservations" default.relayMaxReservations
    relayMaxCircuits := overrides.get "relay_max_circuits" default.relayMaxCircuits
    relayMaxCircuitDurationSecs :=
      overrides.get "relay_max_circuit_duration_secs" default.relayMaxCircuitDurationSecs
    relayMaxCircuitBytes :=
      overrides.get "relay_max_circuit_bytes" default.relayMaxCircuitBytes }

structure Rendezvous where
  enable : Term := .bool false
  nameSpace : Term := .nil
  ttl : Term := .integer 7200
  peers : Term := .list []

def Rendezvous.struct (overrides : Keywords) : Rendezvous :=
  let default : Rendezvous := {}
  { enable := overrides.get "enable" default.enable
    nameSpace := overrides.get "namespace" default.nameSpace
    ttl := overrides.get "ttl" default.ttl
    peers := overrides.get "peers" default.peers }

structure Config where
  keypairBytes : Term
  network : Network
  discovery : Discovery
  gossipsub : Gossipsub
  requestResponse : RequestResponse
  relay : Relay
  rendezvous : Rendezvous
  enableAutonat : Term
  enableAutonatServer : Term
  enableUpnp : Term
  enableWebsocket : Term
  enableRendezvousServer : Term

def networkKeys : List String :=
  ["listen_addrs", "idle_connection_timeout_secs", "max_established_per_peer",
    "max_established_incoming", "max_established_outgoing", "max_pending_incoming",
    "max_pending_outgoing", "memory_max_percentage"]

def discoveryKeys : List String :=
  ["enable_mdns", "mdns_auto_dial", "enable_kademlia", "bootstrap_peers", "dht_state_path"]

def gossipsubRenames : List (String × String) :=
  [("gossipsub_topics", "topics"), ("gossipsub_mesh_n", "mesh_n"),
    ("gossipsub_mesh_n_low", "mesh_n_low"), ("gossipsub_mesh_n_high", "mesh_n_high"),
    ("gossipsub_gossip_lazy", "gossip_lazy"), ("gossipsub_max_transmit_size", "max_transmit_size"),
    ("gossipsub_heartbeat_interval_ms", "heartbeat_interval_ms"),
    ("gossipsub_peer_score_disabled", "peer_score_disabled"),
    ("gossipsub_peer_score", "peer_score"), ("gossipsub_thresholds", "thresholds")]

def rpcRenames : List (String × String) :=
  [("rpc_protocol_name", "protocol_name"), ("rpc_request_timeout_secs", "request_timeout_secs")]

def relayKeys : List String :=
  ["enable_relay_client", "enable_relay_server", "relay_peers", "relay_max_reservations",
    "relay_max_circuits", "relay_max_circuit_duration_secs", "relay_max_circuit_bytes"]

def rendezvousKeys : List String :=
  ["enable_rendezvous", "rendezvous_namespace", "rendezvous_ttl", "rendezvous_peers"]

def protocolKeys : List String :=
  ["enable_autonat", "enable_autonat_server", "enable_upnp", "enable_websocket",
    "enable_rendezvous_server"]

def knownKeys : List String :=
  ["keypair_bytes"] ++ networkKeys ++ discoveryKeys ++ gossipsubRenames.map Prod.fst
    ++ rpcRenames.map Prod.fst ++ relayKeys ++ rendezvousKeys ++ protocolKeys

/-- The value of an option that was given, and otherwise `nil`. -/
def Keywords.access (opts : Keywords) (key : String) : Term := opts.get key .nil

def Keywords.rendezvousOverrides (opts : Keywords) : Keywords :=
  let overrides := putIf [] (opts.access "enable_rendezvous") "enable"
  let overrides := putIf overrides (opts.access "rendezvous_namespace") "namespace"
  let overrides := putIf overrides (opts.access "rendezvous_ttl") "ttl"
  putIf overrides (opts.access "rendezvous_peers") "peers"

/-- What `Config.new` builds of a keyword list that is valid. -/
def Config.build (opts : Keywords) : Config where
  keypairBytes := opts.access "keypair_bytes"
  network := .struct (opts.take networkKeys)
  discovery := .struct (opts.take discoveryKeys)
  gossipsub := .struct (opts.renameKeys gossipsubRenames)
  requestResponse := .struct (opts.renameKeys rpcRenames)
  relay := .struct (opts.take relayKeys)
  rendezvous := .struct opts.rendezvousOverrides
  enableAutonat := (opts.access "enable_autonat").or (.bool false)
  enableAutonatServer := (opts.access "enable_autonat_server").or (.bool false)
  enableUpnp := (opts.access "enable_upnp").or (.bool false)
  enableWebsocket := (opts.access "enable_websocket").or (.bool false)
  enableRendezvousServer := (opts.access "enable_rendezvous_server").or (.bool false)

/-- There is no result when the function raises. -/
def Config.new (opts : Keywords) : Option Config :=
  if opts.valid knownKeys then some (.build opts) else none

inductive ConfigError where
  | noListenAddrs
  | invalidTimeout
  deriving DecidableEq

def Config.validate (config : Config) : Except ConfigError Config :=
  match config.network.listenAddrs with
  | .list [] => .error .noListenAddrs
  | _ =>
    if config.network.idleConnectionTimeoutSecs.nonpos then .error .invalidTimeout else .ok config

/-- A map with strings for keys, as it is handed to the native side. -/
abbrev NifMap := List (String × Term)

def Config.toNifMap (c : Config) : NifMap :=
  [("keypair_bytes", c.keypairBytes),
    -- Network
    ("listen_addrs", c.network.listenAddrs),
    ("idle_connection_timeout_secs", c.network.idleConnectionTimeoutSecs),
    ("max_established_per_peer", c.network.maxEstablishedPerPeer),
    ("max_established_incoming", c.network.maxEstablishedIncoming),
    ("max_established_outgoing", c.network.maxEstablishedOutgoing),
    ("max_pending_incoming", c.network.maxPendingIncoming),
    ("max_pending_outgoing", c.network.maxPendingOutgoing),
    ("memory_max_percentage", c.network.memoryMaxPercentage),
    -- Discovery
    ("enable_mdns", c.discovery.enableMdns),
    ("mdns_auto_dial", c.discovery.mdnsAutoDial),
    ("enable_kademlia", c.discovery.enableKademlia),
    ("bootstrap_peers", c.discovery.bootstrapPeers),
    ("dht_state_path", c.discovery.dhtStatePath),
    -- Gossipsub
    ("gossipsub_topics", c.gossipsub.topics),
    ("gossipsub_mesh_n", c.gossipsub.meshN),
    ("gossipsub_mesh_n_low", c.gossipsub.meshNLow),
    ("gossipsub_mesh_n_high", c.gossipsub.meshNHigh),
    ("gossipsub_gossip_lazy", c.gossipsub.gossipLazy),
    ("gossipsub_max_transmit_size", c.gossipsub.maxTransmitSize),
    ("gossipsub_heartbeat_interval_ms", c.gossipsub.heartbeatIntervalMs),
    ("gossipsub_peer_score_disabled", c.gossipsub.peerScoreDisabled),
    ("gossipsub_peer_score", c.gossipsub.peerScore),
    ("gossipsub_thresholds", c.gossipsub.thresholds),
    -- Request-Response RPC
    ("rpc_protocol_name", c.requestResponse.protocolName),
    ("rpc_request_timeout_secs", c.requestResponse.requestTimeoutSecs),
    -- Relay
    ("enable_relay_client", c.relay.enableRelayClient),
    ("enable_relay_server", c.relay.enableRelayServer),
    ("relay_peers", c.relay.relayPeers),
    ("relay_max_reservations", c.relay.relayMaxReservations),
    ("relay_max_circuits", c.relay.relayMaxCircuits),
    ("relay_max_circuit_duration_secs", c.relay.relayMaxCircuitDurationSecs),
    ("relay_max_circuit_bytes", c.relay.relayMaxCircuitBytes),
    -- Rendezvous
    ("enable_rendezvous", c.rendezvous.enable),
    ("rendezvous_namespace", c.rendezvous.nameSpace),
    ("rendezvous_ttl", c.rendezvous.ttl),
    ("rendezvous_peers", c.rendezvous.peers),
    -- Protocol enables
    ("enable_autonat", c.enableAutonat),
    ("enable_autonat_server", c.enableAutonatServer),
    ("enable_upnp", c.enableUpnp),
    ("enable_websocket", c.enableWebsocket),
    ("enable_rendezvous_server", c.enableRendezvousServer)]

/-! ## The native side

One getter for each type, and each of them takes a default. A getter finds nothing where the key is
missing, and also where the term under it is of another type, and cannot tell the two apart. Scores
and thresholds are maps in the map, with getters of their own. -/

structure PeerScoreConfig where
  ipColocationFactorWeight : ℚ
  ipColocationFactorThreshold : ℚ
  behaviourPenaltyWeight : ℚ
  behaviourPenaltyDecay : ℚ
  deriving DecidableEq

structure ThresholdsConfig where
  gossipThreshold : ℚ
  publishThreshold : ℚ
  graylistThreshold : ℚ
  acceptPxThreshold : ℚ
  opportunisticGraftThreshold : ℚ
  deriving DecidableEq

structure NodeConfig where
  keypairBytes : Option (List UInt8)
  listenAddrs : List String
  bootstrapPeers : List String
  gossipsubTopics : List String
  gossipsubMeshN : ℕ
  gossipsubMeshNLow : ℕ
  gossipsubMeshNHigh : ℕ
  gossipsubGossipLazy : ℕ
  gossipsubMaxTransmitSize : ℕ
  gossipsubHeartbeatIntervalMs : ℕ
  peerScoreDisabled : Bool
  peerScore : Option PeerScoreConfig
  thresholds : Option ThresholdsConfig
  enableMdns : Bool
  mdnsAutoDial : Bool
  enableKademlia : Bool
  enableRelay : Bool
  enableRelayServer : Bool
  enableAutonat : Bool
  enableAutonatServer : Bool
  enableUpnp : Bool
  enableRendezvousClient : Bool
  enableRendezvousServer : Bool
  enableWebsocket : Bool
  rpcProtocolName : String
  rpcRequestTimeoutSecs : ℕ
  idleConnectionTimeoutSecs : ℕ
  maxEstablishedIncoming : ℕ
  maxEstablishedOutgoing : ℕ
  maxPendingIncoming : ℕ
  maxPendingOutgoing : ℕ
  maxEstablishedPerPeer : ℕ
  memoryMaxPercentage : ℚ
  relayMaxReservations : ℕ
  relayMaxCircuits : ℕ
  relayMaxCircuitDurationSecs : ℕ
  relayMaxCircuitBytes : ℕ

namespace NifMap

variable (map : NifMap) (key : String)

def getStringList : Except String (List String) :=
  match map.lookup key with
  | some term =>
    match term.decodeStrings with
    | some value => .ok value
    | none => .error ("invalid " ++ key)
  | none => .ok []

def getString (default : String) : String := Term.readOr Term.decodeString map key default

def getBinary : Option (List UInt8) :=
  match map.lookup key with
  | some (.atom _) => none
  | some term => term.decodeBinary
  | none => none

def getBool (default : Bool) : Bool := Term.readOr Term.decodeBool map key default

def getU64 (default : ℕ) : ℕ := Term.readOr (Term.decodeUnsigned 64) map key default

def getU32 (default : ℕ) : ℕ := Term.readOr (Term.decodeUnsigned 32) map key default

/-- A `u64` that is cast to a machine word of `width` bits. -/
def getUsize (width : ℕ) (default : ℕ) : ℕ :=
  Term.readOr (fun term ↦ (term.decodeUnsigned 64).map (· % 2 ^ width)) map key default

def getF64 (default : ℚ) : ℚ := Term.readOr Term.decodeFloat map key default

/-- The map under a key, unless there is none, it is an atom or it has a key that is no string. -/
def getInner : Option NifMap :=
  match map.lookup key with
  | some (.atom _) => none
  | some term => term.decodeMap
  | none => none

end NifMap

def PeerScoreConfig.ofMap (inner : NifMap) : PeerScoreConfig where
  ipColocationFactorWeight := inner.getF64 "ip_colocation_factor_weight" (-53.0)
  ipColocationFactorThreshold := inner.getF64 "ip_colocation_factor_threshold" 3.0
  behaviourPenaltyWeight := inner.getF64 "behaviour_penalty_weight" (-15.92)
  behaviourPenaltyDecay := inner.getF64 "behaviour_penalty_decay" 0.986

def NifMap.getPeerScore (map : NifMap) : Option PeerScoreConfig :=
  (map.getInner "gossipsub_peer_score").map PeerScoreConfig.ofMap

def ThresholdsConfig.ofMap (inner : NifMap) : ThresholdsConfig where
  gossipThreshold := inner.getF64 "gossip_threshold" (-4000.0)
  publishThreshold := inner.getF64 "publish_threshold" (-8000.0)
  graylistThreshold := inner.getF64 "graylist_threshold" (-16000.0)
  acceptPxThreshold := inner.getF64 "accept_px_threshold" 100.0
  opportunisticGraftThreshold := inner.getF64 "opportunistic_graft_threshold" 5.0

def NifMap.getThresholds (map : NifMap) : Option ThresholdsConfig :=
  (map.getInner "gossipsub_thresholds").map ThresholdsConfig.ofMap

/-- The record, once the lists are decoded. The width is that of the machine's words. -/
def NodeConfig.ofMap (width : ℕ) (map : NifMap)
    (listenAddrs bootstrapPeers gossipsubTopics : List String) : NodeConfig where
  keypairBytes := map.getBinary "keypair_bytes"
  listenAddrs := listenAddrs
  bootstrapPeers := bootstrapPeers
  gossipsubTopics := gossipsubTopics
  gossipsubMeshN := map.getUsize "gossipsub_mesh_n" width 6
  gossipsubMeshNLow := map.getUsize "gossipsub_mesh_n_low" width 4
  gossipsubMeshNHigh := map.getUsize "gossipsub_mesh_n_high" width 12
  gossipsubGossipLazy := map.getUsize "gossipsub_gossip_lazy" width 6
  gossipsubMaxTransmitSize := map.getUsize "gossipsub_max_transmit_size" width 65536
  gossipsubHeartbeatIntervalMs := map.getU64 "gossipsub_heartbeat_interval_ms" 1000
  peerScoreDisabled := map.getBool "peer_score_disabled" false
  peerScore := map.getPeerScore
  thresholds := map.getThresholds
  enableMdns := map.getBool "enable_mdns" true
  mdnsAutoDial := map.getBool "mdns_auto_dial" true
  enableKademlia := map.getBool "enable_kademlia" true
  enableRelay := map.getBool "enable_relay" false
  enableRelayServer := map.getBool "enable_relay_server" false
  enableAutonat := map.getBool "enable_autonat" false
  enableAutonatServer := map.getBool "enable_autonat_server" false
  enableUpnp := map.getBool "enable_upnp" false
  enableRendezvousClient := map.getBool "enable_rendezvous_client" false
  enableRendezvousServer := map.getBool "enable_rendezvous_server" false
  enableWebsocket := map.getBool "enable_websocket" false
  rpcProtocolName := map.getString "rpc_protocol_name" "/elixir-rpc/1.0.0"
  rpcRequestTimeoutSecs := map.getU64 "rpc_request_timeout_secs" 30
  idleConnectionTimeoutSecs := map.getU64 "idle_connection_timeout_secs" 60
  maxEstablishedIncoming := map.getU32 "max_established_incoming" 256
  maxEstablishedOutgoing := map.getU32 "max_established_outgoing" 256
  maxPendingIncoming := map.getU32 "max_pending_incoming" 128
  maxPendingOutgoing := map.getU32 "max_pending_outgoing" 64
  maxEstablishedPerPeer := map.getU32 "max_established_per_peer" 2
  memoryMaxPercentage := map.getF64 "memory_max_percentage" 0.9
  relayMaxReservations := map.getU32 "relay_max_reservations" 128
  relayMaxCircuits := map.getU32 "relay_max_circuits" 16
  relayMaxCircuitDurationSecs := map.getU64 "relay_max_circuit_duration_secs" 120
  relayMaxCircuitBytes := map.getU64 "relay_max_circuit_bytes" 131072

def NodeConfig.fromMap (width : ℕ) (map : NifMap) : Except String NodeConfig := do
  let listenAddrs ← map.getStringList "listen_addrs"
  let bootstrapPeers ← map.getStringList "bootstrap_peers"
  let gossipsubTopics ← map.getStringList "gossipsub_topics"
  return .ofMap width map listenAddrs bootstrapPeers gossipsubTopics

end Node

end NervesP2P
