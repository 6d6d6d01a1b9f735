import NervesP2P.Node.Routes

/-!
# Which options reach the native node

`counterparts` lists the options that have a field in the native record, with the reading of a term
as a value of that field. An option reaches its field when the value that was given, or else the
default of the Elixir side, stands there.

Three getters ask for another name than the one that is in the map, and so find nothing. Two more
expect a map with strings for keys, and the structs that are made for these options have atoms.
`Harmless` says that an application has not run into any of them, nor into a list that makes the
native side fail as a whole.
-/

namespace NervesP2P

namespace Node

variable {native : NodeConfig} {width : ℕ} {opts : Keywords}

/-! ## The fields of the native record

For most options with a field the native side reads the map under the name of the option, with a
decoder that knows all its values (`ReadFrom`), and then they reach their field by one general
lemma. The others are listed apart, each with what is wrong. -/

/-- An option with a field. `nil` is no value. -/
structure Counterpart where
  {Value : Type}
  key : String
  field : NodeConfig → Value
  /-- The values of the field's type, as terms. -/
  decode : Term → Option Value
  decode_nil : decode .nil = none

/-- The field has the value of the option, given or by default. -/
def Counterpart.Reaches (c : Counterpart) (opts : Keywords) (native : NodeConfig) : Prop :=
  ∀ value, c.decode (opts.get c.key (elixirDefault c.key)) = some value → c.field native = value

/-- The field is read under the name of the option, by a decoder that knows all values. -/
def Counterpart.ReadFrom (c : Counterpart) (map : NifMap) (native : NodeConfig) : Prop :=
  ∃ decode fallback, c.field native = Term.readOr decode map c.key fallback
    ∧ ∀ term value, c.decode term = some value → decode term = some value

theorem Counterpart.ReadFrom.reaches {c : Counterpart}
    (h : c.ReadFrom (Config.build opts).toNifMap native) (hkey : c.key ∈ nifKeys) :
    c.Reaches opts native := by
  intro value hvalue
  obtain ⟨decode, fallback, hfield, hdecode⟩ := h
  have hkept : opts.Kept c.key := by
    intro _ hgiven
    rw [Keywords.get, hgiven, Option.getD_some, c.decode_nil] at hvalue
    cases hvalue
  rw [hfield]
  exact Term.readOr_of_decode (lookup_toNifMap opts hkey hkept) (hdecode _ _ hvalue)

section Inner

variable {α : Type}

/-- A struct of a module. The fields are found under atoms. -/
def structOf (moduleName : String) (read : (String → Option Term) → Option α) : Term → Option α
  | .map entries =>
    match entries.lookup (.atom "__struct__") with
    | some (.atom name) =>
      if name = moduleName then read fun field ↦ entries.lookup (.atom field) else none
    | _ => none
  | _ => none

/-- A map with strings for keys. -/
def mapOf (read : (String → Option Term) → Option α) (term : Term) : Option α :=
  term.decodeMap.bind fun inner ↦ read fun field ↦ inner.lookup field

end Inner

namespace Counterpart

def strings (key : String) (field : NodeConfig → List String) : Counterpart :=
  ⟨key, field, Term.decodeStrings, rfl⟩

def unsigned (bits : ℕ) (key : String) (field : NodeConfig → ℕ) : Counterpart :=
  ⟨key, field, Term.decodeUnsigned bits, rfl⟩

def switch (key : String) (field : NodeConfig → Bool) : Counterpart :=
  ⟨key, field, Term.decodeBool, by decide⟩

/-- A struct of a module, or a map with strings for keys. -/
def inner {α : Type} (key : String) (field : NodeConfig → Option α) (moduleName : String)
    (read : (String → Option Term) → Option α) : Counterpart :=
  ⟨key, field, fun term ↦ ((structOf moduleName read term).or (mapOf read term)).map some, rfl⟩

end Counterpart

/-- Those that the native side reads under their names, with all their values. -/
def wellRead (width : ℕ) : List Counterpart :=
  [⟨"keypair_bytes", NodeConfig.keypairBytes, fun term ↦ term.decodeBinary.map some, rfl⟩,
    .strings "listen_addrs" NodeConfig.listenAddrs,
    .strings "bootstrap_peers" NodeConfig.bootstrapPeers,
    .strings "gossipsub_topics" NodeConfig.gossipsubTopics,
    .unsigned width "gossipsub_mesh_n" NodeConfig.gossipsubMeshN,
    .unsigned width "gossipsub_mesh_n_low" NodeConfig.gossipsubMeshNLow,
    .unsigned width "gossipsub_mesh_n_high" NodeConfig.gossipsubMeshNHigh,
    .unsigned width "gossipsub_gossip_lazy" NodeConfig.gossipsubGossipLazy,
    .unsigned width "gossipsub_max_transmit_size" NodeConfig.gossipsubMaxTransmitSize,
    .unsigned 64 "gossipsub_heartbeat_interval_ms" NodeConfig.gossipsubHeartbeatIntervalMs,
    .switch "enable_mdns" NodeConfig.enableMdns,
    .switch "mdns_auto_dial" NodeConfig.mdnsAutoDial,
    .switch "enable_kademlia" NodeConfig.enableKademlia,
    .switch "enable_relay_server" NodeConfig.enableRelayServer,
    .switch "enable_autonat" NodeConfig.enableAutonat,
    .switch "enable_autonat_server" NodeConfig.enableAutonatServer,
    .switch "enable_upnp" NodeConfig.enableUpnp,
    .switch "enable_rendezvous_server" NodeConfig.enableRendezvousServer,
    .switch "enable_websocket" NodeConfig.enableWebsocket,
    ⟨"rpc_protocol_name", NodeConfig.rpcProtocolName, Term.decodeString, rfl⟩,
    .unsigned 64 "rpc_request_timeout_secs" NodeConfig.rpcRequestTimeoutSecs,
    .unsigned 64 "idle_connection_timeout_secs" NodeConfig.idleConnectionTimeoutSecs,
    .unsigned 32 "max_established_incoming" NodeConfig.maxEstablishedIncoming,
    .unsigned 32 "max_established_outgoing" NodeConfig.maxEstablishedOutgoing,
    .unsigned 32 "max_pending_incoming" NodeConfig.maxPendingIncoming,
    .unsigned 32 "max_pending_outgoing" NodeConfig.maxPendingOutgoing,
    .unsigned 32 "max_established_per_peer" NodeConfig.maxEstablishedPerPeer,
    ⟨"memory_max_percentage", NodeConfig.memoryMaxPercentage, Term.decodeFloat, rfl⟩,
    .unsigned 32 "relay_max_reservations" NodeConfig.relayMaxReservations,
    .unsigned 32 "relay_max_circuits" NodeConfig.relayMaxCircuits,
    .unsigned 64 "relay_max_circuit_duration_secs" NodeConfig.relayMaxCircuitDurationSecs,
    .unsigned 64 "relay_max_circuit_bytes" NodeConfig.relayMaxCircuitBytes]

def PeerScoreConfig.read (find : String → Option Term) : Option PeerScoreConfig := do
  let float (field : String) : Option ℚ := (find field).bind Term.decodeFloat
  return {
    ipColocationFactorWeight := ← float "ip_colocation_factor_weight"
    ipColocationFactorThreshold := ← float "ip_colocation_factor_threshold"
    behaviourPenaltyWeight := ← float "behaviour_penalty_weight"
    behaviourPenaltyDecay := ← float "behaviour_penalty_decay" }

def ThresholdsConfig.read (find : String → Option Term) : Option ThresholdsConfig := do
  let float (field : String) : Option ℚ := (find field).bind Term.decodeFloat
  return {
    gossipThreshold := ← float "gossip_threshold"
    publishThreshold := ← float "publish_threshold"
    graylistThreshold := ← float "graylist_threshold"
    acceptPxThreshold := ← float "accept_px_threshold"
    opportunisticGraftThreshold := ← float "opportunistic_graft_threshold" }

def peerScoreModule : String := "Elixir.ElixirRpc.Gossipsub.PeerScore"

def thresholdsModule : String := "Elixir.ElixirRpc.Gossipsub.PeerScore.Thresholds"

/-- Those that the native side reads under another name, or not with all their values. -/
def misread : List Counterpart :=
  [.switch "gossipsub_peer_score_disabled" NodeConfig.peerScoreDisabled,
    .switch "enable_relay_client" NodeConfig.enableRelay,
    .switch "enable_rendezvous" NodeConfig.enableRendezvousClient,
    .inner "gossipsub_peer_score" NodeConfig.peerScore peerScoreModule PeerScoreConfig.read,
    .inner "gossipsub_thresholds" NodeConfig.thresholds thresholdsModule ThresholdsConfig.read]

def counterparts (width : ℕ) : List Counterpart := wellRead width ++ misread

theorem mem_nifKeys {c : Counterpart} (hc : c ∈ counterparts width) :
    c.key ∈ nifKeys := by
  have hkeys : ∀ key ∈ (counterparts width).map Counterpart.key, key ∈ nifKeys := by
    change ∀ key ∈ (counterparts 0).map Counterpart.key, key ∈ nifKeys
    decide +kernel
  exact hkeys _ (List.mem_map_of_mem hc)

/-! ## What the getters find

A getter on the map is a lookup, a decoder and a default, so what it finds follows from what the map
has under the name. -/

namespace NifMap

variable {map : NifMap} {key : String}

theorem getStringList_eq_ok_iff {term : Term} {value : List String}
    (h : map.lookup key = some term) :
    map.getStringList key = .ok value ↔ term.decodeStrings = some value := by
  simp only [getStringList, h]
  cases hvalue : term.decodeStrings <;> simp

theorem readOr_of_getStringList {value : List String} (h : map.getStringList key = .ok value) :
    value = Term.readOr Term.decodeStrings map key [] := by
  cases hterm : map.lookup key with
  | none =>
    rw [getStringList, hterm] at h
    rw [Term.readOr_of_missing hterm, Except.ok.inj h]
  | some term =>
    rw [getStringList_eq_ok_iff hterm] at h
    rw [Term.readOr_of_decode hterm h]

theorem getBinary_eq_readOr :
    map.getBinary key = Term.readOr (fun term ↦ term.decodeBinary.map some) map key none := by
  rw [getBinary, Term.readOr]
  cases map.lookup key with
  | none => rfl
  | some term => cases term <;> rfl

theorem getInner_eq_bind : map.getInner key = (map.lookup key).bind Term.decodeMap := by
  rw [getInner]
  cases map.lookup key with
  | none => rfl
  | some term => cases term <;> rfl

end NifMap

theorem decodeUnsigned_cast (hwidth : width ≤ 64) {term : Term} {value : ℕ}
    (h : term.decodeUnsigned width = some value) :
    (term.decodeUnsigned 64).map (· % 2 ^ width) = some value := by
  obtain ⟨rfl, hlt⟩ := Term.decodeUnsigned_eq_some h
  have hle : 2 ^ width ≤ 2 ^ 64 := Nat.pow_le_pow_right (by decide) hwidth
  rw [Term.decodeUnsigned_integer (hlt.trans_le hle), Option.map_some, Nat.mod_eq_of_lt hlt]

theorem exists_of_bind_ok {ε α β : Type} {x : Except ε α} {f : α → Except ε β} {b : β}
    (h : (x >>= f) = .ok b) : ∃ a, x = .ok a ∧ f a = .ok b := by
  cases x with
  | error e => cases h
  | ok a => exact ⟨a, rfl, h⟩

theorem fromMap_eq_ok_iff {map : NifMap} :
    NodeConfig.fromMap width map = .ok native ↔
      ∃ listenAddrs bootstrapPeers gossipsubTopics,
        map.getStringList "listen_addrs" = .ok listenAddrs
        ∧ map.getStringList "bootstrap_peers" = .ok bootstrapPeers
        ∧ map.getStringList "gossipsub_topics" = .ok gossipsubTopics
        ∧ native = .ofMap width map listenAddrs bootstrapPeers gossipsubTopics := by
  constructor
  · intro h
    rw [NodeConfig.fromMap] at h
    obtain ⟨listenAddrs, hlisten, h⟩ := exists_of_bind_ok h
    obtain ⟨bootstrapPeers, hbootstrap, h⟩ := exists_of_bind_ok h
    obtain ⟨gossipsubTopics, htopics, h⟩ := exists_of_bind_ok h
    exact ⟨_, _, _, hlisten, hbootstrap, htopics, (Except.ok.inj h).symm⟩
  · rintro ⟨listenAddrs, bootstrapPeers, gossipsubTopics, hlisten, hbootstrap, htopics, rfl⟩
    rw [NodeConfig.fromMap, hlisten, hbootstrap, htopics]
    rfl

theorem readFrom_of_wellRead (hwidth : width ≤ 64) {map : NifMap}
    (h : NodeConfig.fromMap width map = .ok native) :
    ∀ c ∈ wellRead width, c.ReadFrom map native := by
  obtain ⟨_, _, _, hlisten, hbootstrap, htopics, rfl⟩ := fromMap_eq_ok_iff.mp h
  simp only [wellRead, List.forall_mem_cons]
  refine ⟨⟨_, _, NifMap.getBinary_eq_readOr, fun _ _ hvalue ↦ hvalue⟩,
    ⟨_, _, NifMap.readOr_of_getStringList hlisten, fun _ _ hvalue ↦ hvalue⟩,
    ⟨_, _, NifMap.readOr_of_getStringList hbootstrap, fun _ _ hvalue ↦ hvalue⟩,
    ⟨_, _, NifMap.readOr_of_getStringList htopics, fun _ _ hvalue ↦ hvalue⟩,
    ⟨_, _, rfl, fun _ _ hvalue ↦ decodeUnsigned_cast hwidth hvalue⟩,
    ⟨_, _, rfl, fun _ _ hvalue ↦ decodeUnsigned_cast hwidth hvalue⟩,
    ⟨_, _, rfl, fun _ _ hvalue ↦ decodeUnsigned_cast hwidth hvalue⟩,
    ⟨_, _, rfl, fun _ _ hvalue ↦ decodeUnsigned_cast hwidth hvalue⟩,
    ⟨_, _, rfl, fun _ _ hvalue ↦ decodeUnsigned_cast hwidth hvalue⟩, ?_⟩
  and_intros
  -- the getters of all others use the decoder of the type itself
  all_goals first | exact ⟨_, _, rfl, fun _ _ hvalue ↦ hvalue⟩ | simp

/-! ### The lists

Only here the native side fails, and it fails as a whole: no option reaches anything if one of the
lists is not decoded. -/

/-- The options that make the native side fail when they are no lists of strings. -/
def listKeys : List String := ["listen_addrs", "bootstrap_peers", "gossipsub_topics"]

theorem mem_nifKeys_of_listKeys :
    ∀ key ∈ listKeys, key ∈ nifKeys ∧ key ∉ rendezvousKeys ++ protocolKeys := by
  decide +kernel

theorem elixirDefault_listKeys :
    ∀ key ∈ listKeys, ∃ value, (elixirDefault key).decodeStrings = some value := by
  simp only [listKeys, List.forall_mem_cons]
  refine ⟨⟨["/ip4/0.0.0.0/tcp/0"], ?_⟩, ⟨[], ?_⟩, ⟨[], ?_⟩, by simp⟩
  · rw [show elixirDefault "listen_addrs" = .list [.string "/ip4/0.0.0.0/tcp/0"] from rfl]
    simp [Term.decodeStrings]
  · rfl
  · rfl

theorem exists_getStringList_iff (opts : Keywords) {key : String} (h : key ∈ listKeys) :
    (∃ value, (Config.build opts).toNifMap.getStringList key = .ok value) ↔
      ∀ term, opts.lookup key = some term → ∃ value, term.decodeStrings = some value := by
  obtain ⟨hkey, hkept⟩ := mem_nifKeys_of_listKeys key h
  have hlookup := lookup_toNifMap opts hkey fun hmem ↦ absurd hmem hkept
  rw [exists_congr fun value ↦ NifMap.getStringList_eq_ok_iff hlookup, Keywords.get]
  cases opts.lookup key with
  | none => simpa using elixirDefault_listKeys key h
  | some term => simp

/-! ### The switches

The map has no entry under the names that three switches are read under, so they have their default,
which is off, whatever was given. They reach their field exactly if they are to be off. -/

theorem not_mem_nifKeys :
    ∀ name ∈ ["peer_score_disabled", "enable_relay", "enable_rendezvous_client"],
      name ∉ nifKeys := by
  decide +kernel

theorem getBool_of_not_mem (opts : Keywords) {name : String} (h : name ∉ nifKeys)
    (default : Bool) : (Config.build opts).toNifMap.getBool name default = default :=
  Term.readOr_of_missing (lookup_toNifMap_of_not_mem opts h)

/-- A switch that is read under another name stays off. -/
theorem switch_reaches_iff {key name : String} {field : NodeConfig → Bool}
    (hfield : field native = (Config.build opts).toNifMap.getBool name false)
    (hname : name ∉ nifKeys) (hdefault : elixirDefault key = .bool false) :
    (Counterpart.switch key field).Reaches opts native ↔ opts.lookup key ≠ some (.bool true) := by
  rw [getBool_of_not_mem opts hname] at hfield
  change (∀ value : Bool, (opts.get key (elixirDefault key)).decodeBool = some value →
    field native = value) ↔ _
  rw [hfield, hdefault, Keywords.get]
  cases hgiven : opts.lookup key with
  | none => simp
  | some term =>
    rw [Option.getD_some, Ne, Option.some_inj]
    constructor
    · rintro hreaches rfl
      exact absurd (hreaches true (Term.decodeBool_bool true)) Bool.false_ne_true
    · intro hne value hvalue
      cases value with
      | false => rfl
      | true => exact absurd (Term.decodeBool_eq_some hvalue) hne

/-! ### The structs

A struct is a map with atoms for keys, and cannot be decoded as one with strings. What is given
reaches the field exactly if it is no struct. -/

section Inner

variable {α : Type} {moduleName : String} {read : (String → Option Term) → Option α} {term : Term}

/-- A struct cannot be decoded as a map with strings for keys. -/
theorem decodeMap_of_structOf {value : α} (h : structOf moduleName read term = some value) :
    term.decodeMap = none := by
  cases term with
  | map entries =>
    rw [structOf] at h
    cases hname : entries.lookup (.atom "__struct__") with
    | none =>
      rw [hname] at h
      cases h
    | some name => exact Term.decodeMap_of_atom hname
  | _ => cases h

/-- What is given reaches the field exactly when it is no struct. -/
theorem decodeMap_agrees_iff {build : NifMap → α}
    (hbuild : ∀ inner value, (read fun field ↦ List.lookup field inner) = some value →
      build inner = value) :
    (∀ value, ((structOf moduleName read term).or (mapOf read term)).map some = some value →
        term.decodeMap.map build = value) ↔
      structOf moduleName read term = none := by
  cases hstruct : structOf moduleName read term with
  | some value =>
    simp [decodeMap_of_structOf hstruct]
  | none =>
    refine iff_of_true ?_ rfl
    intro value hvalue
    rw [Option.none_or, mapOf] at hvalue
    cases hinner : term.decodeMap with
    | none =>
      rw [hinner] at hvalue
      cases hvalue
    | some inner =>
      rw [hinner, Option.bind_some] at hvalue
      obtain ⟨result, hresult, rfl⟩ := Option.map_eq_some_iff.mp hvalue
      rw [Option.map_some, hbuild inner result hresult]

/-- The field is built from the map that was given. -/
theorem inner_reaches_iff {key : String} {field : NodeConfig → Option α} {build : NifMap → α}
    (hfield : field native = ((Config.build opts).toNifMap.getInner key).map build)
    (hbuild : ∀ inner value, (read fun field ↦ List.lookup field inner) = some value →
      build inner = value) (hkey : key ∈ nifKeys) (hkept : opts.Kept key)
    (hdefault : elixirDefault key = .nil) :
    (Counterpart.inner key field moduleName read).Reaches opts native ↔
      ∀ term, opts.lookup key = some term → structOf moduleName read term = none := by
  rw [NifMap.getInner_eq_bind, lookup_toNifMap opts hkey hkept, Option.bind_some] at hfield
  change (∀ value, ((structOf moduleName read (opts.get key (elixirDefault key))).or
    (mapOf read (opts.get key (elixirDefault key)))).map some = some value →
      field native = value) ↔ _
  rw [hfield, decodeMap_agrees_iff hbuild, hdefault, Keywords.get]
  cases opts.lookup key with
  | none => exact iff_of_true rfl (by simp)
  | some term => simp

end Inner

theorem PeerScoreConfig.ofMap_of_read {inner : NifMap} {value : PeerScoreConfig}
    (h : (read fun field ↦ List.lookup field inner) = some value) : ofMap inner = value := by
  obtain ⟨weight, hweight, h⟩ := Option.bind_eq_some_iff.mp h
  obtain ⟨threshold, hthreshold, h⟩ := Option.bind_eq_some_iff.mp h
  obtain ⟨penalty, hpenalty, h⟩ := Option.bind_eq_some_iff.mp h
  obtain ⟨decay, hdecay, h⟩ := Option.bind_eq_some_iff.mp h
  obtain rfl := Option.some.inj h
  simp only [ofMap, NifMap.getF64, Term.readOr, hweight, hthreshold, hpenalty, hdecay,
    Option.getD_some]

theorem ThresholdsConfig.ofMap_of_read {inner : NifMap} {value : ThresholdsConfig}
    (h : (read fun field ↦ List.lookup field inner) = some value) : ofMap inner = value := by
  obtain ⟨gossip, hgossip, h⟩ := Option.bind_eq_some_iff.mp h
  obtain ⟨publish, hpublish, h⟩ := Option.bind_eq_some_iff.mp h
  obtain ⟨graylist, hgraylist, h⟩ := Option.bind_eq_some_iff.mp h
  obtain ⟨acceptPx, hacceptPx, h⟩ := Option.bind_eq_some_iff.mp h
  obtain ⟨graft, hgraft, h⟩ := Option.bind_eq_some_iff.mp h
  obtain rfl := Option.some.inj h
  simp only [ofMap, NifMap.getF64, Term.readOr, hgossip, hpublish, hgraylist, hacceptPx, hgraft,
    Option.getD_some]

/-! ## The options that are lost

All that was found is put together. A configuration comes through if and only if it is `Harmless`,
and the condition is about the keyword list alone. -/

/-- The application uses none of the options that the native side gets wrong. -/
structure Harmless (opts : Keywords) : Prop where
  lists : ∀ key ∈ listKeys, ∀ term, opts.lookup key = some term →
    ∃ value, term.decodeStrings = some value
  peerScoreDisabled : opts.lookup "gossipsub_peer_score_disabled" ≠ some (.bool true)
  relayClient : opts.lookup "enable_relay_client" ≠ some (.bool true)
  rendezvous : opts.lookup "enable_rendezvous" ≠ some (.bool true)
  peerScore : ∀ term, opts.lookup "gossipsub_peer_score" = some term →
    structOf peerScoreModule PeerScoreConfig.read term = none
  thresholds : ∀ term, opts.lookup "gossipsub_thresholds" = some term →
    structOf thresholdsModule ThresholdsConfig.read term = none

/-- What the options that are misread need. -/
theorem misread_reach_iff (h : NodeConfig.fromMap width (Config.build opts).toNifMap = .ok native) :
    (∀ c ∈ misread, c.Reaches opts native) ↔
      opts.lookup "gossipsub_peer_score_disabled" ≠ some (.bool true)
        ∧ opts.lookup "enable_relay_client" ≠ some (.bool true)
        ∧ opts.lookup "enable_rendezvous" ≠ some (.bool true)
        ∧ (∀ term, opts.lookup "gossipsub_peer_score" = some term →
          structOf peerScoreModule PeerScoreConfig.read term = none)
        ∧ ∀ term, opts.lookup "gossipsub_thresholds" = some term →
          structOf thresholdsModule ThresholdsConfig.read term = none := by
  obtain ⟨_, _, _, -, -, -, rfl⟩ := fromMap_eq_ok_iff.mp h
  have hinner : ∀ key ∈ ["gossipsub_peer_score", "gossipsub_thresholds"],
      key ∈ nifKeys ∧ key ∉ rendezvousKeys ++ protocolKeys := by
    decide +kernel
  simp only [misread, List.forall_mem_cons]
  rw [switch_reaches_iff rfl (not_mem_nifKeys "peer_score_disabled" (by simp)) rfl,
    switch_reaches_iff rfl (not_mem_nifKeys "enable_relay" (by simp)) rfl,
    switch_reaches_iff rfl (not_mem_nifKeys "enable_rendezvous_client" (by simp)) rfl,
    inner_reaches_iff rfl (fun _ _ ↦ PeerScoreConfig.ofMap_of_read)
      (hinner "gossipsub_peer_score" (by simp)).1
      (fun hmem ↦ absurd hmem (hinner "gossipsub_peer_score" (by simp)).2) rfl,
    inner_reaches_iff rfl (fun _ _ ↦ ThresholdsConfig.ofMap_of_read)
      (hinner "gossipsub_thresholds" (by simp)).1
      (fun hmem ↦ absurd hmem (hinner "gossipsub_thresholds" (by simp)).2) rfl]
  simp

theorem eq_build_of_new {config : Config} (h : Config.new opts = some config) :
    config = Config.build opts := by
  rw [Config.new] at h
  split at h
  · exact (Option.some.inj h).symm
  · cases h

theorem eq_of_validate {config valid : Config} (h : config.validate = .ok valid) :
    valid = config := by
  rw [Config.validate] at h
  split at h
  · cases h
  · split at h
    · cases h
    · exact (Except.ok.inj h).symm

theorem exists_fromMap_iff (width : ℕ) (opts : Keywords) :
    (∃ native, NodeConfig.fromMap width (Config.build opts).toNifMap = .ok native) ↔
      ∀ key ∈ listKeys, ∀ term, opts.lookup key = some term →
        ∃ value, term.decodeStrings = some value := by
  rw [← forall₂_congr fun key (h : key ∈ listKeys) ↦ exists_getStringList_iff opts h]
  simp only [listKeys, List.forall_mem_cons, fromMap_eq_ok_iff]
  constructor
  · rintro ⟨_, _, _, _, hlisten, hbootstrap, htopics, -⟩
    exact ⟨⟨_, hlisten⟩, ⟨_, hbootstrap⟩, ⟨_, htopics⟩, by simp⟩
  · rintro ⟨⟨_, hlisten⟩, ⟨_, hbootstrap⟩, ⟨_, htopics⟩, -⟩
    exact ⟨_, _, _, _, hlisten, hbootstrap, htopics, rfl⟩

/-- **All options with a field reach it exactly when the application uses none of those that the
native side gets wrong.** -/
theorem options_reach_iff {width : ℕ} (hwidth : width ≤ 64) {opts : Keywords}
    {config valid : Config} (hnew : Config.new opts = some config)
    (hvalid : config.validate = .ok valid) :
    (∃ native, NodeConfig.fromMap width valid.toNifMap = .ok native
        ∧ ∀ c ∈ counterparts width, c.Reaches opts native) ↔
      Harmless opts := by
  rw [eq_of_validate hvalid, eq_build_of_new hnew]
  simp only [counterparts, List.forall_mem_append]
  constructor
  · rintro ⟨native, hnative, -, hmisread⟩
    obtain ⟨hscore, hrelay, hrendezvous, hpeerScore, hthresholds⟩ :=
      (misread_reach_iff hnative).mp hmisread
    exact ⟨(exists_fromMap_iff width opts).mp ⟨native, hnative⟩, hscore, hrelay, hrendezvous,
      hpeerScore, hthresholds⟩
  · intro h
    obtain ⟨native, hnative⟩ := (exists_fromMap_iff width opts).mpr h.lists
    refine ⟨native, hnative, fun c hc ↦ ?_, (misread_reach_iff hnative).mpr
      ⟨h.peerScoreDisabled, h.relayClient, h.rendezvous, h.peerScore, h.thresholds⟩⟩
    exact (readFrom_of_wellRead hwidth hnative c hc).reaches
      (mem_nifKeys (List.mem_append_left _ hc))

/-- The relay client is switched on, and stays off. -/
theorem relay_client_stays_off :
    ∃ config native, Config.new [("enable_relay_client", .bool true)] = some config
      ∧ config.validate = .ok config
      ∧ NodeConfig.fromMap 64 config.toNifMap = .ok native ∧ native.enableRelay = false := by
  obtain ⟨native, hnative⟩ := (exists_fromMap_iff 64 [("enable_relay_client", .bool true)]).mpr
    (by simp [listKeys, List.lookup_cons])
  refine ⟨_, native, if_pos (by decide), rfl, hnative, ?_⟩
  obtain ⟨_, _, _, -, -, -, rfl⟩ := fromMap_eq_ok_iff.mp hnative
  exact getBool_of_not_mem [("enable_relay_client", .bool true)]
    (not_mem_nifKeys "enable_relay" (by simp)) false

def sampleOptions : Keywords :=
  [("listen_addrs", .list [.string "/ip4/0.0.0.0/tcp/4001"]),
    ("max_pending_incoming", .integer 10), ("enable_mdns", .bool false)]

/-- A list, a limit and a switch come through. -/
theorem options_reach_sample :
    ∃ config native, Config.new sampleOptions = some config ∧ config.validate = .ok config
      ∧ NodeConfig.fromMap 32 config.toNifMap = .ok native
      ∧ native.listenAddrs = ["/ip4/0.0.0.0/tcp/4001"]
      ∧ native.maxPendingIncoming = 10 ∧ native.enableMdns = false := by
  have hnew : Config.new sampleOptions = some (.build sampleOptions) := if_pos (by decide)
  have hharmless : Harmless sampleOptions := by
    constructor <;> simp [sampleOptions, listKeys, List.lookup_cons, Term.decodeStrings]
  obtain ⟨native, hnative, hreaches⟩ :=
    (options_reach_iff (show 32 ≤ 64 by decide) hnew rfl).mpr hharmless
  refine ⟨_, native, hnew, rfl, hnative, ?_, ?_, ?_⟩
  · refine hreaches (.strings "listen_addrs" NodeConfig.listenAddrs)
      (List.mem_of_getElem? (i := 1) rfl) _ ?_
    simp [Counterpart.strings, sampleOptions, Keywords.get, Term.decodeStrings]
  · exact hreaches (.unsigned 32 "max_pending_incoming" NodeConfig.maxPendingIncoming)
      (List.mem_of_getElem? (i := 24) rfl) (10 : ℕ) rfl
  · exact hreaches (.switch "enable_mdns" NodeConfig.enableMdns)
      (List.mem_of_getElem? (i := 10) rfl) false rfl

end Node

end NervesP2P
