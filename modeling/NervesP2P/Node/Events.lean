import NervesP2P.Lib.Convert
import NervesP2P.Node.HandlerRegistry

/-!
# From the swarm to the handlers

The loop of the native code turns an event of the swarm into a term and sends it to the process of
the node. The process parses the term into a struct, whose kind is the kind of event that handlers
register for, and passes it on to the registry of handlers. Between the two languages a peer is a
string, and the process checks the string again: it raises if the string is too short or not in
base 58, and the node is gone.

`SwarmEvent.meaning` says what an event is for the handlers, without any terms. The way over terms
agrees with it (`handled_sent`): the process raises exactly on events with a bad peer, and passes on
what the others mean. So what a handler gets in a run is what the events mean that it has registered
for, in order and each of them once (`handler_receives`).
-/

namespace NervesP2P

namespace Events

/-! ## Terms

What the native code can build: atoms, numbers, binaries, tuples and lists. The allocation of a
binary may fail, and then an empty one is sent in its place. -/

/-- A term that the native code builds. A string is a binary. -/
inductive Wire where
  | atom (name : String)
  | integer (value : ℤ)
  | binary (bytes : List UInt8)
  | list (items : List Wire)
  | tuple (items : List Wire)

namespace Wire

def nil : Wire := .atom "nil"

def text (s : String) : Wire := .binary (utf8 s)

def option : Option (List UInt8) → Wire
  | some bytes => .binary bytes
  | none => nil

end Wire

/-- How the allocation of a binary ends. Without memory for all of it, an empty one is made. -/
inductive Allocation where
  | full
  | empty
  | failed

def encodeBinary (allocation : Allocation) (data : List UInt8) : Wire :=
  match allocation with
  | .full => .binary data
  | .empty => .binary []
  | .failed => .nil

/-! ## Events of the swarm

An event is given with its peers in any type, since the same event is looked at with peers as
strings, on the native side, and with peers that were checked. -/

/-- A result of the distributed hash table. Keys that are shown and not sent are strings. -/
inductive KadEvent where
  | foundRecord (id : String) (key value : List UInt8)
  | recordNotFound (id : String)
  | putRecord (id key : String)
  | foundProviders (id : String) (providers : List (List UInt8))
  | bootstrap (id : String) (numRemaining : ℕ)
  /-- The end of a query for providers, and everything else. -/
  | other

inductive NatStatus where
  | isPublic (address : String)
  | isPrivate
  | unknown

/-- An event of the swarm, with peers in `P` and everything else as it is shown. -/
inductive SwarmEvent (P : Type) where
  | connectionEstablished (peerId : P) (numEstablished : ℕ) (isDialer : Bool)
  | connectionClosed (peerId : P) (numEstablished : ℕ) (cause : Option String)
  | newListenAddr (address listenerId : String)
  | externalAddrConfirmed (address : String)
  | outgoingConnectionError (peerId : Option P) (error : String)
  | gossipsubMessage (topic : String) (data : List UInt8) (source : Option P) (messageId : String)
  | kademlia (event : KadEvent)
  | outboundFailure (peer : P) (requestId error : String)
  | inboundFailure (peer : P) (requestId error : String)
  | natStatusChanged (status : NatStatus)
  | holePunch (peerId : P) (error : Option String)
  | reservationAccepted (relayPeerId : P)
  | upnpNewExternalAddr (address : String)
  | rendezvousDiscovered (registrations : List (P × List String))
  | mdnsDiscovered (peers : List (P × String))
  | inboundRequest (peer : P) (requestId channelId : String) (data : List UInt8)
  | outboundResponse (peer : P) (requestId : String) (data : List UInt8)
  | other

/-! ## The native side

Each event is a tuple with a tag. For an event that nobody is to hear of an atom is sent all the
same, which the process ignores. Peers that are discovered come in batches, and one of them alone is
sent in another form than several. -/

def event (raw : List Wire) : Wire := .tuple [.atom "libp2p_event", .tuple raw]

def noop : Wire := .atom "libp2p_noop"

def encodeKadEvent (allocation : Allocation) : KadEvent → Wire
  | .foundRecord id key value => event [.atom "dht_query_result", .text id,
      .tuple [.atom "found_record", encodeBinary allocation key, encodeBinary allocation value]]
  | .recordNotFound id => event [.atom "dht_query_result", .text id, .atom "not_found"]
  | .putRecord id key =>
    event [.atom "dht_query_result", .text id, .tuple [.atom "put_record_ok", .text key]]
  | .foundProviders id providers => event [.atom "dht_query_result", .text id,
      .tuple [.atom "found_providers", .list (providers.map .binary)]]
  | .bootstrap id numRemaining =>
    event [.atom "dht_query_result", .text id, .tuple [.atom "bootstrap_ok", .integer numRemaining]]
  | .other => noop

/-- A peer that was discovered, with its addresses. -/
def encodePeer (peer : List UInt8 × List String) : List Wire :=
  [.atom "peer_discovered", .binary peer.1, .list (peer.2.map .text)]

/-- One peer is sent alone, and several are sent together. -/
def encodePeers : List (List UInt8 × List String) → Wire
  | [peer] => event (encodePeer peer)
  | peers =>
    event [.atom "peers_discovered", .list (peers.map fun peer ↦ .tuple (encodePeer peer))]

/-- The messages that the loop sends for an event, to the process that is registered for them. -/
def sent (allocation : Allocation) : SwarmEvent (List UInt8) → List Wire
  | .connectionEstablished peerId numEstablished isDialer =>
    [event [.atom "connection_established", .binary peerId, .integer numEstablished,
      .atom (if isDialer then "dialer" else "listener")]]
  | .connectionClosed peerId numEstablished cause =>
    [event [.atom "connection_closed", .binary peerId, .integer numEstablished,
      .text (cause.getD "unknown")]]
  | .newListenAddr address listenerId =>
    [event [.atom "new_listen_addr", .text address, .text listenerId]]
  | .externalAddrConfirmed address => [event [.atom "external_addr_confirmed", .text address]]
  | .outgoingConnectionError peerId error =>
    [event [.atom "dial_failure", .option peerId, .text error]]
  | .gossipsubMessage topic data source messageId =>
    [event [.atom "gossipsub_message", .text topic, encodeBinary allocation data, .option source,
      .text messageId]]
  | .kademlia kadEvent => [encodeKadEvent allocation kadEvent]
  | .outboundFailure peer requestId error =>
    [event [.atom "dial_failure", .option (some peer),
      .text ("rpc outbound failure " ++ requestId ++ ": " ++ error)]]
  | .inboundFailure peer requestId error =>
    [event [.atom "dial_failure", .option (some peer),
      .text ("rpc inbound failure " ++ requestId ++ ": " ++ error)]]
  | .natStatusChanged (.isPublic address) =>
    [event [.atom "nat_status_changed", .atom "public", .text address]]
  | .natStatusChanged .isPrivate => [event [.atom "nat_status_changed", .atom "private", .nil]]
  | .natStatusChanged .unknown => [event [.atom "nat_status_changed", .atom "unknown", .nil]]
  | .holePunch peerId none =>
    [event [.atom "hole_punch_outcome", .binary peerId, .atom "success"]]
  | .holePunch peerId (some error) =>
    [event [.atom "hole_punch_outcome", .binary peerId, .tuple [.atom "failure", .text error]]]
  | .reservationAccepted relayPeerId =>
    [event [.atom "relay_reservation_accepted", .binary relayPeerId, .text ""]]
  | .upnpNewExternalAddr address => [event [.atom "external_addr_confirmed", .text address]]
  | .rendezvousDiscovered [] => [noop]
  | .rendezvousDiscovered registrations => [encodePeers registrations]
  | .mdnsDiscovered [] => []
  | .mdnsDiscovered peers => [encodePeers (peers.map fun peer ↦ (peer.1, [peer.2]))]
  | .inboundRequest peer requestId channelId data =>
    [event [.atom "inbound_request", .text requestId, .text channelId, .binary peer,
      encodeBinary allocation data]]
  | .outboundResponse peer requestId data =>
    [event [.atom "outbound_response", .text requestId, .binary peer, encodeBinary allocation data]]
  | .other => [noop]

/-! ## The process of the node

The process takes a tuple apart by its tag and checks what it says of a peer. There is a clause for
each tag, and most of the contents are passed on as they came. -/

def minLength : ℕ := 40

def base58Chars : List UInt8 := utf8 "123456789ABCDEFGHJKLMNPQRSTUVWXYZabcdefghijkmnopqrstuvwxyz"

def base58 : List UInt8 → Bool
  | char :: rest => base58Chars.contains char && base58 rest
  | [] => true

/-- A peer identifier that was checked. -/
structure PeerId where
  id : List UInt8
  valid : minLength ≤ id.length ∧ base58 id = true

def PeerId.new? (raw : List UInt8) : Option PeerId :=
  if h : minLength ≤ raw.length ∧ base58 raw = true then some ⟨raw, h⟩ else none

/-- The peer of a term; what is no string of a peer raises. -/
def PeerId.ofTerm? : Wire → Option PeerId
  | .binary raw => PeerId.new? raw
  | _ => none

/-- The struct of an event. What is not checked is any term. -/
inductive NodeEvent where
  | connectionEstablished (peerId : PeerId) (numEstablished endpoint : Wire)
  | connectionClosed (peerId : PeerId) (numEstablished cause : Wire)
  | newListenAddr (address listenerId : Wire)
  | gossipsubMessage (topic data : Wire) (source : Option PeerId) (messageId : Wire)
  | peerDiscovered (peerId : PeerId) (addresses : Wire)
  | dhtQueryResult (queryId result : Wire)
  | inboundRequest (requestId channelId : Wire) (peerId : PeerId) (data : Wire)
  | outboundResponse (requestId : Wire) (peerId : PeerId) (data : Wire)
  | dialFailure (peerId : Option PeerId) (error : Wire)
  | natStatusChanged (status address : Wire)
  | relayReservationAccepted (relayPeerId : PeerId) (relayAddr : Wire)
  | holePunchOutcome (peerId : PeerId) (result : Wire)
  | externalAddrConfirmed (address : Wire)

/-- The kind of event that handlers register for. -/
def eventTypeFor : NodeEvent → String
  | .connectionEstablished .. => "connection_established"
  | .connectionClosed .. => "connection_closed"
  | .newListenAddr .. => "new_listen_addr"
  | .gossipsubMessage .. => "gossipsub_message"
  | .peerDiscovered .. => "peer_discovered"
  | .dhtQueryResult .. => "dht_query_result"
  | .inboundRequest .. => "inbound_request"
  | .outboundResponse .. => "outbound_response"
  | .dialFailure .. => "dial_failure"
  | .natStatusChanged .. => "nat_status_changed"
  | .relayReservationAccepted .. => "relay_reservation_accepted"
  | .holePunchOutcome .. => "hole_punch_outcome"
  | .externalAddrConfirmed .. => "external_addr_confirmed"

/-- What becomes of a raw event. -/
inductive Parsed where
  | event (event : NodeEvent)
  | unknownEvent
  | raised

/-- An event with a peer that has to be checked. -/
def withPeer (raw : Wire) (make : PeerId → NodeEvent) : Parsed :=
  match PeerId.ofTerm? raw with
  | some peerId => .event (make peerId)
  | none => .raised

/-- The same where the peer may be absent. -/
def withOptionalPeer (raw : Wire) (make : Option PeerId → NodeEvent) : Parsed :=
  match raw with
  | .atom "nil" => .event (make none)
  | raw => withPeer raw fun peerId ↦ make (some peerId)

/-- `from_raw` on a tuple with a tag. -/
def fromTagged (tag : String) (fields : List Wire) : Parsed :=
  match tag, fields with
  | "connection_established", [peerId, numEstablished, endpoint] =>
    withPeer peerId (.connectionEstablished · numEstablished endpoint)
  | "connection_closed", [peerId, numEstablished, cause] =>
    withPeer peerId (.connectionClosed · numEstablished cause)
  | "new_listen_addr", [address, listenerId] => .event (.newListenAddr address listenerId)
  | "new_listen_addr", [address] => .event (.newListenAddr address .nil)
  | "gossipsub_message", [topic, data, source, messageId] =>
    withOptionalPeer source (.gossipsubMessage topic data · messageId)
  | "peer_discovered", [peerId, addresses] => withPeer peerId (.peerDiscovered · addresses)
  | "dht_query_result", [queryId, result] => .event (.dhtQueryResult queryId result)
  | "inbound_request", [requestId, channelId, peerId, data] =>
    withPeer peerId (.inboundRequest requestId channelId · data)
  | "outbound_response", [requestId, peerId, data] =>
    withPeer peerId (.outboundResponse requestId · data)
  | "dial_failure", [peerId, error] => withOptionalPeer peerId (.dialFailure · error)
  | "nat_status_changed", [status, address] => .event (.natStatusChanged status address)
  | "relay_reservation_accepted", [relayPeerId, relayAddr] =>
    withPeer relayPeerId (.relayReservationAccepted · relayAddr)
  | "hole_punch_outcome", [peerId, result] => withPeer peerId (.holePunchOutcome · result)
  | "external_addr_confirmed", [address] => .event (.externalAddrConfirmed address)
  | _, _ => .unknownEvent

def fromRaw : Wire → Parsed
  | .tuple (.atom tag :: fields) => fromTagged tag fields
  | _ => .unknownEvent

/-- What the process has passed on, and whether it is still there. -/
structure Handled where
  passed : List NodeEvent
  alive : Bool

/-- Pass on one raw event after the other. -/
def dispatchEvents : List Wire → Handled
  | [] => ⟨[], true⟩
  | raw :: rest =>
    match fromRaw raw with
    | .event event => ⟨event :: (dispatchEvents rest).passed, (dispatchEvents rest).alive⟩
    | .unknownEvent => dispatchEvents rest
    | .raised => ⟨[], false⟩

def handleInfo : Wire → Handled
  | .tuple [.atom "libp2p_event", .tuple [.atom "peers_discovered", .list peers]] =>
    dispatchEvents peers
  | .tuple [.atom "libp2p_event", raw] => dispatchEvents [raw]
  | _ => ⟨[], true⟩

/-- The messages that the process finds, up to the first on which it raises. -/
def handleAll : List Wire → Handled
  | [] => ⟨[], true⟩
  | message :: messages =>
    if (handleInfo message).alive then
      ⟨(handleInfo message).passed ++ (handleAll messages).passed, (handleAll messages).alive⟩
    else handleInfo message

/-! ## What an event means

The specification of the two sides together. An event with a bad peer has no meaning; the others
mean some structs in a row, none for events that handlers are not told of, and one for each peer of
a batch. -/

namespace SwarmEvent

/-- Check the peers of an event. -/
def validate : SwarmEvent (List UInt8) → Option (SwarmEvent PeerId)
  | .connectionEstablished peerId numEstablished isDialer =>
    (PeerId.new? peerId).map (.connectionEstablished · numEstablished isDialer)
  | .connectionClosed peerId numEstablished cause =>
    (PeerId.new? peerId).map (.connectionClosed · numEstablished cause)
  | .newListenAddr address listenerId => some (.newListenAddr address listenerId)
  | .externalAddrConfirmed address => some (.externalAddrConfirmed address)
  | .outgoingConnectionError none error => some (.outgoingConnectionError none error)
  | .outgoingConnectionError (some peerId) error =>
    (PeerId.new? peerId).map fun peerId ↦ .outgoingConnectionError (some peerId) error
  | .gossipsubMessage topic data none messageId =>
    some (.gossipsubMessage topic data none messageId)
  | .gossipsubMessage topic data (some source) messageId =>
    (PeerId.new? source).map fun source ↦ .gossipsubMessage topic data (some source) messageId
  | .kademlia event => some (.kademlia event)
  | .outboundFailure peer requestId error =>
    (PeerId.new? peer).map (.outboundFailure · requestId error)
  | .inboundFailure peer requestId error =>
    (PeerId.new? peer).map (.inboundFailure · requestId error)
  | .natStatusChanged status => some (.natStatusChanged status)
  | .holePunch peerId error => (PeerId.new? peerId).map (.holePunch · error)
  | .reservationAccepted relayPeerId => (PeerId.new? relayPeerId).map .reservationAccepted
  | .upnpNewExternalAddr address => some (.upnpNewExternalAddr address)
  | .rendezvousDiscovered registrations =>
    (registrations.mapM fun peer ↦ (PeerId.new? peer.1).map (·, peer.2)).map .rendezvousDiscovered
  | .mdnsDiscovered peers =>
    (peers.mapM fun peer ↦ (PeerId.new? peer.1).map (·, peer.2)).map .mdnsDiscovered
  | .inboundRequest peer requestId channelId data =>
    (PeerId.new? peer).map (.inboundRequest · requestId channelId data)
  | .outboundResponse peer requestId data =>
    (PeerId.new? peer).map (.outboundResponse · requestId data)
  | .other => some .other

/-- What the hash table reports, if it is one of the reported results. -/
def kadMeaning : KadEvent → List NodeEvent
  | .foundRecord id key value =>
    [.dhtQueryResult (.text id) (.tuple [.atom "found_record", .binary key, .binary value])]
  | .recordNotFound id => [.dhtQueryResult (.text id) (.atom "not_found")]
  | .putRecord id key => [.dhtQueryResult (.text id) (.tuple [.atom "put_record_ok", .text key])]
  | .foundProviders id providers => [.dhtQueryResult (.text id)
      (.tuple [.atom "found_providers", .list (providers.map .binary)])]
  | .bootstrap id numRemaining =>
    [.dhtQueryResult (.text id) (.tuple [.atom "bootstrap_ok", .integer numRemaining])]
  | .other => []

/-- The structs that handlers are to get for an event. Failed requests count as failed dials, and
several peers are as many events. -/
def meaning : SwarmEvent PeerId → List NodeEvent
  | .connectionEstablished peerId numEstablished isDialer =>
    [.connectionEstablished peerId (.integer numEstablished)
      (.atom (if isDialer then "dialer" else "listener"))]
  | .connectionClosed peerId numEstablished cause =>
    [.connectionClosed peerId (.integer numEstablished) (.text (cause.getD "unknown"))]
  | .newListenAddr address listenerId => [.newListenAddr (.text address) (.text listenerId)]
  | .externalAddrConfirmed address | .upnpNewExternalAddr address =>
    [.externalAddrConfirmed (.text address)]
  | .outgoingConnectionError peerId error => [.dialFailure peerId (.text error)]
  | .gossipsubMessage topic data source messageId =>
    [.gossipsubMessage (.text topic) (.binary data) source (.text messageId)]
  | .kademlia event => kadMeaning event
  | .outboundFailure peer requestId error =>
    [.dialFailure (some peer) (.text ("rpc outbound failure " ++ requestId ++ ": " ++ error))]
  | .inboundFailure peer requestId error =>
    [.dialFailure (some peer) (.text ("rpc inbound failure " ++ requestId ++ ": " ++ error))]
  | .natStatusChanged (.isPublic address) =>
    [.natStatusChanged (.atom "public") (.text address)]
  | .natStatusChanged .isPrivate => [.natStatusChanged (.atom "private") .nil]
  | .natStatusChanged .unknown => [.natStatusChanged (.atom "unknown") .nil]
  | .holePunch peerId none => [.holePunchOutcome peerId (.atom "success")]
  | .holePunch peerId (some error) =>
    [.holePunchOutcome peerId (.tuple [.atom "failure", .text error])]
  | .reservationAccepted relayPeerId => [.relayReservationAccepted relayPeerId (.text "")]
  | .rendezvousDiscovered registrations =>
    registrations.map fun peer ↦ .peerDiscovered peer.1 (.list (peer.2.map .text))
  | .mdnsDiscovered peers => peers.map fun peer ↦ .peerDiscovered peer.1 (.list [.text peer.2])
  | .inboundRequest peer requestId channelId data =>
    [.inboundRequest (.text requestId) (.text channelId) peer (.binary data)]
  | .outboundResponse peer requestId data =>
    [.outboundResponse (.text requestId) peer (.binary data)]
  | .other => []

end SwarmEvent

/-! ## The way over terms

One case for each event, in two shapes: with a peer that is checked and without. Peers that are sent
together are the same events as peers that are sent one by one, up to the first that is bad. -/

/-- The process raises if there is nothing to pass on, and otherwise passes it on. -/
def Agrees (valid : Option (List NodeEvent)) (handled : Handled) : Prop :=
  match valid with
  | some events => handled = ⟨events, true⟩
  | none => handled.alive = false

theorem handleAll_singleton (message : Wire) : handleAll [message] = handleInfo message := by
  simp only [handleAll, List.append_nil]
  split
  · next halive =>
    cases hhandled : handleInfo message
    rw [hhandled] at halive
    exact congrArg _ halive.symm
  · rfl

section Single

variable {raw : List Wire} {valid : Option (List NodeEvent)}

theorem agrees_event {parsed : NodeEvent}
    (hevent : handleInfo (event raw) = dispatchEvents [.tuple raw])
    (hraw : fromRaw (.tuple raw) = .event parsed) (hvalid : valid = some [parsed]) :
    Agrees valid (handleAll [event raw]) := by
  rw [handleAll_singleton, hevent, hvalid]
  simp only [Agrees, dispatchEvents, hraw]

theorem agrees_withPeer {peerId : List UInt8} {make : PeerId → NodeEvent}
    (hevent : handleInfo (event raw) = dispatchEvents [.tuple raw])
    (hraw : fromRaw (.tuple raw) = withPeer (.binary peerId) make)
    (hvalid : valid = (PeerId.new? peerId).map fun peerId ↦ [make peerId]) :
    Agrees valid (handleAll [event raw]) := by
  rw [handleAll_singleton, hevent, hvalid]
  cases hpeer : PeerId.new? peerId <;>
    simp only [Option.map_none, Option.map_some, Agrees, dispatchEvents, hraw, withPeer,
      PeerId.ofTerm?, hpeer]

end Single

/-- Peers are the same events together as one by one. -/
theorem handleInfo_encodePeers (peers : List (List UInt8 × List String)) :
    handleInfo (encodePeers peers)
      = dispatchEvents (peers.map fun peer ↦ .tuple (encodePeer peer)) := by
  match peers with
  | [] => rfl
  | [_] => rfl
  | _ :: _ :: _ => rfl

theorem agrees_peers {α : Type} (peers : List (List UInt8 × α)) (addresses : α → List String) :
    Agrees ((peers.mapM fun peer ↦ (PeerId.new? peer.1).map (·, peer.2)).map fun peers ↦
        peers.map fun peer ↦ NodeEvent.peerDiscovered peer.1 (.list ((addresses peer.2).map .text)))
      (dispatchEvents (peers.map fun peer ↦ .tuple (encodePeer (peer.1, addresses peer.2)))) := by
  induction peers with
  | nil => rfl
  | cons peer peers ih =>
    have hraw : fromRaw (.tuple (encodePeer (peer.1, addresses peer.2)))
        = withPeer (.binary peer.1) (.peerDiscovered · (.list ((addresses peer.2).map .text))) :=
      rfl
    rw [List.mapM_cons, List.map_cons]
    cases hpeer : PeerId.new? peer.1 with
    | none =>
      simp only [Agrees, dispatchEvents, hraw, withPeer, PeerId.ofTerm?, hpeer]
      trivial
    | some id =>
      simp only [dispatchEvents, hraw, withPeer, PeerId.ofTerm?, hpeer, Option.map_some]
      cases hpeers : peers.mapM fun peer ↦ (PeerId.new? peer.1).map (·, peer.2) with
      | none =>
        rw [hpeers] at ih
        exact ih
      | some rest =>
        rw [hpeers] at ih
        exact congrArg (fun handled : Handled ↦ Handled.mk (_ :: handled.passed) handled.alive) ih

/-- **The way over terms keeps what an event means.** The process of the node raises exactly on the
events with a bad peer, and passes on what the others mean. -/
theorem handled_sent (e : SwarmEvent (List UInt8)) :
    Agrees (e.validate.map SwarmEvent.meaning) (handleAll (sent .full e)) := by
  cases e with
  | connectionEstablished peerId numEstablished isDialer =>
    exact agrees_withPeer rfl rfl (Option.map_map _ _ _)
  | connectionClosed peerId numEstablished cause =>
    exact agrees_withPeer rfl rfl (Option.map_map _ _ _)
  | newListenAddr address listenerId => exact agrees_event rfl rfl rfl
  | externalAddrConfirmed address => exact agrees_event rfl rfl rfl
  | outgoingConnectionError peerId error =>
    cases peerId with
    | none => exact agrees_event rfl rfl rfl
    | some peerId => exact agrees_withPeer rfl rfl (Option.map_map _ _ _)
  | gossipsubMessage topic data source messageId =>
    cases source with
    | none => exact agrees_event rfl rfl rfl
    | some source => exact agrees_withPeer rfl rfl (Option.map_map _ _ _)
  | kademlia event =>
    cases event with
    | other => rfl
    | _ => exact agrees_event rfl rfl rfl
  | outboundFailure peer requestId error | inboundFailure peer requestId error =>
    exact agrees_withPeer rfl rfl (Option.map_map _ _ _)
  | natStatusChanged status =>
    cases status with
    | isPublic address => exact agrees_event rfl rfl rfl
    | isPrivate | unknown => exact agrees_event rfl rfl rfl
  | holePunch peerId error =>
    cases error with
    | none => exact agrees_withPeer rfl rfl (Option.map_map _ _ _)
    | some error => exact agrees_withPeer rfl rfl (Option.map_map _ _ _)
  | reservationAccepted relayPeerId => exact agrees_withPeer rfl rfl (Option.map_map _ _ _)
  | upnpNewExternalAddr address => exact agrees_event rfl rfl rfl
  | rendezvousDiscovered registrations =>
    have hpeers := agrees_peers registrations id
    cases registrations with
    | nil => rfl
    | cons registration registrations =>
      change Agrees _ (handleAll [encodePeers (registration :: registrations)])
      rw [handleAll_singleton, handleInfo_encodePeers, SwarmEvent.validate, Option.map_map]
      exact hpeers
  | mdnsDiscovered peers =>
    have hpeers := agrees_peers peers fun address ↦ [address]
    cases peers with
    | nil => rfl
    | cons peer peers =>
      change Agrees _ (handleAll [encodePeers ((peer :: peers).map fun peer ↦ (peer.1, [peer.2]))])
      rw [handleAll_singleton, handleInfo_encodePeers, SwarmEvent.validate, Option.map_map,
        List.map_map]
      exact hpeers
  | inboundRequest peer requestId channelId data =>
    exact agrees_withPeer rfl rfl (Option.map_map _ _ _)
  | outboundResponse peer requestId data => exact agrees_withPeer rfl rfl (Option.map_map _ _ _)
  | other => rfl

theorem handleAll_append (messages messages' : List Wire) :
    handleAll (messages ++ messages') = if (handleAll messages).alive then
        ⟨(handleAll messages).passed ++ (handleAll messages').passed, (handleAll messages').alive⟩
      else handleAll messages := by
  induction messages with
  | nil => rfl
  | cons message messages ih =>
    rw [List.cons_append, handleAll, handleAll]
    split
    · rw [ih]
      dsimp only
      split <;> simp
    · rfl

/-- In a run whose peers are all good, the process passes on what the events mean. -/
theorem handleAll_run {es : List (SwarmEvent (List UInt8))} {vs : List (SwarmEvent PeerId)}
    (h : es.mapM SwarmEvent.validate = some vs) :
    handleAll (es.flatMap (sent .full)) = ⟨vs.flatMap SwarmEvent.meaning, true⟩ := by
  rw [mapM_eq_some_iff] at h
  induction h with
  | nil => rfl
  | @cons e v es vs hv _ ih =>
    have hone := handled_sent e
    rw [hv] at hone
    have hone : handleAll (sent .full e) = ⟨v.meaning, true⟩ := hone
    rw [List.flatMap_cons, handleAll_append, hone, if_pos rfl, ih]
    rfl

/-- **One bad peer is the end of the node.** The process survives a run of the swarm if and only if
no event has a peer that is too short or not in base 58. -/
theorem node_survives_iff (es : List (SwarmEvent (List UInt8))) :
    (handleAll (es.flatMap (sent .full))).alive = true ↔ ∀ e ∈ es, e.validate.isSome = true := by
  induction es with
  | nil => simp [handleAll]
  | cons e es ih =>
    have hone := handled_sent e
    rw [List.flatMap_cons, handleAll_append, List.forall_mem_cons, ← ih]
    cases hvalid : e.validate with
    | none =>
      rw [hvalid] at hone
      have hdead : (handleAll (sent .full e)).alive = false := hone
      simp [hdead]
    | some v =>
      rw [hvalid] at hone
      have hone : handleAll (sent .full e) = ⟨v.meaning, true⟩ := hone
      simp [hone]

/-! ## What a handler receives

What the registry sends depends on who was registered at the time of a cast, and that is known from
the messages before it. `due` says what a process is to receive on a message, and a turn sends just
that. For a process that is registered with this node and no other, whenever an event of the kind is
dispatched, it adds up to the events of the kind. -/

open HandlerRegistry (Effect Topic Pid History registered)
open Server (effects messages)

/-- The casts of a node for the events that it passes on. -/
def casts (node : Pid) (term : NodeEvent → Term) (events : List NodeEvent) :
    List HandlerRegistry.Message :=
  events.map fun event ↦ .dispatch ⟨node, eventTypeFor event⟩ (term event)

/-- What a process has received of a kind of event. -/
def received (pid : Pid) (eventType : String) (done : List Effect) : List Term :=
  done.filterMap fun effect ↦
    match effect with
    | .send pid' eventType' event =>
      if pid' = pid ∧ eventType' = eventType then some event else none
    | _ => none

/-- What a process is to receive on a message, given the messages before. -/
def due (pid : Pid) (eventType : String) (before : List HandlerRegistry.Message) :
    HandlerRegistry.Message → List Term
  | .dispatch topic event =>
    if topic.event = eventType ∧ (registered before topic pid).isSome then [event] else []
  | _ => []

def dueAll (pid : Pid) (eventType : String) (before : List HandlerRegistry.Message) :
    List HandlerRegistry.Message → List Term
  | [] => []
  | message :: rest =>
    due pid eventType before message ++ dueAll pid eventType (before ++ [message]) rest

theorem dueAll_snoc (pid : Pid) (eventType : String) (before ms : List HandlerRegistry.Message)
    (m : HandlerRegistry.Message) :
    dueAll pid eventType before (ms ++ [m])
      = dueAll pid eventType before ms ++ due pid eventType (before ++ ms) m := by
  induction ms generalizing before with
  | nil => simp [dueAll]
  | cons m' ms ih => rw [List.cons_append, dueAll, ih, dueAll]; simp

/-- **The step lemma**: a turn of the registry sends a process what it is to receive. -/
theorem received_turn {before : List HandlerRegistry.Message} {s s' : HandlerRegistry.State}
    {m : HandlerRegistry.Message} {done : List Effect}
    (h : HandlerRegistry.Presents (registered before) s)
    (hhandle : HandlerRegistry.handle m s = some (done, s')) (pid : Pid) (eventType : String) :
    received pid eventType done = due pid eventType before m := by
  cases m with
  | dispatch topic event =>
    obtain ⟨rfl, rfl⟩ := Prod.mk.inj (Option.some.inj hhandle)
    have hmember : HandlerRegistry.alreadyRegistered s topic pid
        = (registered before topic pid).isSome := by
      rw [HandlerRegistry.alreadyRegistered, Bool.eq_iff_iff, keymember_iff,
        Option.isSome_iff_exists]
      exact exists_congr fun ref ↦ h.entries topic pid ref
    rw [received, List.filterMap_map, due]
    by_cases hevent : topic.event = eventType
    · have hkey := (h.distinct topic).filterMap_key pid event
      rw [← HandlerRegistry.alreadyRegistered, hmember] at hkey
      simp only [hevent, Function.comp_apply, and_true, true_and]
      exact hkey
    · simp [hevent]
  | register topic pid' ref =>
    rw [HandlerRegistry.handle] at hhandle
    split at hhandle <;> obtain ⟨rfl, rfl⟩ := Prod.mk.inj (Option.some.inj hhandle) <;> rfl
  | unregister topic pid' =>
    rw [HandlerRegistry.handle, HandlerRegistry.removeSubscription] at hhandle
    obtain ⟨rfl, rfl⟩ := Prod.mk.inj (Option.some.inj hhandle)
    split <;> rfl
  | cleanupNode node =>
    obtain ⟨rfl, rfl⟩ := Prod.mk.inj (Option.some.inj hhandle)
    simp [HandlerRegistry.removeAllForNode, received, due]
  | down ref deadPid =>
    obtain ⟨_, -, hpair⟩ := Option.map_eq_some_iff.mp hhandle
    obtain ⟨rfl, rfl⟩ := Prod.mk.inj hpair
    rfl
  | count topic | sync | unknownCall | unknownCast | other =>
    obtain ⟨rfl, rfl⟩ := Prod.mk.inj (Option.some.inj hhandle)
    rfl

theorem received_history {turns : List HandlerRegistry.Turn} {s : HandlerRegistry.State}
    (h : History turns s) (pid : Pid) (eventType : String) :
    received pid eventType (effects turns) = dueAll pid eventType [] (messages turns) := by
  induction h with
  | init => rfl
  | @step turns s s' m done hist hallowed hhandle ih =>
    have hpresents := (HandlerRegistry.coherent_of_history hist).presents
    have hturn := received_turn hpresents hhandle pid eventType
    rw [Server.effects_append, Server.messages_append, received, List.filterMap_append]
    simp only [Server.effects_cons, Server.effects_nil, List.append_nil, Server.messages_cons,
      Server.messages_nil]
    rw [dueAll_snoc, List.nil_append, ← hturn, ← ih]
    rfl

/-- Of all nodes, a process is registered for a kind of event with just one, whenever there is such
an event. -/
def Listens (node : Pid) (eventType : String) (pid : Pid) (ms : List HandlerRegistry.Message) :
    Prop :=
  ∀ before topic event after, ms = before ++ .dispatch topic event :: after →
    topic.event = eventType → ((registered before topic pid).isSome = true ↔ topic.node = node)

/-- The events of a topic that are dispatched. -/
def dispatched (topic : Topic) (ms : List HandlerRegistry.Message) : List Term :=
  ms.filterMap fun m ↦
    match m with
    | .dispatch topic' event => if topic' = topic then some event else none
    | _ => none

theorem dispatched_append (topic : Topic) (ms ms' : List HandlerRegistry.Message) :
    dispatched topic (ms ++ ms') = dispatched topic ms ++ dispatched topic ms' :=
  List.filterMap_append

theorem topic_eq_iff {topic : Topic} {node : Pid} {eventType : String} :
    topic = ⟨node, eventType⟩ ↔ topic.event = eventType ∧ topic.node = node := by
  cases topic
  simp [and_comm]

theorem dueAll_of_listens {node pid : Pid} {eventType : String}
    {before ms : List HandlerRegistry.Message}
    (h : Listens node eventType pid (before ++ ms)) :
    dueAll pid eventType before ms = dispatched ⟨node, eventType⟩ ms := by
  induction ms generalizing before with
  | nil => rfl
  | cons m ms ih =>
    have hsplit := dispatched_append ⟨node, eventType⟩ [m] ms
    rw [List.singleton_append] at hsplit
    rw [dueAll, ih (by rwa [List.append_assoc]), hsplit]
    congr 1
    cases m with
    | dispatch topic event =>
      have hhere := h before topic event ms rfl
      have hiff : (topic.event = eventType ∧ (registered before topic pid).isSome = true) ↔
          topic = ⟨node, eventType⟩ := by
        rw [topic_eq_iff]
        exact and_congr_right hhere
      rw [due, if_congr hiff rfl rfl]
      simp only [dispatched, List.filterMap_cons, List.filterMap_nil]
      split <;> rfl
    | _ => rfl

/-- A dispatch that a node has asked for. -/
def isCastOf (node : Pid) : HandlerRegistry.Message → Bool
  | .dispatch topic _ => topic.node = node
  | _ => false

theorem dispatched_filter (node : Pid) (eventType : String) (ms : List HandlerRegistry.Message) :
    dispatched ⟨node, eventType⟩ (ms.filter (isCastOf node))
      = dispatched ⟨node, eventType⟩ ms := by
  rw [dispatched, dispatched, List.filterMap_filter]
  refine List.filterMap_congr fun m _ ↦ ?_
  cases m with
  | dispatch topic event =>
    by_cases hnode : topic.node = node
    · simp [isCastOf, hnode]
    · have hne : topic ≠ ⟨node, eventType⟩ := fun heq ↦ hnode (topic_eq_iff.mp heq).2
      simp [isCastOf, hnode, hne]
  | _ => rfl

theorem dispatched_casts (node : Pid) (eventType : String) (term : NodeEvent → Term)
    (events : List NodeEvent) :
    dispatched ⟨node, eventType⟩ (casts node term events)
      = (events.filter fun event ↦ eventTypeFor event = eventType).map term := by
  rw [dispatched, casts, List.filterMap_map, ← List.filterMap_eq_map, List.filterMap_filter]
  refine List.filterMap_congr fun event _ ↦ ?_
  by_cases hevent : eventTypeFor event = eventType <;> simp [hevent]

/-- **A handler gets what happens.** In a run of the swarm with good peers, once the registry has
worked off the casts of the node, a process that was registered for a kind of event with this node
and no other, whenever such an event was dispatched, has received the events of this kind, each
once, in the order in which they happened and with what the swarm reported. -/
theorem handler_receives (es : List (SwarmEvent (List UInt8))) {vs : List (SwarmEvent PeerId)}
    (hvalid : es.mapM SwarmEvent.validate = some vs) (term : NodeEvent → Term)
    {turns : List HandlerRegistry.Turn} {s : HandlerRegistry.State} (h : History turns s)
    {node pid : Pid} {eventType : String}
    (hcasts : (messages turns).filter (isCastOf node)
      = casts node term (handleAll (es.flatMap (sent .full))).passed)
    (hlistens : Listens node eventType pid (messages turns)) :
    received pid eventType (effects turns)
      = ((vs.flatMap SwarmEvent.meaning).filter fun event ↦ eventTypeFor event = eventType).map
        term := by
  rw [received_history h, dueAll_of_listens hlistens, ← dispatched_filter, hcasts,
    handleAll_run hvalid, dispatched_casts]

/-! ### Two connections

A process registers for new connections. There are two with one peer, and another event between
them. -/

theorem foldl_meaning_casts {node : Pid} {ms : List HandlerRegistry.Message}
    (h : ∀ m ∈ ms, isCastOf node m = true) (r : HandlerRegistry.Registrations) :
    ms.foldl (fun r m ↦ m.meaning r) r = r := by
  induction ms generalizing r with
  | nil => rfl
  | cons m ms ih =>
    obtain ⟨hm, hms⟩ := List.forall_mem_cons.mp h
    rw [List.foldl_cons, ih hms]
    cases m with
    | dispatch topic event => rfl
    | _ => cases hm

theorem listens_of_register {node : Pid} {ms : List HandlerRegistry.Message}
    (h : ∀ m ∈ ms, isCastOf node m = true) (pid : Pid) (eventType : String)
    (ref : HandlerRegistry.Ref) :
    Listens node eventType pid (.register ⟨node, eventType⟩ pid ref :: ms) := by
  intro before topic event after hms hevent
  cases before with
  | nil => cases (List.cons.inj hms).1
  | cons m before =>
    rw [List.cons_append] at hms
    obtain ⟨rfl, rfl⟩ := List.cons.inj hms
    rw [List.forall_mem_append, List.forall_mem_cons] at h
    obtain ⟨hbefore, hcast, -⟩ := h
    have hnode : topic.node = node := of_decide_eq_true hcast
    refine iff_of_true ?_ hnode
    rw [registered, List.foldl_cons, foldl_meaning_casts hbefore, topic_eq_iff.mpr ⟨hevent, hnode⟩]
    simp [HandlerRegistry.Message.meaning]

theorem isCastOf_casts (node : Pid) (term : NodeEvent → Term) (events : List NodeEvent) :
    ∀ m ∈ casts node term events, isCastOf node m = true := by
  intro m hm
  obtain ⟨event, -, rfl⟩ := List.mem_map.mp hm
  exact decide_eq_true rfl

theorem history_dispatch {turns : List HandlerRegistry.Turn} {s : HandlerRegistry.State}
    (h : History turns s) (topic : Topic) (event : Term) :
    History (turns ++ [(.dispatch topic event,
      (s.entries topic).map fun entry ↦ .send entry.1 topic.event event)]) s :=
  h.step trivial rfl

def samplePeer : PeerId := ⟨List.replicate 40 49, by decide⟩

/-- A connection with its peer, its number and its end; of other events the kind. -/
def connectionTerm : NodeEvent → Term
  | .connectionEstablished peerId (.integer numEstablished) (.atom endpoint) =>
    .list [.binary peerId.id, .integer numEstablished, .atom endpoint]
  | event => .atom (eventTypeFor event)

def sampleEvents : List (SwarmEvent (List UInt8)) :=
  [.connectionEstablished samplePeer.id 1 true, .newListenAddr "/ip4/10.0.0.1" "1",
    .connectionEstablished samplePeer.id 2 false]

theorem handler_receives_sample :
    ∃ turns s, History turns s
      ∧ (messages turns).filter (isCastOf 1)
        = casts 1 connectionTerm (handleAll (sampleEvents.flatMap (sent .full))).passed
      ∧ received 5 "connection_established" (effects turns)
        = [.list [.binary samplePeer.id, .integer 1, .atom "dialer"],
          .list [.binary samplePeer.id, .integer 2, .atom "listener"]] := by
  have hstart : History
      [(.register ⟨1, "connection_established"⟩ 5 9, [.monitor 5 9, .reply .ok])] _ :=
    Server.History.init.step ⟨fun _ ↦ List.not_mem_nil, fun _ ↦ List.not_mem_nil⟩ rfl
  have hrun := history_dispatch (history_dispatch (history_dispatch hstart
    ⟨1, "connection_established"⟩ (.list [.binary samplePeer.id, .integer 1, .atom "dialer"]))
    ⟨1, "new_listen_addr"⟩ (.atom "new_listen_addr"))
    ⟨1, "connection_established"⟩ (.list [.binary samplePeer.id, .integer 2, .atom "listener"])
  have hlistens := listens_of_register (isCastOf_casts 1 connectionTerm
    (handleAll (sampleEvents.flatMap (sent .full))).passed) 5 "connection_established" 9
  exact ⟨_, _, hrun, rfl, handler_receives sampleEvents rfl connectionTerm hrun rfl hlistens⟩

end Events

end NervesP2P
