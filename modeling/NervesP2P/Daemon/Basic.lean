import NervesP2P.Discovery.Runs
import NervesP2P.Dist.Bindings
import NervesP2P.Lib.Channel

/-!
# The daemon

One task runs the select loop: it takes commands from the port, writes the events of the streams to
it, and every hundred milliseconds looks at the gossip. It owns the registry. The streams run in
tasks of their own, next to those that accept connections; with the loop they share the table of
`Shared` and the channel of events, which has 64 places and which only the loop empties.

A handler is cut where it awaits. Between two such points it is a method on the state of the daemon,
and `Main` says at which of them the loop is. `sync_dist_bindings` awaits nothing, but other tasks
read the table it writes, so it is a step of its own.

Connecting is special. `connect` runs inside the handler, and `install_stream` sends the first event
of the new stream from there. So while `Main` is `connecting`, the steps of that stream are steps of
the loop, and the loop is back only when the event is in the channel.
-/

namespace NervesP2P

/-- The number of places for events. -/
def eventQueue : ℕ := 64

/-! ## Commands

The text of an endpoint, an envelope or a payload is parsed inside the handler, and a handler may
have changed something before it gets there. So a `Command` carries what such a text parses to, or
that it does not parse, and a text that does not is a refusal of the handler and not of the
frame. -/

/-- Why a command is refused. -/
inductive HandleError where
  | discovery (error : Error)
  | dist (error : DistError)
  | invalidCapability
  | wrongTarget
  | unauthorizedSource
  | networkStarted
  | networkNotStarted
  | networkFailed
  deriving DecidableEq

def HandleError.toString : HandleError → String
  | .discovery error => error.toString
  | .dist error => error.toString
  | .invalidCapability => "invalid_capability"
  | .wrongTarget => "wrong_target"
  | .unauthorizedSource => "unauthorized_source"
  | .networkStarted => "network_started"
  | .networkNotStarted => "network_not_started"
  | .networkFailed => "network_failed"

/-- What a publication says of the node. -/
structure Draft where
  ttlMs : UInt64
  partisanIp : List.Vector UInt8 4
  partisanPort : NonZeroU16
  capabilities : Capabilities
  load : Load

/-- The commands of the port. A text that has to be parsed stands as what it parses to, and a frame
that is no command is answered without any effect. The options of `network_start` only say how peers
are found. -/
inductive Command (I : Iroh) where
  | identity
  | authorize (endpoint : Option I.EndpointId) (nodeName : Text)
  | networkStart
  | publish (draft : Except HandleError Draft)
  | ingest (envelope : Option (List UInt8)) (endpoint : Option I.EndpointId) (nodeName : Text)
  | find (predicates : Except HandleError (List Predicate))
  | distListen (nodeName : Text)
  | distConnect (fromNode targetNode : Text)
  | distSend (stream : UInt64) (bytes : Option (List UInt8))
  | distCredit (stream : UInt64) (bytes : ℕ)
  | distClose (stream : UInt64)
  | shutdown

inductive Response (I : Iroh) where
  | identity (endpoint : I.EndpointId)
  | authorized
  | networkStarted
  | published (sequence : UInt64) (envelope : List UInt8)
  | accepted
  | peers (peers : List (Peer I))
  | stream (id : UInt64)
  | done

/-! ## State -/

/-- What is left to do once the bindings are synchronised. -/
inductive Next where
  | tick
  | ingested
  | published (sequence : UInt64) (envelope : List UInt8)
  | find (predicates : Except HandleError (List Predicate))
  | listen (nodeName : Text)
  | connect (fromNode targetNode : Text)

/-- Where the loop is. The time is the one read when the command or the tick came in. -/
inductive Main where
  | selecting
  /-- Taking announcements from the gossip. -/
  | polling (now : UInt64) (next : Next)
  /-- About to synchronise the bindings. -/
  | syncing (now : UInt64) (next : Next)
  | synced (now : UInt64) (next : Next)
  | listening (nodeName : Text)
  | resolving (fromNode targetNode : Text)
  /-- Inside `connect`, for the stream at this place. -/
  | connecting (stream : ℕ)
  /-- `network_start` sets the transport up. -/
  | starting
  | broadcasting (sequence : UInt64) (envelope : List UInt8)
  | stopped

/-- A stream with its connection. The number is zero until `install_stream` gives it one. -/
structure Stream (I : Iroh) where
  /-- The authenticated key of the other end. -/
  remote : I.EndpointId
  id : UInt64
  side : Side

structure Daemon (I : Iroh) (S : Type) where
  nodeName : Text
  secret : I.SecretKey
  fleet : FleetId
  outbound : S
  registry : Registry I S
  /-- The table of the transport, once there is one. -/
  network : Option (Shared I)
  main : Main
  events : Channel (UInt64 × Event) eventQueue
  /-- In the order in which their connections came about. -/
  streams : List (Stream I)

namespace Daemon

variable {I : Iroh} {S : Type} [SequenceStore I S]

/-! ## Handlers

What a handler does up to the first point where it awaits is `handle`, and what it does after the
bindings are synchronised is `resume`. The two are methods on the whole state of the daemon, put
together from calls of the registry, of the outbound store and of single streams, so that an error
leaves behind whatever the calls before it have changed. -/

section Parts

variable {α : Type}

/-- The text of an endpoint, an envelope or a payload has to parse. -/
def parsed (value : Option α) : Method (Daemon I S) HandleError α :=
  match value with
  | some value => pure value
  | none => throw (.discovery .malformed)

def onRegistry (m : Method (Registry I S) Error α) : Method (Daemon I S) HandleError α :=
  (Method.zoom Daemon.registry (fun registry daemon ↦ { daemon with registry }) m).mapError
    .discovery

def onOutbound (m : Method S Error α) : Method (Daemon I S) HandleError α :=
  (Method.zoom Daemon.outbound (fun outbound daemon ↦ { daemon with outbound }) m).mapError
    .discovery

def onDist (m : Method (Shared I) DistError α) : Method (Daemon I S) HandleError α := do
  let daemon ← get
  match daemon.network with
  | none => throw .networkNotStarted
  | some shared =>
    (Method.zoom (fun _ ↦ shared) (fun shared daemon ↦ { daemon with network := some shared })
      m).mapError .dist

end Parts

/-- The loop goes to a point where it awaits. -/
def await (main : Main) : Method (Daemon I S) HandleError (Option (Response I)) := do
  modify fun daemon ↦ { daemon with main }
  pure none

/-- The loop answers and selects again. -/
def answer (response : Response I) : Method (Daemon I S) HandleError (Option (Response I)) := do
  modify fun daemon ↦ { daemon with main := .selecting }
  pure (some response)

/-- The gossip is looked at only when there is a network. -/
def poll (now : UInt64) (next : Next) : Method (Daemon I S) HandleError (Option (Response I)) := do
  let daemon ← get
  await (if daemon.network.isSome = true then .polling now next else .syncing now next)

/-- The side of a stream; where there is none, one without an entry. -/
def side (daemon : Daemon I S) (i : ℕ) : Side :=
  match daemon.streams[i]? with
  | some stream => stream.side
  | none => .accepting

/-- A call on the stream of a number. -/
def onStream (id : UInt64) (m : Method Side DistError Unit) :
    Method (Daemon I S) HandleError (Option (Response I)) := do
  let daemon ← get
  Method.failIf (daemon.network.isNone = true) .networkNotStarted
  let i := daemon.streams.findIdx fun stream ↦ stream.id = id
  (Method.zoom (fun daemon ↦ daemon.side i) (fun side daemon ↦
    { daemon with streams := daemon.streams.modify i fun stream ↦ { stream with side } })
    m).mapError .dist
  pure (some .done)

def announcement (daemon : Daemon I S) (draft : Draft) (sequence : UInt64) : Announcement I where
  fleetId := daemon.fleet
  endpointId := I.publicKey daemon.secret
  nodeName := daemon.nodeName
  partisanIp := draft.partisanIp
  partisanPort := draft.partisanPort
  sequence := sequence
  ttlMs := draft.ttlMs
  capabilities := draft.capabilities
  load := draft.load

/-- A command, up to where its handler answers or awaits. -/
def handle (command : Command I) (now : UInt64) :
    Method (Daemon I S) HandleError (Option (Response I)) :=
  match command with
  | .identity => do
    let daemon ← get
    pure (some (.identity (I.publicKey daemon.secret)))
  | .authorize endpoint nodeName => do
    let endpoint ← parsed endpoint
    onRegistry (Registry.authorize endpoint nodeName)
    pure (some .authorized)
  | .networkStart => do
    let daemon ← get
    Method.failIf (daemon.network.isSome = true) .networkStarted
    await .starting
  | .publish draft => do
    let draft ← liftM draft
    let daemon ← get
    let sequence ← onOutbound (reserveNext (I.publicKey daemon.secret))
    let envelope ← liftM ((signAnnouncement (daemon.announcement draft sequence)
      daemon.secret).mapError HandleError.discovery)
    onRegistry (Registry.receive envelope now)
    await (.syncing now (.published sequence envelope))
  | .ingest envelope endpoint nodeName => do
    let endpoint ← parsed endpoint
    onRegistry (Registry.authorize endpoint nodeName)
    let envelope ← parsed envelope
    onRegistry (Registry.receive envelope now)
    await (.syncing now .ingested)
  | .find predicates => poll now (.find predicates)
  | .distListen nodeName => do
    let daemon ← get
    Method.failIf (nodeName ≠ daemon.nodeName) .wrongTarget
    poll now (.listen nodeName)
  | .distConnect fromNode targetNode => do
    let daemon ← get
    Method.failIf (fromNode ≠ daemon.nodeName) .unauthorizedSource
    poll now (.connect fromNode targetNode)
  | .distSend stream bytes => do
    let bytes ← parsed bytes
    onStream stream (Side.send bytes)
  | .distCredit stream bytes => onStream stream (Side.credit bytes)
  | .distClose stream => onStream stream Side.close
  | .shutdown => do
    modify fun daemon ↦ { daemon with main := .stopped }
    pure (some .done)

def syncDistBindings (order : HashOrder (ActiveRecord I)) (now : UInt64) (instant : ℕ)
    (daemon : Daemon I S) : Daemon I S :=
  match daemon.network with
  | none => daemon
  | some shared =>
    match (Registry.bindings order now).call daemon.registry with
    | (.ok bindings, registry) =>
      { daemon with registry, network := some (shared.replaceBindings bindings instant) }
    -- the query does not fail
    | (.error _, registry) => { daemon with registry }

/-- A handler after it has synchronised the bindings. -/
def resume (order : HashOrder (ActiveRecord I)) (now : UInt64) (next : Next) :
    Method (Daemon I S) HandleError (Option (Response I)) :=
  match next with
  | .tick => await .selecting
  | .ingested => answer .accepted
  | .published sequence envelope => do
    let daemon ← get
    if daemon.network.isSome = true then await (.broadcasting sequence envelope)
    else answer (.published sequence envelope)
  | .find predicates => do
    let predicates ← liftM predicates
    let peers ← onRegistry (Registry.find order predicates now)
    answer (.peers peers)
  | .listen nodeName => await (.listening nodeName)
  | .connect fromNode targetNode => await (.resolving fromNode targetNode)

/-- What the loop may do next, as far as it has the state of the daemon to itself. -/
inductive Turn (daemon : Daemon I S) : Method (Daemon I S) HandleError (Option (Response I)) → Prop
  | command (command : Command I) (now : UInt64) (h : daemon.main = .selecting) :
      Turn daemon (handle command now)
  /-- Before a command is handled, the peers found on the local network are joined. -/
  | joinFails (h : daemon.main = .selecting) (hnetwork : daemon.network.isSome = true) :
      Turn daemon (throw .networkFailed)
  | tick (now : UInt64) (h : daemon.main = .selecting) : Turn daemon (poll now .tick)
  /-- The port closed its end. -/
  | eof (h : daemon.main = .selecting) : Turn daemon (await .stopped)
  /-- Whether an announcement is accepted makes no difference. -/
  | received (envelope : List UInt8) {now : UInt64} {next : Next}
      (h : daemon.main = .polling now next) :
      Turn daemon do
        modify fun daemon ↦
          { daemon with registry := (Registry.receive envelope now).after daemon.registry }
        pure none
  | polled {now : UInt64} {next : Next} (h : daemon.main = .polling now next) :
      Turn daemon (await (.syncing now next))
  /-- A tick does not care. -/
  | pollFails {now : UInt64} {next : Next} (h : daemon.main = .polling now next)
      (hnext : next ≠ .tick) : Turn daemon (throw .networkFailed)
  | resume (order : HashOrder (ActiveRecord I)) {now : UInt64} {next : Next}
      (h : daemon.main = .synced now next) : Turn daemon (resume order now next)
  | started (h : daemon.main = .starting) :
      Turn daemon do
        modify fun daemon ↦ { daemon with network := some .new }
        answer .networkStarted
  /-- A transport that failed to start has a table in which nobody listens. -/
  | startFails (h : daemon.main = .starting) {error : HandleError}
      (herror : error = .networkFailed ∨ error = .discovery .malformed) :
      Turn daemon (throw error)
  | broadcast {sequence : UInt64} {envelope : List UInt8}
      (h : daemon.main = .broadcasting sequence envelope) :
      Turn daemon (answer (.published sequence envelope))
  | broadcastFails {sequence : UInt64} {envelope : List UInt8}
      (h : daemon.main = .broadcasting sequence envelope) : Turn daemon (throw .networkFailed)

end Daemon

/-! ## Steps

A step is one turn of the loop or one step of a stream, and `Label` keeps what later statements ask
of the past: answers and events that go to the port, names listened to, synchronisations, headers
that were checked, and the steps of the streams with the place at which they happened. -/

/-- The event that a task waits to send. The loop holds the receiving end of the channel, so that
sending does not fail while the daemon runs. -/
def Task.waits : Task → Option Event
  | .installing opening => some opening.event
  | .crediting length => some (.credit length)
  | .emitting bytes => some (.data bytes)
  | .reporting reason => some (.closed reason)
  | _ => none

/-- What is seen of a step. -/
inductive Label (I : Iroh) where
  | answered (answer : Except HandleError (Response I))
  /-- The loop writes an event to the port. -/
  | drained (event : UInt64 × Event)
  | synced (now : UInt64) (instant : ℕ)
  /-- `dist_listen` has succeeded. -/
  | listened (nodeName : Text)
  /-- A header has passed the check of `accept`. -/
  | checked (stream : ℕ) (header : Header) (instant : ℕ)
  /-- The task of a stream, or its acceptor, makes a step. -/
  | moved (stream : ℕ) (action : Action)

namespace Daemon

variable {I : Iroh} {S : Type} [SequenceStore I S]

def answers : Option (Response I) → List (Label I)
  | some response => [.answered (.ok response)]
  | none => []

/-- Where the loop is after a step of a stream: if it was connecting that stream, it goes on when
the stream has sent its first event, or has failed. -/
def settle (daemon : Daemon I S) (i : ℕ) (stream : Stream I) : Main × List (Label I) :=
  match daemon.main with
  | .connecting j =>
    if j = i then
      match stream.side.task with
      | .connecting _ _ | .installing _ => (.connecting j, [])
      | .ended => (.selecting, [.answered (.error (.dist .connectionFailed))])
      | _ => (.selecting, [.answered (.ok (.stream stream.id))])
    else (.connecting j, [])
  | main => (main, [])

/-- The daemon after a step of a stream. -/
def put (daemon : Daemon I S) (i : ℕ) (stream : Stream I) : Daemon I S :=
  { daemon with streams := daemon.streams.set i stream, main := (daemon.settle i stream).1 }

inductive Step : Daemon I S → List (Label I) → Daemon I S → Prop
  | returns {d d' : Daemon I S} {m : Method (Daemon I S) HandleError (Option (Response I))}
      {response : Option (Response I)} (hturn : d.Turn m) (h : m.Returns d response d') :
      Step d (answers response) d'
  | fails {d d' : Daemon I S} {m : Method (Daemon I S) HandleError (Option (Response I))}
      {error : HandleError} (hturn : d.Turn m) (h : m.Fails d error d') :
      Step d [.answered (.error error)] { d' with main := .selecting }
  | drains {d : Daemon I S} {event : UInt64 × Event} {events : Channel (UInt64 × Event) eventQueue}
      (hmain : d.main = .selecting) (h : d.events.Takes [event] events) :
      Step d [.drained event] { d with events }
  | syncs {d : Daemon I S} {now : UInt64} {next : Next} (order : HashOrder (ActiveRecord I))
      (instant : ℕ) (hmain : d.main = .syncing now next) :
      Step d [.synced now instant]
        { d.syncDistBindings order now instant with main := .synced now next }
  | listens {d d' : Daemon I S} {nodeName : Text} (hmain : d.main = .listening nodeName)
      (h : (onDist (Shared.listen nodeName)).Returns d () d') :
      Step d [.listened nodeName, .answered (.ok .done)] { d' with main := .selecting }
  | listenFails {d d' : Daemon I S} {nodeName : Text} {error : HandleError}
      (hmain : d.main = .listening nodeName)
      (h : (onDist (Shared.listen nodeName)).Fails d error d') :
      Step d [.answered (.error error)] { d' with main := .selecting }
  | resolves {d d' : Daemon I S} {fromNode targetNode : Text} {instant : ℕ} {e : I.EndpointId}
      (hmain : d.main = .resolving fromNode targetNode)
      (h : (onDist (Shared.resolve fromNode targetNode instant)).Returns d e d') :
      Step d []
        { d' with
          main := .connecting d.streams.length
          streams := d.streams ++ [⟨e, 0, .connecting fromNode targetNode⟩] }
  | resolveFails {d d' : Daemon I S} {fromNode targetNode : Text} {instant : ℕ}
      {error : HandleError} (hmain : d.main = .resolving fromNode targetNode)
      (h : (onDist (Shared.resolve fromNode targetNode instant)).Fails d error d') :
      Step d [.answered (.error error)] { d' with main := .selecting }
  /-- A connection comes in. -/
  | incoming {d : Daemon I S} (remote : I.EndpointId) :
      Step d [] { d with streams := d.streams ++ [⟨remote, 0, .accepting⟩] }
  /-- A step of a task that does not wait for a place in the channel. -/
  | moves {d : Daemon I S} {i : ℕ} {stream : Stream I} {action : Action} {side : Side}
      (hstream : d.streams[i]? = some stream) (hcall : action.isCall = false)
      (hwaits : stream.side.task.waits = none) (h : stream.side.Step action side)
      (hinstalls : ∀ opening, side.task ≠ .installing opening) :
      Step d (.moved i action :: (d.settle i { stream with side }).2) (d.put i { stream with side })
  /-- The header is written, and `install_stream` gives the stream its number. -/
  | connected {d : Daemon I S} {i : ℕ} {stream : Stream I} {target : Text} {shared : Shared I}
      (hstream : d.streams[i]? = some stream) (hnetwork : d.network = some shared)
      (htask : stream.side.task = .connecting [] target) :
      Step d [.moved i .quiet]
        { d.put i { stream with
            id := shared.nextId, side := stream.side.install (.connected target) } with
          network := some shared.takeId }
  /-- The header has been read and passes the check. -/
  | allowed {d : Daemon I S} {i : ℕ} {stream : Stream I} {header : Header} {shared : Shared I}
      {instant : ℕ} (hstream : d.streams[i]? = some stream) (hnetwork : d.network = some shared)
      (htask : stream.side.task = .accepting (.done (.ok header)))
      (hallows : shared.allows header stream.remote instant = true) :
      Step d [.checked i header instant, .moved i .quiet]
        { d.put i { stream with
            id := shared.nextId
            side := stream.side.install (.incoming header.fromNode header.targetNode) } with
          network := some shared.takeId }
  /-- A task sends the event it waits to send. -/
  | emits {d : Daemon I S} {i : ℕ} {stream : Stream I} {event : Event} {side : Side}
      {events : Channel (UInt64 × Event) eventQueue} (hstream : d.streams[i]? = some stream)
      (h : stream.side.Step (.emitted event) side)
      (hputs : d.events.Puts [(stream.id, event)] events) :
      Step d (.moved i (.emitted event) :: (d.settle i { stream with side }).2)
        { d.put i { stream with side } with events }

/-- The daemon as `main` sets it up. -/
def start (nodeName : Text) (secret : I.SecretKey) (fleet : FleetId) (outbound inbound : S) :
    Except Error (Daemon I S) := do
  let authorization ← AuthorizationTable.new [(I.publicKey secret, nodeName)]
  pure {
    nodeName, secret, fleet, outbound
    registry := (Registry.new fleet authorization inbound).withEnrollmentPolicy .signedFleet
    network := none
    main := .selecting
    events := .empty
    streams := [] }

/-- The runs of a daemon, with what was seen of them. -/
inductive Path (d : Daemon I S) : List (Label I) → Daemon I S → Prop
  | refl : Path d [] d
  | tail {trace labels : List (Label I)} {d' d'' : Daemon I S} (h : Path d trace d')
      (hstep : d'.Step labels d'') : Path d (trace ++ labels) d''

end Daemon

end NervesP2P
