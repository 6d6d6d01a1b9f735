import NervesP2P.Dist.Agreement
import NervesP2P.Dist.Input

/-!
# Received data at the end of a stream

An event of the daemon goes through the port to the listener, and from there to the controller of
its stream. Until a controller is bound, the listener keeps the events of the stream, newest first,
and hands them over in order when it is. So the way is a queue, in three parts, and the last thing
in it is the event that the stream is closed.

## The stream is gone before its data is handled

When the remote end finishes, the task takes the stream out of the table at once, while data it has
reported may still be on its way. The controller gives credit back for each piece of data it
handles, and a daemon that no longer knows the stream refuses that. The controller leaves then, with
whatever data is still on its way. A controller whose calls are all answered well does get to the
last event.
-/

namespace NervesP2P

/-! ## The way of an event

Three queues in a row, between the daemon and the port, at the listener, and in the mailbox of the
controller. `flight` joins them, and each of the three moves leaves it as it is, but for what comes
in at its end. -/

/-- The first event of an incoming stream, which goes to the acceptor. -/
def Event.isIncoming : Event → Bool
  | .incoming _ _ => true
  | _ => false

/-- The events that concern the controller. -/
def forwarded (events : List Event) : List Event := events.filter fun event ↦ !event.isIncoming

def dataOf (events : List Event) : List UInt8 := events.flatMap fun
  | .data bytes => bytes
  | _ => []

@[simp] theorem forwarded_append (e f : List Event) :
    forwarded (e ++ f) = forwarded e ++ forwarded f := List.filter_append _ _

@[simp] theorem dataOf_append (e f : List Event) : dataOf (e ++ f) = dataOf e ++ dataOf f :=
  List.flatMap_append

theorem dataOf_forwarded (events : List Event) : dataOf (forwarded events) = dataOf events := by
  induction events with
  | nil => rfl
  | cons event events ih =>
    rw [← List.singleton_append, forwarded_append, dataOf_append, dataOf_append, ih]
    cases event <;> rfl

/-- Where the events of a stream are that no controller has handled. -/
structure Route where
  /-- Emitted by the daemon, and not yet relayed by the port. -/
  port : List Event
  /-- Kept by the listener, newest first. -/
  pending : List Event
  /-- The listener knows the controller. -/
  bound : Bool
  mailbox : List Event
  /-- Nothing is kept for a controller that is known. -/
  kept : bound = true → pending = []

namespace Route

def emit (events : List Event) (route : Route) : Route :=
  { route with port := route.port ++ events }

/-- The port relays an event to the listener, which hands it on or keeps it. -/
def relay (event : Event) (rest : List Event) (route : Route) : Route :=
  if event.isIncoming = true then { route with port := rest }
  else if h : route.bound = true then
    { route with port := rest, mailbox := route.mailbox ++ [event] }
  else
    { route with
      port := rest
      pending := event :: route.pending
      kept := fun hbound ↦ absurd hbound h }

/-- The listener learns of the controller. -/
def bind (route : Route) : Route :=
  { route with
    bound := true
    mailbox := route.mailbox ++ route.pending.reverse
    pending := []
    kept := fun _ ↦ rfl }

/-- The events on their way, oldest first. -/
def flight (route : Route) : List Event :=
  route.mailbox ++ route.pending.reverse ++ forwarded route.port

theorem flight_emit (events : List Event) (route : Route) :
    (route.emit events).flight = route.flight ++ forwarded events := by
  simp [flight, emit]

theorem flight_relay {event : Event} {rest : List Event} {route : Route}
    (h : route.port = event :: rest) : (route.relay event rest).flight = route.flight := by
  rw [relay]
  by_cases hincoming : event.isIncoming = true
  · rw [if_pos hincoming]
    simp [flight, forwarded, h, hincoming]
  rw [if_neg hincoming]
  by_cases hbound : route.bound = true
  · rw [dif_pos hbound]
    simp [flight, forwarded, h, hincoming, route.kept hbound]
  · rw [dif_neg hbound]
    simp [flight, forwarded, h, hincoming]

theorem flight_bind (route : Route) : route.bind.flight = route.flight := by
  simp [flight, bind]

end Route

/-! ## The system

The same parts as where the credit is counted, with the way of the events in place of one queue. The
runs have the turns of the controller and the events of the daemon in their type, since the result
compares these two lists. -/

/-- A controller with its port call, the events on their way to it, and the daemon's side of the
stream. -/
structure Connection where
  controller : Controller
  relay : Relay
  /-- Requests that the controller has given up, and the daemon has still to run. -/
  late : List PortRequest
  route : Route
  side : Side

namespace Connection

def after (reaction : Reaction) (s : Connection) : Connection :=
  { s with controller := reaction.state, relay := .ofRequest reaction.request }

/-- The steps of a connection, with the turn of the controller and the events of the daemon. -/
inductive Step (s : Connection) : List Turn → List Event → Connection → Prop
  -- turns of the controller
  | event {event : Event} {mailbox : List Event} {reaction : Reaction}
      (hmailbox : s.route.mailbox = event :: mailbox)
      (hturn : s.controller.Turns (.received (.event event)) reaction) :
      Step s [⟨s.controller, .received (.event event), reaction⟩] []
        { s.after reaction with route := { s.route with mailbox } }
  | input {input : ControllerInput} {reaction : Reaction} (hinput : ∀ event, input ≠ .event event)
      (hturn : s.controller.Turns (.received input) reaction) :
      Step s [⟨s.controller, .received input, reaction⟩] [] (s.after reaction)
  | pulled {data : Option (ℕ × List UInt8)} {reaction : Reaction}
      (hturn : s.controller.Turns (.pulled data) reaction) :
      Step s [⟨s.controller, .pulled data, reaction⟩] [] (s.after reaction)
  | answered {request : PortRequest} {answer : Answer} {reaction : Reaction}
      (hrelay : s.relay = .answered request answer)
      (hturn : s.controller.Turns (.answered answer) reaction) :
      Step s [⟨s.controller, .answered answer, reaction⟩] [] (s.after reaction)
  -- calls
  | execute {request : PortRequest} {side : Side} (hrelay : s.relay = .asked request)
      (hcall : request.call.Returns s.side () side) :
      Step s [] [] { s with relay := .answered request .ok, side }
  | refuse {request : PortRequest} {error : DistError} {side : Side}
      (hrelay : s.relay = .asked request) (hcall : request.call.Fails s.side error side) :
      Step s [] [] { s with relay := .answered request (.error error), side }
  /-- The daemon has no network, or cannot read the request. -/
  | fail {request : PortRequest} (hrelay : s.relay = .asked request) :
      Step s [] [] { s with relay := .answered request .failed }
  /-- The port answers in the daemon's place, which gets to the request later. -/
  | timeout {request : PortRequest} (hrelay : s.relay = .asked request) :
      Step s [] [] { s with relay := .answered request .failed, late := s.late ++ [request] }
  | executeLate {request : PortRequest} {late : List PortRequest} {side : Side}
      (hlate : s.late = request :: late) (hcall : request.call.Returns s.side () side) :
      Step s [] [] { s with late, side }
  | refuseLate {request : PortRequest} {late : List PortRequest}
      (hlate : s.late = request :: late) :
      Step s [] [] { s with late }
  -- the daemon and the way of its events
  | daemon {action : Action} {side : Side} (hstep : s.side.Step action side)
      (hcall : action.isCall = false) :
      Step s [] (events [action]) { s with side, route := s.route.emit (events [action]) }
  | relay {event : Event} {rest : List Event} (hport : s.route.port = event :: rest) :
      Step s [] [] { s with route := s.route.relay event rest }
  | bind : Step s [] [] { s with route := s.route.bind }

/-- A controller that was just started for a stream that was just installed. -/
def start (opening : Opening) : Connection where
  controller := .start
  relay := .idle
  late := []
  route := ⟨[], [], false, [], fun _ ↦ rfl⟩
  side := Side.accepting.install opening

/-- The runs of a connection, with the turns of its controller and the events of the daemon. -/
inductive Run (opening : Opening) : List Turn → List Event → Connection → Prop
  | start : Run opening [] [] (start opening)
  | step {trace turns : List Turn} {emitted new : List Event} {s s' : Connection}
      (h : Run opening trace emitted s) (hstep : s.Step turns new s') :
      Run opening (trace ++ turns) (emitted ++ new) s'

theorem Run.controller {opening : Opening} {trace : List Turn} {emitted : List Event}
    {s : Connection} (h : Run opening trace emitted s) :
    (Controller.init initialCredit).Run trace s.controller := by
  induction h with
  | start => exact .start
  | step _ hstep ih =>
    cases hstep with
    | event _ hturn | input _ hturn | pulled hturn | answered _ hturn => exact ih.step hturn
    | execute | refuse | fail | timeout | executeLate | refuseLate | daemon | relay | bind =>
      rw [List.append_nil]
      exact ih

end Connection

/-! ## Events are handled in order

What is emitted joins the queue at its end and what is handled leaves it at its front. So at all
times the events that were handled, with those on their way, are the events that were emitted. -/

def Cause.event : Cause → List Event
  | .received (.event event) => [event]
  | _ => []

/-- The events that a controller has handled. -/
def handled (trace : List Turn) : List Event := trace.flatMap (·.cause.event)

@[simp] theorem handled_append (t u : List Turn) : handled (t ++ u) = handled t ++ handled u :=
  List.flatMap_append

theorem Cause.dataOf_event (cause : Cause) : dataOf cause.event = cause.data := by
  unfold Cause.event Cause.data
  split
  · next event =>
    cases event with
    | data bytes => exact List.append_nil bytes
    | _ => rfl
  · next hne =>
    split
    · next bytes => exact absurd rfl (hne (.data bytes))
    · rfl

theorem dataOf_handled (trace : List Turn) : dataOf (handled trace) = consumed trace := by
  induction trace with
  | nil => rfl
  | cons turn trace ih =>
    rw [← List.singleton_append, handled_append, dataOf_append, ih, consumed, consumed,
      List.flatMap_append, handled, List.flatMap_singleton, List.flatMap_singleton,
      Cause.dataOf_event]

namespace Connection

/-- A step keeps the queue: what is emitted joins it at its end, and what is handled leaves it at
its front. -/
theorem Step.flight {s s' : Connection} {turns : List Turn} {new : List Event}
    (h : s.Step turns new s') :
    s.route.flight ++ forwarded new = handled turns ++ s'.route.flight := by
  cases h with
  | event hmailbox hturn =>
    simp [Route.flight, hmailbox, handled, Cause.event, forwarded]
  | @input input reaction hinput hturn =>
    have hevent : (Cause.received input).event = [] := by
      cases input with
      | event event => exact absurd rfl (hinput event)
      | _ => rfl
    rw [handled, List.flatMap_singleton, hevent]
    exact List.append_nil _
  | pulled | answered | execute | refuse | fail | timeout | executeLate | refuseLate =>
    exact List.append_nil _
  | daemon => exact (Route.flight_emit _ _).symm
  | relay hport =>
    rw [Route.flight_relay hport]
    exact List.append_nil _
  | bind =>
    rw [Route.flight_bind]
    exact List.append_nil _

theorem Run.flight {opening : Opening} {trace : List Turn} {emitted : List Event}
    {s : Connection} (h : Run opening trace emitted s) :
    forwarded emitted = handled trace ++ s.route.flight := by
  induction h with
  | start => rfl
  | step _ hstep ih =>
    rw [forwarded_append, ih, handled_append, List.append_assoc, hstep.flight, List.append_assoc]

end Connection

/-! ## The last event

A task that reports its end has ended and emits nothing more. Hence nothing comes after the event
that the stream is closed, and once it is handled nothing is on its way. -/

namespace Side

theorem Step.of_ended {s s' : Side} {action : Action} (h : s.Step action s')
    (hended : s.task = .ended) : s'.task = .ended ∧ events [action] = [] := by
  cases h with
  | send h =>
    obtain ⟨-, entry, -, -, -, rfl⟩ := returns_send.mp h
    exact ⟨hended, rfl⟩
  | credit h =>
    obtain ⟨-, entry, -, -, -, rfl⟩ := returns_credit.mp h
    exact ⟨hended, rfl⟩
  | close h =>
    obtain ⟨-, -, rfl⟩ := returns_close.mp h
    exact ⟨hended, rfl⟩
  | writeHeader _ h | connected h | connectFailed h | readHeader _ _ h | allowed h | refused h
  | announce h | announceFails h | takeSend h | takeCredit h | takeClose h | noCommands h
  | write _ h | written h | writeFails h | replenish h | creditEvent h | creditEventFails h
  | readData _ _ h | readEnd _ h | readFails _ h | deduct h | dataEvent h | dataEventFails h
  | remove h | report h | reportFails h => exact absurd (hended.symm.trans h) (by simp)

theorem Step.ended_of_closed {s s' : Side} {action : Action} {reason : CloseReason}
    (h : s.Step action s') (hmem : .closed reason ∈ events [action]) : s'.task = .ended := by
  cases h with
  | report h => rfl
  | @announce opening h =>
    cases opening with
    | incoming _ _ | connected _ => cases List.mem_singleton.mp hmem
  | creditEvent | dataEvent => cases List.mem_singleton.mp hmem
  | _ => cases hmem

end Side

namespace Connection

/-- Nothing comes after the event that the stream is closed. -/
structure Final (emitted : List Event) (s : Connection) : Prop where
  ended : ∀ reason, .closed reason ∈ emitted → s.side.task = .ended
  last : ∀ first reason rest, emitted = first ++ .closed reason :: rest → rest = []

theorem Final.of_same {emitted : List Event} {s s' : Connection} (h : Final emitted s)
    (htask : s.side.task = .ended → s'.side.task = .ended) : Final (emitted ++ []) s' := by
  rw [List.append_nil]
  exact ⟨fun reason hmem ↦ htask (h.ended reason hmem), h.last⟩

theorem Final.step {emitted new : List Event} {turns : List Turn} {s s' : Connection}
    (h : Final emitted s) (hstep : s.Step turns new s') : Final (emitted ++ new) s' := by
  cases hstep with
  | event | input | pulled | answered | fail | timeout | refuseLate | relay | bind =>
    exact h.of_same id
  | execute hrelay hcall | executeLate hlate hcall =>
    refine h.of_same fun hended ↦ ?_
    exact ((PortRequest.step_of_returns hcall).of_ended hended).1
  | refuse hrelay hcall =>
    refine h.of_same fun hended ↦ ?_
    rw [PortRequest.unchanged_of_fails hcall]
    exact hended
  | @daemon action side hstep hcall =>
    by_cases hended : s.side.task = .ended
    · obtain ⟨hended', hnew⟩ := hstep.of_ended hended
      rw [hnew]
      exact h.of_same fun _ ↦ hended'
    have hopen : ∀ reason, .closed reason ∉ emitted := fun reason hmem ↦
      hended (h.ended reason hmem)
    refine ⟨?_, ?_⟩
    · intro reason hmem
      rcases List.mem_append.mp hmem with hmem | hmem
      · exact absurd hmem (hopen reason)
      · exact hstep.ended_of_closed hmem
    · intro first reason rest heq
      -- if another event is the last one, this one was there before
      rcases List.eq_nil_or_concat' rest with hnil | ⟨init, last, rfl⟩
      · exact hnil
      have hbefore : .closed reason ∈ emitted := by
        cases action with
        | emitted event =>
          rw [← List.cons_append, ← List.append_assoc] at heq
          rw [(List.append_inj' heq rfl).1]
          exact List.mem_append_right _ List.mem_cons_self
        | _ =>
          rw [← List.append_nil emitted]
          exact heq ▸ List.mem_append_right _ List.mem_cons_self
      exact absurd hbefore (hopen reason)

/-- Once the last event is handled, nothing is on its way. -/
theorem Final.eq_nil {emitted first rest : List Event} {s : Connection} {reason : CloseReason}
    (h : Final emitted s) (hmem : .closed reason ∈ first)
    (heq : forwarded emitted = first ++ rest) :
    rest = [] := by
  obtain ⟨before, after, rfl⟩ := List.append_of_mem hmem
  rw [List.append_assoc, forwarded] at heq
  obtain ⟨l₁, l₂, rfl, -, hl₂⟩ := List.filter_eq_append_iff.mp heq
  obtain ⟨l₃, l₄, rfl, -, -, hl₄⟩ := List.filter_eq_cons_iff.mp hl₂
  rw [h.last (l₁ ++ l₃) reason l₄ (List.append_assoc _ _ _).symm] at hl₄
  exact (List.append_eq_nil_iff.mp hl₄.symm).2

theorem Run.final {opening : Opening} {trace : List Turn} {emitted : List Event} {s : Connection}
    (h : Run opening trace emitted s) : Final emitted s := by
  induction h with
  | start =>
    exact ⟨fun _ hmem ↦ absurd hmem List.not_mem_nil, fun first reason rest h ↦ by simp at h⟩
  | step _ hstep ih => exact ih.step hstep

end Connection

/-! ## How a controller ends

A controller may leave for many reasons, and most of them are an answer that is an error. If all
turns are benign, what is left is the last event (`Turns.exited`), and the turn with which it has
left is the last one of the run. -/

/-- A turn that does not stop a controller: no answer is an error, and nobody asks it to leave or to
send a packet that is too long. -/
def Cause.Benign : Cause → Prop
  | .answered answer => answer = .ok
  | .received (.call _ .close) | .received .supervisorExit | .received .portDown => False
  | .received (.call _ (.send packet)) => (frame .two packet).isSome = true
  | _ => True

namespace Controller

variable {c : Controller}

theorem sendAvailable_goes_on (purpose : Purpose) (data : List UInt8) (c : Controller) :
    (c.sendAvailable purpose data).state.phase ≠ .exited := by
  rw [sendAvailable]
  split
  · rintro ⟨⟩
  · cases purpose <;> rintro ⟨⟩

theorem flushOutput_goes_on (c : Controller) : c.flushOutput.state.phase ≠ .exited := by
  rw [flushOutput]
  split
  · rintro ⟨⟩
  · split
    · exact sendAvailable_goes_on _ _ c
    · split
      · exact sendAvailable_goes_on _ _ c
      · split <;> rintro ⟨⟩

theorem answerSend_goes_on (purpose : Purpose) (size : ℕ) (rest : List UInt8) (c : Controller) :
    (c.answerSend purpose size rest .ok).state.phase ≠ .exited := by
  cases purpose with
  | handshake ref => rintro ⟨⟩
  | pending | tick =>
    simp only [answerSend]
    split
    · exact flushOutput_goes_on _
    · rintro ⟨⟩

theorem handleCall_goes_on (h : c.phase = .loop) {ref : ℕ} {call : ControllerCall}
    (hbenign : (Cause.received (.call ref call)).Benign) :
    (c.handleCall ref call).state.phase ≠ .exited := by
  have hloop : c.phase ≠ .exited := by rw [h]; rintro ⟨⟩
  cases call with
  | close => exact absurd hbenign id
  | supervisor | getstat | other => exact hloop
  | handshakeComplete => exact hloop
  | tick => exact flushOutput_goes_on _
  | send packet =>
    obtain ⟨data, hdata⟩ := Option.isSome_iff_exists.mp hbenign
    cases hmode : c.mode with
    | up =>
      simp only [handleCall, hmode]
      exact hloop
    | handshake =>
      simp only [handleCall, hmode, hdata, sendBytes]
      split <;> rintro ⟨⟩
  | recv =>
    cases hmode : c.mode with
    | up =>
      simp only [handleCall, hmode]
      exact hloop
    | handshake =>
      simp only [handleCall, hmode]
      split <;> exact hloop

/-- **A controller whose calls succeed leaves only with the last event.** -/
theorem Turns.exited {cause : Cause} {reaction : Reaction} (h : c.Turns cause reaction)
    (hexited : reaction.state.phase = .exited) (hbenign : cause.Benign) :
    ∃ reason, cause = .received (.event (.closed reason)) := by
  cases h with
  | pulled data hphase =>
    cases data with
    | none => cases hexited
    | some result => exact absurd hexited (flushOutput_goes_on _)
  | sent answer hphase =>
    rw [show answer = .ok from hbenign] at hexited
    exact absurd hexited (answerSend_goes_on _ _ _ c)
  | credited answer hphase =>
    rw [show answer = .ok from hbenign] at hexited
    cases hexited
  | received input hphase =>
    have hloop : c.phase ≠ .exited := by rw [hphase]; rintro ⟨⟩
    cases input with
    | call ref call => exact absurd hexited (handleCall_goes_on hphase hbenign)
    | cancelRecv ref | recvTimeout ref =>
      simp only [receive] at hexited
      split at hexited <;> exact absurd hexited hloop
    | event event =>
      cases event with
      | closed reason => exact ⟨reason, rfl⟩
      | credit bytes => exact absurd hexited (flushOutput_goes_on _)
      | data bytes => cases hexited
      | incoming _ _ | connected _ => exact absurd hexited hloop
    | distData => exact absurd hexited (flushOutput_goes_on _)
    | portDown | supervisorExit => exact absurd hbenign id
    | other => exact absurd hexited hloop

/-- The turn with which a controller has left is the last one of its run. -/
theorem Run.exited {credit : ℤ} {trace : List Turn} (h : (init credit).Run trace c)
    (hexited : c.phase = .exited) (hbenign : ∀ turn ∈ trace, turn.cause.Benign) :
    ∃ reason, .closed reason ∈ handled trace := by
  cases h with
  | start => cases hexited
  | @step trace c cause reaction h hturn =>
    have hmem : (⟨c, cause, reaction⟩ : Turn) ∈ trace ++ [⟨c, cause, reaction⟩] :=
      List.mem_append_right _ (List.mem_singleton_self _)
    obtain ⟨reason, rfl⟩ := hturn.exited hexited (hbenign _ hmem)
    exact ⟨reason, List.mem_flatMap.mpr ⟨_, hmem, List.mem_singleton_self _⟩⟩

end Controller

/-! ## Nothing is lost as long as calls succeed -/

namespace Connection

/-- **Data is consumed in order, and all of it before the controller leaves** when its calls were
answered well and nobody asked it to leave: it has then handled the event that closes the stream,
and the data that the daemon has reported is what it has framed, and the rest in its buffer. -/
theorem data_consumed_before_exit {opening : Opening} {trace : List Turn} {emitted : List Event}
    {s : Connection} (h : Run opening trace emitted s) :
    consumed trace <+: dataOf emitted
      ∧ (s.controller.phase = .exited → (∀ turn ∈ trace, turn.cause.Benign) →
        (∃ reason, .closed reason ∈ handled trace)
          ∧ ∃ two four, frames .two (packets (outputs trace)) = some two
            ∧ frames .four (payloads (outputs trace)) = some four
            ∧ dataOf emitted = two ++ four ++ s.controller.buffer) := by
  have hflight := h.flight
  have hdata : dataOf emitted = consumed trace ++ dataOf s.route.flight := by
    rw [← dataOf_forwarded, hflight, dataOf_append, dataOf_handled]
  refine ⟨⟨_, hdata.symm⟩, ?_⟩
  intro hexited hbenign
  obtain ⟨reason, hclosed⟩ := h.controller.exited hexited hbenign
  obtain ⟨two, four, htwo, hfour, hconsumed⟩ := h.controller.accounted.taken
  rw [h.final.eq_nil hclosed hflight] at hdata
  exact ⟨⟨reason, hclosed⟩, two, four, htwo, hfour,
    hdata.trans ((List.append_nil _).trans hconsumed)⟩

/-- A stream that has announced itself to a bound controller and reported one byte. -/
def sampleReported : Connection where
  controller := .start
  relay := .idle
  late := []
  route := ⟨[], [], true, [.data [7]], fun _ ↦ rfl⟩
  side :=
    { entry := some ⟨creditWindow, creditWindow - 1⟩
      commands := []
      task := .selecting
      receiveCredit := creditWindow - 1 }

theorem run_sampleReported : ∃ trace, Run (.connected sampleNode) trace
    [.connected sampleNode, .data [7]] sampleReported ∧ consumed trace = []
      ∧ ∀ turn ∈ trace, turn.cause = .received (.event (.connected sampleNode)) := by
  have h := (Run.start : Run (.connected sampleNode) _ _ _)
    |>.step .bind
    |>.step (.daemon (.announce rfl) rfl)
    |>.step (.relay rfl)
    |>.step (.event rfl (.received _ rfl))
    |>.step (.daemon (@Side.Step.readData _ [7] (by decide) (by decide) rfl) rfl)
    |>.step (.daemon (.deduct rfl) rfl)
    |>.step (.daemon (.dataEvent rfl) rfl)
    |>.step (.relay rfl)
  refine ⟨_, h, rfl, ?_⟩
  intro turn hmem
  obtain rfl := List.mem_singleton.mp hmem
  rfl

/-- Two bytes are reported and the remote end finishes. The stream is gone when the controller gives
back the credit for the first byte, and it leaves without the second. -/
theorem byte_lost_at_close : ∃ trace emitted s, Run (.connected sampleNode) trace emitted s
    ∧ s.controller.phase = .exited ∧ .closed .remoteClose ∈ emitted
    ∧ (∀ turn ∈ trace, turn.cause ≠ .received .supervisorExit
      ∧ ∀ ref, turn.cause ≠ .received (.call ref .close))
    ∧ consumed trace = [7] ∧ dataOf emitted = [7, 8] := by
  obtain ⟨trace, hrun, hconsumed, hcauses⟩ := run_sampleReported
  have hclosed := hrun
    |>.step (.daemon (@Side.Step.readData _ [8] (by decide) (by decide) rfl) rfl)
    |>.step (.daemon (.deduct rfl) rfl)
    |>.step (.daemon (.dataEvent rfl) rfl)
    |>.step (.daemon (.readEnd (by decide) rfl) rfl)
    |>.step (.daemon (.remove rfl) rfl)
    |>.step (.daemon (.report rfl) rfl)
  have hexited := hclosed
    |>.step (.event rfl (.received _ rfl))
    |>.step (@Step.refuse _ (.credit 1) .unknownStream _ rfl rfl)
    |>.step (.answered rfl (.credited (.error .unknownStream) rfl))
  refine ⟨_, _, _, hexited, rfl, by simp [events], ?_, ?_, rfl⟩
  · intro turn hmem
    simp only [List.append_nil, List.append_assoc, List.mem_append, List.mem_singleton] at hmem
    rcases hmem with hmem | rfl | rfl
    · rw [hcauses turn hmem]
      exact ⟨by simp, by simp⟩
    · exact ⟨by simp, by simp⟩
    · exact ⟨by simp, by simp⟩
  · rw [consumed] at hconsumed ⊢
    simp only [List.append_nil, List.flatMap_append, hconsumed]
    rfl

/-- The credit for the byte is given back in time, and the controller leaves with the last event. -/
theorem data_consumed_before_exit_sample : ∃ trace s, Run (.connected sampleNode) trace
    [.connected sampleNode, .data [7], .closed .remoteClose] s ∧ s.controller.phase = .exited
    ∧ (∃ reason, .closed reason ∈ handled trace)
    ∧ ∃ two four, frames .two (packets (outputs trace)) = some two
      ∧ frames .four (payloads (outputs trace)) = some four
      ∧ [7] = two ++ four ++ s.controller.buffer := by
  obtain ⟨trace, hrun, hconsumed, hcauses⟩ := run_sampleReported
  have hexited := hrun
    |>.step (.event rfl (.received _ rfl))
    |>.step (@Step.execute _ (.credit 1) _ rfl (Method.returns_after (by decide)))
    |>.step (.answered rfl (.credited .ok rfl))
    |>.step (.daemon (.takeCredit rfl rfl) rfl)
    |>.step (.daemon (.readEnd (by decide) rfl) rfl)
    |>.step (.daemon (.remove rfl) rfl)
    |>.step (.daemon (.report rfl) rfl)
    |>.step (.relay rfl)
    |>.step (.event rfl (.received _ rfl))
  refine ⟨_, _, hexited, rfl, (data_consumed_before_exit hexited).2 rfl ?_⟩
  intro turn hmem
  simp only [List.append_nil, List.append_assoc, List.mem_append, List.mem_singleton] at hmem
  rcases hmem with hmem | rfl | rfl | rfl
  · rw [hcauses turn hmem]
    trivial
  · trivial
  · rfl
  · trivial

end Connection

end NervesP2P
