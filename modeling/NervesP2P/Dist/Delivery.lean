import NervesP2P.Dist.Tunnel

/-!
# Packets from runtime to runtime

A controller first sends packets of the handshake, with their length in two bytes, and then packets
of the runtime, with their length in four. Nothing in the stream says where the change is: both ends
have to agree on the number of packets of the handshake, as the handshake of the runtimes does
(`InStep`). Then the packets that come out of a tunnel are those that have gone in.

## What has to be assumed

The handshake is a matter of the runtimes, and so is `InStep`. If the ends do not agree, packets
with two bytes of length are read as packets with four and nothing can be said of what comes out.
The other condition (`Regular`) is about each end alone. A handshake packet whose send was refused
is missing from the stream, although the controller goes on. And the runtime reports the length of
what it hands out, and the controller takes its word for it.

## The argument

Three queues in a row: what the controller has asked to send, what was written to the stream and
read from it, and what the controller at the other end has consumed. Each keeps its order, so what
was consumed at one end is a beginning of what was asked for at the other. Both are rows of whole
packets up to a rest, and the beginning of a row of packets is a row of packets.
-/

namespace NervesP2P

/-! ## The packets that go out

During the handshake nothing is flushed, and afterwards no handshake packet is sent. So a run asks
first for packets of the handshake and then for chunks of a connection that is up, and these chunks
begin a row of whole packets. A send that fails ends the run, unless it was one of the handshake. -/

/-- The packet of the handshake that a turn sends. -/
def Turn.spoken (turn : Turn) : List (List UInt8) :=
  match turn.cause, turn.reaction.request with
  | .received (.call _ (.send packet)), some (.send _) => [packet]
  | _, _ => []

def spoken (trace : List Turn) : List (List UInt8) := trace.flatMap Turn.spoken

theorem Reaction.asked_eq_chunk {reaction : Reaction}
    (h : ∀ chunk, reaction.request = some (.send chunk) → reaction.state.mode = .up) :
    reaction.asked = reaction.chunk := by
  unfold Reaction.asked Reaction.chunk
  cases hrequest : reaction.request with
  | none => rfl
  | some request =>
    cases request with
    | send chunk => rw [h chunk hrequest]
    | credit bytes | close => rfl

namespace Controller

variable {c : Controller} {cause : Cause} {reaction : Reaction}

theorem mode_sendAvailable (purpose : Purpose) (data : List UInt8) (c : Controller) :
    (c.sendAvailable purpose data).state.mode = c.mode := by
  rw [sendAvailable]
  split
  · rfl
  · cases purpose <;> rfl

theorem asked_flushOutput (c : Controller) : c.flushOutput.asked = c.flushOutput.chunk := by
  apply Reaction.asked_eq_chunk
  intro chunk hrequest
  rw [flushOutput] at hrequest ⊢
  split at hrequest
  · cases hrequest
  · next hmode =>
    have hup : c.mode = .up := by
      cases h : c.mode with
      | handshake => exact absurd h hmode
      | up => rfl
    rw [if_neg hmode]
    split
    · rw [mode_sendAvailable, hup]
    · split
      · rw [mode_sendAvailable, hup]
      · split <;> exact hup

/-- A turn sends a packet of the handshake, or a chunk over a connection that is up, or nothing. -/
theorem Turns.spoken (h : c.Turns cause reaction) :
    (∃ packet data, (⟨c, cause, reaction⟩ : Turn).spoken = [packet]
      ∧ frame .two packet = some data ∧ reaction.asked = data ∧ c.mode = .handshake
      ∧ reaction.state.mode = .handshake)
    ∨ (⟨c, cause, reaction⟩ : Turn).spoken = [] ∧ reaction.asked = reaction.chunk := by
  cases h with
  | pulled data hphase =>
    refine Or.inr ⟨rfl, ?_⟩
    cases data with
    | none => rfl
    | some result => exact asked_flushOutput _
  | credited answer hphase => cases answer <;> exact Or.inr ⟨rfl, rfl⟩
  | @sent purpose size rest answer hphase =>
    refine Or.inr ⟨rfl, ?_⟩
    cases answer with
    | error | failed => cases purpose <;> rfl
    | ok =>
      cases purpose with
      | handshake ref => rfl
      | pending | tick =>
        simp only [answerSend]
        split
        · exact asked_flushOutput _
        · rfl
  | received input hphase =>
    cases input with
    | event event =>
      cases event with
      | credit bytes => exact Or.inr ⟨rfl, asked_flushOutput _⟩
      | data | closed | incoming | connected => exact Or.inr ⟨rfl, rfl⟩
    | cancelRecv | portDown | supervisorExit | other => exact Or.inr ⟨rfl, rfl⟩
    | recvTimeout ref =>
      refine Or.inr ⟨rfl, ?_⟩
      simp only [receive]
      split <;> rfl
    | distData => exact Or.inr ⟨rfl, asked_flushOutput _⟩
    | call ref call =>
      cases call with
      | supervisor | getstat | close | other | handshakeComplete => exact Or.inr ⟨rfl, rfl⟩
      | tick => exact Or.inr ⟨rfl, asked_flushOutput { c with tickPending := true }⟩
      | recv =>
        refine Or.inr ⟨rfl, ?_⟩
        cases hmode : c.mode with
        | up =>
          simp only [receive, handleCall, hmode]
          rfl
        | handshake =>
          simp only [receive, handleCall, hmode]
          split <;> rfl
      | send packet =>
        cases hmode : c.mode with
        | up =>
          refine Or.inr ?_
          simp only [receive, handleCall, hmode]
          exact ⟨rfl, rfl⟩
        | handshake =>
          simp only [receive, handleCall, hmode]
          cases hframe : frame .two packet with
          | none => exact Or.inr ⟨rfl, rfl⟩
          | some data =>
            simp only [sendBytes]
            split
            · exact Or.inl ⟨packet, data, rfl, hframe, rfl, trivial, hmode⟩
            · exact Or.inr ⟨rfl, rfl⟩

/-- What was asked for in a run: the packets of the handshake, then the chunks of a connection that
is up. -/
structure Spoken (trace : List Turn) (c : Controller) : Prop where
  handshake : c.mode = .handshake → sentUp trace = []
  parts : ∃ two, frames .two (spoken trace) = some two ∧ asked trace = two ++ sentUp trace

theorem Run.spoken {credit : ℤ} {trace : List Turn} (h : (init credit).Run trace c) :
    Spoken trace c := by
  induction h with
  | start => exact ⟨fun _ ↦ rfl, [], rfl, rfl⟩
  | @step trace c cause reaction h hturn ih =>
    obtain ⟨two, htwo, hasked⟩ := ih.parts
    have hup : c.mode = .up → reaction.state.mode = .up := fun hmode ↦
      ((hturn.handles h.accounted.served).up hmode).2
    have hsentUp : sentUp (trace ++ [⟨c, cause, reaction⟩]) = sentUp trace ++ reaction.chunk := by
      rw [sentUp, List.flatMap_append, List.flatMap_singleton, ← sentUp]
    have hspoken : NervesP2P.spoken (trace ++ [⟨c, cause, reaction⟩])
        = NervesP2P.spoken trace ++ (⟨c, cause, reaction⟩ : Turn).spoken := by
      rw [NervesP2P.spoken, List.flatMap_append, List.flatMap_singleton, ← NervesP2P.spoken]
    have hasked' : asked (trace ++ [⟨c, cause, reaction⟩]) = asked trace ++ reaction.asked := by
      rw [asked, List.flatMap_append, List.flatMap_singleton, ← asked]
    have hquiet : reaction.state.mode = .handshake → reaction.chunk = [] := by
      intro hmode
      unfold Reaction.chunk
      rw [hmode]
      split
      · next heq => cases heq
      · rfl
    have hhandshake : reaction.state.mode = .handshake → sentUp trace ++ reaction.chunk = [] := by
      intro hmode
      have hbefore : c.mode = .handshake := by
        cases hc : c.mode with
        | handshake => rfl
        | up => exact absurd (hmode.symm.trans (hup hc)) (by simp)
      rw [ih.handshake hbefore, hquiet hmode, List.append_nil]
    refine ⟨fun hmode ↦ hsentUp.trans (hhandshake hmode), ?_⟩
    rw [hspoken, hasked', hsentUp, hasked]
    rcases hturn.spoken with ⟨packet, data, hpacket, hframe, hdata, hbefore, hafter⟩ | ⟨hnone, hup⟩
    · refine ⟨two ++ data, ?_, ?_⟩
      · rw [hpacket]
        exact frames_append htwo (frames_singleton hframe)
      · rw [hhandshake hafter, ih.handshake hbefore, hdata, List.append_nil, List.append_nil]
    · refine ⟨two, ?_, ?_⟩
      · rw [hnone, List.append_nil]
        exact htwo
      · rw [hup, List.append_assoc]

theorem Run.sendsAccepted_or {credit : ℤ} {trace : List Turn} (h : (init credit).Run trace c)
    (haccepted : HandshakeAccepted trace) :
    SendsAccepted trace
      ∨ c.phase = .exited ∧ ∃ before c' answer, (init credit).Run before c' ∧ SendsAccepted before
        ∧ trace = before ++ [⟨c', .answered answer, c'.exit⟩] := by
  induction h with
  | start => exact Or.inl fun _ hmem ↦ absurd hmem List.not_mem_nil
  | @step trace c cause reaction h hturn ih =>
    have hlast := haccepted _ (List.mem_append_right _ (List.mem_singleton_self _))
    rcases ih fun turn hmem ↦ haccepted turn (List.mem_append_left _ hmem) with hok | ⟨hexited, -⟩
    · by_cases hturn_ok : ∀ purpose size rest answer, c.phase = .sending purpose size rest →
          cause = .answered answer → answer = .ok
      · left
        intro turn hmem
        rcases List.mem_append.mp hmem with hmem | hmem
        · exact hok turn hmem
        · rw [List.mem_singleton.mp hmem]
          exact hturn_ok
      · right
        push Not at hturn_ok
        obtain ⟨purpose, size, rest, answer, hphase, rfl, hanswer⟩ := hturn_ok
        have hexits : reaction = c.exit := by
          cases hturn with
          | credited _ hphase' => exact absurd (hphase.symm.trans hphase') (by simp)
          | sent _ hphase' =>
            rw [hphase, Phase.sending.injEq] at hphase'
            obtain ⟨rfl, rfl, rfl⟩ := hphase'
            cases purpose with
            | handshake ref => exact absurd (hlast ref _ _ answer hphase rfl) hanswer
            | pending | tick =>
              cases answer with
              | ok => exact absurd rfl hanswer
              | error | failed => rfl
        subst hexits
        exact ⟨rfl, trace, c, answer, h, hok, rfl⟩
    · cases hturn with
      | received _ hphase | pulled _ hphase | sent _ hphase | credited _ hphase =>
        exact absurd (hphase.symm.trans hexited) (by simp)

/-- The chunks of a connection that is up begin a row of whole packets. -/
theorem Run.framed_le {credit : ℤ} (hcredit : 0 ≤ credit) {trace : List Turn}
    (h : (init credit).Run trace c) (haccepted : HandshakeAccepted trace) :
    ∃ joined : List OutFrame, sentUp trace <+: joined.flatMap OutFrame.bytes
      ∧ joined.filterMap OutFrame.result = pulled trace
      ∧ joined.countP OutFrame.isTick ≤ tickCalls trace
      ∧ (c.phase ≠ .exited → sentUp trace ++ c.unsent = joined.flatMap OutFrame.bytes) := by
  rcases h.sendsAccepted_or haccepted with hok | ⟨hexited, before, c', answer, hrun, hok, rfl⟩
  · obtain ⟨joined, hjoined, hresults, hticks⟩ := (h.framed hcredit hok).joined
    exact ⟨joined, ⟨_, hjoined⟩, hresults, by omega, fun _ ↦ hjoined⟩
  · obtain ⟨joined, hjoined, hresults, hticks⟩ := (hrun.framed hcredit hok).joined
    refine ⟨joined, ?_, ?_, ?_, fun hgoes ↦ absurd hexited hgoes⟩
    · rw [sentUp, List.flatMap_append, ← sentUp, List.flatMap_singleton]
      exact ⟨c'.unsent, by rw [← hjoined]; exact congrArg (· ++ _) (List.append_nil _)⟩
    · rw [hresults, pulled, pulled, List.flatMap_append]
      exact (List.append_nil _).symm
    · have hcalls : tickCalls (before ++ [⟨c', .answered answer, c'.exit⟩]) = tickCalls before := by
        simp [tickCalls, Cause.ticks]
      omega

end Controller

/-! ## Over the stream

In the direction from the opening end there is a header in front of the data, which the accepting
side reads as such: not beyond its end, and to its end before anything else is. In the other
direction there is none. -/

theorem Side.Run.readBytes_connecting {fromNode targetNode : Text} {s : Side} {trace : List Action}
    (h : (Side.connecting fromNode targetNode).Run trace s) :
    readBytes trace = dataBytes trace ∧ ∀ reader, s.task ≠ .accepting reader := by
  induction h with
  | start => exact ⟨rfl, by simp [Side.connecting]⟩
  | @step trace s s' action h hstep ih =>
    obtain ⟨hread, htask⟩ := ih
    rw [readBytes_append, dataBytes_append, hread]
    cases hstep with
    | readHeader _ _ h => exact absurd h (htask _)
    | send h =>
      obtain ⟨-, entry, -, -, -, rfl⟩ := returns_send.mp h
      exact ⟨rfl, htask⟩
    | credit h =>
      obtain ⟨-, entry, -, -, -, rfl⟩ := returns_credit.mp h
      exact ⟨rfl, htask⟩
    | close h =>
      obtain ⟨-, -, rfl⟩ := returns_close.mp h
      exact ⟨rfl, htask⟩
    | takeCredit =>
      refine ⟨rfl, fun reader ↦ ?_⟩
      rw [Side.takeCredit]
      split
      · simp
      · exact htask reader
    | deduct =>
      refine ⟨rfl, fun reader ↦ ?_⟩
      rw [Side.deduct]
      split
      · simp
      · split <;> simp
    | _ => exact ⟨rfl, by simp [Side.install, Side.replenish]⟩

namespace Joined

variable {fromNode targetNode : Text} {t u : List Action} {a b : Side}

theorem opening_readBytes_le (h : Joined fromNode targetNode t a u b) :
    readBytes t <+: writtenBytes u := by
  induction h with
  | start => exact List.prefix_rfl
  | opening _ _ hwire ih => exact hwire.readBytes_le ih
  | accepting _ _ _ ih =>
    rw [writtenBytes_append]
    exact ih.trans (List.prefix_append _ _)

/-- The header is read as such: not beyond its end, and to its end before anything else is. -/
theorem header_read (hfrom : validNodeName fromNode = true)
    (htarget : validNodeName targetNode = true) (h : Joined fromNode targetNode t a u b) :
    ∃ unread, encodeHeader fromNode targetNode = headerBytes u ++ unread
      ∧ (dataBytes u ≠ [] → unread = []) := by
  have hwritten := (h.opening_run.writes (Side.unwritten_connecting _ _)).output_le_input
  have hintro := h.accepting_run.introduced
  have hstream := h.readBytes_le.trans hwritten
  rw [hintro.order] at hstream
  rcases List.prefix_or_prefix_of_prefix ((List.prefix_append _ _).trans hstream)
    (List.prefix_append (encodeHeader fromNode targetNode) (sentBytes t)) with hle | ⟨rest, hle⟩
  · obtain ⟨unread, hunread⟩ := hle
    refine ⟨unread, hunread.symm, fun hne ↦ ?_⟩
    obtain ⟨header, hrun⟩ := hintro.whole (Or.inr (Or.inl hne))
    have hrest := ReadExact.run_append hrun unread
    rw [hunread, ← List.append_nil (encodeHeader _ _), run_readHeader hfrom htarget,
      Option.some_inj, Prod.mk.injEq, List.nil_append] at hrest
    exact hrest.2.symm
  · -- bytes beyond the header would be left unread
    have hrest := run_readHeader hfrom htarget rest
    rw [hle] at hrest
    rw [hintro.exact _ _ hrest, List.append_nil] at hle
    exact ⟨[], by rw [hle, List.append_nil], fun _ ↦ rfl⟩

theorem eventBytes_le (hfrom : validNodeName fromNode = true)
    (htarget : validNodeName targetNode = true) (h : Joined fromNode targetNode t a u b) :
    eventBytes u <+: sentBytes t
      ∧ (a.unwritten = some [] → readBytes u = writtenBytes t → b.task.unemitted = some [] →
        eventBytes u = sentBytes t) := by
  have hwrites := h.opening_run.writes (Side.unwritten_connecting fromNode targetNode)
  have hreads := h.accepting_run.reads rfl
  obtain ⟨unread, hheader, hunread⟩ := h.header_read hfrom htarget
  have hstream := h.readBytes_le.trans hwrites.output_le_input
  rw [h.accepting_run.introduced.order, hheader, List.append_assoc,
    List.prefix_append_right_inj] at hstream
  refine ⟨hreads.output_le_input.trans ?_, fun hwritten hread hemitted ↦ ?_⟩
  · by_cases hne : dataBytes u = []
    · rw [hne]
      exact List.nil_prefix
    · rwa [hunread hne, List.nil_append] at hstream
  · rw [hwritten, Stage, List.append_nil] at hwrites
    rw [hemitted, Stage, List.append_nil] at hreads
    rw [hwrites, h.accepting_run.introduced.order, hheader, List.append_assoc,
      List.append_cancel_left_eq] at hread
    rw [hreads, hread]
    by_cases hne : dataBytes u = []
    · rw [hne, eq_comm, List.append_eq_nil_iff] at hread
      rw [hread.1, List.nil_append]
    · rw [hunread hne, List.nil_append]

theorem opening_eventBytes_le (h : Joined fromNode targetNode t a u b) :
    eventBytes t <+: sentBytes u
      ∧ (b.unwritten = some [] → readBytes t = writtenBytes u → a.task.unemitted = some [] →
        eventBytes t = sentBytes u) := by
  have hwrites := h.accepting_run.writes (show Side.accepting.unwritten = some [] from rfl)
  have hreads := h.opening_run.reads (show (Side.connecting _ _).task.unemitted = some [] from rfl)
  obtain ⟨hread, -⟩ := h.opening_run.readBytes_connecting
  rw [List.nil_append] at hwrites
  refine ⟨?_, fun hwritten hall hemitted ↦ ?_⟩
  · exact hreads.output_le_input.trans
      (hread ▸ h.opening_readBytes_le.trans hwrites.output_le_input)
  · rw [hwritten, Stage, List.append_nil] at hwrites
    rw [hemitted, Stage, List.append_nil] at hreads
    rw [hreads, ← hread, hall, hwrites]

end Joined

/-! ## From runtime to runtime

Both directions are the same argument with another fact about the stream, so it is made once for two
ends of which the one reads what the other has written (`follows`), and once more for the case that
nothing is under way (`arrived`). -/

namespace Terminal

/-- The port has answered the packets of the handshake well, and the lengths that the runtime has
reported are those of its packets. -/
structure Regular (e : Terminal) : Prop where
  accepted : HandshakeAccepted e.trace
  lengths : ∀ result ∈ pulled e.trace, result.1 = result.2.length ∧ result.1 < 2 ^ 32

/-- The handshake at `b` takes no more packets than that at `a` has given, and all of them before
the first packet for the runtime. -/
structure InStep (a b : Terminal) : Prop where
  handshake : (packets (outputs b.trace)).length ≤ (spoken a.trace).length
  up : payloads (outputs b.trace) ≠ [] →
    (packets (outputs b.trace)).length = (spoken a.trace).length

/-- What has come out at `b` is the beginning of what has gone in at `a`: the packets of the
handshake, and then the results of the runtime in their order, with ticks between them. -/
structure Follows (b a : Terminal) : Prop where
  handshake : packets (outputs b.trace) <+: spoken a.trace
  runtime : ∃ joined : List OutFrame, joined.filterMap OutFrame.result = pulled a.trace
    ∧ joined.countP OutFrame.isTick ≤ tickCalls a.trace
    ∧ payloads (outputs b.trace) <+: joined.map OutFrame.payload

variable {a b : Terminal} {side side' : Side}

/-- What has been consumed at one end was asked for at the other. -/
theorem consumed_le (ha : a.Alone side) (hb : b.Alone side') (hregular : a.Regular)
    (hwire : eventBytes b.actions <+: sentBytes a.actions) :
    consumed b.trace <+: asked a.trace :=
  calc consumed b.trace
    _ <+: eventBytes b.actions := ⟨_, hb.consumed_flight⟩
    _ <+: sentBytes a.actions := hwire
    _ <+: sentBytes a.actions ++ a.connection.outstanding := List.prefix_append _ _
    _ <+: asked a.trace := (ha.relayed hregular.accepted).order

theorem follows (ha : a.Alone side) (hb : b.Alone side') (hregular : a.Regular)
    (hstep : a.InStep b) (hwire : eventBytes b.actions <+: sentBytes a.actions) : b.Follows a := by
  obtain ⟨two, htwo, hasked⟩ := ha.controller.spoken.parts
  obtain ⟨joined, hjoined, hresults, hticks, -⟩ :=
    ha.controller.framed_le (by decide) hregular.accepted
  obtain ⟨two', four', htwo', hfour', hconsumed⟩ := hb.controller.accounted.taken
  have hle := consumed_le ha hb hregular hwire
  rw [hconsumed, hasked, List.append_assoc] at hle
  have hpackets : packets (outputs b.trace) <+: spoken a.trace :=
    frames_le htwo' htwo ((List.prefix_append _ _).trans hle) fun _ ↦ hstep.handshake
  refine ⟨hpackets, joined, hresults, hticks, ?_⟩
  by_cases hnone : payloads (outputs b.trace) = []
  · rw [hnone]
    exact List.nil_prefix
  -- both ends are past the same handshake, so the packets of the runtime begin at the same place
  rw [hpackets.eq_of_length (hstep.up hnone), htwo, Option.some_inj] at htwo'
  rw [htwo', List.prefix_append_right_inj] at hle
  have hframes := Controller.frames_flatMap (hresults ▸ hregular.lengths)
  refine frames_le hfour' hframes ?_ fun hne ↦ absurd rfl hne
  rw [List.append_nil]
  exact ((List.prefix_append _ _).trans hle).trans hjoined

/-- Nothing is under way from `a` to `b`. -/
structure Clear (a b : Terminal) : Prop where
  goes : ¬a.connection.Stopped
  unsent : a.connection.controller.unsent = []
  outstanding : a.connection.outstanding = []
  unwritten : a.connection.side.unwritten = some []
  wire : readBytes b.actions = writtenBytes a.actions
  unemitted : b.connection.side.task.unemitted = some []
  flight : dataOf b.connection.route.flight = []

theorem arrived (ha : a.Alone side) (hb : b.Alone side') (hregular : a.Regular)
    (hclear : a.Clear b) (hup : b.connection.controller.mode = .up)
    (hlength : (packets (outputs b.trace)).length = (spoken a.trace).length)
    (hwire : eventBytes b.actions = sentBytes a.actions) :
    packets (outputs b.trace) = spoken a.trace
      ∧ ∃ joined : List OutFrame, joined.filterMap OutFrame.result = pulled a.trace
        ∧ joined.countP OutFrame.isTick ≤ tickCalls a.trace
        ∧ payloads (outputs b.trace) = joined.map OutFrame.payload := by
  obtain ⟨two, htwo, hasked⟩ := ha.controller.spoken.parts
  obtain ⟨joined, -, hresults, hticks, hjoined⟩ :=
    ha.controller.framed_le (by decide) hregular.accepted
  obtain ⟨two', four', htwo', hfour', hconsumed⟩ := hb.controller.accounted.taken
  have hall : consumed b.trace = asked a.trace := by
    have hflight := hb.consumed_flight
    have hrelayed := ((ha.relayed hregular.accepted).stopped hclear.goes).2
    rw [hclear.flight, List.append_nil] at hflight
    rw [hclear.outstanding, List.append_nil] at hrelayed
    rw [hflight, hwire, hrelayed]
  rw [hconsumed, hasked, List.append_assoc] at hall
  have hpackets : packets (outputs b.trace) = spoken a.trace :=
    (frames_le htwo' htwo (hall ▸ List.prefix_append _ _) fun _ ↦ hlength.le).eq_of_length hlength
  refine ⟨hpackets, joined, hresults, hticks, ?_⟩
  rw [hpackets, htwo, Option.some_inj] at htwo'
  have hrest := hjoined fun hexited ↦ hclear.goes (Or.inl hexited)
  rw [hclear.unsent, List.append_nil] at hrest
  rw [htwo', List.append_cancel_left_eq, hrest] at hall
  -- there is only one way to cut these bytes into packets
  have hsplits : Splits .four (joined.flatMap OutFrame.bytes) (payloads (outputs b.trace))
      b.connection.controller.buffer :=
    ⟨⟨four', hfour', hall.symm⟩, hb.controller.accounted.served.up hup⟩
  have hframes := Controller.frames_flatMap (hresults ▸ hregular.lengths)
  have hwhole : Splits .four (joined.flatMap OutFrame.bytes) (joined.map OutFrame.payload) [] :=
    ⟨⟨_, hframes, (List.append_nil _).symm⟩, rfl⟩
  exact (hsplits.unique hwhole).1

end Terminal

/-- **Packets come out as they went in.** In every run of a tunnel between regular ends whose
handshakes are in step, in both directions, what the one end has got is a beginning of what the
other has given: no packet is lost between two others, repeated, reordered, cut or joined, whatever
the chunks, the credit and the reads were. -/
theorem packets_in_order {fromNode targetNode : Text} (hfrom : validNodeName fromNode = true)
    (htarget : validNodeName targetNode = true) {a b : Terminal}
    (h : Tunnel fromNode targetNode a b) (ha : a.Regular) (hb : b.Regular) (hab : a.InStep b)
    (hba : b.InStep a) : b.Follows a ∧ a.Follows b := by
  refine ⟨?_, ?_⟩
  · exact Terminal.follows h.opening_alone h.accepting_alone ha hab
      (h.joined.eventBytes_le hfrom htarget).1
  · exact Terminal.follows h.accepting_alone h.opening_alone hb hba
      h.joined.opening_eventBytes_le.1

/-- **Nothing is lost on the way.** When nothing is under way from a regular end to one that is up,
and their handshakes have as many packets, all packets have arrived there, in either direction. -/
theorem packets_all_arrived {fromNode targetNode : Text} (hfrom : validNodeName fromNode = true)
    (htarget : validNodeName targetNode = true) {a b : Terminal}
    (h : Tunnel fromNode targetNode a b ∨ Tunnel fromNode targetNode b a) (hregular : a.Regular)
    (hclear : a.Clear b) (hup : b.connection.controller.mode = .up)
    (hlength : (packets (outputs b.trace)).length = (spoken a.trace).length) :
    packets (outputs b.trace) = spoken a.trace
      ∧ ∃ joined : List OutFrame, joined.filterMap OutFrame.result = pulled a.trace
        ∧ joined.countP OutFrame.isTick ≤ tickCalls a.trace
        ∧ payloads (outputs b.trace) = joined.map OutFrame.payload := by
  rcases h with h | h
  · apply Terminal.arrived h.opening_alone h.accepting_alone hregular hclear hup hlength
    exact (h.joined.eventBytes_le hfrom htarget).2 hclear.unwritten hclear.wire hclear.unemitted
  · apply Terminal.arrived h.accepting_alone h.opening_alone hregular hclear hup hlength
    exact h.joined.opening_eventBytes_le.2 hclear.unwritten hclear.wire hclear.unemitted

/-! ## A packet that arrives -/

theorem handshakeAccepted_of_sendsAccepted {trace : List Turn} (h : SendsAccepted trace) :
    HandshakeAccepted trace := fun turn hmem ref size rest answer ↦
  h turn hmem (.handshake ref) size rest answer

set_option maxRecDepth 4000 in
/-- Both ends switch without a handshake, and a packet goes from the opening end to the other. -/
theorem tunnel_sample : ∃ a b, Tunnel sampleNode sampleNode a b ∧ a.Regular ∧ b.Regular
    ∧ a.InStep b ∧ b.InStep a ∧ a.Clear b ∧ b.connection.controller.mode = .up
    ∧ spoken a.trace = [] ∧ payloads (outputs b.trace) = [[7]] := by
  -- the stream is opened
  have hopened := (Tunnel.start : Tunnel sampleNode sampleNode _ _)
    |>.opening (.daemon (@Side.Step.writeHeader _ (encodeHeader sampleNode sampleNode) [] sampleNode
      (by decide) (by rw [List.append_nil]; rfl)) rfl) (by simp [Delivers])
    |>.opening (.daemon (.connected rfl) rfl) (by simp [Delivers])
    |>.opening (.daemon (.announce rfl) rfl) (by simp [Delivers])
    |>.accepting (.daemon (@Side.Step.readHeader _ magic _ (by decide) (by decide) rfl) rfl)
      (List.forall_mem_singleton.mpr (show _ <+: _ by decide))
    |>.accepting (.daemon (@Side.Step.readHeader _ [0, 3] _ (by decide) (by decide) rfl) rfl)
      (List.forall_mem_singleton.mpr (show _ <+: _ by decide))
    |>.accepting (.daemon (@Side.Step.readHeader _ [97, 64, 98] _ (by decide) (by decide) rfl) rfl)
      (List.forall_mem_singleton.mpr (show _ <+: _ by decide))
    |>.accepting (.daemon (@Side.Step.readHeader _ [0, 3] _ (by decide) (by decide) rfl) rfl)
      (List.forall_mem_singleton.mpr (show _ <+: _ by decide))
    |>.accepting (.daemon (@Side.Step.readHeader _ [97, 64, 98] _ (by decide) (by decide) rfl) rfl)
      (List.forall_mem_singleton.mpr (show _ <+: _ by decide))
    |>.accepting (.daemon (@Side.Step.allowed _ ⟨sampleNode, sampleNode⟩ rfl) rfl)
      (by simp [Delivers])
    |>.accepting (.daemon (.announce rfl) rfl) (by simp [Delivers])
  -- a packet of one byte is taken from the runtime and written
  have hwritten := hopened
    |>.opening (.turn (.input (by simp) (.received (.call 0 .handshakeComplete) rfl))) (by simp)
    |>.opening (.turn (.input (by simp) (.received .distData rfl))) (by simp)
    |>.opening (.turn (.pulled (.pulled (some (1, [7])) rfl))) (by simp)
    |>.opening (@Connection.Acts.execute _ (.send [0, 0, 0, 1, 7]) _ rfl
      (Method.returns_after (by decide))) (by simp [Delivers, PortRequest.action])
    |>.opening (.turn (.answered rfl (.sent .ok rfl))) (by simp)
    |>.opening (.turn (.pulled (.pulled none rfl))) (by simp)
    |>.opening (.daemon (.takeSend rfl rfl) rfl) (by simp [Delivers])
    |>.opening (.daemon (@Side.Step.write _ [0, 0, 0, 1, 7] [] _ (by decide) rfl) rfl)
      (by simp [Delivers])
  -- it is read, and goes through the listener to the controller
  have hread := hwritten
    |>.accepting (.daemon (@Side.Step.readData _ [0, 0, 0, 1, 7] (by decide) (by decide) rfl) rfl)
      (List.forall_mem_singleton.mpr (show _ <+: _ by decide))
    |>.accepting (.daemon (.deduct rfl) rfl) (by simp [Delivers])
    |>.accepting (.daemon (.dataEvent rfl) rfl) (by simp [Delivers])
    |>.accepting (.quiet (.relay rfl) rfl) (by simp)
    |>.accepting (.quiet (.relay rfl) rfl) (by simp)
    |>.accepting (.quiet .bind rfl) (by simp)
    |>.accepting (.turn (.input (by simp) (.received (.call 1 .handshakeComplete) rfl))) (by simp)
    |>.accepting (.turn (.event rfl (.received _ rfl))) (by simp)
  refine ⟨_, _, hread, ⟨?_, ?_⟩, ⟨?_, ?_⟩, ⟨?_, ?_⟩, ⟨?_, ?_⟩, ⟨?_, ?_, ?_, ?_, ?_, ?_, ?_⟩, rfl,
    rfl, rfl⟩
  · exact handshakeAccepted_of_sendsAccepted (Controller.sendsAccepted_of_all (by decide))
  · decide
  · exact handshakeAccepted_of_sendsAccepted (Controller.sendsAccepted_of_all (by decide))
  · decide
  · decide
  · exact fun _ ↦ rfl
  · decide
  · exact fun _ ↦ rfl
  · rintro (hexited | ⟨_, _, hanswered, -⟩)
    · cases hexited
    · cases hanswered
  · rfl
  · rfl
  · rfl
  · decide
  · rfl
  · rfl

theorem packets_in_order_sample : ∃ a b, Tunnel sampleNode sampleNode a b
    ∧ payloads (outputs b.trace) = [[7]] ∧ b.Follows a ∧ a.Follows b := by
  obtain ⟨a, b, h, ha, hb, hab, hba, -, -, -, hpayloads⟩ := tunnel_sample
  have hvalid : validNodeName sampleNode = true := by decide
  exact ⟨a, b, h, hpayloads, packets_in_order hvalid hvalid h ha hb hab hba⟩

theorem packets_all_arrived_sample : ∃ a b, Tunnel sampleNode sampleNode a b
    ∧ payloads (outputs b.trace) = [[7]]
    ∧ ∃ joined : List OutFrame, joined.filterMap OutFrame.result = pulled a.trace
      ∧ payloads (outputs b.trace) = joined.map OutFrame.payload := by
  obtain ⟨a, b, h, ha, -, hab, -, hclear, hup, -, hpayloads⟩ := tunnel_sample
  have hvalid : validNodeName sampleNode = true := by decide
  have hlength := hab.up (by rw [hpayloads]; simp)
  obtain ⟨-, joined, hresults, -, hall⟩ :=
    packets_all_arrived hvalid hvalid (Or.inl h) ha hclear hup hlength
  exact ⟨a, b, h, hpayloads, joined, hresults, hall⟩

end NervesP2P
