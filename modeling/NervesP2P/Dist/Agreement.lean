import NervesP2P.Dist.Accounts
import NervesP2P.Dist.Controller

/-!
# Controller and daemon agree on the credit

The controller and the daemon each count how much may still be sent, and each learns what the other
did only later: the daemon hears of a payload when the port relays the call, and the controller of
credit given back when the event reaches the front of its mailbox.

A `System` is one controller, the call that the port relays for it, the events on their way to it,
and the daemon's side of the stream. Its steps interleave in any order. The controller goes on only
with the answer of its call, however long that takes: calls that time out are left out.

## A payload counted twice

The controller subtracts a payload only when it handles the answer, and the daemon counts it as
queued as soon as the call has run. Between the two moments the sum over all places exceeds the
window by the length of the payload, which is `Relay.accepted`.
-/

namespace NervesP2P

/-! ## The system

Four parts in a ring: the controller asks the port, the port asks the daemon's side, the side sends
events, and events come back to the controller. At most one call is at the port, and `Relay` says
whether it has run, and with what answer. -/

/-- The call of the controller at the port. -/
inductive Relay where
  | idle
  | asked (request : PortRequest)
  /-- The daemon is done with it, and the controller has not handled the answer. -/
  | answered (request : PortRequest) (answer : Answer)

namespace Relay

/-- The length of a payload whose answer has not been handled. -/
def unanswered : Relay → ℕ
  | .asked (.send chunk) | .answered (.send chunk) _ => chunk.length
  | _ => 0

/-- The length of such a payload if the daemon has accepted it. -/
def accepted : Relay → ℕ
  | .answered (.send chunk) .ok => chunk.length
  | _ => 0

@[simp] theorem accepted_idle : Relay.idle.accepted = 0 := rfl

@[simp] theorem accepted_asked (request : PortRequest) : (Relay.asked request).accepted = 0 := rfl

theorem accepted_le_unanswered (relay : Relay) : relay.accepted ≤ relay.unanswered := by
  unfold accepted
  split
  · exact le_rfl
  · exact Nat.zero_le _

/-- The credit that the daemon has been asked to add and has not yet added. -/
def granting : Relay → ℕ
  | .asked (.credit bytes) => bytes
  | _ => 0

/-- The port after a turn of the controller. -/
def ofRequest : Option PortRequest → Relay
  | some request => .asked request
  | none => .idle

end Relay

namespace PortRequest

/-- The call that the daemon makes of a request. -/
def call : PortRequest → Method Side DistError Unit
  | .send chunk => Side.send chunk
  | .credit bytes => Side.credit bytes
  | .close => Side.close

/-- What others see of it. -/
def action : PortRequest → Action
  | .send chunk => .sent chunk
  | .credit bytes => .granted bytes
  | .close => .closeAsked

end PortRequest

/-- A controller, the port and a side of a stream. -/
structure System where
  controller : Controller
  relay : Relay
  /-- The events that the daemon has sent and the controller has not handled. -/
  inbox : List Event
  side : Side

namespace System

/-- The credit in events that the controller has not handled, the one that the task is about to send
included. -/
def unhandled (s : System) : ℕ := s.side.task.unreported + creditIn s.inbox

def after (inbox : List Event) (reaction : Reaction) (s : System) : System :=
  { s with controller := reaction.state, relay := .ofRequest reaction.request, inbox }

inductive Step : System → System → Prop
  -- turns of the controller
  | input {s : System} {input : ControllerInput} (h : s.controller.phase = .loop)
      (hinput : ∀ event, input ≠ .event event) :
      Step s (s.after s.inbox (s.controller.receive input))
  | event {s : System} {event : Event} {inbox : List Event} (h : s.controller.phase = .loop)
      (hinbox : s.inbox = event :: inbox) :
      Step s (s.after inbox (s.controller.receive (.event event)))
  | pull {s : System} {data : Option (ℕ × List UInt8)} (h : s.controller.phase = .pulling) :
      Step s (s.after s.inbox (s.controller.pull data))
  | answer {s : System} {request : PortRequest} {answer : Answer}
      (h : s.relay = .answered request answer) :
      Step s (s.after s.inbox (s.controller.answer answer))
  -- calls
  | execute {s : System} {request : PortRequest} {side' : Side} (h : s.relay = .asked request)
      (hcall : request.call.Returns s.side () side') :
      Step s { s with relay := .answered request .ok, side := side' }
  | refuse {s : System} {request : PortRequest} {error : DistError} {side' : Side}
      (h : s.relay = .asked request) (hcall : request.call.Fails s.side error side') :
      Step s { s with relay := .answered request (.error error), side := side' }
  /-- The daemon has no network, or cannot read the request. -/
  | fail {s : System} {request : PortRequest} (h : s.relay = .asked request) :
      Step s { s with relay := .answered request .failed }
  -- the daemon
  | daemon {s : System} {action : Action} {side' : Side} (h : s.side.Step action side')
      (hcall : action.isCall = false) :
      Step s { s with side := side', inbox := s.inbox ++ events [action] }

/-- A controller that was just started for a stream that was just installed. -/
def start (opening : Opening) : System where
  controller := .start
  relay := .idle
  inbox := []
  side := Side.accepting.install opening

inductive Reachable (opening : Opening) : System → Prop
  | start : Reachable opening (start opening)
  | step {s s' : System} (h : Reachable opening s) (hstep : s.Step s') : Reachable opening s'

end System

/-! ## Calls

What a call of the port does to the side is what the interface of the daemon does, and a call that
fails leaves the side as it was. -/

namespace PortRequest

variable {request : PortRequest} {s s' : Side}

theorem step_of_returns (h : request.call.Returns s () s') : s.Step request.action s' := by
  cases request with
  | send chunk => exact .send h
  | credit bytes => exact .credit h
  | close => exact .close h

theorem unchanged_of_fails {error : DistError} (h : request.call.Fails s error s') : s' = s := by
  cases request with
  | send chunk => exact (Side.fails_issue h).1
  | credit bytes => exact (Side.fails_issue h).1
  | close => exact (Side.fails_close h).1

theorem events_action (request : PortRequest) : events [request.action] = [] := by
  cases request <;> rfl

theorem accepted_ok (request : PortRequest) :
    (Relay.answered request .ok).accepted = (sentBytes [request.action]).length := by
  cases request with
  | send chunk => exact congrArg List.length (List.append_nil chunk).symm
  | credit bytes | close => rfl

theorem granting_asked (request : PortRequest) :
    (Relay.asked request).granting = grantedBytes [request.action] := by
  cases request <;> rfl

end PortRequest

/-! ## The accounts of the system

`Relay.Fits` keeps the controller and the port together: a controller that handles messages or asks
for data has no call at the port. `Agrees` has the two sums, one for each direction of credit, and
there is one lemma for each kind of step: turns that handle no event, turns that give credit back,
steps of the daemon's side, answers, and calls that were refused. They use of the side only how a
step of it settles. -/

/-- What the controller is doing goes with the call at the port. -/
def Relay.Fits (c : Controller) : Relay → Prop
  | .idle => c.Free
  | .asked request | .answered request _ => c.Awaits request

/-- A controller that handles messages or asks for data has no call at the port. -/
theorem Relay.Fits.eq_idle {relay : Relay} {c : Controller} (h : relay.Fits c)
    (hphase : c.phase = .loop ∨ c.phase = .pulling) : relay = .idle := by
  have hbusy : ∀ request, ¬c.Awaits request := by
    intro request hawaits
    cases request with
    | send chunk =>
      obtain ⟨⟨purpose, rest, hsending⟩, -⟩ := hawaits
      rw [hsending] at hphase
      rcases hphase with hphase | hphase <;> cases hphase
    | credit bytes | close =>
      rw [show c.phase = _ from hawaits] at hphase
      rcases hphase with hphase | hphase <;> cases hphase
  cases relay with
  | idle => rfl
  | asked request => exact absurd h (hbusy request)
  | answered request answer => exact absurd h (hbusy request)

@[simp] theorem creditIn_cons (event : Event) (events : List Event) :
    creditIn (event :: events) = event.creditBytes + creditIn events := rfl

@[simp] theorem dataIn_cons (event : Event) (events : List Event) :
    dataIn (event :: events) = event.dataLength + dataIn events := rfl

namespace System

/-- The accounts of the system. -/
structure Agrees (s : System) : Prop where
  side : s.side.Sound
  relay : s.relay.Fits s.controller
  data : ∀ bytes, .data bytes ∈ s.inbox → bytes ≠ [] ∧ bytes.length ≤ dataChunk
  grant : ∀ bytes, s.relay = .asked (.credit bytes) → 0 < bytes ∧ bytes ≤ dataChunk
  /-- What the controller may send is what the daemon lets it, less what it has not heard of. -/
  send : ∀ entry, s.side.entry = some entry →
    s.controller.credit + s.unhandled ≤ entry.sendCredit + s.relay.accepted
      ∧ (s.side.task.live = true →
        s.controller.credit + s.unhandled = entry.sendCredit + s.relay.accepted)
  /-- What the controller gives back was taken out of the window before. -/
  receive : ∀ entry, s.side.entry = some entry →
    entry.receiveCredit + s.side.task.untold + dataIn s.inbox + s.relay.granting ≤ creditWindow

theorem agrees_start (opening : Opening) : (start opening).Agrees where
  side := ⟨rfl, trivial, fun _ ↦ ⟨_, rfl, rfl⟩⟩
  relay := Or.inl rfl
  data bytes h := by cases h
  grant bytes h := by cases h
  send entry h := by
    obtain rfl := Option.some.inj h
    exact ⟨le_rfl, fun _ ↦ rfl⟩
  receive entry h := by
    obtain rfl := Option.some.inj h
    exact le_rfl

variable {s : System}

theorem Agrees.turn (hs : s.Agrees) {inbox : List Event} {reaction : Reaction} {credit : ℤ}
    (hreaction : reaction.Sound credit) (hinbox : inbox ⊆ s.inbox)
    (hdata : dataIn inbox ≤ dataIn s.inbox)
    (hcredit : credit + creditIn inbox + s.relay.accepted
      = s.controller.credit + creditIn s.inbox) : (s.after inbox reaction).Agrees := by
  obtain ⟨state, request, outputs⟩ := reaction
  obtain ⟨rfl, hrequest⟩ := hreaction
  have hidle : (Relay.ofRequest request).accepted = 0
      ∧ (Relay.ofRequest request).granting = 0 := by
    match request, hrequest with
    | none, _ | some (.send _), _ | some .close, _ => exact ⟨rfl, rfl⟩
  refine ⟨hs.side, ?_, fun bytes h ↦ hs.data bytes (hinbox h), ?_, fun entry hentry ↦ ?_,
    fun entry hentry ↦ ?_⟩
  · match request, hrequest with
    | none, h | some (.send _), h | some .close, h => exact h
  · intro bytes h
    match request, hrequest with
    | none, _ | some (.send _), _ | some .close, _ => cases h
  · obtain ⟨hle, heq⟩ := hs.send entry hentry
    simp only [after, unhandled, hidle.1] at hle heq hcredit ⊢
    refine ⟨?_, fun hlive ↦ ?_⟩
    · omega
    · have := heq hlive
      omega
  · have hle := hs.receive entry hentry
    simp only [after, hidle.2]
    omega

theorem Agrees.turn_same (hs : s.Agrees) {reaction : Reaction} {credit : ℤ}
    (hreaction : reaction.Sound credit)
    (hcredit : credit + s.relay.accepted = s.controller.credit) :
    (s.after s.inbox reaction).Agrees :=
  hs.turn hreaction (List.Subset.refl _) le_rfl (by omega)

/-- A turn that gives the credit of data back keeps them. -/
theorem Agrees.turn_data (hs : s.Agrees) (h : s.controller.phase = .loop) {bytes : List UInt8}
    {inbox : List Event} (hinbox : s.inbox = .data bytes :: inbox) :
    (s.after inbox (s.controller.receive (.event (.data bytes)))).Agrees := by
  obtain ⟨hrequest, hcredit, hphase⟩ := Controller.handleStreamEvent_data bytes s.controller
  have hidle := hs.relay.eq_idle (Or.inl h)
  have hfits := hs.data bytes (by rw [hinbox]; exact List.mem_cons_self)
  refine ⟨hs.side, ?_, fun bytes h ↦ hs.data bytes (by rw [hinbox]; exact List.mem_cons_of_mem _ h),
    ?_, fun entry hentry ↦ ?_, fun entry hentry ↦ ?_⟩
  · exact hphase
  · intro granted hgranted
    obtain rfl : bytes.length = granted := by
      simpa [after, Controller.receive, hrequest, Relay.ofRequest] using hgranted
    exact ⟨List.length_pos_iff.mpr hfits.1, hfits.2⟩
  · have hsend := hs.send entry hentry
    simp only [unhandled, hinbox, hidle, creditIn_cons] at hsend
    simp only [after, unhandled, Controller.receive, hcredit, hrequest]
    simpa [Relay.ofRequest, Relay.accepted, Event.creditBytes] using hsend
  · have hle := hs.receive entry hentry
    simp only [hinbox, hidle, dataIn_cons, Event.dataLength, Relay.granting] at hle
    simp only [after, Controller.receive, hrequest, Relay.ofRequest, Relay.granting]
    omega

/-- A step of the daemon's side keeps the accounts, if the port keeps pace with the calls. -/
theorem Agrees.advance (hs : s.Agrees) {action : Action} {side' : Side} {relay : Relay}
    (hstep : s.side.Step action side') (hfits : relay.Fits s.controller)
    (hgrant : ∀ bytes, relay = .asked (.credit bytes) → 0 < bytes ∧ bytes ≤ dataChunk)
    (haccepted : relay.accepted = s.relay.accepted + (sentBytes [action]).length)
    (hgranting : relay.granting + grantedBytes [action] ≤ s.relay.granting) :
    Agrees { s with relay, side := side', inbox := s.inbox ++ events [action] } := by
  refine ⟨hstep.sound hs.side, hfits, fun bytes h ↦ ?_, hgrant, fun entry' hentry' ↦ ?_,
    fun entry' hentry' ↦ ?_⟩
  · rcases List.mem_append.mp h with h | h
    · exact hs.data bytes h
    · exact hstep.data_fits hs.side h
  · obtain ⟨entry, hentry, hsettles⟩ := hstep.settles hs.side hentry'
    obtain ⟨hle, heq⟩ := hs.send entry hentry
    have hle' := hsettles.send_le
    simp only [unhandled, creditIn_append, haccepted] at hle heq ⊢
    refine ⟨?_, fun hlive ↦ ?_⟩
    · omega
    · obtain ⟨hlive, heq'⟩ := hsettles.send_eq hlive
      have := heq hlive
      omega
  · obtain ⟨entry, hentry, hsettles⟩ := hstep.settles hs.side hentry'
    have hle := hs.receive entry hentry
    have hle' := hsettles.receive_le
    simp only [dataIn_append]
    omega

theorem Agrees.turn_answer (hs : s.Agrees) {request : PortRequest} {answer : Answer}
    (h : s.relay = .answered request answer) :
    (s.after s.inbox (s.controller.answer answer)).Agrees := by
  have hawaits := hs.relay
  rw [h] at hawaits
  cases request with
  | send chunk =>
    obtain ⟨⟨purpose, rest, hphase⟩, -⟩ := hawaits
    rw [Controller.answer, hphase]
    refine hs.turn_same (Controller.sound_answerSend purpose chunk.length rest answer s.controller)
      ?_
    rw [h]
    cases answer with
    | ok => exact sub_add_cancel _ _
    | error _ | failed => exact add_zero _
  | credit bytes =>
    rw [Controller.answer, show s.controller.phase = _ from hawaits]
    refine hs.turn_same (Controller.sound_answerCredit answer s.controller) ?_
    rw [h]
    exact add_zero _
  | close =>
    have hphase : s.controller.phase = .exited := hawaits
    rw [Controller.answer, hphase]
    refine hs.turn_same ⟨rfl, Or.inr (Or.inr hphase)⟩ ?_
    rw [h]
    exact add_zero _

theorem Agrees.refused (hs : s.Agrees) {request : PortRequest} {answer : Answer}
    (h : s.relay = .asked request) (hanswer : (Relay.answered request answer).accepted = 0) :
    Agrees { s with relay := .answered request answer } := by
  obtain ⟨hside, hrelay, hdata, -, hsend, hreceive⟩ := hs
  rw [h] at hrelay
  refine ⟨hside, hrelay, hdata, (fun _ h ↦ by cases h), ?_, fun entry hentry ↦ ?_⟩
  · simp only [h, Relay.accepted_asked] at hsend
    simp only [hanswer]
    exact hsend
  · exact (Nat.le_add_right _ _).trans (hreceive entry hentry)

/-- **A step keeps the accounts of the system.** -/
theorem Agrees.step (hs : s.Agrees) {s' : System} (hstep : s.Step s') : s'.Agrees := by
  cases hstep with
  | input h hinput =>
    refine hs.turn_same (Controller.sound_receive h hinput) ?_
    rw [hs.relay.eq_idle (Or.inl h)]
    exact add_zero _
  | @event event inbox h hinbox =>
    by_cases hdata : ∃ bytes, event = .data bytes
    · obtain ⟨bytes, rfl⟩ := hdata
      exact hs.turn_data h hinbox
    · rw [not_exists] at hdata
      refine hs.turn (Controller.sound_handleStreamEvent h hdata) ?_ ?_ ?_ <;> rw [hinbox]
      · exact List.subset_cons_self _ _
      · exact Nat.le_add_left _ _
      · rw [hs.relay.eq_idle (Or.inl h), Relay.accepted_idle, creditIn_cons]
        omega
  | pull h =>
    refine hs.turn_same (Controller.sound_pull _ s.controller) ?_
    rw [hs.relay.eq_idle (Or.inr h)]
    exact add_zero _
  | answer h => exact hs.turn_answer h
  | @execute request side' h hcall =>
    have hfits : (Relay.answered request .ok).Fits s.controller := by
      have hfits := hs.relay
      rw [h] at hfits
      exact hfits
    have hagrees : Agrees { s with
        relay := .answered request .ok
        side := side'
        inbox := s.inbox ++ events [request.action] } := by
      apply hs.advance (PortRequest.step_of_returns hcall) hfits (fun _ h ↦ by cases h)
      · rw [h, request.accepted_ok, Relay.accepted_asked, Nat.zero_add]
      · rw [h, request.granting_asked]
        exact (Nat.zero_add _).le
    rwa [request.events_action, List.append_nil] at hagrees
  | @refuse request error _ h hcall =>
    obtain rfl := PortRequest.unchanged_of_fails hcall
    exact hs.refused h (by cases request <;> rfl)
  | @fail request h => exact hs.refused h (by cases request <;> rfl)
  | @daemon action side' h hcall =>
    refine hs.advance h hs.relay hs.grant ?_ ?_ <;> cases action <;> first | rfl | cases hcall

theorem Reachable.agrees {opening : Opening} (h : Reachable opening s) : s.Agrees := by
  induction h with
  | start => exact agrees_start opening
  | step _ hstep ih => exact ih.step hstep

end System

/-- **Controller and daemon agree on the credit.** While the stream is live, all credit is
somewhere: with the controller, in payloads queued or being written, or in credit events; a payload
that the daemon has accepted and the controller has not heard of is counted on both sides. What the
controller asks is therefore never too much. -/
theorem credit_agreement {opening : Opening} {s : System} (h : s.Reachable opening) :
    (s.side.task.live = true →
      s.controller.credit + s.side.unsent + s.unhandled = creditWindow + s.relay.accepted
      ∧ (s.controller.credit + s.relay.unanswered + s.side.unsent + s.unhandled = creditWindow
        ↔ s.relay.unanswered = 0))
    ∧ (∀ chunk side', s.relay = .asked (.send chunk) →
      ¬(Side.send chunk).Fails s.side .creditExhausted side')
    ∧ ∀ bytes side', s.relay = .asked (.credit bytes) →
      ¬(Side.credit bytes).Fails s.side .invalidCredit side' := by
  have hs := h.agrees
  refine ⟨fun hlive ↦ ?_, fun chunk side' hrelay hfails ↦ ?_, fun bytes side' hrelay hfails ↦ ?_⟩
  · obtain ⟨entry, hentry, hbalance⟩ := hs.side.balance hlive
    have hsend := (hs.send entry hentry).2 hlive
    have haccepted := s.relay.accepted_le_unanswered
    omega
  · -- the chunk is within the credit of the controller, which is within that of the daemon
    have hawaits := hs.relay
    rw [hrelay] at hawaits
    obtain ⟨-, -, hle⟩ := hawaits
    obtain ⟨-, ⟨-, herror⟩ | ⟨-, ⟨-, herror⟩ | ⟨entry, hentry, ⟨hlt, -⟩ | ⟨-, -, herror⟩⟩⟩⟩ :=
      Side.fails_issue hfails
    · cases herror
    · cases herror
    · have hsend := (hs.send entry hentry).1
      rw [hrelay, Relay.accepted_asked] at hsend
      omega
    · cases herror
  · -- the data is still missing from the window
    obtain ⟨hpos, hle⟩ := hs.grant bytes hrelay
    obtain ⟨-, ⟨hinvalid, -⟩ | ⟨-, ⟨-, herror⟩ | ⟨entry, hentry, ⟨hlt, -⟩ | ⟨-, -, herror⟩⟩⟩⟩ :=
      Side.fails_issue hfails
    · rw [creditWindow] at hinvalid
      rw [dataChunk] at hle
      omega
    · cases herror
    · have hreceive := hs.receive entry hentry
      rw [hrelay, Relay.granting] at hreceive
      omega
    · cases herror

theorem credit_agreement_sample :
    ∃ s : System, s.Reachable (.connected sampleNode) ∧ s.side.task.live = true
      ∧ s.controller.credit = 262141 ∧ s.unhandled = 3
      ∧ s.controller.credit + s.side.unsent + s.unhandled = creditWindow + s.relay.accepted := by
  -- a handshake packet of one byte is framed, accepted, written and given back
  have hanswered := (System.Reachable.start : System.Reachable (.connected sampleNode) _)
    |>.step (@System.Step.input _ (.call 0 (.send [1])) rfl (by simp))
    |>.step (@System.Step.execute _ (.send [0, 1, 1]) _ rfl (Method.returns_after (by decide)))
    |>.step (.answer rfl)
  have hwritten := hanswered
    |>.step (.daemon (.announce rfl) rfl)
    |>.step (.daemon (.takeSend rfl rfl) rfl)
    |>.step (.daemon (@Side.Step.write _ [0, 1, 1] [] _ (by decide) rfl) rfl)
    |>.step (.daemon (.written rfl) rfl)
    |>.step (.daemon (.replenish rfl) rfl)
    |>.step (.daemon (.creditEvent rfl) rfl)
  exact ⟨_, hwritten, rfl, by decide, by decide, ((credit_agreement hwritten).1 rfl).1⟩

/-- A payload that was asked for and not yet relayed is still in the credit of the controller. -/
theorem unanswered_send_counted_twice :
    ∃ s : System, s.Reachable (.connected sampleNode) ∧ s.side.task.live = true
      ∧ s.controller.credit + s.relay.unanswered + s.side.unsent + s.unhandled ≠ creditWindow :=
  ⟨_, System.Reachable.start.step (@System.Step.input _ (.call 0 (.send [1])) rfl (by simp)), rfl,
    by decide⟩

end NervesP2P
