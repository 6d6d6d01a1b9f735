import NervesP2P.Dist.Turns

/-!
# What a controller does with its input

The bytes of a connection arrive in chunks that know nothing of packets. While the connection is
being set up, callers ask for one packet at a time and the controller takes it off the front of its
buffer, at once or when it is complete; afterwards all whole packets go to the runtime. The packets
have a length of two bytes before the switch and of four bytes after it, and a chunk may hold both.

`Handles` says what one turn does to all of that. Over a run the packets, then the payloads, then
the buffer are exactly the bytes that came in, whatever the chunks and wherever the switch falls,
and callers are given packets in the order of their calls.

## Calls that wait

A call waits only while there is no whole packet, so that nothing can be given to a later call over
its head. This is the reason why a timeout cannot lose a packet: at that moment there is none.
-/

namespace NervesP2P

namespace Controller

/-- The calls that have no answer yet. -/
def pendingRefs (c : Controller) : List ℕ :=
  c.waiter.toList ++ match c.phase with
    | .sending (.handshake ref) _ _ => [ref]
    | _ => []

/-- No packet is kept back: not from a call that waits, and not from the runtime. -/
structure Served (c : Controller) : Prop where
  handshake : c.mode = .handshake → c.waiter.isSome = true → takeOne .two c.buffer = none
  up : c.mode = .up → takeOne .four c.buffer = none

/-- What a turn does with its input. -/
structure Handles (c : Controller) (cause : Cause) (reaction : Reaction) : Prop where
  served : reaction.state.Served
  /-- What is taken off the front goes out as packets, and then as payloads. -/
  taken : ∃ two four, frames .two (packets reaction.outputs) = some two
    ∧ frames .four (payloads reaction.outputs) = some four
    ∧ c.buffer ++ cause.data = two ++ four ++ reaction.state.buffer
  handshake : reaction.state.mode = .handshake → payloads reaction.outputs = []
  up : c.mode = .up → packets reaction.outputs = [] ∧ reaction.state.mode = .up
  /-- Packets go to the call that waits, or else to the one that has just come. -/
  order : (packetRefs reaction.outputs ++ reaction.state.waiter.toList).Sublist
    (c.waiter.toList ++ cause.recvRef)
  /-- Every reply is the only one to its call. -/
  replies : (replyRefs reaction.outputs ++ reaction.state.pendingRefs).Subperm
    (c.pendingRefs ++ cause.callRef)

variable {c : Controller} {cause : Cause}

theorem handles_of_same (hc : c.Served) (hdata : cause.data = []) {reaction : Reaction}
    (hbuffer : reaction.state.buffer = c.buffer) (hmode : reaction.state.mode = c.mode)
    (hwaiter : reaction.state.waiter = c.waiter ∨ reaction.state.waiter = none)
    (hpackets : packets reaction.outputs = []) (hpacketRefs : packetRefs reaction.outputs = [])
    (hpayloads : payloads reaction.outputs = [])
    (hreplies : (replyRefs reaction.outputs ++ reaction.state.pendingRefs).Subperm
      (c.pendingRefs ++ cause.callRef)) : c.Handles cause reaction where
  served := by
    refine ⟨?_, ?_⟩ <;> rw [hmode, hbuffer]
    · rcases hwaiter with hwaiter | hwaiter <;> rw [hwaiter]
      · exact hc.handshake
      · exact fun _ h ↦ absurd h Bool.false_ne_true
    · exact hc.up
  taken := ⟨[], [], by rw [hpackets]; rfl, by rw [hpayloads]; rfl, by rw [hdata, hbuffer]; simp⟩
  handshake := fun _ ↦ hpayloads
  up := fun h ↦ ⟨hpackets, hmode.trans h⟩
  order := by
    rw [hpacketRefs, List.nil_append]
    rcases hwaiter with hwaiter | hwaiter <;> rw [hwaiter]
    · exact List.sublist_append_left _ _
    · exact List.nil_sublist _
  replies := hreplies

theorem pendingRefs_of_phase {phase : Phase} (h : c.phase = phase)
    (hphase : ∀ ref size rest, phase ≠ .sending (.handshake ref) size rest) :
    c.pendingRefs = c.waiter.toList := by
  unfold pendingRefs
  split
  · next ref size rest hsending => exact absurd (h.symm.trans hsending) (hphase ref size rest)
  · exact List.append_nil _

/-! ## Turns that do not touch the input

Most functions of the controller are about output and credit. They leave the buffer and the mode
alone, answer no call and hand out nothing, and `Silent` is closed under everything they are put
together from. A turn may still tell its caller something that is no packet. -/

/-- A turn that says nothing, leaves the input alone and answers no call. -/
structure Silent (c : Controller) (reaction : Reaction) : Prop where
  outputs : reaction.outputs = []
  buffer : reaction.state.buffer = c.buffer
  mode : reaction.state.mode = c.mode
  waiter : reaction.state.waiter = c.waiter
  refs : reaction.state.pendingRefs = c.waiter.toList

theorem silent_of_phase {reaction : Reaction} (phase : Phase)
    (hphase : ∀ ref size rest, phase ≠ .sending (.handshake ref) size rest)
    (hreaction : reaction.state.phase = phase) (houtputs : reaction.outputs = [])
    (hbuffer : reaction.state.buffer = c.buffer) (hmode : reaction.state.mode = c.mode)
    (hwaiter : reaction.state.waiter = c.waiter) : c.Silent reaction :=
  ⟨houtputs, hbuffer, hmode, hwaiter, hwaiter ▸ pendingRefs_of_phase hreaction hphase⟩

theorem silent_looping (c : Controller) : c.Silent { state := c.looping } :=
  silent_of_phase .loop (by simp) rfl rfl rfl rfl rfl

theorem silent_exit (c : Controller) : c.Silent c.exit :=
  silent_of_phase .exited (by simp) rfl rfl rfl rfl rfl

theorem silent_terminateStream (c : Controller) : c.Silent c.terminateStream :=
  silent_of_phase .exited (by simp) rfl rfl rfl rfl rfl

theorem silent_keepRest (purpose : Purpose) (rest : List UInt8) (c : Controller) :
    c.Silent { state := c.keepRest purpose rest } := by
  cases purpose with
  | handshake _ | pending | tick => exact silent_of_phase .loop (by simp) rfl rfl rfl rfl rfl

theorem silent_sendAvailable (purpose : Purpose) (hpurpose : ∀ ref, purpose ≠ .handshake ref)
    (data : List UInt8) (c : Controller) : c.Silent (c.sendAvailable purpose data) := by
  rw [sendAvailable]
  split
  · refine silent_of_phase _ ?_ rfl rfl rfl rfl rfl
    rintro ref size rest ⟨⟩
    exact hpurpose ref rfl
  · exact silent_keepRest purpose data c

theorem silent_flushOutput (c : Controller) : c.Silent c.flushOutput := by
  rw [flushOutput]
  by_cases hmode : c.mode = .handshake
  · rw [if_pos hmode]
    exact silent_looping c
  rw [if_neg hmode]
  by_cases hpending : c.pendingOut ≠ []
  · rw [if_pos hpending]
    exact silent_sendAvailable .pending (by simp) _ c
  rw [if_neg hpending]
  by_cases htick : c.tickPending = true
  · rw [if_pos htick]
    exact silent_sendAvailable .tick (by simp) _ c
  rw [if_neg htick]
  by_cases hready : c.distReady = true
  · rw [if_pos hready]
    exact silent_of_phase .pulling (by simp) rfl rfl rfl rfl rfl
  · rw [if_neg hready]
    exact silent_looping c

theorem Silent.congr {d : Controller} {reaction : Reaction} (h : d.Silent reaction)
    (hbuffer : d.buffer = c.buffer) (hmode : d.mode = c.mode) (hwaiter : d.waiter = c.waiter) :
    c.Silent reaction :=
  ⟨h.outputs, h.buffer.trans hbuffer, h.mode.trans hmode, h.waiter.trans hwaiter,
    h.refs.trans (congrArg _ hwaiter)⟩

theorem silent_sentAll (purpose : Purpose) (c : Controller) : c.Silent (c.sentAll purpose) := by
  cases purpose with
  | handshake _ | pending | tick => exact (silent_flushOutput _).congr rfl rfl rfl

theorem silent_pull (data : Option (ℕ × List UInt8)) (c : Controller) :
    c.Silent (c.pull data) := by
  cases data with
  | none => exact silent_of_phase .loop (by simp) rfl rfl rfl rfl rfl
  | some data => exact (silent_flushOutput _).congr rfl rfl rfl

theorem silent_answerCredit (answer : Answer) (c : Controller) :
    c.Silent (c.answerCredit answer) := by
  cases answer with
  | ok => exact silent_looping c
  | error _ | failed => exact silent_terminateStream c

theorem toList_waiter_subperm (c : Controller) : c.waiter.toList.Subperm c.pendingRefs :=
  (List.sublist_append_left _ _).subperm

theorem Silent.handles (hc : c.Served) (hdata : cause.data = []) {reaction : Reaction}
    (h : c.Silent reaction) : c.Handles cause reaction := by
  refine handles_of_same hc hdata h.buffer h.mode (Or.inl h.waiter) ?_ ?_ ?_ ?_ <;> rw [h.outputs]
  · rfl
  · rfl
  · rfl
  · rw [h.refs]
    exact c.toList_waiter_subperm.trans (List.sublist_append_left _ _).subperm

theorem handles_reply (hc : c.Served) (hdata : cause.data = []) (ref : ℕ) (reply : Reply)
    (hreply : ∀ bytes, reply ≠ .packet bytes) {state : Controller} {request : Option PortRequest}
    (h : c.Silent { state, request }) (hrefs : (ref :: c.waiter.toList).Subperm
      (c.pendingRefs ++ cause.callRef)) :
    c.Handles cause { state, request, outputs := [.reply ref reply] } := by
  refine handles_of_same hc hdata h.buffer h.mode (Or.inl h.waiter) ?_ ?_ rfl ?_
  · cases reply with
    | packet bytes => exact absurd rfl (hreply bytes)
    | _ => rfl
  · cases reply with
    | packet bytes => exact absurd rfl (hreply bytes)
    | _ => rfl
  · have hstate : state.pendingRefs = c.waiter.toList := h.refs
    rw [hstate]
    exact hrefs

theorem cons_waiter_subperm (ref : ℕ) (call : ControllerCall) (c : Controller) :
    (ref :: c.waiter.toList).Subperm
      (c.pendingRefs ++ (Cause.received (.call ref call)).callRef) := by
  have hperm : (ref :: c.waiter.toList).Perm (c.waiter.toList ++ [ref]) :=
    (List.perm_append_singleton _ _).symm
  exact hperm.subperm.trans ((List.subperm_append_right [ref]).mpr c.toList_waiter_subperm)

theorem handles_sendBytes (hc : c.Served) (hphase : c.phase = .loop) {ref : ℕ} (packet : List UInt8)
    (data : List UInt8) :
    c.Handles (.received (.call ref (.send packet))) (c.sendBytes ref data) := by
  rw [sendBytes]
  split
  · refine handles_of_same hc rfl rfl rfl (Or.inl rfl) rfl rfl rfl ?_
    rw [pendingRefs_of_phase hphase (by simp)]
    exact List.Subperm.refl _
  · exact handles_reply hc rfl ref .noCredit (by simp) (silent_looping c)
      (c.cons_waiter_subperm ref _)

theorem handles_answerSend (hc : c.Served) {purpose : Purpose} {size : ℕ} {rest : List UInt8}
    (hphase : c.phase = .sending purpose size rest) (answer : Answer) :
    c.Handles (.answered answer) (c.answerSend purpose size rest answer) := by
  cases purpose with
  | handshake ref =>
    have hrefs : (ref :: c.waiter.toList).Subperm
        (c.pendingRefs ++ (Cause.answered answer).callRef) := by
      simp only [pendingRefs, hphase, Cause.callRef, List.append_nil]
      exact (List.perm_append_singleton _ _).symm.subperm
    cases answer with
    | ok =>
      exact handles_reply hc rfl ref .ok (by simp)
        (silent_of_phase .loop (by simp) rfl rfl rfl rfl rfl) hrefs
    | error _ | failed =>
      exact handles_reply hc rfl ref (.refused _) (by simp) (silent_looping c) hrefs
  | pending | tick =>
    cases answer with
    | ok =>
      simp only [answerSend]
      split
      · exact Silent.handles hc rfl ((silent_sentAll _ _).congr rfl rfl rfl)
      · exact Silent.handles hc rfl ((silent_keepRest _ _ _).congr rfl rfl rfl)
    | error _ | failed => exact (silent_exit c).handles hc rfl

/-! ## Turns that take packets

There are four. A call asks for a packet and finds one or waits. Data comes while the connection is
set up, and may complete the packet that a call waits for. Data comes afterwards, or the connection
is switched, and then all whole packets of the buffer go to the runtime. -/

/-- A call that asks for a packet. -/
theorem handles_recv (hc : c.Served) (hphase : c.phase = .loop) (ref : ℕ) :
    c.Handles (.received (.call ref .recv)) (c.handleCall ref .recv) := by
  have hpending := pendingRefs_of_phase hphase (by simp)
  cases hmode : c.mode with
  | up =>
    simp only [handleCall, hmode]
    exact handles_reply hc rfl ref .badRequest (by simp)
      (silent_of_phase .loop (by simp) hphase rfl rfl rfl rfl) (c.cons_waiter_subperm ref _)
  | handshake =>
    have hup : c.mode ≠ .up := by rw [hmode]; simp
    simp only [handleCall, hmode]
    cases htake : takeOne .two c.buffer with
    | some taken =>
      obtain ⟨packet, rest⟩ := taken
      obtain ⟨framed, hframed, hbuffer⟩ := takeOne_eq_some_iff.mp htake
      -- a call that waited would have been given this packet
      have hwaiter : c.waiter = none := by
        by_contra hne
        have hnone := hc.handshake hmode (Option.isSome_iff_ne_none.mpr hne)
        exact absurd (htake.symm.trans hnone) (by simp)
      refine ⟨⟨?_, by simp⟩, ⟨framed, [], frames_singleton hframed, rfl, ?_⟩,
        fun _ ↦ rfl, fun h ↦ absurd h hup, ?_, ?_⟩
      · intro _ hsome
        rw [hwaiter] at hsome
        exact absurd hsome Bool.false_ne_true
      · rw [hbuffer]
        simp [Cause.data]
      · rw [hwaiter]
        exact List.Sublist.refl _
      · simp only [pendingRefs, hwaiter, hphase]
        exact List.Subperm.refl _
    | none =>
      refine ⟨⟨fun _ _ ↦ htake, by simp⟩, ⟨[], [], rfl, rfl, List.append_nil _⟩,
        fun _ ↦ rfl, fun h ↦ absurd h hup, List.sublist_append_right _ _, ?_⟩
      rw [hpending]
      simp only [pendingRefs, hphase]
      exact (List.sublist_append_right _ _).subperm

/-- Data while the connection is being set up: it may complete the packet that a call waits for. -/
theorem handles_data_handshake (hphase : c.phase = .loop)
    (hmode : c.mode = .handshake) (bytes : List UInt8) :
    c.Handles (.received (.event (.data bytes))) (c.handleStreamEvent (.data bytes)) := by
  have hup : c.mode ≠ .up := by rw [hmode]; simp
  have hpending := pendingRefs_of_phase hphase (by simp)
  simp only [handleStreamEvent, consumeInput, hmode, satisfyWaiter]
  split
  · next ref packet rest hwaiter htake =>
    obtain ⟨framed, hframed, hbuffer⟩ := takeOne_eq_some_iff.mp htake
    refine ⟨⟨fun _ h ↦ absurd h Bool.false_ne_true, by simp⟩,
      ⟨framed, [], frames_singleton hframed, rfl, ?_⟩, fun _ ↦ rfl, fun h ↦ absurd h hup, ?_, ?_⟩
    · rw [List.append_nil]
      exact hbuffer
    · rw [hwaiter]
      exact List.Sublist.refl _
    · rw [hpending, hwaiter]
      exact List.Subperm.refl _
  · next hnone =>
    refine ⟨⟨?_, by simp⟩, ⟨[], [], rfl, rfl, rfl⟩, fun _ ↦ rfl,
      fun h ↦ absurd h hup, List.sublist_append_left _ _, ?_⟩
    · intro _ hsome
      obtain ⟨ref, hwaiter⟩ := Option.isSome_iff_exists.mp hsome
      by_contra hne
      obtain ⟨⟨packet, rest⟩, htake⟩ := Option.ne_none_iff_exists'.mp hne
      exact hnone ref packet rest hwaiter htake
    · rw [hpending]
      exact List.Subperm.refl _

/-- All whole packets of a buffer go to the runtime. -/
theorem handles_putPacket4 {d : Controller} (hbuffer : d.buffer = c.buffer ++ cause.data)
    {reaction : Reaction} {replied : List Output}
    (houtputs : reaction.outputs = d.putPacket4.2 ++ replied)
    (hreplied : packets replied = [] ∧ packetRefs replied = [] ∧ payloads replied = [])
    (hstate : reaction.state.buffer = d.putPacket4.1.buffer) (hmode : reaction.state.mode = .up)
    (hwaiter : reaction.state.waiter = c.waiter)
    (hrefs : (replyRefs replied ++ reaction.state.pendingRefs).Subperm
      (c.pendingRefs ++ cause.callRef)) : c.Handles cause reaction := by
  obtain ⟨hpackets, hpacketRefs, hpayloads⟩ := hreplied
  obtain ⟨⟨framed, hframed, hsplit⟩, hresidue⟩ := exists_frames_feed .four [] d.buffer
  obtain ⟨hput, hputPackets, hputPacketRefs, hputRefs⟩ :=
    payloads_map_putData (feed .four [] d.buffer).1
  have hrest : reaction.state.buffer = (feed .four [] d.buffer).2 := hstate
  have hall : reaction.outputs = (feed .four [] d.buffer).1.map .putData ++ replied := houtputs
  have hnone : packets reaction.outputs = [] := by
    rw [hall, packets_append, hputPackets, hpackets, List.append_nil]
  refine ⟨⟨?_, ?_⟩, ⟨[], framed, ?_, ?_, ?_⟩, ?_, fun _ ↦ ⟨hnone, hmode⟩, ?_, ?_⟩
  · rw [hmode]
    simp
  · intro _
    rw [hrest]
    exact hresidue
  · rw [hnone]
    rfl
  · rw [hall, payloads_append, hput, hpayloads, List.append_nil]
    exact hframed
  · rw [hrest, List.nil_append, ← hsplit, List.nil_append, hbuffer]
  · rw [hmode]
    simp
  · rw [hall, packetRefs_append, hputPacketRefs, hpacketRefs, hwaiter]
    exact List.sublist_append_left _ _
  · rw [hall, replyRefs_append, hputRefs, List.nil_append]
    exact hrefs

theorem handles_data (hphase : c.phase = .loop) (bytes : List UInt8) :
    c.Handles (.received (.event (.data bytes))) (c.handleStreamEvent (.data bytes)) := by
  cases hmode : c.mode with
  | handshake => exact handles_data_handshake hphase hmode bytes
  | up =>
    have hput : c.consumeInput bytes = { c with buffer := c.buffer ++ bytes }.putPacket4 := by
      rw [consumeInput, hmode]
    simp only [handleStreamEvent, hput]
    refine handles_putPacket4 (d := { c with buffer := c.buffer ++ bytes }) rfl
      (List.append_nil _).symm ⟨rfl, rfl, rfl⟩ rfl hmode rfl ?_
    rw [pendingRefs_of_phase hphase (by simp)]
    exact List.Subperm.refl _

theorem handles_handshakeComplete (hphase : c.phase = .loop) (ref : ℕ) :
    c.Handles (.received (.call ref .handshakeComplete)) (c.handleCall ref .handshakeComplete) := by
  refine handles_putPacket4 (d := { c with mode := .up }) (List.append_nil _).symm rfl
    ⟨rfl, rfl, rfl⟩ rfl rfl rfl ?_
  have hloop : (c.handleCall ref .handshakeComplete).state.phase = .loop := hphase
  rw [pendingRefs_of_phase hloop (by simp)]
  exact c.cons_waiter_subperm ref _

/-! ## All turns

A turn goes on after an answer, after asking the runtime, or with a message, so these are put
together to one lemma, `Turns.handles`. -/

theorem handles_handleCall (hc : c.Served) (hphase : c.phase = .loop) (ref : ℕ)
    (call : ControllerCall) : c.Handles (.received (.call ref call)) (c.handleCall ref call) := by
  have hloop : c.Silent { state := c } := silent_of_phase .loop (by simp) hphase rfl rfl rfl rfl
  have hrefs := c.cons_waiter_subperm ref call
  cases call with
  | supervisor => exact handles_reply hc rfl ref .ok (by simp) hloop hrefs
  | send packet =>
    cases hmode : c.mode with
    | handshake =>
      simp only [handleCall, hmode]
      cases frame .two packet with
      | some data => exact handles_sendBytes hc hphase packet data
      | none => exact (silent_exit c).handles hc rfl
    | up =>
      simp only [handleCall, hmode]
      exact handles_reply hc rfl ref .badRequest (by simp) hloop hrefs
  | recv => exact handles_recv hc hphase ref
  | handshakeComplete => exact handles_handshakeComplete hphase ref
  | tick =>
    have hsilent : c.Silent { c with tickPending := true }.flushOutput :=
      (silent_flushOutput _).congr rfl rfl rfl
    simp only [handleCall, hsilent.outputs]
    exact handles_reply hc rfl ref .ok (by simp)
      ⟨rfl, hsilent.buffer, hsilent.mode, hsilent.waiter, hsilent.refs⟩ hrefs
  | getstat => exact handles_reply hc rfl ref (.stat _ _ _) (by simp) hloop hrefs
  | close => exact handles_reply hc rfl ref .ok (by simp) (silent_terminateStream c) hrefs
  | other => exact handles_reply hc rfl ref .badRequest (by simp) hloop hrefs

theorem handles_receive (hc : c.Served) (hphase : c.phase = .loop) (input : ControllerInput) :
    c.Handles (.received input) (c.receive input) := by
  have hloop : c.Silent { state := c } := silent_of_phase .loop (by simp) hphase rfl rfl rfl rfl
  cases input with
  | call ref call => exact handles_handleCall hc hphase ref call
  | cancelRecv ref =>
    simp only [receive]
    by_cases hwaiter : c.waiter = some ref
    · rw [if_pos hwaiter]
      refine handles_of_same hc rfl rfl rfl (Or.inr rfl) rfl rfl rfl ?_
      simp only [pendingRefs, hphase]
      exact List.nil_subperm
    · rw [if_neg hwaiter]
      exact hloop.handles hc rfl
  | recvTimeout ref =>
    simp only [receive]
    by_cases hwaiter : c.waiter = some ref
    · rw [if_pos hwaiter]
      refine handles_of_same hc rfl rfl rfl (Or.inr rfl) rfl rfl rfl ?_
      simp only [pendingRefs, hphase, hwaiter]
      exact List.Subperm.refl _
    · rw [if_neg hwaiter]
      exact hloop.handles hc rfl
  | event event =>
    cases event with
    | data bytes => exact handles_data hphase bytes
    | credit bytes => exact Silent.handles hc rfl ((silent_flushOutput _).congr rfl rfl rfl)
    | closed _ => exact (silent_exit c).handles hc rfl
    | incoming _ _ | connected _ => exact hloop.handles hc rfl
  | distData => exact Silent.handles hc rfl ((silent_flushOutput _).congr rfl rfl rfl)
  | portDown => exact (silent_exit c).handles hc rfl
  | supervisorExit => exact (silent_terminateStream c).handles hc rfl
  | other => exact hloop.handles hc rfl

/-- **The step lemma**: what any turn does with the input. -/
theorem Turns.handles {reaction : Reaction} (h : c.Turns cause reaction) (hc : c.Served) :
    c.Handles cause reaction := by
  cases h with
  | received input hphase => exact handles_receive hc hphase input
  | pulled data hphase => exact (silent_pull data c).handles hc rfl
  | sent answer hphase => exact handles_answerSend hc hphase answer
  | credited answer hphase => exact (silent_answerCredit answer c).handles hc rfl

/-! ## Runs

`Accounted` adds the turns up: bytes in, packets and payloads out, calls and answers. Its step is
what a turn handles, and nothing of the controller is looked at any more. -/

/-- The accounts of the input over a run. -/
structure Accounted (trace : List Turn) (c : Controller) : Prop where
  served : c.Served
  taken : ∃ two four, frames .two (packets (outputs trace)) = some two
    ∧ frames .four (payloads (outputs trace)) = some four
    ∧ consumed trace = two ++ four ++ c.buffer
  handshake : c.mode = .handshake → payloads (outputs trace) = []
  order : (packetRefs (outputs trace) ++ c.waiter.toList).Sublist (recvRefs trace)
  replies : (replyRefs (outputs trace) ++ c.pendingRefs).Subperm (callRefs trace)

theorem accounted_init (credit : ℤ) : Accounted [] (init credit) where
  served := ⟨fun _ h ↦ absurd h Bool.false_ne_true, by rintro ⟨⟩⟩
  taken := ⟨[], [], rfl, rfl, rfl⟩
  handshake := fun _ ↦ rfl
  order := List.Sublist.refl _
  replies := List.Subperm.refl _

theorem Accounted.step {trace : List Turn} {reaction : Reaction} (h : Accounted trace c)
    (hturn : c.Turns cause reaction) :
    Accounted (trace ++ [⟨c, cause, reaction⟩]) reaction.state := by
  have hstep := hturn.handles h.served
  obtain ⟨two, four, htwo, hfour, hconsumed⟩ := h.taken
  obtain ⟨two', four', htwo', hfour', htaken⟩ := hstep.taken
  have houtputs : outputs (trace ++ [⟨c, cause, reaction⟩])
      = outputs trace ++ reaction.outputs := by
    rw [outputs_append]
    exact congrArg _ (List.flatMap_singleton _ _)
  have hdata : consumed (trace ++ [⟨c, cause, reaction⟩]) = consumed trace ++ cause.data := by
    rw [consumed, List.flatMap_append]
    exact congrArg _ (List.flatMap_singleton _ _)
  refine ⟨hstep.served, ?_, ?_, ?_, ?_⟩
  · rw [houtputs, packets_append, payloads_append, hdata, hconsumed, List.append_assoc, htaken]
    -- packets stop before the first payload, so one of the two sequences goes on at its end
    cases hmode : c.mode with
    | handshake =>
      rw [h.handshake hmode] at hfour ⊢
      obtain rfl := Option.some.inj hfour
      refine ⟨two ++ two', four', frames_append htwo htwo', hfour', ?_⟩
      simp only [List.append_assoc, List.append_nil]
    | up =>
      rw [(hstep.up hmode).1] at htwo' ⊢
      obtain rfl := Option.some.inj htwo'
      refine ⟨two, four ++ four', ?_, frames_append hfour hfour', ?_⟩
      · rw [List.append_nil]
        exact htwo
      · simp only [List.append_assoc, List.nil_append]
  · intro hmode
    have hbefore : c.mode = .handshake := by
      cases hc : c.mode with
      | handshake => rfl
      | up => exact absurd (hmode.symm.trans (hstep.up hc).2) (by simp)
    rw [houtputs, payloads_append, h.handshake hbefore, hstep.handshake hmode]
    rfl
  · rw [houtputs, packetRefs_append, recvRefs, List.flatMap_append, ← recvRefs, List.append_assoc]
    refine ((List.Sublist.refl (packetRefs (outputs trace))).append hstep.order).trans ?_
    rw [← List.append_assoc, List.flatMap_singleton]
    exact h.order.append_right _
  · rw [houtputs, replyRefs_append, callRefs, List.flatMap_append, ← callRefs, List.append_assoc]
    refine ((List.subperm_append_left (replyRefs (outputs trace))).mpr hstep.replies).trans ?_
    rw [← List.append_assoc, List.flatMap_singleton]
    exact (List.subperm_append_right _).mpr h.replies

/-- **The run lemma.** -/
theorem Run.accounted {credit : ℤ} {trace : List Turn} (h : (init credit).Run trace c) :
    Accounted trace c := by
  induction h with
  | start => exact accounted_init credit
  | step _ hturn ih => exact ih.step hturn

/-- **Every byte is accounted for.** The packets that callers were given, framed, then the payloads
for the runtime, framed, then the buffer are the bytes that came in, and after the switch the buffer
holds no whole packet. A timeout takes nothing. Callers are given packets in the order of their
calls, and as references are unique no call is answered twice. -/
theorem input_accounted {credit : ℤ} {trace : List Turn} (h : (init credit).Run trace c)
    (hrefs : (callRefs trace).Nodup) :
    (∃ two four, frames .two (packets (outputs trace)) = some two
      ∧ frames .four (payloads (outputs trace)) = some four
      ∧ consumed trace = two ++ four ++ c.buffer)
      ∧ (c.mode = .up → takeOne .four c.buffer = none)
      ∧ (∀ ref, (c.receive (.recvTimeout ref)).state.buffer = c.buffer)
      ∧ (packetRefs (outputs trace)).Sublist (recvRefs trace)
      ∧ (replyRefs (outputs trace)).Nodup := by
  have haccounted := h.accounted
  refine ⟨haccounted.taken, haccounted.served.up, ?_, ?_, ?_⟩
  · intro ref
    simp only [receive]
    split <;> rfl
  · exact (List.sublist_append_left _ _).trans haccounted.order
  · obtain ⟨refs, hperm, hsublist⟩ := haccounted.replies
    exact (List.nodup_append.mp (hperm.nodup_iff.mp (hrefs.sublist hsublist))).1

/-- A call waits; one chunk brings its packet, a tick, and the beginning of a payload that is
complete only after the switch. -/
theorem input_accounted_sample : ∃ trace c, (init 0).Run trace c
    ∧ packets (outputs trace) = [[7]] ∧ payloads (outputs trace) = [[], [8]]
    ∧ (replyRefs (outputs trace)).Nodup := by
  have hrun := (Run.start : (init 0).Run _ _)
    |>.step (.received (.call 0 .recv) rfl)
    |>.step (.received (.event (.data [0, 1, 7, 0, 0, 0, 0, 0, 0])) rfl)
    |>.step (.credited .ok rfl)
    |>.step (.received (.recvTimeout 0) rfl)
    |>.step (.received (.call 1 .handshakeComplete) rfl)
    |>.step (.received (.event (.data [0, 1, 8])) rfl)
  obtain ⟨-, -, -, -, hnodup⟩ := input_accounted hrun (by decide)
  exact ⟨_, _, hrun, by decide, by decide, hnodup⟩

end Controller

end NervesP2P
