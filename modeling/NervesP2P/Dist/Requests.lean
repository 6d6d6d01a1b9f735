import NervesP2P.Daemon.Framing
import NervesP2P.Dist.Output
import NervesP2P.Dist.Window

/-!
# Requests and events in frames

What a controller asks of the daemon goes through the port as a JSON object in a frame, with bytes
as hexadecimal digits, and so does the data that comes back. A frame has at most 64 KiB.

Output is cut into chunks of at most 16 KiB, and so is data that is read, which leaves room for
twice as much and for the other fields. Handshake packets are not cut: they may have up to 65535
bytes, of which a frame holds less than half.
-/

namespace NervesP2P

/-! ## Requests

The length of the text of a request is a sum, of the digits of its two numbers, of twice the bytes
that it carries and of what is fixed. A frame is read if and only if it is not too long, so whether
a request arrives is a comparison. -/

/-- The object for a request of the port's clients. -/
def portRequest (id : ℕ) (command : String) (attributes : List (String × JsonValue)) :
    List (String × JsonValue) :=
  attributes.filter (fun field ↦ field.1 ≠ "id" ∧ field.1 ≠ "command")
    ++ [("id", .number id), ("command", .string command)]

/-- The object for a request of a controller. -/
def PortRequest.json (id stream : UInt64) : PortRequest → List (String × JsonValue)
  | .send bytes => portRequest id.toNat "dist_send"
      [("stream_id", .number stream.toNat), ("bytes", .string (hexEncode bytes))]
  | .credit bytes => portRequest id.toNat "dist_credit"
      [("stream_id", .number stream.toNat), ("bytes", .number bytes)]
  | .close => portRequest id.toNat "dist_close" [("stream_id", .number stream.toNat)]

/-- The daemon reads the request. -/
def PortRequest.Arrives (id stream : UInt64) (request : PortRequest) : Prop :=
  ∀ rest, readFrame (packet4 (jsonText (request.json id stream)) ++ rest)
    = (some (.payload (jsonText (request.json id stream))), rest)

theorem length_send (id stream : UInt64) (bytes : List UInt8) :
    (jsonText ((PortRequest.send bytes).json id stream)).length
      = 2 * bytes.length + digits id.toNat + digits stream.toNat + 53 := by
  have hnames : (jsonString "stream_id").length = 11 ∧ (jsonString "bytes").length = 7
      ∧ (jsonString "id").length = 4 ∧ (jsonString "command").length = 9
      ∧ (jsonString "dist_send").length = 11 := by decide
  obtain ⟨hstream, hbytes, hid, hcommand, hsend⟩ := hnames
  have hfields : (PortRequest.send bytes).json id stream
      = [("stream_id", .number stream.toNat), ("bytes", .string (hexEncode bytes)),
        ("id", .number id.toNat), ("command", .string "dist_send")] := by
    simp [PortRequest.json, portRequest]
  rw [hfields, length_jsonText (List.cons_ne_nil _ _)]
  simp only [List.map_cons, List.map_nil, List.sum_cons, List.sum_nil, JsonValue.text,
    length_jsonNumber, length_jsonString_hexEncode, hstream, hbytes, hid, hcommand, hsend]
  omega

theorem arrives_send_iff (id stream : UInt64) {bytes : List UInt8} (h : bytes.length < 2 ^ 30) :
    (PortRequest.send bytes).Arrives id stream
      ↔ 2 * bytes.length + digits id.toNat + digits stream.toNat + 53 ≤ maxFrameSize := by
  have hid := digits_le id.toNat_lt
  have hstream := digits_le stream.toNat_lt
  have hword : (jsonText ((PortRequest.send bytes).json id stream)).length < 2 ^ 32 := by
    rw [length_send]
    omega
  rw [PortRequest.Arrives, ← length_send]
  constructor
  · intro harrives
    have hread := harrives []
    rw [readFrame_packet4 hword] at hread
    by_contra hlong
    rw [if_neg hlong] at hread
    cases hread
  · intro hle rest
    rw [readFrame_packet4 hword, if_pos hle]

namespace Controller

variable {c : Controller} {chunk : List UInt8}

/-! ## The size of a chunk

What a turn sends is a chunk, or the handshake packet of a caller, and only chunks are cut. In the
other direction the task reads at most one chunk at a time. -/

theorem length_of_sendAvailable {purpose : Purpose} {data : List UInt8}
    (h : (c.sendAvailable purpose data).request = some (.send chunk)) :
    chunk.length ≤ maxPortChunk := by
  rw [sendAvailable] at h
  split at h
  · obtain rfl := PortRequest.send.inj (Option.some.inj h)
    exact (List.length_take_le _ _).trans (min_le_left _ _)
  · cases h

theorem length_of_flushOutput (h : c.flushOutput.request = some (.send chunk)) :
    chunk.length ≤ maxPortChunk := by
  rw [flushOutput] at h
  split at h
  · cases h
  split at h
  · exact length_of_sendAvailable h
  split at h
  · exact length_of_sendAvailable h
  split at h <;> cases h

theorem length_of_answerSend {purpose : Purpose} {size : ℕ} {rest : List UInt8} {answer : Answer}
    (h : (c.answerSend purpose size rest answer).request = some (.send chunk)) :
    chunk.length ≤ maxPortChunk := by
  cases answer with
  | ok =>
    cases purpose with
    | handshake ref => cases h
    | pending | tick =>
      simp only [answerSend] at h
      split at h
      · exact length_of_flushOutput h
      · cases h
  | error _ | failed => cases purpose <;> cases h

theorem handleCall_send {ref : ℕ} {call : ControllerCall}
    (h : (c.handleCall ref call).request = some (.send chunk)) :
    (chunk.length ≤ maxPortChunk ∧ ∀ packet, call ≠ .send packet)
      ∨ ∃ packet, call = .send packet ∧ frame .two packet = some chunk := by
  unfold handleCall at h
  split at h
  · cases h
  · next packet hmode =>
    split at h
    · next data hframe =>
      rw [sendBytes] at h
      split at h
      · obtain rfl := PortRequest.send.inj (Option.some.inj h)
        exact Or.inr ⟨packet, rfl, hframe⟩
      · cases h
    · cases h
  · split at h <;> cases h
  · cases h
  · exact Or.inl ⟨length_of_flushOutput h, by simp⟩
  · cases h
  · cases h
  · cases h

theorem Turns.send_cases {cause : Cause} {reaction : Reaction} (h : c.Turns cause reaction)
    (hrequest : reaction.request = some (.send chunk)) :
    (chunk.length ≤ maxPortChunk ∧ ∀ ref packet, cause ≠ .received (.call ref (.send packet)))
      ∨ ∃ ref packet, cause = .received (.call ref (.send packet))
        ∧ frame .two packet = some chunk := by
  cases h with
  | received input hphase =>
    cases input with
    | call ref call =>
      rcases handleCall_send hrequest with ⟨hle, hne⟩ | ⟨packet, rfl, hframe⟩
      · refine Or.inl ⟨hle, ?_⟩
        rintro ref packet ⟨⟩
        exact hne packet rfl
      · exact Or.inr ⟨ref, packet, rfl, hframe⟩
    | event event =>
      cases event with
      | credit bytes => exact Or.inl ⟨length_of_flushOutput hrequest, by simp⟩
      | data _ | incoming _ _ | connected _ | closed _ => cases hrequest
    | distData => exact Or.inl ⟨length_of_flushOutput hrequest, by simp⟩
    | cancelRecv _ | portDown | supervisorExit | other => cases hrequest
    | recvTimeout ref =>
      simp only [receive] at hrequest
      split at hrequest <;> cases hrequest
  | pulled data hphase =>
    cases data with
    | none => cases hrequest
    | some data => exact Or.inl ⟨length_of_flushOutput hrequest, by simp⟩
  | sent answer hphase => exact Or.inl ⟨length_of_answerSend hrequest, by simp⟩
  | credited answer hphase => cases answer <;> cases hrequest

theorem Run.turns {start : Controller} {trace : List Turn} (h : start.Run trace c) :
    ∀ turn ∈ trace, turn.before.Turns turn.cause turn.reaction := by
  induction h with
  | start => exact fun _ hmem ↦ absurd hmem List.not_mem_nil
  | step _ hturn ih =>
    intro turn hmem
    rcases List.mem_append.mp hmem with hmem | hmem
    · exact ih turn hmem
    · obtain rfl := List.mem_singleton.mp hmem
      exact hturn

end Controller

/-- What a data event carries was read at once. -/
theorem Side.Run.data_fits {start s : Side} {trace : List Action} (hstart : start.Fresh)
    (h : start.Run trace s) {bytes : List UInt8} (hmem : .data bytes ∈ events trace) :
    bytes.length ≤ dataChunk := by
  induction h with
  | start => cases hmem
  | @step trace s s' action h hstep ih =>
    rw [events_append] at hmem
    rcases List.mem_append.mp hmem with hmem | hmem
    · exact ih hmem
    rcases h.invariant (fun _ opening hs ↦ hs.sound_install opening) (fun _ hs ↦ hs.sound)
      (fun _ _ _ hstep hs ↦ hstep.sound hs) hstart with hfresh | hsound
    · have hopened := hfresh.opened
      rw [hstep.emitting hmem] at hopened
      cases hopened
    · exact (hstep.data_fits hsound hmem).2

/-! ## Both directions -/

/-- **What fits into a frame.** The daemon reads every request to send, except for those that carry
a handshake packet which leaves no room for the other fields. Output in chunks always fits, and so
does the data that the daemon reports. -/
theorem requests_arrive_iff {credit : ℤ} {trace : List Turn} {c : Controller}
    (hrun : (Controller.init credit).Run trace c) {start s : Side} {actions : List Action}
    (hstart : start.Fresh) (hside : start.Run actions s) (id stream : UInt64) :
    (∀ turn ∈ trace, ∀ chunk, turn.reaction.request = some (.send chunk) →
      ((PortRequest.send chunk).Arrives id stream
        ↔ ∀ ref packet, turn.cause = .received (.call ref (.send packet)) →
          2 * packet.length + digits id.toNat + digits stream.toNat + 57 ≤ maxFrameSize))
      ∧ ∀ bytes, .data bytes ∈ events actions →
        (jsonText (distEventJson stream (.data bytes))).length ≤ maxFrameSize
          ∧ writeJson (distEventJson stream (.data bytes))
            = packet4 (jsonText (distEventJson stream (.data bytes))) := by
  constructor
  · intro turn hturn chunk hrequest
    have hid := digits_le id.toNat_lt
    have hstream := digits_le stream.toNat_lt
    rcases (hrun.turns turn hturn).send_cases hrequest with
      ⟨hle, hne⟩ | ⟨ref, packet, hcause, hframe⟩
    · rw [maxPortChunk] at hle
      rw [arrives_send_iff id stream (by omega), maxFrameSize]
      refine iff_of_true (by omega) fun ref packet hcause ↦ absurd hcause (hne ref packet)
    · obtain ⟨hlt, hlength⟩ := length_frame hframe
      simp only [HeaderSize.width] at hlt hlength
      rw [arrives_send_iff id stream (by omega), hlength]
      constructor
      · intro hle ref' packet' hcause'
        rw [hcause] at hcause'
        cases hcause'
        omega
      · intro hle
        have := hle ref packet hcause
        omega
  · intro bytes hmem
    have hle := dataEvent_fits stream (hside.data_fits hstart hmem)
    exact ⟨hle, writeJson_of_le hle⟩

theorem Controller.receive_send {c : Controller} (hmode : c.mode = .handshake) (ref : ℕ)
    {packet chunk : List UInt8} (hframe : frame .two packet = some chunk)
    (hcredit : chunk.length ≤ c.credit) :
    c.receive (.call ref (.send packet)) = c.callSend (.handshake ref) chunk [] := by
  simp only [receive, handleCall, hmode, hframe, sendBytes, if_pos hcredit]

/-- A packet of half the allowed length. -/
def longPacket : List UInt8 := List.replicate 32768 0

theorem length_longPacket : longPacket.length = 32768 := List.length_replicate

theorem frame_longPacket : frame .two longPacket = some (beBytes 2 32768 ++ longPacket) := by
  rw [frame, length_longPacket]
  exact if_pos (by decide)

/-- The packet is sent, and the daemon skips the request. -/
theorem handshake_packet_skipped :
    longPacket.length < 2 ^ 16 ∧ ∃ (chunk : List UInt8) (trace : List Turn) (c : Controller),
      (Controller.init initialCredit).Run trace c
        ∧ (∃ turn ∈ trace, turn.cause = .received (.call 0 (.send longPacket))
          ∧ turn.reaction.request = some (.send chunk))
        ∧ ∀ (id stream : UInt64) rest,
          readFrame (packet4 (jsonText ((PortRequest.send chunk).json id stream)) ++ rest)
            = (some .oversized, rest) := by
  obtain ⟨-, hlength⟩ := length_frame frame_longPacket
  rw [length_longPacket, HeaderSize.width] at hlength
  have hcredit : ((beBytes 2 32768 ++ longPacket).length : ℤ)
      ≤ (Controller.init initialCredit).credit := by
    rw [hlength]
    decide
  have hrun := (Controller.Run.start : (Controller.init initialCredit).Run _ _)
    |>.step (.received (.call 0 (.send longPacket)) rfl)
  refine ⟨by rw [length_longPacket]; decide, beBytes 2 32768 ++ longPacket, _, _, hrun,
    ⟨_, List.mem_singleton_self _, rfl, ?_⟩, ?_⟩
  · rw [Controller.receive_send rfl 0 frame_longPacket hcredit]
    rfl
  · intro id stream rest
    have hid := digits_le id.toNat_lt
    have hstream := digits_le stream.toNat_lt
    have htext := length_send id stream (beBytes 2 32768 ++ longPacket)
    rw [hlength] at htext
    rw [readFrame_packet4 (by omega), if_neg (by rw [htext, maxFrameSize]; omega)]

/-- A short packet arrives, and so does a byte of data. -/
theorem requests_arrive_sample :
    (PortRequest.send [0, 3, 1, 2, 3]).Arrives 1 1 ∧ writeJson (distEventJson 1 (.data [7]))
      = packet4 (jsonText (distEventJson 1 (.data [7]))) := by
  have hrun := (Controller.Run.start : (Controller.init initialCredit).Run _ _)
    |>.step (.received (.call 0 (.send [1, 2, 3])) rfl)
  obtain ⟨trace, htally, -⟩ := Side.tally_idle
  have hside := htally.run
    |>.step (@Side.Step.readData _ [7] (by decide) (by decide) rfl)
    |>.step (.deduct rfl)
    |>.step (.dataEvent rfl)
  obtain ⟨hrequests, hevents⟩ := requests_arrive_iff hrun (Side.fresh_connecting _ _) hside 1 1
  constructor
  · refine (hrequests _ (List.mem_singleton_self _) [0, 3, 1, 2, 3] rfl).mpr ?_
    rintro ref packet ⟨⟩
    decide
  · refine (hevents [7] ?_).2
    simp [events]

end NervesP2P
