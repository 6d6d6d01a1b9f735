import NervesP2P.Dist.Stream
import NervesP2P.Lib.Json

/-!
# Frames between port and daemon

The port and the daemon exchange JSON objects, each with its length in front of it, in four bytes.
Neither side puts a limit on what it is asked to say, but the daemon reads and writes frames of at
most 64 KiB: a longer one that comes in is skipped, and one that would go out is replaced by an
error.
-/

namespace NervesP2P

def maxFrameSize : ℕ := 64 * 1024

/-- A frame, as the port writes it: the option `{packet, 4}`. -/
def packet4 (payload : List UInt8) : List UInt8 := beBytes 4 payload.length ++ payload

/-! ## Reading

What becomes of a frame depends on its length alone. The bytes of one that is too long are skipped
as far as they have come, so that the reader stands at the next length again, or at the end of the
input. -/

/-- What the daemon makes of its input. -/
inductive Frame where
  | payload (bytes : List UInt8)
  | oversized
  | eof

/-- Read one frame; `none` when the input ends inside a payload. An input that ends inside a length
is at its end. Of a frame that is too long, as much is skipped as there is. -/
def readFrame (input : List UInt8) : Option Frame × List UInt8 :=
  if input.length < 4 then (some .eof, [])
  else
    let length := ofBeBytes (input.take 4)
    let body := input.drop 4
    if maxFrameSize < length then (some .oversized, body.drop length)
    else if body.length < length then (none, [])
    else (some (.payload (body.take length)), body.drop length)

theorem readFrame_packet4 {payload : List UInt8} (h : payload.length < 2 ^ 32) (rest : List UInt8) :
    readFrame (packet4 payload ++ rest)
      = (some (if payload.length ≤ maxFrameSize then .payload payload else .oversized), rest) := by
  have hword : (beBytes 4 payload.length).length = 4 := length_beBytes 4 _
  have htake : (packet4 payload ++ rest).take 4 = beBytes 4 payload.length := by
    rw [packet4, List.append_assoc, List.take_left' hword]
  have hdrop : (packet4 payload ++ rest).drop 4 = payload ++ rest := by
    rw [packet4, List.append_assoc, List.drop_left' hword]
  have hlength : ¬(packet4 payload ++ rest).length < 4 := by
    rw [packet4, List.length_append, List.length_append, hword]
    omega
  have hread : ofBeBytes (beBytes 4 payload.length) = payload.length :=
    ofBeBytes_beBytes (by rw [show (256 : ℕ) ^ 4 = 2 ^ 32 by decide]; exact h)
  rw [readFrame, if_neg hlength, htake, hdrop, hread]
  by_cases hle : payload.length ≤ maxFrameSize
  · have hbody : ¬(payload ++ rest).length < payload.length := by
      rw [List.length_append]
      omega
    simp only [if_neg hle.not_gt, if_neg hbody, List.take_left, List.drop_left, if_pos hle]
  · simp only [if_pos (not_le.mp hle), List.drop_left, if_neg hle]

/-! ## The reader thread

The thread reads frame after frame and stops after anything but a payload or a frame that was
skipped. `readerThread_packet4` reads one frame, and by induction the thread never loses the
boundaries: whatever follows a list of frames is read as if it stood alone. It remains to say how an
input ends. -/

/-- What one frame of the port is read as. -/
def Frame.ofPayload (payload : List UInt8) : Frame :=
  if payload.length ≤ maxFrameSize then .payload payload else .oversized

/-- The frames that the reader thread hands over, when `taken` of them are taken before the other
side of the channel is gone. It stops after anything but a payload or a frame that was skipped. -/
def readerThread : ℕ → List UInt8 → List (Option Frame)
  | 0, _ => []
  | taken + 1, input =>
    match readFrame input with
    | (some (.payload bytes), rest) => some (.payload bytes) :: readerThread taken rest
    | (some .oversized, rest) => some .oversized :: readerThread taken rest
    | (frame, _) => [frame]

theorem readerThread_packet4 {payload : List UInt8} (h : payload.length < 2 ^ 32)
    (rest : List UInt8) (taken : ℕ) :
    readerThread (taken + 1) (packet4 payload ++ rest)
      = some (Frame.ofPayload payload) :: readerThread taken rest := by
  rw [readerThread, readFrame_packet4 h, Frame.ofPayload]
  by_cases hle : payload.length ≤ maxFrameSize
  · simp only [if_pos hle]
  · simp only [if_neg hle]

/-- **The thread never loses the frame boundaries**: whatever follows a list of frames, it is read
as if it stood alone. -/
theorem readerThread_packets {payloads : List (List UInt8)}
    (h : ∀ payload ∈ payloads, payload.length < 2 ^ 32) (rest : List UInt8) (taken : ℕ) :
    readerThread taken (payloads.flatMap packet4 ++ rest)
      = (payloads.map fun p ↦ some (Frame.ofPayload p)).take taken
        ++ readerThread (taken - payloads.length) rest := by
  induction payloads generalizing taken with
  | nil => simp
  | cons payload payloads ih =>
    cases taken with
    | zero => simp [readerThread]
    | succ taken =>
      have hrest := ih (fun p hp ↦ h p (List.mem_cons_of_mem payload hp)) taken
      rw [List.flatMap_cons, List.append_assoc,
        readerThread_packet4 (h payload List.mem_cons_self), hrest, List.map_cons,
        List.take_succ_cons, List.cons_append, List.length_cons, Nat.add_sub_add_right]

theorem readerThread_header {tail : List UInt8} (h : tail.length < 4) (taken : ℕ) :
    readerThread taken tail = [some Frame.eof].take taken := by
  cases taken with
  | zero => rfl
  | succ taken => rw [readerThread, readFrame, if_pos h, List.take_succ_cons, List.take_nil]

theorem readFrame_cut {payload : List UInt8} (hlarge : maxFrameSize < payload.length)
    (hword : payload.length < 2 ^ 32) {cut : ℕ} (hcut : 4 ≤ cut) :
    readFrame ((packet4 payload).take cut) = (some .oversized, []) := by
  have hlength : (beBytes 4 payload.length).length = 4 := length_beBytes 4 _
  have hbytes : (packet4 payload).take cut
      = beBytes 4 payload.length ++ payload.take (cut - 4) := by
    rw [packet4, List.take_append, hlength, List.take_of_length_le (by omega)]
  have hread : ofBeBytes (beBytes 4 payload.length) = payload.length :=
    ofBeBytes_beBytes (by rw [show (256 : ℕ) ^ 4 = 2 ^ 32 by decide]; exact hword)
  have hskip : (payload.take (cut - 4)).drop payload.length = [] :=
    List.drop_of_length_le (List.length_take_le' _ _)
  rw [hbytes, readFrame, if_neg (by rw [List.length_append, hlength]; omega)]
  simp only [List.take_left' hlength, List.drop_left' hlength, hread, if_pos hlarge, hskip]

theorem readerThread_cut {payload : List UInt8} (hlarge : maxFrameSize < payload.length)
    (hword : payload.length < 2 ^ 32) {cut : ℕ} (hcut : 4 ≤ cut) (taken : ℕ) :
    readerThread taken ((packet4 payload).take cut)
      = [some Frame.oversized, some Frame.eof].take taken := by
  cases taken with
  | zero => rfl
  | succ taken =>
    have hend : readerThread taken [] = [some Frame.eof].take taken :=
      readerThread_header (by decide) taken
    rw [readerThread, readFrame_cut hlarge hword hcut]
    simp only [hend, List.take_succ_cons]

/-- **Port framing**: on the frames of any payloads the thread hands over each payload of at most
64 KiB and a mark for each longer one, in order, and then the end of the input. An input that ends
inside a length adds nothing to that, and one that ends inside a frame that is too long adds
only the mark. -/
theorem readerThread_frames {payloads : List (List UInt8)}
    (h : ∀ payload ∈ payloads, payload.length < 2 ^ 32) (taken : ℕ) :
    readerThread taken (payloads.flatMap packet4)
        = (payloads.map (fun p ↦ some (Frame.ofPayload p)) ++ [some Frame.eof]).take taken
      ∧ (∀ tail : List UInt8, tail.length < 4 →
        readerThread taken (payloads.flatMap packet4 ++ tail)
          = (payloads.map (fun p ↦ some (Frame.ofPayload p)) ++ [some Frame.eof]).take taken)
      ∧ ∀ (payload : List UInt8) (cut : ℕ), maxFrameSize < payload.length →
        payload.length < 2 ^ 32 → 4 ≤ cut →
        readerThread taken (payloads.flatMap packet4 ++ (packet4 payload).take cut)
          = (payloads.map (fun p ↦ some (Frame.ofPayload p))
            ++ [some Frame.oversized, some Frame.eof]).take taken := by
  have hheader : ∀ tail : List UInt8, tail.length < 4 →
      readerThread taken (payloads.flatMap packet4 ++ tail)
        = (payloads.map (fun p ↦ some (Frame.ofPayload p)) ++ [some Frame.eof]).take taken := by
    intro tail htail
    rw [readerThread_packets h, readerThread_header htail, List.take_append, List.length_map]
  refine ⟨?_, hheader, ?_⟩
  · have hnil := hheader [] (by decide)
    rwa [List.append_nil] at hnil
  · intro payload cut hlarge hword hcut
    rw [readerThread_packets h, readerThread_cut hlarge hword hcut, List.take_append,
      List.length_map]

theorem readerThread_three :
    readerThread 5 ([[1, 2], List.replicate 65537 0].flatMap packet4 ++ [0, 0])
      = [some (.payload [1, 2]), some .oversized, some .eof] := by
  have hword : ∀ payload ∈ [[1, 2], List.replicate 65537 (0 : UInt8)],
      payload.length < 2 ^ 32 := by
    intro payload hmem
    rcases List.mem_pair.mp hmem with rfl | rfl
    · decide
    · rw [List.length_replicate]
      decide
  have hlong : ¬(List.replicate 65537 (0 : UInt8)).length ≤ maxFrameSize := by
    rw [List.length_replicate]
    decide
  have hshort : ([1, 2] : List UInt8).length ≤ maxFrameSize := by decide
  rw [(readerThread_frames hword 5).2.1 [0, 0] (by decide)]
  simp only [List.map_cons, List.map_nil, Frame.ofPayload, if_neg hlong, if_pos hshort]
  rfl

/-! ## Writing

An object whose text does not fit is replaced by an error. For the data of a stream the length of
the text is known: the bytes are written in hexadecimal, two characters for each, and beside the
digits of the stream's number everything else is fixed. -/

/-- The object that a frame of the daemon carries. -/
def writeJson (fields : List (String × JsonValue)) : List UInt8 :=
  let payload := jsonText fields
  let payload := if maxFrameSize < payload.length then
      jsonText [("id", (fields.lookup "id").getD .null), ("ok", .bool false),
        ("error", .string "frame_too_large")]
    else payload
  packet4 payload

def distEventJson (stream : UInt64) (event : Event) : List (String × JsonValue) :=
  match event with
  | .incoming fromNode targetNode =>
    [("event", .string "dist_incoming"), ("stream_id", .number stream.toNat),
      ("from_node", .string fromNode.str), ("target_node", .string targetNode.str)]
  | .connected targetNode =>
    [("event", .string "dist_connected"), ("stream_id", .number stream.toNat),
      ("target_node", .string targetNode.str)]
  | .data bytes =>
    [("event", .string "dist_data"), ("stream_id", .number stream.toNat),
      ("bytes", .string (hexEncode bytes))]
  | .credit bytes =>
    [("event", .string "dist_credit"), ("stream_id", .number stream.toNat),
      ("bytes", .number bytes)]
  | .closed reason =>
    [("event", .string "dist_closed"), ("stream_id", .number stream.toNat),
      ("reason", .string reason.toString)]

theorem writeJson_of_le {fields : List (String × JsonValue)}
    (h : (jsonText fields).length ≤ maxFrameSize) :
    writeJson fields = packet4 (jsonText fields) := by
  rw [writeJson]
  exact congrArg packet4 (if_neg h.not_gt)

theorem length_dataEvent (stream : UInt64) (bytes : List UInt8) :
    (jsonText (distEventJson stream (.data bytes))).length
      = 2 * bytes.length + digits stream.toNat + 45 := by
  have hnames : (jsonString "event").length = 7 ∧ (jsonString "dist_data").length = 11
      ∧ (jsonString "stream_id").length = 11 ∧ (jsonString "bytes").length = 7 := by decide
  obtain ⟨hevent, hdata, hstream, hbytes⟩ := hnames
  rw [distEventJson, length_jsonText (List.cons_ne_nil _ _)]
  simp only [List.map_cons, List.map_nil, List.sum_cons, List.sum_nil,
    JsonValue.text, length_jsonNumber, length_jsonString_hexEncode, hevent, hdata, hstream, hbytes]
  omega

/-- Data that comes from one read fits into a frame. -/
theorem dataEvent_fits (stream : UInt64) {bytes : List UInt8} (h : bytes.length ≤ dataChunk) :
    (jsonText (distEventJson stream (.data bytes))).length ≤ maxFrameSize := by
  have hdigits := digits_le stream.toNat_lt
  rw [length_dataEvent, maxFrameSize]
  rw [dataChunk] at h
  omega

end NervesP2P
