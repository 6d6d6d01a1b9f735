import NervesP2P.Lib.BigEndian

/-!
# Distribution packets

Erlang distribution sends packets behind a length of two bytes while the connection is being set up
and of four bytes afterwards. `takeOne` takes one packet from the front of a buffer, and
`parseFrames` all of them; what is not a whole packet stays in the buffer.

A length stands in front of its packet, so no packet is the beginning of another, and the two
directions meet in one statement: what `takeOne` takes is a framed packet, and every framed packet
is taken (`takeOne_eq_some_iff`). All that follows uses this and does not look at bytes again.
-/

namespace NervesP2P

/-- The two widths of a packet's length. -/
inductive HeaderSize where
  | two
  | four
  deriving DecidableEq

def HeaderSize.width : HeaderSize → ℕ
  | .two => 2
  | .four => 4

/-- A packet behind its length; there is none for a payload whose length does not fit. -/
def frame (size : HeaderSize) (payload : List UInt8) : Option (List UInt8) :=
  if payload.length < 256 ^ size.width then
    some (beBytes size.width payload.length ++ payload)
  else none

/-- The first packet of a buffer and the rest, when the packet is whole. -/
def takeOne (size : HeaderSize) (buffer : List UInt8) : Option (List UInt8 × List UInt8) :=
  let length := ofBeBytes (buffer.take size.width)
  if size.width + length ≤ buffer.length then
    some ((buffer.drop size.width).take length, buffer.drop (size.width + length))
  else none

/-- The loop that takes packets while there are any. Every packet takes at least its length off the
buffer, so the length of the buffer bounds the number of rounds. -/
def parseFrames (size : HeaderSize) : ℕ → List UInt8 → List (List UInt8) × List UInt8
  | 0, buffer => ([], buffer)
  | rounds + 1, buffer =>
    match takeOne size buffer with
    | some (payload, rest) =>
      let (payloads, rest) := parseFrames size rounds rest
      (payload :: payloads, rest)
    | none => ([], buffer)

def feed (size : HeaderSize) (buffer chunk : List UInt8) : List (List UInt8) × List UInt8 :=
  parseFrames size (buffer ++ chunk).length (buffer ++ chunk)

variable {size : HeaderSize} {payload packet packets rest : List UInt8}
  {payloads : List (List UInt8)}

/-- **What `takeOne` takes is a framed packet**, and every framed packet is taken. -/
theorem takeOne_eq_some_iff {buffer : List UInt8} :
    takeOne size buffer = some (payload, rest) ↔
      ∃ packet, frame size payload = some packet ∧ buffer = packet ++ rest := by
  constructor
  · intro h
    simp only [takeOne] at h
    split at h
    · next hle =>
      rw [Option.some_inj, Prod.mk.injEq] at h
      obtain ⟨rfl, rfl⟩ := h
      have hwidth : (buffer.take size.width).length = size.width :=
        List.length_take_of_le (by omega)
      have hlength : ((buffer.drop size.width).take
          (ofBeBytes (buffer.take size.width))).length = ofBeBytes (buffer.take size.width) :=
        List.length_take_of_le (by rw [List.length_drop]; omega)
      have hlt := ofBeBytes_lt (buffer.take size.width)
      rw [hwidth] at hlt
      refine ⟨_, if_pos (by rw [hlength]; exact hlt), ?_⟩
      -- the length written is the one that was read
      have hword := beBytes_ofBeBytes (buffer.take size.width)
      rw [hwidth] at hword
      rw [hlength, hword, List.append_assoc, ← List.drop_drop, List.take_append_drop,
        List.take_append_drop]
    · cases h
  · rintro ⟨packet, hpacket, rfl⟩
    rw [frame] at hpacket
    split at hpacket
    · next hlt =>
      obtain rfl := Option.some.inj hpacket
      have hwidth := length_beBytes size.width payload.length
      have htake : (beBytes size.width payload.length ++ payload ++ rest).take size.width
          = beBytes size.width payload.length := by
        rw [List.append_assoc]
        exact List.take_left' hwidth
      have hdrop : (beBytes size.width payload.length ++ payload ++ rest).drop size.width
          = payload ++ rest := by
        rw [List.append_assoc]
        exact List.drop_left' hwidth
      simp only [takeOne, htake, ofBeBytes_beBytes hlt, ← List.drop_drop, hdrop]
      rw [if_pos (by simp only [List.length_append, hwidth]; omega), List.take_left, List.drop_left]
    · cases hpacket

theorem length_frame (h : frame size payload = some packet) :
    payload.length < 256 ^ size.width ∧ packet.length = payload.length + size.width := by
  rw [frame] at h
  split at h
  · next hlt =>
    obtain rfl := Option.some.inj h
    refine ⟨hlt, ?_⟩
    rw [List.length_append, length_beBytes, Nat.add_comm]
  · cases h

theorem frame_ne_nil (h : frame size payload = some packet) : packet ≠ [] := by
  have hpos : 0 < size.width := by cases size <;> decide
  obtain ⟨-, hlength⟩ := length_frame h
  exact List.length_pos_iff.mp (by omega)

/-! ## Many packets

The loop takes packets off the front, at most one for each byte of the buffer. So its rounds
suffice, and in the end no whole packet is left (`takeOne_parseFrames`). -/

/-- Packets one behind the other. -/
def frames (size : HeaderSize) : List (List UInt8) → Option (List UInt8)
  | [] => some []
  | payload :: payloads =>
    match frame size payload, frames size payloads with
    | some packet, some packets => some (packet ++ packets)
    | _, _ => none

theorem frames_singleton (h : frame size payload = some packet) :
    frames size [payload] = some packet := by
  rw [frames, h, frames]
  exact congrArg some (List.append_nil packet)

theorem frames_cons (h : frame size payload = some packet)
    (hs : frames size payloads = some packets) :
    frames size (payload :: payloads) = some (packet ++ packets) := by
  rw [frames, h, hs]

theorem exists_of_frames_cons (h : frames size (payload :: payloads) = some packets) :
    ∃ packet rest, frame size payload = some packet ∧ frames size payloads = some rest
      ∧ packets = packet ++ rest := by
  rw [frames] at h
  split at h
  · next packet rest hpacket hrest =>
    exact ⟨packet, rest, hpacket, hrest, (Option.some.inj h).symm⟩
  · cases h

theorem frames_append {first second : List (List UInt8)} {packets' : List UInt8}
    (h : frames size first = some packets) (h' : frames size second = some packets') :
    frames size (first ++ second) = some (packets ++ packets') := by
  induction first generalizing packets with
  | nil =>
    obtain rfl := Option.some.inj h
    exact h'
  | cons payload first ih =>
    obtain ⟨packet, rest, hpacket, hrest, rfl⟩ := exists_of_frames_cons h
    rw [List.cons_append, frames_cons hpacket (ih hrest), List.append_assoc]

/-- **The loop splits the buffer** into the packets it takes and the rest. -/
theorem exists_frames_parseFrames (size : HeaderSize) (rounds : ℕ) (buffer : List UInt8) :
    ∃ packets, frames size (parseFrames size rounds buffer).1 = some packets
      ∧ buffer = packets ++ (parseFrames size rounds buffer).2 := by
  induction rounds generalizing buffer with
  | zero => exact ⟨[], rfl, rfl⟩
  | succ rounds ih =>
    rw [parseFrames]
    split
    · next payload rest htake =>
      obtain ⟨packet, hpacket, rfl⟩ := takeOne_eq_some_iff.mp htake
      obtain ⟨packets, hpackets, hrest⟩ := ih rest
      refine ⟨packet ++ packets, frames_cons hpacket hpackets, ?_⟩
      rw [List.append_assoc]
      exact congrArg (packet ++ ·) hrest
    · exact ⟨[], rfl, rfl⟩

theorem takeOne_parseFrames {rounds : ℕ} {buffer : List UInt8} (h : buffer.length ≤ rounds) :
    takeOne size (parseFrames size rounds buffer).2 = none := by
  induction rounds generalizing buffer with
  | zero =>
    obtain rfl := List.eq_nil_of_length_eq_zero (Nat.le_zero.mp h)
    cases size <;> rfl
  | succ rounds ih =>
    rw [parseFrames]
    split
    · next payload rest htake =>
      obtain ⟨packet, hpacket, rfl⟩ := takeOne_eq_some_iff.mp htake
      have hpos := List.length_pos_iff.mpr (frame_ne_nil hpacket)
      rw [List.length_append] at h
      exact ih (by omega)
    · next htake => exact htake

theorem exists_frames_feed (size : HeaderSize) (buffer chunk : List UInt8) :
    (∃ packets, frames size (feed size buffer chunk).1 = some packets
      ∧ buffer ++ chunk = packets ++ (feed size buffer chunk).2)
      ∧ takeOne size (feed size buffer chunk).2 = none :=
  ⟨exists_frames_parseFrames size _ _, takeOne_parseFrames le_rfl⟩

/-! ## Any chunks

A connection hands the bytes over in chunks that have nothing to do with packets. What `feed` makes
of them depends on the bytes alone: there is only one way to cut bytes into packets and a rest that
holds no whole packet.

The rest of one splitting is the beginning of the next (`Splits.append`), so feeding chunk after
chunk with the rest in front of the next gives a splitting of all bytes, and it is the same as that
of the bytes in one piece. -/

/-- The bytes are the packets of the payloads, and a rest without a whole packet. -/
structure Splits (size : HeaderSize) (bytes : List UInt8) (payloads : List (List UInt8))
    (rest : List UInt8) : Prop where
  packets : ∃ packets, frames size payloads = some packets ∧ bytes = packets ++ rest
  rest : takeOne size rest = none

theorem splits_feed (size : HeaderSize) (buffer chunk : List UInt8) :
    Splits size (buffer ++ chunk) (feed size buffer chunk).1 (feed size buffer chunk).2 := by
  obtain ⟨hpackets, hrest⟩ := exists_frames_feed size buffer chunk
  exact ⟨hpackets, hrest⟩

theorem takeOne_frames_cons (h : frames size (payload :: payloads) = some packets)
    (rest : List UInt8) :
    ∃ packets', frames size payloads = some packets'
      ∧ takeOne size (packets ++ rest) = some (payload, packets' ++ rest) := by
  obtain ⟨packet, packets', hpacket, hpackets, rfl⟩ := exists_of_frames_cons h
  refine ⟨packets', hpackets, takeOne_eq_some_iff.mpr ⟨packet, hpacket, ?_⟩⟩
  rw [List.append_assoc]

/-- **Packets are found again.** If the first packets are a beginning of bytes that begin with the
second ones, they are the first of these, provided that there are not more of them, or that nothing
else comes behind. -/
theorem frames_le {first second : List (List UInt8)} {bytes bytes' : List UInt8}
    (h : frames size first = some bytes) (h' : frames size second = some bytes')
    (hle : bytes <+: bytes' ++ rest) (hlength : rest ≠ [] → first.length ≤ second.length) :
    first <+: second := by
  induction first generalizing second bytes bytes' with
  | nil => exact List.nil_prefix
  | cons payload first ih =>
    obtain ⟨more, hmore⟩ := hle
    obtain ⟨tail, htail, htake⟩ := takeOne_frames_cons h more
    cases second with
    | nil =>
      obtain rfl := Option.some.inj h'
      have hrest : rest = [] := by
        by_contra hne
        exact absurd (hlength hne) (Nat.not_succ_le_zero _)
      obtain ⟨packet, _, hpacket, -, rfl⟩ := exists_of_frames_cons h
      rw [hrest, List.append_nil, List.append_assoc, List.append_eq_nil_iff] at hmore
      exact absurd hmore.1 (frame_ne_nil hpacket)
    | cons payload' second =>
      obtain ⟨tail', htail', htake'⟩ := takeOne_frames_cons h' rest
      rw [hmore, htake', Option.some_inj, Prod.mk.injEq] at htake
      obtain ⟨rfl, hsame⟩ := htake
      rw [List.cons_prefix_cons]
      refine ⟨rfl, ih htail htail' ⟨more, hsame.symm⟩ fun hne ↦ ?_⟩
      exact Nat.le_of_succ_le_succ (hlength hne)

theorem Splits.unique {bytes rest' : List UInt8} {payloads' : List (List UInt8)}
    (h : Splits size bytes payloads rest) (h' : Splits size bytes payloads' rest') :
    payloads = payloads' ∧ rest = rest' := by
  obtain ⟨⟨packets, hpackets, hbytes⟩, hrest⟩ := h
  obtain ⟨⟨packets', hpackets', hbytes'⟩, hrest'⟩ := h'
  induction payloads generalizing bytes payloads' packets packets' with
  | nil =>
    obtain rfl := Option.some.inj hpackets
    cases payloads' with
    | nil =>
      obtain rfl := Option.some.inj hpackets'
      exact ⟨rfl, hbytes.symm.trans hbytes'⟩
    | cons payload' payloads' =>
      obtain ⟨_, -, htake⟩ := takeOne_frames_cons hpackets' rest'
      rw [← hbytes', hbytes, List.nil_append, hrest] at htake
      cases htake
  | cons payload payloads ih =>
    obtain ⟨tail, htail, htake⟩ := takeOne_frames_cons hpackets rest
    cases payloads' with
    | nil =>
      obtain rfl := Option.some.inj hpackets'
      rw [← hbytes, hbytes', List.nil_append, hrest'] at htake
      cases htake
    | cons payload' payloads' =>
      obtain ⟨tail', htail', htake'⟩ := takeOne_frames_cons hpackets' rest'
      rw [← hbytes, hbytes', htake', Option.some_inj, Prod.mk.injEq] at htake
      obtain ⟨rfl, hsame⟩ := htake
      obtain ⟨rfl, rfl⟩ := ih tail htail rfl tail' htail' hsame.symm
      exact ⟨rfl, rfl⟩

theorem Splits.append {bytes buffer chunk : List UInt8} {payloads' : List (List UInt8)}
    (h : Splits size bytes payloads buffer) (h' : Splits size (buffer ++ chunk) payloads' rest) :
    Splits size (bytes ++ chunk) (payloads ++ payloads') rest := by
  obtain ⟨packets, hpackets, rfl⟩ := h.packets
  obtain ⟨packets', hpackets', hbuffer⟩ := h'.packets
  refine ⟨⟨packets ++ packets', frames_append hpackets hpackets', ?_⟩, h'.rest⟩
  rw [List.append_assoc, List.append_assoc, hbuffer]

/-- Feed one chunk after the other, with the residue of each in front of the next. -/
def feedAll (size : HeaderSize) (chunks : List (List UInt8)) : List (List UInt8) × List UInt8 :=
  chunks.foldl (fun fed chunk ↦
    (fed.1 ++ (feed size fed.2 chunk).1, (feed size fed.2 chunk).2)) ([], [])

theorem splits_feedAll (size : HeaderSize) (chunks : List (List UInt8)) :
    Splits size chunks.flatten (feedAll size chunks).1 (feedAll size chunks).2 := by
  induction chunks using List.reverseRecOn with
  | nil => exact ⟨⟨[], rfl, rfl⟩, by cases size <;> rfl⟩
  | append_singleton chunks chunk ih =>
    rw [feedAll, List.foldl_append, List.flatten_append, List.flatten_singleton]
    exact ih.append (splits_feed size _ chunk)

theorem frames_of_length (h : ∀ payload ∈ payloads, payload.length < 256 ^ size.width) :
    ∃ packets, frames size payloads = some packets := by
  induction payloads with
  | nil => exact ⟨[], rfl⟩
  | cons payload payloads ih =>
    obtain ⟨packets, hpackets⟩ := ih fun payload' hmem ↦ h payload' (List.mem_cons_of_mem _ hmem)
    exact ⟨_, frames_cons (if_pos (h payload List.mem_cons_self)) hpackets⟩

/-- **Framing does not depend on chunks.** However bytes are cut, the payloads and the residue are
those of the bytes in one piece; put back behind their lengths they are the bytes; the residue has
no whole packet at its front; and packets that were framed come out again. -/
theorem feed_any_chunks (size : HeaderSize) (chunks : List (List UInt8))
    {payloads : List (List UInt8)}
    (h : ∀ payload ∈ payloads, payload.length < 256 ^ size.width) :
    feedAll size chunks = feed size [] chunks.flatten
      ∧ (∃ packets, frames size (feedAll size chunks).1 = some packets
        ∧ packets ++ (feedAll size chunks).2 = chunks.flatten)
      ∧ (∀ payload packet, frame size payload = some packet → ¬packet <+: (feedAll size chunks).2)
      ∧ ∃ packets, frames size payloads = some packets ∧ feed size [] packets = (payloads, []) := by
  have hsplits := splits_feedAll size chunks
  refine ⟨?_, ?_, ?_, ?_⟩
  · obtain ⟨hpayloads, hrest⟩ := hsplits.unique (splits_feed size [] chunks.flatten)
    exact Prod.ext hpayloads hrest
  · obtain ⟨packets, hpackets, hbytes⟩ := hsplits.packets
    exact ⟨packets, hpackets, hbytes.symm⟩
  · rintro payload packet hpacket ⟨rest, hrest⟩
    have htake := takeOne_eq_some_iff.mpr ⟨packet, hpacket, hrest.symm⟩
    exact absurd (hsplits.rest.symm.trans htake) (by simp)
  · obtain ⟨packets, hpackets⟩ := frames_of_length h
    have hwhole : Splits size packets payloads [] :=
      ⟨⟨packets, hpackets, (List.append_nil packets).symm⟩, by cases size <;> rfl⟩
    obtain ⟨hpayloads, hrest⟩ := (splits_feed size [] packets).unique hwhole
    exact ⟨packets, hpackets, Prod.ext hpayloads hrest⟩

/-- A tick and a packet of three bytes, cut inside a length and inside a payload. -/
theorem feed_any_chunks_sample :
    feedAll .two [[0], [0, 0], [], [3, 1, 2], [3, 0]] = ([[], [1, 2, 3]], [0])
      ∧ ∃ packets, frames .two [[], [1, 2, 3]] = some packets
        ∧ feed .two [] packets = ([[], [1, 2, 3]], []) := by
  have hall := @feed_any_chunks .two [[0], [0, 0], [], [3, 1, 2], [3, 0]] [[], [1, 2, 3]]
    (by decide)
  exact ⟨hall.1.trans (by decide), hall.2.2.2⟩

end NervesP2P
