import NervesP2P.Lib.BigEndian
import NervesP2P.Lib.Reader

/-!
# The saved routing table

A node writes its routing table to a file when it stops and reads it when it starts. The format is a
magic number, a version, and a counted list of entries, each a peer identifier with a counted list
of addresses; every length is a word of two bytes and the number of entries one of four. The encoder
narrows its lengths to these words, so a table it can represent is one whose lengths fit.

What the decoder returns is characterised completely: it returns a table exactly when the bytes are
within the size limit and *begin* with the encoding of that table. A cut encoding is therefore never
read, and nothing is ever read from bytes that are no encoding at all; but the decoder does not ask
whether anything follows the last entry.
-/

namespace NervesP2P

structure RoutingEntry where
  peerId : List UInt8
  addresses : List (List UInt8)
  deriving DecidableEq

/-- Why bytes are not a saved table. -/
inductive DhtStateError where
  | inputTooLarge (got max : ℕ)
  | truncated (offset need : ℕ)
  | badMagic (got : List UInt8)
  | unsupportedVersion (version : UInt8)
  deriving DecidableEq

def maxDhtExportBytes : ℕ := 4 * 1024 * 1024

namespace DhtState

open Reader

def magic : List UInt8 := [0x4c, 0x32, 0x44, 0x54]

def version : UInt8 := 1

/-! ## Writing -/

/-- Bytes with their length, which is narrowed to two bytes. -/
def encodeVec (bytes : List UInt8) : List UInt8 := beBytes 2 bytes.length ++ bytes

def encodeEntry (entry : RoutingEntry) : List UInt8 :=
  encodeVec entry.peerId
    ++ (beBytes 2 entry.addresses.length ++ entry.addresses.flatMap encodeVec)

def encode (entries : List RoutingEntry) : List UInt8 :=
  magic ++ (version :: (beBytes 4 entries.length ++ entries.flatMap encodeEntry))

/-! ## Reading -/

/-- The next `n` bytes. A failure says where it happened and how many bytes were asked for. -/
def readVec (n : ℕ) : Reading DhtStateError (List UInt8) :=
  fun cur ↦ take (.truncated cur.offset n) n cur

/-- The next `n` bytes as an array. -/
def readArray (n : ℕ) : Reading DhtStateError (List UInt8) := readVec n

def readU8 : Reading DhtStateError UInt8 := do
  let bytes ← readArray 1
  pure (bytes.headD 0)

def readU16 : Reading DhtStateError ℕ := do
  let bytes ← readArray 2
  pure (ofBeBytes bytes)

def readU32 : Reading DhtStateError ℕ := do
  let bytes ← readArray 4
  pure (ofBeBytes bytes)

/-- One item with its length: the body of the loop over the addresses. -/
def decodeVec : Reading DhtStateError (List UInt8) := do
  let len ← readU16
  readVec len

/-- The body of the loop over the entries. -/
def decodeEntry : Reading DhtStateError RoutingEntry := do
  let peerId ← decodeVec
  let addrCount ← readU16
  let addresses ← times decodeVec addrCount
  pure ⟨peerId, addresses⟩

/-- What is read from the cursor, up to the last entry that the count announces. -/
def decodeTable : Reading DhtStateError (List RoutingEntry) := do
  let found ← readArray 4
  check (.badMagic found) (found = magic)
  let found ← readU8
  check (.unsupportedVersion found) (found = version)
  let count ← readU32
  times decodeEntry count

def decode (data : List UInt8) : Except DhtStateError (List RoutingEntry) :=
  if maxDhtExportBytes < data.length then
    .error (.inputTooLarge data.length maxDhtExportBytes)
  else (decodeTable (Reader.new data)).map Prod.fst

/-! ## Sizes -/

/-- The lengths of an entry fit the words they are written in. -/
structure EntrySized (entry : RoutingEntry) : Prop where
  peerId : entry.peerId.length < 65536
  count : entry.addresses.length < 65536
  addresses : ∀ address ∈ entry.addresses, address.length < 65536

/-- The lengths of a table fit the words they are written in. -/
structure Sized (entries : List RoutingEntry) : Prop where
  count : entries.length < 2 ^ 32
  entries : ∀ entry ∈ entries, EntrySized entry

/-! ## Encodings are read back

Each reader undoes its writer on the encoding with anything behind it, and leaves what is behind it.
In this form the lemmas compose along the format. -/

theorem reads_readVec {bs : List UInt8} {n : ℕ} (h : bs.length = n) : Reads (readVec n) bs bs :=
  fun front rest ↦ Reads.take h front rest

theorem reads_readU8 (b : UInt8) : Reads readU8 [b] b :=
  Reads.bind_pure (reads_readVec rfl) (Reads.pure b)

theorem reads_word {w n : ℕ} (h : n < 256 ^ w) :
    Reads (readArray w >>= fun bytes ↦ pure (ofBeBytes bytes)) (beBytes w n) n := by
  refine Reads.bind_pure (reads_readVec (length_beBytes w n)) ?_
  rw [ofBeBytes_beBytes h]
  exact Reads.pure n

theorem reads_decodeVec {bytes : List UInt8} (h : bytes.length < 65536) :
    Reads decodeVec (encodeVec bytes) bytes :=
  Reads.bind (reads_word h) (reads_readVec rfl)

theorem reads_decodeEntry {entry : RoutingEntry} (h : EntrySized entry) :
    Reads decodeEntry (encodeEntry entry) entry := by
  refine Reads.bind (reads_decodeVec h.peerId) (Reads.bind (reads_word h.count) ?_)
  refine Reads.bind_pure (Reads.times fun address hmem ↦ ?_) (Reads.pure _)
  exact reads_decodeVec (h.addresses address hmem)

theorem reads_decodeTable {entries : List RoutingEntry} (h : Sized entries) :
    Reads decodeTable (encode entries) entries := by
  refine Reads.bind (reads_readVec rfl) (Reads.pure_bind (Reads.check rfl) ?_)
  refine Reads.bind (reads_readU8 version) (Reads.pure_bind (Reads.check rfl) ?_)
  refine Reads.bind (reads_word h.count) (Reads.times fun entry hmem ↦ ?_)
  exact reads_decodeEntry (h.entries entry hmem)

/-! ## Only encodings are read

The other direction: what a reader has taken from the cursor is the encoding of what it returns. A
word that was read is the encoding of its number, since all words of two or four bytes are. -/

theorem consumes_readVec (n : ℕ) :
    Consumes (readVec n) fun bs a ↦ bs.length = n ∧ a = bs :=
  fun front tail a r' h ↦ Consumes.take front tail a r' h

theorem consumes_readU8 : Consumes readU8 fun bs a ↦ bs = [a] := by
  refine (consumes_readVec 1).bind fun bs a ha ↦ Consumes.pure ?_
  obtain ⟨hlength, rfl⟩ := ha
  obtain ⟨b, rfl⟩ := List.length_eq_one_iff.mp hlength
  rfl

theorem consumes_word (w : ℕ) :
    Consumes (readArray w >>= fun bytes ↦ pure (ofBeBytes bytes)) fun bs n ↦
      bs = beBytes w n ∧ n < 256 ^ w := by
  refine (consumes_readVec w).bind fun bs a ha ↦ Consumes.pure ?_
  obtain ⟨rfl, rfl⟩ := ha
  rw [List.append_nil]
  exact ⟨(beBytes_ofBeBytes a).symm, ofBeBytes_lt a⟩

theorem consumes_decodeVec :
    Consumes decodeVec fun bs a ↦ bs = encodeVec a ∧ a.length < 65536 := by
  refine (consumes_word 2).bind fun bs n hn ↦ ?_
  obtain ⟨rfl, hlt⟩ := hn
  intro front tail a r' hrun
  obtain ⟨cs, rest, htail, hr, rfl, rfl⟩ := consumes_readVec n front tail a r' hrun
  exact ⟨a, rest, htail, hr, rfl, hlt⟩

theorem consumes_decodeEntry :
    Consumes decodeEntry fun bs a ↦ bs = encodeEntry a ∧ EntrySized a := by
  refine consumes_decodeVec.bind fun bs peerId hpeer ↦ ?_
  refine (consumes_word 2).bind fun cs n hn ↦ ?_
  refine (consumes_decodeVec.times n).bind fun ds addresses haddresses ↦ Consumes.pure ?_
  obtain ⟨rfl, hpeer⟩ := hpeer
  obtain ⟨rfl, hn⟩ := hn
  obtain ⟨rfl, rfl, haddresses⟩ := haddresses
  rw [List.append_nil]
  exact ⟨rfl, hpeer, hn, haddresses⟩

theorem consumes_decodeTable :
    Consumes decodeTable fun bs entries ↦ bs = encode entries ∧ Sized entries := by
  refine (consumes_readVec 4).bind fun bs found hfound ↦ Consumes.check.bind fun cs _ hmagic ↦ ?_
  refine consumes_readU8.bind fun ds found hversion ↦ Consumes.check.bind fun es _ hcheck ↦ ?_
  refine (consumes_word 4).bind fun fs n hn ↦ ?_
  obtain ⟨-, rfl⟩ := hfound
  obtain ⟨rfl, rfl⟩ := hmagic
  obtain ⟨rfl, rfl⟩ := hcheck
  obtain ⟨rfl, hn⟩ := hn
  subst hversion
  intro front tail entries r' hrun
  obtain ⟨gs, rest, htail, hr, rfl, rfl, hentries⟩ :=
    consumes_decodeEntry.times n front tail entries r' hrun
  exact ⟨_, rest, htail, hr, rfl, hn, hentries⟩

/-! ## The decoder -/

/-- **What is decoded**: a table whose encoding the bytes begin with. -/
theorem decode_eq_ok_iff {data : List UInt8} {entries : List RoutingEntry} :
    decode data = .ok entries
      ↔ data.length ≤ maxDhtExportBytes ∧ Sized entries ∧ encode entries <+: data := by
  rw [decode]
  by_cases hlarge : maxDhtExportBytes < data.length
  · simp only [if_pos hlarge, reduceCtorEq, false_iff]
    exact fun h ↦ absurd h.1 hlarge.not_ge
  · rw [if_neg hlarge]
    constructor
    · intro hrun
      cases htable : decodeTable (Reader.new data) with
      | error e => rw [htable] at hrun; cases hrun
      | ok x =>
        rw [htable] at hrun
        cases hrun
        obtain ⟨bs, rest, hdata, -, rfl, hsized⟩ :=
          consumes_decodeTable [] data x.1 x.2 htable
        exact ⟨not_lt.mp hlarge, hsized, rest, hdata.symm⟩
    · rintro ⟨-, hsized, rest, rfl⟩
      have hread := reads_decodeTable hsized [] rest
      rw [List.nil_append] at hread
      rw [Reader.new]
      exact congrArg (Except.map Prod.fst) hread

/-- **Round trip.** A table within the limits is read back from its encoding, and no cut of the
encoding is read as any table. -/
theorem decode_encode {entries : List RoutingEntry} (hsized : Sized entries)
    (hmax : (encode entries).length ≤ maxDhtExportBytes) :
    decode (encode entries) = .ok entries
      ∧ ∀ cut, cut <+: encode entries → cut ≠ encode entries → ∃ e, decode cut = .error e := by
  have hdecode : decode (encode entries) = .ok entries :=
    decode_eq_ok_iff.mpr ⟨hmax, hsized, List.prefix_rfl⟩
  refine ⟨hdecode, ?_⟩
  intro cut hcut hne
  cases hrun : decode cut with
  | error e => exact ⟨e, rfl⟩
  | ok found =>
    -- the bytes would begin with two encodings, so the whole of this one would be in the cut
    obtain ⟨-, hfound, hbegins⟩ := decode_eq_ok_iff.mp hrun
    have hwhole : decode (encode entries) = .ok found :=
      decode_eq_ok_iff.mpr ⟨hmax, hfound, hbegins.trans hcut⟩
    obtain rfl := Except.ok.inj (hdecode.symm.trans hwhole)
    exact absurd (hcut.eq_of_length (hcut.length_le.antisymm hbegins.length_le)) hne

/-- A peer with two addresses. -/
theorem decode_encode_one :
    decode (encode [⟨[1, 2], [[3], []]⟩]) = .ok [⟨[1, 2], [[3], []]⟩]
      ∧ ∃ e, decode ((encode [⟨[1, 2], [[3], []]⟩]).take 12) = .error e := by
  have hsized : Sized [⟨[1, 2], [[3], []]⟩] :=
    ⟨by decide, fun entry hentry ↦ by
      rw [List.mem_singleton] at hentry
      subst hentry
      exact ⟨by decide, by decide, by decide⟩⟩
  obtain ⟨hdecode, hcuts⟩ := decode_encode hsized (by decide)
  exact ⟨hdecode, hcuts _ (List.take_prefix _ _) (by decide)⟩

/-- **Bytes after the last entry are accepted**, so only encodings are decoded exactly from the
bytes that are not an encoding with something appended to it. -/
theorem decode_only_encodings_iff (data : List UInt8) :
    (∀ entries, decode data = .ok entries → encode entries = data)
      ↔ ¬∃ entries extra, Sized entries ∧ extra ≠ [] ∧ data = encode entries ++ extra
        ∧ data.length ≤ maxDhtExportBytes := by
  constructor
  · rintro h ⟨entries, extra, hsized, hextra, rfl, hmax⟩
    have hdecode := decode_eq_ok_iff.mpr ⟨hmax, hsized, List.prefix_append _ extra⟩
    exact hextra (List.self_eq_append_right.mp (h entries hdecode))
  · intro h entries hdecode
    obtain ⟨hmax, hsized, extra, rfl⟩ := decode_eq_ok_iff.mp hdecode
    by_cases hextra : extra = []
    · rw [hextra, List.append_nil]
    · exact absurd ⟨entries, extra, hsized, hextra, rfl, hmax⟩ h

/-- A byte after an empty table, and a table of two entries whose count says one. -/
theorem decode_appended :
    decode [0x4c, 0x32, 0x44, 0x54, 1, 0, 0, 0, 0, 0xff] = .ok []
      ∧ encode [] ≠ [0x4c, 0x32, 0x44, 0x54, 1, 0, 0, 0, 0, 0xff]
      ∧ decode [0x4c, 0x32, 0x44, 0x54, 1, 0, 0, 0, 1, 0, 1, 7, 0, 0, 0, 1, 8, 0, 0]
        = .ok [⟨[7], []⟩] := by decide

end DhtState

end NervesP2P
