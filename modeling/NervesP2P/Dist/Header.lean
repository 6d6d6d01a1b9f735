import Mathlib.Data.List.TakeWhile
import NervesP2P.Discovery.Basic
import NervesP2P.Lib.BigEndian
import NervesP2P.Lib.ReadExact

/-!
# The header of a distribution stream

The daemon that opens a stream first writes who it is and whom it wants to reach: a magic, then two
node names behind their lengths. The daemon that accepts the stream reads the header from the same
byte stream that carries the payload afterwards, so the reader has to stop exactly at its end.

It does: on the header of two valid names followed by anything, `readHeader` returns the names and
leaves what follows, and whenever it returns two names they are valid and it has read their header
and nothing else.
-/

namespace NervesP2P

/-- `ERLDIST1`. -/
def magic : List UInt8 := [69, 82, 76, 68, 73, 83, 84, 49]

/-- Who opens a stream, and to whom. -/
structure Header where
  fromNode : Text
  targetNode : Text
  deriving DecidableEq

inductive HeaderError where
  | badMagic
  | badNodeLength
  | badNodeEncoding
  | badNodeName
  deriving DecidableEq

def HeaderError.toString : HeaderError → String
  | .badMagic => "bad magic"
  | .badNodeLength => "bad node length"
  | .badNodeEncoding => "bad node encoding"
  | .badNodeName => "bad node name"

/-- A node name behind its length, which is narrowed to 16 bits. -/
def encodeNode (node : Text) : List UInt8 := beBytes 2 (node.len % 2 ^ 16) ++ node.bytes

def encodeHeader (fromNode targetNode : Text) : List UInt8 :=
  magic ++ encodeNode fromNode ++ encodeNode targetNode

def readNode : ReadExact HeaderError Text := do
  let encodedLength ← ReadExact.exact 2
  let length := ofBeBytes encodedLength
  if 1 ≤ length ∧ length ≤ 255 then
    let bytes ← ReadExact.exact length
    match Text.ofBytes? bytes with
    | none => ReadExact.fail .badNodeEncoding
    | some node => if validNodeName node = true then pure node else ReadExact.fail .badNodeName
  else ReadExact.fail .badNodeLength

def readHeader : ReadExact HeaderError Header := do
  let bytes ← ReadExact.exact 8
  if bytes = magic then
    let fromNode ← readNode
    let targetNode ← readNode
    pure ⟨fromNode, targetNode⟩
  else ReadExact.fail .badMagic

/-! ## Names

A valid name has at most as many bytes as its two parts may have and the sign between them, so it
fits its length field and its length is not narrowed. -/

theorem length_of_splitOnce {sep : UInt8} {bs before after : List UInt8}
    (h : splitOnce sep bs = some (before, after)) :
    bs.length = before.length + 1 + after.length := by
  rw [splitOnce] at h
  split at h
  · next hmem =>
    rw [Option.some_inj, Prod.mk.injEq] at h
    obtain ⟨rfl, rfl⟩ := h
    have hne : bs.dropWhile (· != sep) ≠ [] := by
      intro hnil
      simpa using List.dropWhile_eq_nil_iff.mp hnil sep hmem
    have hlength := congrArg List.length
      (List.takeWhile_append_dropWhile (p := (· != sep)) (l := bs))
    have hpos := List.length_pos_iff.mpr hne
    rw [List.length_append] at hlength
    rw [List.length_tail]
    omega
  · cases h

theorem len_of_validNodeName {node : Text} (h : validNodeName node = true) :
    1 ≤ node.len ∧ node.len ≤ 255 := by
  rw [validNodeName] at h
  split at h
  · cases h
  · next name host hsplit =>
    have hlength : node.len = name.length + 1 + host.length := length_of_splitOnce hsplit
    simp only [Bool.and_eq_true, decide_eq_true_iff] at h
    omega

theorem length_bytes (node : Text) : node.bytes.length = node.len := rfl

/-! ## The reader and the writer

Both directions, name by name: a valid name is read back from its encoding, and a name that was read
is valid and was encoded. -/

theorem run_readNode {node : Text} (h : validNodeName node = true) (rest : List UInt8) :
    readNode.run (encodeNode node ++ rest) = some (.ok node, rest) := by
  obtain ⟨hpos, hle⟩ := len_of_validNodeName h
  have hlength : ofBeBytes (beBytes 2 (node.len % 2 ^ 16)) = node.len := by
    rw [Nat.mod_eq_of_lt (by omega), ofBeBytes_beBytes (by omega)]
  rw [readNode, encodeNode, List.append_assoc, ReadExact.run_exact_bind (length_beBytes 2 _)]
  simp only [hlength, if_pos (And.intro hpos hle)]
  rw [ReadExact.run_exact_bind (length_bytes node), Text.ofBytes?_bytes]
  simp only [h, if_true, ReadExact.run_pure]

theorem eq_encodeNode_of_run {stream rest : List UInt8} {node : Text}
    (h : readNode.run stream = some (.ok node, rest)) :
    validNodeName node = true ∧ stream = encodeNode node ++ rest := by
  rw [readNode] at h
  obtain ⟨encodedLength, tail, hlength, rfl, hnode⟩ := ReadExact.exists_of_run_exact_bind h
  dsimp only at hnode
  split at hnode
  · obtain ⟨bytes, tail, hbytes, rfl, hend⟩ := ReadExact.exists_of_run_exact_bind hnode
    split at hend
    · cases hend
    · next node' htext =>
      split at hend
      · next hvalid =>
        rw [ReadExact.run_pure, Option.some_inj, Prod.mk.injEq, Except.ok.injEq] at hend
        obtain ⟨rfl, rfl⟩ := hend
        have hbytes' := Text.bytes_of_ofBytes? htext
        refine ⟨hvalid, ?_⟩
        have hlen : node'.len % 2 ^ 16 = ofBeBytes encodedLength := by
          rw [← length_bytes, hbytes', hbytes]
          exact Nat.mod_eq_of_lt (by omega)
        have hencoded : encodedLength = beBytes 2 (ofBeBytes encodedLength) := by
          rw [← hlength, beBytes_ofBeBytes]
        rw [encodeNode, hlen, ← hencoded, hbytes', List.append_assoc]
      · cases hend
  · cases hnode

/-- **The header is read back**, and what follows it is left alone. -/
theorem run_readHeader {fromNode targetNode : Text} (hfrom : validNodeName fromNode = true)
    (htarget : validNodeName targetNode = true) (rest : List UInt8) :
    readHeader.run (encodeHeader fromNode targetNode ++ rest)
      = some (.ok ⟨fromNode, targetNode⟩, rest) := by
  rw [readHeader, encodeHeader, List.append_assoc, List.append_assoc,
    ReadExact.run_exact_bind (show magic.length = 8 from rfl)]
  simp only [if_true]
  rw [ReadExact.run_bind, run_readNode hfrom]
  simp only [Option.bind_some]
  rw [ReadExact.run_bind, run_readNode htarget]
  rfl

/-- **Whoever returns a header has read it**, and nothing else. -/
theorem eq_encodeHeader_of_run {stream rest : List UInt8} {header : Header}
    (h : readHeader.run stream = some (.ok header, rest)) :
    validNodeName header.fromNode = true ∧ validNodeName header.targetNode = true
      ∧ stream = encodeHeader header.fromNode header.targetNode ++ rest := by
  rw [readHeader] at h
  obtain ⟨bytes, tail, -, rfl, hnodes⟩ := ReadExact.exists_of_run_exact_bind h
  split at hnodes
  · next hmagic =>
    subst hmagic
    obtain ⟨fromNode, tail₁, hfrom, hnodes⟩ := ReadExact.exists_of_run_bind_ok hnodes
    obtain ⟨targetNode, tail₂, htarget, hend⟩ := ReadExact.exists_of_run_bind_ok hnodes
    rw [ReadExact.run_pure, Option.some_inj, Prod.mk.injEq, Except.ok.injEq] at hend
    obtain ⟨rfl, rfl⟩ := hend
    obtain ⟨hvalid₁, rfl⟩ := eq_encodeNode_of_run hfrom
    obtain ⟨hvalid₂, rfl⟩ := eq_encodeNode_of_run htarget
    refine ⟨hvalid₁, hvalid₂, ?_⟩
    rw [encodeHeader, List.append_assoc, List.append_assoc]
  · cases hnodes

/-! ## Any fragments

The reader asks the stream for a number of bytes at a time and waits until they are there. What it
returns therefore does not depend on how the stream is cut. It waits for the magic first, so that
nothing is said of a stream that ends before it. -/

theorem consumeAll_readHeader (fragments : List (List UInt8)) :
    readHeader.consumeAll fragments = readHeader.consume fragments.flatten := by
  refine ReadExact.consumeAll_eq (fun next h ↦ ?_) fragments
  have hmissing : readHeader.missing = 8 := rfl
  rw [h] at hmissing
  cases hmissing

theorem len_mod_of_validNodeName {node : Text} (h : validNodeName node = true) :
    node.len % 2 ^ 16 = node.len := by
  obtain ⟨-, hle⟩ := len_of_validNodeName h
  exact Nat.mod_eq_of_lt (by omega)

/-- **The header codec is exact.** However the stream is cut into fragments, the header of two valid
names is read back and what follows it stays on the stream; whatever is read as a header is the
header of the names returned, which are valid. -/
theorem header_codec_exact {fromNode targetNode : Text} (hfrom : validNodeName fromNode = true)
    (htarget : validNodeName targetNode = true) :
    (∀ (rest : List UInt8) (fragments : List (List UInt8)),
        fragments.flatten = encodeHeader fromNode targetNode ++ rest →
          readHeader.consumeAll fragments = (.done (.ok ⟨fromNode, targetNode⟩), rest))
      ∧ (∀ (fragments : List (List UInt8)) (header : Header) (rest : List UInt8),
        readHeader.consumeAll fragments = (.done (.ok header), rest) →
          validNodeName header.fromNode = true ∧ validNodeName header.targetNode = true
            ∧ fragments.flatten = encodeHeader header.fromNode header.targetNode ++ rest)
      ∧ fromNode.len % 2 ^ 16 = fromNode.len ∧ targetNode.len % 2 ^ 16 = targetNode.len := by
  refine ⟨?_, ?_, len_mod_of_validNodeName hfrom, len_mod_of_validNodeName htarget⟩
  · intro rest fragments hstream
    rw [consumeAll_readHeader, hstream]
    exact ReadExact.run_eq_some_iff.mp (run_readHeader hfrom htarget rest)
  · intro fragments header rest hread
    rw [consumeAll_readHeader] at hread
    exact eq_encodeHeader_of_run (ReadExact.run_eq_some_iff.mpr hread)

/-- A header in two fragments, the second of which goes on after it. -/
theorem header_codec_sample :
    ∃ node : Text, validNodeName node = true
      ∧ readHeader.consumeAll [magic ++ [0], [3, 97, 64, 98, 0, 3, 97, 64, 98, 7]]
        = (.done (.ok ⟨node, node⟩), [7]) := by
  have hvalid : validNodeName ⟨"a@b", by decide⟩ = true := by decide
  exact ⟨_, hvalid, (header_codec_exact hvalid hvalid).1 [7] _ (by decide)⟩

end NervesP2P
