import NervesP2P.Discovery.Decode
import NervesP2P.Lib.Maps

/-!
# The wire decoder inverts the encoder

For every byte string and every message, decoding yields the message exactly when it is within the
format's two list bounds and the bytes are its encoding; likewise for envelopes.

One direction is the re-encoding check at the end of each decoder together with the bounds its
loops enforce. The other says that no encoding is ever rejected, and goes by `Reads`: each item
reader consumes exactly the encoding of its value, whatever surrounds it, so the map loop consumes
the concatenation of the fields in canonical order.

The order matters twice. The encoder takes a capability map in key order and rearranges it
length-first, so the decoder inserts the entries in another order than the one they were listed in;
the two maps agree because maps are extensional. And the key check of the loop succeeds because
distinct keys have distinct encodings, which is `Reads.unique` at `text`.
-/

open Std (ExtTreeMap)

namespace NervesP2P

open Reader

/-! ## Heads

The first byte of a head carries the major type in its top three bits and a small argument, or the
width of a larger one, in the other five. The two parts come apart again, so the reader knows what
it reads after one byte. A wider form than necessary is never read, and the encoder never writes
one. -/

theorem lead_parts {major argument : UInt8} (hm : major < 8) (ha : argument < 32) :
    (major <<< 5 ||| argument) >>> 5 = major ∧ (major <<< 5 ||| argument) &&& 0x1f = argument := by
  have key : ∀ m : Fin 8, ∀ a : Fin 32,
      (UInt8.ofNat m <<< 5 ||| UInt8.ofNat a) >>> 5 = UInt8.ofNat m
        ∧ (UInt8.ofNat m <<< 5 ||| UInt8.ofNat a) &&& 0x1f = UInt8.ofNat a := by decide
  have h := key ⟨major.toNat, UInt8.lt_iff_toNat_lt.mp hm⟩
    ⟨argument.toNat, UInt8.lt_iff_toNat_lt.mp ha⟩
  simpa using h

theorem reads_headArgument {width : ℕ} {least value : UInt64} (hleast : least ≤ value)
    (hfit : value.toNat < 256 ^ width) :
    Reads (headArgument width least) (beBytes width value.toNat) value := by
  refine Reads.bind_pure (Reads.take (length_beBytes _ _)) ?_
  rw [ofBeBytes_beBytes hfit, UInt64.ofNat_toNat]
  exact Reads.pure_bind (Reads.check hleast) (Reads.pure value)

theorem exists_encodeHead_eq_cons (major : UInt8) (value : UInt64) :
    ∃ argument rest, argument < 32
      ∧ encodeHead major value = (major <<< 5 ||| argument) :: rest := by
  rw [encodeHead]
  split
  · next h =>
    refine ⟨value.toUInt8, [], ?_, rfl⟩
    rw [UInt8.lt_iff_toNat_lt, UInt64.toNat_toUInt8]
    rw [UInt64.le_iff_toNat_le] at h
    exact lt_of_le_of_lt (Nat.mod_le _ _) (lt_of_le_of_lt h (by decide))
  · split
    · exact ⟨24, _, by decide, rfl⟩
    · split
      · exact ⟨25, _, by decide, rfl⟩
      · split
        · exact ⟨26, _, by decide, rfl⟩
        · exact ⟨27, _, by decide, rfl⟩

/-- What `head` does after a first byte it accepts. -/
private theorem reads_head_of {major argument : UInt8} {rest : List UInt8} {value : UInt64}
    (hm : major < 8) (ha : argument < 32)
    (h : Reads (if argument ≤ 23 then pure argument.toUInt64
      else if argument = 24 then headArgument 1 24
      else if argument = 25 then headArgument 2 0x100
      else if argument = 26 then headArgument 4 0x10000
      else if argument = 27 then headArgument 8 0x100000000
      else throw .malformed) rest value) :
    Reads (head major) ((major <<< 5 ||| argument) :: rest) value := by
  obtain ⟨hmajor, hargument⟩ := lead_parts hm ha
  refine Reads.take_one_bind ?_
  refine Reads.pure_bind (Reads.okOr rfl) ?_
  refine Reads.pure_bind (Reads.check hmajor) ?_
  rw [hargument]
  exact h

theorem reads_head_small {major : UInt8} (hm : major < 8) {value : UInt64}
    (h23 : value.toNat ≤ 23) :
    Reads (head major) [major <<< 5 ||| value.toUInt8] value := by
  have hcast : value.toUInt8.toNat = value.toNat := by
    rw [UInt64.toNat_toUInt8, Nat.mod_eq_of_lt (by omega)]
  have hback : value.toUInt8.toUInt64 = value := by
    rw [← UInt64.toNat_inj, UInt8.toNat_toUInt64, hcast]
  have hle : value.toUInt8 ≤ 23 := by
    rw [UInt8.le_iff_toNat_le, hcast]
    exact h23
  refine reads_head_of hm (UInt8.lt_of_le_of_lt hle (by decide)) ?_
  rw [if_pos hle, hback]
  exact Reads.pure value

/-- **Heads.** Every argument is read back from its shortest form. -/
theorem reads_head {major : UInt8} (hm : major < 8) (value : UInt64) :
    Reads (head major) (encodeHead major value) value := by
  have hlt : value.toNat < 2 ^ 64 := value.toNat_lt
  rw [encodeHead]
  simp only [UInt64.le_iff_toNat_le]
  -- the widths are tried from the shortest on, and each one excludes what fits a shorter one
  split
  · next h => exact reads_head_small hm h
  · next h =>
    have h23 : 23 < value.toNat := not_le.mp h
    split
    · next h =>
      have hbyte : value.toNat ≤ 0xff := h
      refine reads_head_of hm (by decide) ?_
      rw [if_neg (by decide), if_pos rfl]
      exact reads_headArgument (UInt64.le_iff_toNat_le.mpr h23) (by omega)
    · next h =>
      have hbyte : 0xff < value.toNat := not_le.mp h
      split
      · next h =>
        have hword : value.toNat ≤ 0xffff := h
        refine reads_head_of hm (by decide) ?_
        rw [if_neg (by decide), if_neg (by decide), if_pos rfl, UInt64.toNat_toUInt16,
          Nat.mod_eq_of_lt (by omega)]
        exact reads_headArgument (UInt64.le_iff_toNat_le.mpr hbyte) (by omega)
      · next h =>
        have hword : 0xffff < value.toNat := not_le.mp h
        split
        · next h =>
          have hdword : value.toNat ≤ 0xffffffff := h
          refine reads_head_of hm (by decide) ?_
          rw [if_neg (by decide), if_neg (by decide), if_neg (by decide), if_pos rfl,
            UInt64.toNat_toUInt32, Nat.mod_eq_of_lt (by omega)]
          exact reads_headArgument (UInt64.le_iff_toNat_le.mpr hword) (by omega)
        · next h =>
          have hdword : 0xffffffff < value.toNat := not_le.mp h
          refine reads_head_of hm (by decide) ?_
          rw [if_neg (by decide), if_neg (by decide), if_neg (by decide), if_neg (by decide),
            if_pos rfl]
          exact reads_headArgument (UInt64.le_iff_toNat_le.mpr hdword) (by omega)

/-! ## Items

One lemma for each reader of an item, all of the form `Reads`. A capability value other than a
Boolean is selected by its major type, which its first byte carries. -/

theorem reads_uint (value : UInt64) : Reads uint (encodeUint value) value :=
  reads_head (by decide) value

theorem reads_length {major : UInt8} (hm : major < 8) {n : ℕ} (hn : n < 2 ^ 64) :
    Reads (Reader.length major) (encodeHead major (UInt64.ofNat n)) n := by
  refine Reads.bind_pure (reads_head hm _) ?_
  rw [UInt64.toNat_ofNat_of_lt' hn]
  exact Reads.pure n

theorem reads_text (t : Text) : Reads text (encodeText t.str) t := by
  refine Reads.bind (reads_length (by decide) t.size_lt) ?_
  exact Reads.bind_pure (Reads.take (length_utf8 t.str)) (Reads.okOr (Text.ofBytes?_bytes t))

theorem reads_byteString {bs : List UInt8} (h : bs.length < 2 ^ 64) :
    Reads byteString (encodeBytes bs) bs :=
  Reads.bind (reads_length (by decide) h) (Reads.take rfl)

theorem reads_readArray {n : ℕ} (hn : n < 2 ^ 64) (v : List.Vector UInt8 n) :
    Reads (readArray n) (encodeBytes v.toList) v := by
  refine Reads.bind_pure (reads_byteString ?_) (Reads.okOr (toArray?_toList v))
  rwa [v.toList_length]

/-- Texts are determined by their encodings. -/
theorem encodeText_injective {s t : Text} (h : encodeText s.str = encodeText t.str) : s = t := by
  have hs := reads_text s
  rw [h] at hs
  exact hs.unique (reads_text t)

theorem reads_canonicalKey {previous : Option (List UInt8)} {t : Text}
    (h : ∀ last ∈ previous, canonicalCmp last (encodeText t.str) = .lt) :
    Reads (canonicalKey previous) (encodeText t.str) (t, encodeText t.str) := by
  refine Reads.bind_pure (reads_text t).consumed ?_
  exact Reads.pure_bind (Reads.check h) (Reads.pure _)

/-- The format's bound on a capability value. -/
def CapabilityValue.Bounded : CapabilityValue → Prop
  | .textList values => values.length ≤ 32
  | _ => True

theorem reads_capability_of_head {major : UInt8} (hm : major < 7) {argument : UInt64}
    {tail : List UInt8} {value : CapabilityValue}
    (h : Reads (capabilityOf major) (encodeHead major argument ++ tail) value) :
    Reads capability (encodeHead major argument ++ tail) value := by
  obtain ⟨low, rest, hlow, heq⟩ := exists_encodeHead_eq_cons major argument
  have hm8 : major < 8 := UInt8.lt_trans hm (by decide)
  obtain ⟨hmajor, -⟩ := lead_parts hm8 hlow
  -- both Booleans have major type 7
  have hne : ∀ b : UInt8, b >>> 5 = 7 → (major <<< 5 ||| low) ≠ b := by
    intro b hb hlead
    rw [hlead, hb] at hmajor
    rw [← hmajor] at hm
    exact absurd hm (by decide)
  rw [heq, List.cons_append] at h ⊢
  refine Reads.peek_bind ?_
  rw [if_neg (hne 0xf4 (by decide)), if_neg (hne 0xf5 (by decide)), hmajor]
  exact h

theorem reads_capability {value : CapabilityValue} (h : value.Bounded) :
    Reads capability (encodeCapability value) value := by
  cases value with
  | bool value =>
    cases value with
    | false => exact Reads.peek_bind (Reads.take_one_bind (Reads.pure _))
    | true => exact Reads.peek_bind (Reads.take_one_bind (Reads.pure _))
  | uint value =>
    have hread : Reads (capabilityOf 0) (encodeUint value) (.uint value) :=
      Reads.bind_pure (reads_uint value) (Reads.pure _)
    rw [encodeUint, ← List.append_nil (encodeHead 0 value)] at hread
    have hcap := reads_capability_of_head (by decide) hread
    rwa [List.append_nil] at hcap
  | text value =>
    have hread : Reads (capabilityOf 3) (encodeText value.str) (.text value) :=
      Reads.bind_pure (reads_text value) (Reads.pure _)
    exact reads_capability_of_head (by decide) hread
  | textList values =>
    have hlen : values.length ≤ 32 := h
    refine reads_capability_of_head (by decide) ?_
    refine Reads.bind (reads_length (by decide) (by omega)) ?_
    refine Reads.pure_bind (Reads.check hlen) ?_
    exact Reads.bind_pure (Reads.times fun t _ ↦ reads_text t) (Reads.pure _)

/-! ## Maps

Every map of the format is read by the same loop, and `reads_mapEntries` is the one induction of the
whole section: over the states of the accumulator, one entry at a time. What a format adds is a list
of entries in canonical order (`CanonicalKeys`), and for each of them a reader and what it
records. -/

/-- `fields` is what recording the values of `entries`, key by key, makes of `start`. -/
inductive Records {σ : Type} (entry : Text → σ → Reading Error σ) :
    List (Text × List UInt8) → σ → σ → Prop
  | nil (fields : σ) : Records entry [] fields fields
  | cons {key : Text} {value : List UInt8} {entries : List (Text × List UInt8)} {s t u : σ}
      (hread : Reads (entry key s) value t) (hrest : Records entry entries t u) :
      Records entry ((key, value) :: entries) s u

def entryBytes (entries : List (Text × List UInt8)) : List UInt8 :=
  entries.flatMap fun e ↦ encodeText e.1.str ++ e.2

/-- The encodings of the keys are strictly increasing. -/
def CanonicalKeys (keys : List Text) : Prop :=
  keys.Pairwise fun a b ↦ canonicalCmp (encodeText a.str) (encodeText b.str) = .lt

instance (keys : List Text) : Decidable (CanonicalKeys keys) :=
  inferInstanceAs (Decidable (keys.Pairwise _))

/-- **The map loop** reads any entries with increasing keys. The induction is on the record of
accumulator states, one entry at a time. -/
theorem reads_mapEntries {σ : Type} {entry : Text → σ → Reading Error σ}
    {entries : List (Text × List UInt8)} {s t : σ} (hrec : Records entry entries s t) :
    ∀ {previous : Option (List UInt8)}, CanonicalKeys (entries.map Prod.fst) →
      (∀ last ∈ previous, ∀ e ∈ entries, canonicalCmp last (encodeText e.1.str) = .lt) →
      Reads (mapEntries entry entries.length previous s) (entryBytes entries) t := by
  induction hrec with
  | nil fields => exact fun _ _ ↦ Reads.pure fields
  | @cons key value entries s t u hread hrest ih =>
    intro previous hkeys hprev
    rw [List.map_cons, CanonicalKeys, List.pairwise_cons] at hkeys
    have hnext : ∀ last ∈ some (encodeText key.str), ∀ e ∈ entries,
        canonicalCmp last (encodeText e.1.str) = .lt := by
      intro last hlast e he
      rw [Option.mem_some_iff] at hlast
      subst hlast
      exact hkeys.1 e.1 (List.mem_map_of_mem he)
    have hkey := reads_canonicalKey fun last hlast ↦
      hprev last hlast (key, value) List.mem_cons_self
    rw [entryBytes, List.flatMap_cons, List.append_assoc]
    exact Reads.bind hkey (Reads.bind hread (ih hkeys.2 hnext))

theorem encodeMap_eq {fields : List (List UInt8 × List UInt8)} {entries : List (Text × List UInt8)}
    (hkeys : CanonicalKeys (entries.map Prod.fst))
    (hperm : (entries.map fun e ↦ field e.1.str e.2).Perm fields) :
    encodeMap fields = encodeHead 5 (UInt64.ofNat entries.length) ++ entryBytes entries := by
  have hsort : sortBy (fun a b ↦ canonicalCmp a.1 b.1) fields
      = entries.map fun e ↦ field e.1.str e.2 := by
    refine sortBy_eq_of_perm hperm ?_
    rw [CanonicalKeys, List.pairwise_map] at hkeys
    exact List.pairwise_map.mpr hkeys
  rw [encodeMap, hsort, List.length_map, List.flatMap_map]
  rfl

/-- A field name of the protocol as a text. -/
def key (name : String) (h : name.utf8ByteSize < 2 ^ 64 := by decide) : Text := ⟨name, h⟩

/-! ## Loads and capabilities

A load is a map of two fields. A capability map has as many entries as it likes up to the bound, so
its canonical order is a sorted list and not a given one. -/

def loadEntries (load : Load) : List (Text × List UInt8) :=
  [(key "running", encodeUint load.running), (key "capacity", encodeUint load.capacity)]

theorem reads_decodeLoad (load : Load) :
    Reads decodeLoad (encodeMap [
      field "running" (encodeUint load.running),
      field "capacity" (encodeUint load.capacity)]) load := by
  have hrec : Records loadEntry (loadEntries load) {}
      { running := some load.running, capacity := some load.capacity } :=
    .cons (Reads.bind_pure (reads_uint _) (Reads.pure _))
      (.cons (Reads.bind_pure (reads_uint _) (Reads.pure _)) (.nil _))
  have hkeys : CanonicalKeys ((loadEntries load).map Prod.fst) :=
    show CanonicalKeys [key "running", key "capacity"] by decide
  have henc : encodeMap [
      field "running" (encodeUint load.running),
      field "capacity" (encodeUint load.capacity)]
        = encodeHead 5 2 ++ entryBytes (loadEntries load) :=
    encodeMap_eq hkeys (List.Perm.refl _)
  rw [henc]
  refine Reads.bind (reads_length (n := 2) (by decide) (by decide)) ?_
  refine Reads.pure_bind (Reads.check rfl) ?_
  refine Reads.bind_pure (reads_mapEntries hrec hkeys (by simp)) ?_
  exact Reads.pure_bind (Reads.okOr rfl) (Reads.pure_bind (Reads.okOr rfl) (Reads.pure _))

/-- The canonical order of capabilities, by encoded name. -/
def capabilityCmp (a b : Text × CapabilityValue) : Ordering :=
  canonicalCmp (encodeText a.1.str) (encodeText b.1.str)

instance : Std.TransCmp capabilityCmp :=
  inferInstanceAs (Std.TransCmp fun a b : Text × CapabilityValue ↦
    canonicalCmp (encodeText a.1.str) (encodeText b.1.str))

/-- A capability map in canonical order. -/
def canonicalCapabilities (values : Capabilities) : List (Text × CapabilityValue) :=
  sortBy capabilityCmp values.toList

theorem pairwise_canonicalCapabilities (values : Capabilities) :
    (canonicalCapabilities values).Pairwise fun a b ↦ capabilityCmp a b = .lt := by
  refine pairwise_lt_sortBy (ExtTreeMap.distinct_keys_toList.imp ?_)
  intro a b hne heq
  have hname : a.1 = b.1 := encodeText_injective (Std.LawfulEqCmp.eq_of_compare heq)
  rw [hname] at hne
  exact hne Std.compare_self

/-- Inserting bounded capabilities one by one. -/
theorem records_capabilities :
    ∀ (entries : List (Text × CapabilityValue)) (values : Capabilities),
      (∀ e ∈ entries, e.2.Bounded) →
      Records capabilityEntry (entries.map fun e ↦ (e.1, encodeCapability e.2)) values
        (values.insertMany entries) := by
  intro entries
  induction entries with
  | nil =>
    intro values _
    rw [ExtTreeMap.insertMany_nil]
    exact .nil values
  | cons e entries ih =>
    intro values hb
    rw [ExtTreeMap.insertMany_cons]
    exact .cons (Reads.bind_pure (reads_capability (hb e List.mem_cons_self)) (Reads.pure _))
      (ih _ fun e he ↦ hb e (List.mem_cons_of_mem _ he))

/-- The format's bounds on a capability map: at most 32 entries, lists of at most 32 texts. -/
def BoundedCapabilities (values : Capabilities) : Prop :=
  values.size ≤ 32 ∧ ∀ e ∈ values.toList, e.2.Bounded

theorem reads_decodeCapabilities {values : Capabilities} (h : BoundedCapabilities values) :
    Reads decodeCapabilities (encodeCapabilities values) values := by
  obtain ⟨hsize, hbounded⟩ := h
  set sorted := canonicalCapabilities values with hsorted
  set entries := sorted.map fun e ↦ (e.1, encodeCapability e.2) with hentries
  have hperm : sorted.Perm values.toList := sortBy_perm _ _
  have hlen : entries.length = values.size := by
    rw [hentries, List.length_map, hperm.length_eq, ExtTreeMap.length_toList]
  have hfields : (entries.map fun e ↦ field e.1.str e.2).Perm
      (values.toList.map fun e ↦ field e.1.str (encodeCapability e.2)) := by
    rw [hentries, List.map_map]
    exact hperm.map _
  have hkeys : CanonicalKeys (entries.map Prod.fst) := by
    rw [CanonicalKeys, hentries, List.map_map, List.pairwise_map]
    exact pairwise_canonicalCapabilities values
  have hrec := records_capabilities sorted ∅ fun e he ↦ hbounded e (hperm.mem_iff.mp he)
  rw [insertMany_of_perm_toList hperm] at hrec
  rw [encodeCapabilities, encodeMap_eq hkeys hfields]
  refine Reads.bind (reads_length (by decide) (by omega)) ?_
  refine Reads.pure_bind (Reads.check (by omega)) ?_
  exact reads_mapEntries hrec hkeys (by simp)

/-! ## Messages

The two kinds of message are maps of fixed fields, and differ in one of them. In the order of the
source's encoder the fields are not sorted; sorting them is part of the encoding, and since the keys
are fixed it is a computation. -/

section Message

variable {I : Iroh}

/-- The fields of an announcement in canonical order. -/
def announcementEntries (value : Announcement I) : List (Text × List UInt8) :=
  [(key "kind", encodeText "announcement"),
    (key "load", encodeMap [
      field "running" (encodeUint value.load.running),
      field "capacity" (encodeUint value.load.capacity)]),
    (key "ttl_ms", encodeUint value.ttlMs),
    (key "version", encodeUint 1),
    (key "fleet_id", encodeBytes value.fleetId.toList),
    (key "sequence", encodeUint value.sequence),
    (key "node_name", encodeText value.nodeName.str),
    (key "endpoint_id", encodeBytes (I.asBytes value.endpointId).toList),
    (key "partisan_ip", encodeBytes value.partisanIp.toList),
    (key "capabilities", encodeCapabilities value.capabilities),
    (key "partisan_port", encodeUint value.partisanPort.val.toUInt64)]

theorem canonicalKeys_announcement (value : Announcement I) :
    CanonicalKeys ((announcementEntries value).map Prod.fst) :=
  show CanonicalKeys [key "kind", key "load", key "ttl_ms", key "version", key "fleet_id",
    key "sequence", key "node_name", key "endpoint_id", key "partisan_ip", key "capabilities",
    key "partisan_port"] by decide

theorem encodeAnnouncement_eq (value : Announcement I) :
    encodeAnnouncement value = encodeHead 5 11 ++ entryBytes (announcementEntries value) := by
  have horder : [1, 10, 8, 0, 2, 7, 4, 3, 5, 9, 6].Perm (List.range 11) := by decide
  refine encodeMap_eq (canonicalKeys_announcement value) ?_
  refine List.Perm.trans ?_ (map_getD_perm horder ([], []))
  exact List.Perm.refl _

def withdrawalEntries (value : Withdrawal I) : List (Text × List UInt8) :=
  [(key "kind", encodeText "withdrawal"),
    (key "version", encodeUint 1),
    (key "fleet_id", encodeBytes value.fleetId.toList),
    (key "sequence", encodeUint value.sequence),
    (key "endpoint_id", encodeBytes (I.asBytes value.endpointId).toList)]

theorem canonicalKeys_withdrawal (value : Withdrawal I) :
    CanonicalKeys ((withdrawalEntries value).map Prod.fst) :=
  show CanonicalKeys [key "kind", key "version", key "fleet_id", key "sequence",
    key "endpoint_id"] by decide

theorem encodeWithdrawal_eq (value : Withdrawal I) :
    encodeWithdrawal value = encodeHead 5 5 ++ entryBytes (withdrawalEntries value) := by
  have horder : [1, 0, 2, 4, 3].Perm (List.range 5) := by decide
  refine encodeMap_eq (canonicalKeys_withdrawal value) ?_
  refine List.Perm.trans ?_ (map_getD_perm horder ([], []))
  exact List.Perm.refl _

theorem toPort?_toUInt64 (port : NonZeroU16) : toPort? port.val.toUInt64 = some port := by
  have hle : port.val.toUInt64 ≤ 0xffff := by
    rw [UInt64.le_iff_toNat_le, UInt16.toNat_toUInt64]
    exact Nat.le_of_lt_succ port.val.toNat_lt
  have hback : port.val.toUInt64.toUInt16 = port.val := by simp
  rw [toPort?, if_pos hle, dif_pos (by rw [hback]; exact port.property)]
  simp [hback]

theorem records_announcement {value : Announcement I} (h : BoundedCapabilities value.capabilities) :
    Records (messageEntry I) (announcementEntries value) {}
      { version := some 1, kind := some (key "announcement"), fleetId := some value.fleetId,
        endpointId := some value.endpointId, nodeName := some value.nodeName,
        partisanIp := some value.partisanIp, partisanPort := some value.partisanPort,
        sequence := some value.sequence, ttlMs := some value.ttlMs,
        capabilities := some value.capabilities, load := some value.load } := by
  refine .cons (Reads.bind_pure (reads_text (key "announcement")) (Reads.pure _)) ?_
  refine .cons (Reads.bind_pure (reads_decodeLoad value.load) (Reads.pure _)) ?_
  refine .cons (Reads.bind_pure (reads_uint _) (Reads.pure _)) ?_
  refine .cons (Reads.bind_pure (reads_uint _) (Reads.pure _)) ?_
  refine .cons (Reads.bind_pure (reads_readArray (by decide) _) (Reads.pure _)) ?_
  refine .cons (Reads.bind_pure (reads_uint _) (Reads.pure _)) ?_
  refine .cons (Reads.bind_pure (reads_text _) (Reads.pure _)) ?_
  refine .cons (Reads.bind_pure (reads_readArray (by decide) _) (Reads.pure_bind
    (Reads.okOr (I.fromBytes_eq_some_iff.mpr rfl)) (Reads.pure _))) ?_
  refine .cons (Reads.bind_pure (reads_readArray (by decide) _) (Reads.pure _)) ?_
  refine .cons (Reads.bind_pure (reads_decodeCapabilities h) (Reads.pure _)) ?_
  refine .cons (Reads.bind_pure (reads_uint _) (Reads.pure_bind
    (Reads.okOr (toPort?_toUInt64 value.partisanPort)) (Reads.pure _))) ?_
  exact .nil _

theorem records_withdrawal (value : Withdrawal I) :
    Records (messageEntry I) (withdrawalEntries value) {}
      { version := some 1, kind := some (key "withdrawal"), fleetId := some value.fleetId,
        endpointId := some value.endpointId, sequence := some value.sequence } := by
  refine .cons (Reads.bind_pure (reads_text (key "withdrawal")) (Reads.pure _)) ?_
  refine .cons (Reads.bind_pure (reads_uint _) (Reads.pure _)) ?_
  refine .cons (Reads.bind_pure (reads_readArray (by decide) _) (Reads.pure _)) ?_
  refine .cons (Reads.bind_pure (reads_uint _) (Reads.pure _)) ?_
  refine .cons (Reads.bind_pure (reads_readArray (by decide) _) (Reads.pure_bind
    (Reads.okOr (I.fromBytes_eq_some_iff.mpr rfl)) (Reads.pure _))) ?_
  exact .nil _

/-- The format's bounds on a message. A withdrawal has no list. -/
def Message.Bounded : Message I → Prop
  | .announcement value => BoundedCapabilities value.capabilities
  | .withdrawal _ => True

/-- **No encoding is rejected.** -/
theorem readsAll_readMessage {message : Message I} (h : message.Bounded) :
    ReadsAll (readMessage I) (encodeMessage message) message := by
  cases message with
  | announcement value =>
    have hentries : Reads (mapEntries (messageEntry I) 11 none {})
        (entryBytes (announcementEntries value)) _ :=
      reads_mapEntries (records_announcement h) (canonicalKeys_announcement value) (by simp)
    rw [encodeMessage, encodeAnnouncement_eq]
    refine ReadsAll.bind (reads_length (n := 11) (by decide) (by decide)) ?_
    rw [← List.append_nil (entryBytes _)]
    refine ReadsAll.bind hentries (ReadsAll.finish_bind ?_)
    refine Reads.pure_bind (Reads.okOr rfl) (Reads.pure_bind (Reads.check rfl) ?_)
    refine Reads.pure_bind (Reads.okOr rfl) (Reads.pure_bind (Reads.okOr rfl) ?_)
    refine Reads.pure_bind (Reads.okOr rfl) (Reads.pure_bind (Reads.check rfl) ?_)
    refine Reads.pure_bind (Reads.okOr rfl) (Reads.pure_bind (Reads.okOr rfl) ?_)
    refine Reads.pure_bind (Reads.okOr rfl) (Reads.pure_bind (Reads.okOr rfl) ?_)
    exact Reads.pure_bind (Reads.okOr rfl) (Reads.pure_bind (Reads.okOr rfl) (Reads.pure _))
  | withdrawal value =>
    have hentries : Reads (mapEntries (messageEntry I) 5 none {})
        (entryBytes (withdrawalEntries value)) _ :=
      reads_mapEntries (records_withdrawal value) (canonicalKeys_withdrawal value) (by simp)
    rw [encodeMessage, encodeWithdrawal_eq]
    refine ReadsAll.bind (reads_length (n := 5) (by decide) (by decide)) ?_
    rw [← List.append_nil (entryBytes _)]
    refine ReadsAll.bind hentries (ReadsAll.finish_bind ?_)
    refine Reads.pure_bind (Reads.okOr rfl) (Reads.pure_bind (Reads.check rfl) ?_)
    refine Reads.pure_bind (Reads.okOr rfl) (Reads.pure_bind (Reads.okOr rfl) ?_)
    exact Reads.pure_bind (Reads.okOr rfl) (Reads.pure_bind (Reads.check rfl) (Reads.pure _))

/-! ## What the decoder returns is within the bounds

A message that is decoded was found by the loops, and these count. The rule for the loop has an
invariant that is indexed by the number of entries left; for capabilities it is that what has been
found and what is left are at most 32 together. -/

/-- The loop rule: an invariant of the accumulator indexed by the number of entries left. -/
theorem yields_mapEntries {σ : Type} {entry : Text → σ → Reading Error σ} (Inv : ℕ → σ → Prop)
    (hentry : ∀ key n s, Inv (n + 1) s → Yields (entry key s) (Inv n)) :
    ∀ n previous s, Inv n s → Yields (mapEntries entry n previous s) (Inv 0) := by
  intro n
  induction n with
  | zero => exact fun previous s h ↦ Yields.pure h
  | succ n ih =>
    intro previous s h
    exact Yields.skip fun key ↦ (hentry key.1 n s h).bind fun t ht ↦ ih _ t ht

theorem yields_capability : Yields capability CapabilityValue.Bounded := by
  refine Yields.skip fun byte ↦ ?_
  split
  · exact Yields.skip fun _ ↦ Yields.pure trivial
  split
  · exact Yields.skip fun _ ↦ Yields.pure trivial
  rw [capabilityOf]
  split
  · exact Yields.skip fun _ ↦ Yields.pure trivial
  split
  · exact Yields.skip fun _ ↦ Yields.pure trivial
  split
  · refine Yields.skip fun len ↦ Yields.check.bind fun _ hlen ↦ ?_
    refine (Yields.times len).bind fun values hvalues ↦ Yields.pure ?_
    exact le_of_eq_of_le hvalues hlen
  · exact Yields.throw

/-- The invariant of the capability loop with `n` entries left. -/
private def CapabilityLoop (n : ℕ) (values : Capabilities) : Prop :=
  values.size + n ≤ 32 ∧ ∀ e ∈ values.toList, e.2.Bounded

private theorem capabilityLoop_insert {n : ℕ} {values : Capabilities} {name : Text}
    {value : CapabilityValue} (h : CapabilityLoop (n + 1) values) (hvalue : value.Bounded) :
    CapabilityLoop n (values.insert name value) := by
  obtain ⟨hsize, hbounded⟩ := h
  refine ⟨?_, ?_⟩
  · have hinsert := ExtTreeMap.size_insert_le (t := values) (k := name) (v := value)
    omega
  · rintro ⟨other, v⟩ hmem
    rw [ExtTreeMap.mem_toList_iff_getElem?_eq_some, ExtTreeMap.getElem?_insert] at hmem
    split at hmem
    · rw [Option.some_inj] at hmem
      subst hmem
      exact hvalue
    · exact hbounded (other, v) (ExtTreeMap.mem_toList_iff_getElem?_eq_some.mpr hmem)

theorem yields_decodeCapabilities : Yields decodeCapabilities BoundedCapabilities := by
  refine Yields.skip fun len ↦ Yields.check.bind fun _ hlen ↦ ?_
  refine yields_mapEntries CapabilityLoop ?_ len none ∅ ⟨?_, ?_⟩
  · intro name n values hinv
    exact yields_capability.bind fun value hvalue ↦ Yields.pure (capabilityLoop_insert hinv hvalue)
  · rw [ExtTreeMap.size_empty]
    omega
  · simp

/-- Whatever capability map has been found is within the bounds. -/
private def MessageLoop (_ : ℕ) (fields : MessageFields I) : Prop :=
  ∀ values ∈ fields.capabilities, BoundedCapabilities values

private theorem yields_messageEntry (key : Text) (n : ℕ) (fields : MessageFields I)
    (h : MessageLoop (n + 1) fields) : Yields (messageEntry I key fields) (MessageLoop n) := by
  rw [messageEntry]
  split
  case h_10 =>
    refine yields_decodeCapabilities.bind fun values hvalues ↦ Yields.pure ?_
    intro values' hmem
    rw [Option.mem_some_iff] at hmem
    subst hmem
    exact hvalues
  case h_12 => exact Yields.throw
  -- the other fields leave the capabilities alone
  case h_4 => exact Yields.skip fun _ ↦ Yields.skip fun _ ↦ Yields.pure h
  case h_7 => exact Yields.skip fun _ ↦ Yields.skip fun _ ↦ Yields.pure h
  all_goals exact Yields.skip fun _ ↦ Yields.pure h

private theorem yields_toMessage {len : ℕ} {fields : MessageFields I} (h : MessageLoop 0 fields) :
    Yields (fields.toMessage I len) Message.Bounded := by
  refine Yields.skip fun version ↦ Yields.skip fun _ ↦ Yields.skip fun fleetId ↦ ?_
  refine Yields.skip fun endpointId ↦ Yields.skip fun sequence ↦ ?_
  split
  · refine Yields.skip fun _ ↦ Yields.skip fun nodeName ↦ Yields.skip fun partisanIp ↦ ?_
    refine Yields.skip fun partisanPort ↦ Yields.skip fun ttlMs ↦ ?_
    refine Yields.okOr.bind fun values hvalues ↦ Yields.skip fun load ↦ Yields.pure ?_
    exact h values hvalues
  · exact Yields.skip fun _ ↦ Yields.pure trivial
  · exact Yields.throw

theorem yields_readMessage : Yields (readMessage I) Message.Bounded := by
  refine Yields.skip fun len ↦ ?_
  have hloop : Yields (mapEntries (messageEntry I) len none {}) (MessageLoop 0) :=
    yields_mapEntries MessageLoop yields_messageEntry len none {} (by intro values h; cases h)
  exact hloop.bind fun fields hfields ↦ Yields.skip fun _ ↦ yields_toMessage hfields

/-- **Messages.** Decoding yields exactly the messages within the bounds, from exactly their
encodings. -/
theorem decodeMessage_eq_ok_iff {bytes : List UInt8} {message : Message I} :
    decodeMessage I bytes = .ok message ↔ message.Bounded ∧ encodeMessage message = bytes := by
  constructor
  · intro h
    rw [decodeMessage] at h
    split at h
    · cases h
    · next found rest hread =>
      split at h
      · next hcanonical =>
        rw [Except.ok.injEq] at h
        subst h
        exact ⟨yields_readMessage _ _ _ hread, hcanonical⟩
      · cases h
  · rintro ⟨hbounded, rfl⟩
    rw [decodeMessage, (readsAll_readMessage hbounded).run_new]
    exact if_pos rfl

end Message

/-! ## Envelopes -/

section Envelope

variable {I : Iroh}

def envelopeEntries (body : List UInt8) (signature : List.Vector UInt8 64) :
    List (Text × List UInt8) :=
  [(key "body", encodeBytes body), (key "signature", encodeBytes signature.toList)]

theorem canonicalKeys_envelope (body : List UInt8) (signature : List.Vector UInt8 64) :
    CanonicalKeys ((envelopeEntries body signature).map Prod.fst) :=
  show CanonicalKeys [key "body", key "signature"] by decide

theorem encodeEnvelope_eq (body : List UInt8) (signature : List.Vector UInt8 64) :
    encodeEnvelope body signature
      = encodeHead 5 2 ++ entryBytes (envelopeEntries body signature) :=
  encodeMap_eq (canonicalKeys_envelope body signature) (List.Perm.refl _)

theorem length_le_length_encodeEnvelope (body : List UInt8) (signature : List.Vector UInt8 64) :
    body.length ≤ (encodeEnvelope body signature).length := by
  rw [encodeEnvelope_eq]
  simp only [envelopeEntries, entryBytes, encodeBytes, List.flatMap_cons, List.length_append]
  omega

theorem readsAll_readEnvelope (body : ByteVec) (signature : I.Signature) :
    ReadsAll (readEnvelope I) (encodeEnvelope body.val (I.toBytes signature))
      (body, signature) := by
  have hrec : Records (envelopeEntry I) (envelopeEntries body.val (I.toBytes signature)) {}
      { body := some body, signature := some signature } := by
    refine .cons (Reads.bind_pure (reads_byteString body.property) (Reads.pure_bind
      (Reads.okOr (toVec?_val body)) (Reads.pure _))) ?_
    refine .cons (Reads.bind_pure (reads_readArray (by decide) _) (Reads.pure_bind
      (Reads.okOr (I.tryFrom_eq_some_iff.mpr rfl)) (Reads.pure _))) ?_
    exact .nil _
  have hentries : Reads (mapEntries (envelopeEntry I) 2 none {})
      (entryBytes (envelopeEntries body.val (I.toBytes signature))) _ :=
    reads_mapEntries hrec (canonicalKeys_envelope body.val (I.toBytes signature)) (by simp)
  rw [encodeEnvelope_eq]
  refine ReadsAll.bind (reads_length (n := 2) (by decide) (by decide)) ?_
  refine ReadsAll.pure_bind (Reads.check rfl) ?_
  rw [← List.append_nil (entryBytes _)]
  refine ReadsAll.bind hentries (ReadsAll.finish_bind ?_)
  exact Reads.pure_bind (Reads.okOr rfl) (Reads.pure_bind (Reads.okOr rfl) (Reads.pure _))

/-- **Envelopes.** Decoding yields exactly the pair an envelope was made of. -/
theorem decodeEnvelope_eq_ok_iff {bytes : List UInt8} {body : ByteVec} {signature : I.Signature} :
    decodeEnvelope I bytes = .ok (body, signature) ↔
      encodeEnvelope body.val (I.toBytes signature) = bytes := by
  constructor
  · intro h
    rw [decodeEnvelope] at h
    split at h
    · cases h
    · split at h
      · next hcanonical =>
        rw [Except.ok.injEq] at h
        rwa [h] at hcanonical
      · cases h
  · rintro rfl
    rw [decodeEnvelope, (readsAll_readEnvelope body signature).run_new]
    exact if_pos rfl

/-- **The decoder is the inverse of the encoder over the whole format**, for messages and for
envelopes. -/
theorem decoder_inverts_encoder (I : Iroh) :
    (∀ (bytes : List UInt8) (message : Message I),
      decodeMessage I bytes = .ok message ↔
        message.Bounded ∧ bytes = encodeMessage message)
      ∧ ∀ (bytes : List UInt8) (body : ByteVec) (signature : I.Signature),
        decodeEnvelope I bytes = .ok (body, signature) ↔
          bytes = encodeEnvelope body.val (I.toBytes signature) := by
  refine ⟨fun bytes message ↦ ?_, fun bytes body signature ↦ ?_⟩
  · rw [decodeMessage_eq_ok_iff, eq_comm (a := bytes)]
  · rw [decodeEnvelope_eq_ok_iff, eq_comm]

end Envelope

end NervesP2P
