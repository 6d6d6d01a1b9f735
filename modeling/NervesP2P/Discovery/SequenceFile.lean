import NervesP2P.Discovery.Capacity

/-!
# The sequence file

Of a sequence store only the file outlives the process. This module compares the two.

## The format

The file is a list of records, and `open` is strict about it: every key has to be the key of an
endpoint, no number may be zero, no endpoint may come twice, and there are at most 1024 records.
`advance` never makes a map that `open` would refuse. So whatever is written can be opened again,
and gives the map that was written.

## A failed call

A failed `advance` puts the memory back. It does not put the file back: when the directory cannot
be synced the file has already been renamed, and from then on the file is ahead of the memory. The
store of a path without a directory part fails in this way on every call.
-/

open Std (ExtTreeMap)

namespace NervesP2P

variable {I : Iroh}

/-! ## Records

A list of records is a byte string that can be cut into pieces of forty bytes, each with a key and a
number. What the loop of `open` accepts are such pieces, of endpoints that it has not seen
before. -/

/-- A record that `open` accepts: the key of an endpoint and a number that was used. -/
structure SequenceRecord (I : Iroh) where
  key : List.Vector UInt8 32
  endpoint : I.EndpointId
  decodes : I.fromBytes key = some endpoint
  sequence : UInt64
  nonzero : sequence ≠ 0

namespace SequenceRecord

def bytes (record : SequenceRecord I) : List UInt8 :=
  record.key.toList ++ beBytes 8 record.sequence.toNat

def entry (record : SequenceRecord I) : I.EndpointId × UInt64 := (record.endpoint, record.sequence)

theorem bytes_eq (record : SequenceRecord I) :
    record.bytes = sequenceRecord record.entry.1 record.entry.2 := by
  rw [bytes, ← I.fromBytes_eq_some_iff.mp record.decodes]
  rfl

theorem flatMap_bytes (records : List (SequenceRecord I)) :
    records.flatMap bytes
      = (records.map entry).flatMap fun entry ↦ sequenceRecord entry.1 entry.2 := by
  rw [List.flatMap_map]
  exact congrArg (records.flatMap ·) (funext bytes_eq)

end SequenceRecord

theorem toList_of_toArray? {n : ℕ} {bs : List UInt8} {v : List.Vector UInt8 n}
    (h : toArray? n bs = some v) : v.toList = bs := by
  rw [toArray?] at h
  split at h
  · obtain rfl := Option.some.inj h
    rfl
  · cases h

theorem beBytes_toNat_ofNat {word : List UInt8} (h : word.length = 8) :
    beBytes 8 (UInt64.ofNat (ofBeBytes word)).toNat = word := by
  have hlt := ofBeBytes_lt word
  rw [h] at hlt
  rw [UInt64.toNat_ofNat_of_lt' hlt, ← h, beBytes_ofBeBytes]

theorem exists_records_of_readRecords : ∀ (n : ℕ) (bytes : List UInt8)
    (sequences result : ExtTreeMap I.EndpointId UInt64), bytes.length = n * 40 →
      readRecords I n bytes sequences = .ok result →
        ∃ records : List (SequenceRecord I), records.length = n
          ∧ records.Pairwise (fun a b ↦ a.endpoint ≠ b.endpoint)
          ∧ (∀ record ∈ records, sequences[record.endpoint]? = none)
          ∧ bytes = records.flatMap SequenceRecord.bytes := by
  intro n
  induction n with
  | zero =>
    intro bytes sequences result hlength _
    exact ⟨[], rfl, .nil, by simp, List.length_eq_zero_iff.mp (by omega)⟩
  | succ n ih =>
    intro bytes sequences result hlength h
    rw [readRecords] at h
    split at h
    · cases h
    · next endpoint hendpoint =>
      obtain ⟨key, hkey, hdecodes⟩ := Option.bind_eq_some_iff.mp hendpoint
      dsimp only at h
      split at h
      · cases h
      · next hok =>
        rw [not_or] at hok
        obtain ⟨records, rfl, hdistinct, hfresh, hrest⟩ :=
          ih (bytes.drop 40) _ result (by rw [List.length_drop]; omega) h
        have hword : ((bytes.drop 32).take 8).length = 8 :=
          List.length_take_of_le (by rw [List.length_drop]; omega)
        refine ⟨⟨key, endpoint, hdecodes, _, hok.1⟩ :: records, rfl, ?_, ?_, ?_⟩
        · refine List.pairwise_cons.mpr ⟨fun record hmem heq ↦ ?_, hdistinct⟩
          have hnone := hfresh record hmem
          rw [getElem?_insert_eq, if_pos heq] at hnone
          cases hnone
        · intro record hmem
          rcases List.mem_cons.mp hmem with rfl | hmem
          · exact Option.not_isSome_iff_eq_none.mp hok.2
          · have hnone := hfresh record hmem
            rw [getElem?_insert_eq] at hnone
            split at hnone
            · cases hnone
            · exact hnone
        · rw [List.flatMap_cons, ← hrest, SequenceRecord.bytes, toList_of_toArray? hkey,
            beBytes_toNat_ofNat hword, List.append_assoc, ← List.drop_drop (i := 8) (j := 32),
            List.take_append_drop, List.take_append_drop]

/-- **What `open` accepts.** -/
theorem exists_readSequences_iff {bytes : List UInt8} :
    (∃ sequences, readSequences I bytes = .ok sequences) ↔
      ∃ records : List (SequenceRecord I), records.length ≤ maxAuthorized
        ∧ records.Pairwise (fun a b ↦ a.endpoint ≠ b.endpoint)
        ∧ bytes = records.flatMap SequenceRecord.bytes := by
  constructor
  · rintro ⟨sequences, h⟩
    rw [readSequences] at h
    split at h
    · cases h
    · next hlength =>
      rw [not_or, not_not] at hlength
      obtain ⟨records, hcount, hdistinct, -, hbytes⟩ :=
        exists_records_of_readRecords _ bytes _ _ (by omega) h
      exact ⟨records, by omega, hdistinct, hbytes⟩
  · rintro ⟨records, hcount, hdistinct, rfl⟩
    have hlength : (records.flatMap SequenceRecord.bytes).length = records.length * 40 := by
      rw [List.length_flatMap]
      simp [SequenceRecord.bytes_eq, length_sequenceRecord]
    have hread := readRecords_entries (records.map SequenceRecord.entry) ∅
      (List.pairwise_map.mpr hdistinct) (by
        intro entry hmem
        obtain ⟨record, -, rfl⟩ := List.mem_map.mp hmem
        exact ⟨record.nonzero, ExtTreeMap.getElem?_empty⟩)
    rw [List.length_map, ← SequenceRecord.flatMap_bytes] at hread
    refine ⟨_, Eq.trans ?_ hread⟩
    rw [readSequences, hlength, if_neg (by omega), Nat.mul_div_cancel _ (by decide)]

namespace FileSequenceStore

variable {s : FileSequenceStore I} {e : I.EndpointId} {n : UInt64}

/-! ## Every map that is written

Maps that were opened or made by `advance` have at most 1024 entries and no zeros: a number that is
written is larger than another one, and a new endpoint is refused when there is no room. -/

/-- The stores that calls of `advance` reach from an empty or an opened one. The disk may fail at
any step of any call. -/
inductive Advanced : FileSequenceStore I → Prop
  | empty (parent : Option String) (disk : Disk) : Advanced ⟨parent, ∅, disk⟩
  | opened {parent : Option String} {readFails : Bool} {disk : Disk} {store : FileSequenceStore I}
      (h : openFile parent readFails disk = .ok store) : Advanced store
  | advance {store : FileSequenceStore I} (h : Advanced store) (endpoint : I.EndpointId)
      (sequence : UInt64) : Advanced ((advance endpoint sequence).after store)

theorem openFile_eq_ok_iff {parent : Option String} {readFails : Bool} {disk : Disk} :
    openFile parent readFails disk = .ok s ↔ readFails = false ∧ s.parent = parent ∧ s.disk = disk
      ∧ readSequences I (disk.file.getD []) = .ok s.sequences := by
  rw [openFile]
  cases readFails with
  | true => simp
  | false =>
    rw [if_neg (by decide)]
    cases s
    split <;> simp_all [eq_comm, and_comm]

theorem hasRoom_of_returns {s' : FileSequenceStore I} {u : Unit}
    (h : (FileSequenceStore.advance e n).Returns s u s') : s.HasRoom e := by
  by_contra hroom
  exact h.not_fails (fails_advance_of_full (returns_advance h).1 hroom)

theorem positive_insert (h : Positive s.sequences) (hlt : s.sequences.getD e 0 < n) :
    Positive (s.sequences.insert e n) :=
  h.insert e fun hzero ↦ UInt64.not_lt_zero (hzero ▸ hlt)

theorem Advanced.readable (h : s.Advanced) :
    Positive s.sequences ∧ s.sequences.size ≤ maxAuthorized := by
  induction h with
  | empty parent disk => exact ⟨by simp [Positive], by simp⟩
  | opened h => exact of_readSequences (openFile_eq_ok_iff.mp h).2.2.2
  | @advance s _ e n ih =>
    obtain ⟨hpositive, hsize⟩ := ih
    rcases Method.returns_or_fails (FileSequenceStore.advance e n) s with ⟨u, h⟩ | ⟨err, h⟩
    · obtain ⟨hlt, hsequences, -⟩ := returns_advance h
      rw [hsequences]
      exact ⟨positive_insert hpositive hlt,
        size_insert_le_of_hasRoom n hsize (hasRoom_of_returns h)⟩
    · rw [(fails_advance h).1]
      exact ⟨hpositive, hsize⟩

theorem openFile_sequenceBytes {sequences : ExtTreeMap I.EndpointId UInt64}
    (hpositive : Positive sequences) (hsize : sequences.size ≤ maxAuthorized)
    (parent : Option String) {disk : Disk} (hfile : disk.file = some (sequenceBytes sequences)) :
    openFile parent false disk = .ok ⟨parent, sequences, disk⟩ := by
  rw [openFile_eq_ok_iff, hfile]
  exact ⟨rfl, rfl, rfl, readSequences_sequenceBytes hpositive hsize⟩

/-- **The file format is exact.** What `persist` writes can be opened and gives the map that was
written: the present map, and the one a call is about to write. A file can be opened exactly if it
is a list of at most 1024 records of different endpoints. -/
theorem sequence_file_exact {store : FileSequenceStore I} (h : store.Advanced)
    (parent : Option String) :
    (∀ disk : Disk, disk.file = some (sequenceBytes store.sequences) →
        openFile parent false disk = .ok ⟨parent, store.sequences, disk⟩)
      ∧ (∀ (e : I.EndpointId) (n : UInt64) (disk : Disk), store.sequences.getD e 0 < n →
        store.HasRoom e → disk.file = some (sequenceBytes (store.sequences.insert e n)) →
          openFile parent false disk = .ok ⟨parent, store.sequences.insert e n, disk⟩)
      ∧ ∀ (bytes : List UInt8) (disk : Disk), disk.file = some bytes →
        ((∃ opened : FileSequenceStore I, openFile parent false disk = .ok opened) ↔
          ∃ records : List (SequenceRecord I), records.length ≤ 1024
            ∧ records.Pairwise (fun a b ↦ a.endpoint ≠ b.endpoint)
            ∧ bytes = records.flatMap SequenceRecord.bytes) := by
  obtain ⟨hpositive, hsize⟩ := h.readable
  refine ⟨fun disk ↦ openFile_sequenceBytes hpositive hsize parent, ?_, ?_⟩
  · intro e n disk hlt hroom
    exact openFile_sequenceBytes (positive_insert hpositive hlt)
      (size_insert_le_of_hasRoom n hsize hroom) parent
  · intro bytes disk hfile
    rw [← maxAuthorized, ← exists_readSequences_iff]
    constructor
    · rintro ⟨opened, hopen⟩
      obtain ⟨-, -, -, hread⟩ := openFile_eq_ok_iff.mp hopen
      rw [hfile] at hread
      exact ⟨_, hread⟩
    · rintro ⟨sequences, hread⟩
      refine ⟨⟨parent, sequences, disk⟩, openFile_eq_ok_iff.mpr ⟨rfl, rfl, rfl, ?_⟩⟩
      rw [hfile]
      exact hread

/-- The store of one endpoint after its first number. -/
theorem sequence_file_sample :
    ∃ store : FileSequenceStore Iroh.single, store.Advanced ∧ store.sequences.getD () 0 = 1
      ∧ ∀ disk : Disk, disk.file = some (sequenceBytes store.sequences) →
        openFile none false disk = .ok ⟨none, store.sequences, disk⟩ := by
  have hreturns : (FileSequenceStore.advance () 1).Returns blank () (blank.raised () 1) :=
    Faultless.returns_advance ⟨by decide, rfl⟩ (by decide) (Or.inr (by decide))
  have hblank : blank.Advanced := .empty (some "d") Disk.blank
  have hadvanced : (blank.raised () 1).Advanced := hreturns.after_eq ▸ hblank.advance () 1
  exact ⟨_, hadvanced, ExtTreeMap.getD_insert_self, (sequence_file_exact hadvanced none).1⟩

/-! ## A failed call

The file is written in steps, and it is replaced by one of them, the rename. A write that fails
before it has changed nothing. One that fails after it leaves the new map in the file, which is
another map than the one in memory since one of its numbers was raised. -/

/-- The file has what the memory has. -/
def FileAgrees (store : FileSequenceStore I) : Prop :=
  openFile store.parent false store.disk = .ok store

theorem fileAgrees_iff :
    s.FileAgrees ↔ readSequences I (s.disk.file.getD []) = .ok s.sequences := by
  rw [FileAgrees, openFile_eq_ok_iff]
  simp

theorem insert_ne (hlt : s.sequences.getD e 0 < n) : s.sequences.insert e n ≠ s.sequences := by
  intro heq
  rw [← heq, ExtTreeMap.getD_insert_self] at hlt
  exact UInt64.lt_irrefl n hlt

theorem exists_fails_of_late (hlt : s.sequences.getD e 0 < n) (hroom : s.HasRoom e)
    (hlate : s.disk.FailsLate s.parent) :
    ∃ s', (FileSequenceStore.advance e n).Fails s .sequenceStoreFailed s' ∧ ¬s'.FileAgrees := by
  obtain ⟨g, disk, hwrite, hfile⟩ := hlate.exists_fails (sequenceBytes (s.sequences.insert e n))
  refine ⟨_, fails_advance_of_write hlt (fun hfull ↦ not_hasRoom_iff.mpr hfull hroom) hwrite, ?_⟩
  intro hagrees
  have hread := fileAgrees_iff.mp hagrees
  dsimp only at hread
  rw [hfile] at hread
  exact insert_ne hlt (eq_of_readSequences_sequenceBytes hread).symm

/-- **A failed `advance` leaves memory and file in agreement, unless the write failed too late.** -/
theorem advance_error_agrees_iff {store : FileSequenceStore I} (h : store.FileAgrees)
    (e : I.EndpointId) (n : UInt64) :
    (∀ err store', (FileSequenceStore.advance e n).Fails store err store' →
        store'.sequences = store.sequences ∧ store'.FileAgrees) ↔
      ¬(store.sequences.getD e 0 < n ∧ store.HasRoom e ∧ store.disk.FailsLate store.parent) := by
  constructor
  · rintro hagrees ⟨hlt, hroom, hlate⟩
    obtain ⟨store', hfails, hnot⟩ := exists_fails_of_late hlt hroom hlate
    exact hnot (hagrees _ _ hfails).2
  · intro hnot err store' hfails
    rcases fails_advance_cases hfails with rfl | ⟨hlt, hroom, g, disk, hwrite, rfl⟩
    · exact ⟨rfl, h⟩
    · have hlate : ¬store.disk.FailsLate store.parent := fun hlate ↦
        hnot ⟨hlt, not_not.mp fun hfull ↦ hroom (not_hasRoom_iff.mp hfull), hlate⟩
      refine ⟨rfl, fileAgrees_iff.mpr ?_⟩
      dsimp only
      rw [Disk.file_of_fails_atomicWrite hlate hwrite]
      exact fileAgrees_iff.mp h

/-- A store without numbers on a disk without the file. -/
def fresh (parent : Option String) (faults : List (Option Fault)) :
    FileSequenceStore Iroh.single := ⟨parent, ∅, { Disk.blank with faults }⟩

theorem fileAgrees_fresh (parent : Option String) (faults : List (Option Fault)) :
    (fresh parent faults).FileAgrees := by
  rw [fileAgrees_iff]
  change readSequences Iroh.single [] = .ok ∅
  decide

/-- The directory of a path with one fails to sync, and a path without one has no directory to
sync. In both cases the first number is in the file and not in the memory. -/
theorem advance_error_disagrees :
    (fresh (some "d") [some .syncParent]).FileAgrees ∧ (fresh (some "") []).FileAgrees
      ∧ (∃ store', (FileSequenceStore.advance () 1).Fails (fresh (some "d") [some .syncParent])
        .sequenceStoreFailed store' ∧ ¬store'.FileAgrees)
      ∧ ∃ store', (FileSequenceStore.advance () 1).Fails (fresh (some "") [])
        .sequenceStoreFailed store' ∧ ¬store'.FileAgrees := by
  refine ⟨fileAgrees_fresh _ _, fileAgrees_fresh _ _, ?_, ?_⟩
  · exact exists_fails_of_late (by decide) (Or.inr (by decide)) rfl
  · exact exists_fails_of_late (by decide) (Or.inr (by decide)) rfl

/-- A rename that fails changes neither. -/
theorem advance_error_agrees_sample :
    ∃ err store',
      (FileSequenceStore.advance () 1).Fails (fresh (some "d") [some .rename]) err store'
      ∧ store'.sequences = ∅ ∧ store'.FileAgrees := by
  have hfails : (FileSequenceStore.advance () 1).Fails (fresh (some "d") [some .rename])
      .sequenceStoreFailed _ := Method.fails_after (by decide)
  have hlate : ¬(fresh (some "d") [some .rename]).disk.FailsLate (some "d") := by
    intro hlate
    cases hlate
  exact ⟨_, _, hfails, (advance_error_agrees_iff (fileAgrees_fresh _ _) () 1).mpr
    (fun hbad ↦ hlate hbad.2.2) _ _ hfails⟩

end FileSequenceStore

end NervesP2P
