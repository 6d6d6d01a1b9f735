import NervesP2P.Discovery.Registry
import NervesP2P.Lib.AtomicFile
import NervesP2P.Lib.BigEndian
import NervesP2P.Lib.Maps

/-!
# The sequence store on disk

`FileSequenceStore` keeps the numbers in memory and writes all of them to one file on every
`advance`: 40 bytes for each endpoint, its key and its number. A failed write is rolled back in
memory, but the file may already have been replaced, so memory and disk can disagree. What survives
of that is what a caller relies on: a failed `advance` does not change what `load` returns, and
after a successful one nothing but the new numbers is left on the disk.
-/

open Std (ExtTreeMap)

namespace NervesP2P

variable {I : Iroh}

/-! ## The file format

Records are of one length, and the loop of `open` takes them off the front. That it reads back what
was written is shown record by record: a record that was written is read as its endpoint and its
number, and the loop adds these to what it has. -/

/-- The bytes of one record: the endpoint's key and its number. -/
def sequenceRecord (endpoint : I.EndpointId) (sequence : UInt64) : List UInt8 :=
  (I.asBytes endpoint).toList ++ beBytes 8 sequence.toNat

/-- What `persist` writes. -/
def sequenceBytes (sequences : ExtTreeMap I.EndpointId UInt64) : List UInt8 :=
  sequences.toList.flatMap fun entry ↦ sequenceRecord entry.1 entry.2

/-- The loop of `open` over the records. -/
def readRecords (I : Iroh) : ℕ → List UInt8 → ExtTreeMap I.EndpointId UInt64 →
    Except Error (ExtTreeMap I.EndpointId UInt64)
  | 0, _, sequences => .ok sequences
  | n + 1, bytes, sequences =>
    match (toArray? 32 (bytes.take 32)).bind I.fromBytes with
    | none => .error .sequenceStoreFailed
    | some endpoint =>
      let sequence := UInt64.ofNat (ofBeBytes ((bytes.drop 32).take 8))
      -- a zero number and a second record for an endpoint are refused
      if sequence = 0 ∨ sequences[endpoint]?.isSome = true then .error .sequenceStoreFailed
      else readRecords I n (bytes.drop 40) (sequences.insert endpoint sequence)

def readSequences (I : Iroh) (bytes : List UInt8) :
    Except Error (ExtTreeMap I.EndpointId UInt64) :=
  if bytes.length % 40 ≠ 0 ∨ maxAuthorized < bytes.length / 40 then .error .sequenceStoreFailed
  else readRecords I (bytes.length / 40) bytes ∅

theorem length_sequenceRecord (endpoint : I.EndpointId) (sequence : UInt64) :
    (sequenceRecord endpoint sequence).length = 40 := by
  rw [sequenceRecord, List.length_append, length_beBytes, List.Vector.toList_length]

theorem readRecords_sequenceRecord (n : ℕ) (e : I.EndpointId) (sequence : UInt64)
    (rest : List UInt8) (sequences : ExtTreeMap I.EndpointId UInt64) :
    readRecords I (n + 1) (sequenceRecord e sequence ++ rest) sequences
      = if sequence = 0 ∨ sequences[e]?.isSome = true then .error .sequenceStoreFailed
        else readRecords I n rest (sequences.insert e sequence) := by
  have hkey : (sequenceRecord e sequence ++ rest).take 32 = (I.asBytes e).toList := by
    rw [sequenceRecord, List.append_assoc]
    exact List.take_left' (I.asBytes e).toList_length
  have hrest : (sequenceRecord e sequence ++ rest).drop 32 = beBytes 8 sequence.toNat ++ rest := by
    rw [sequenceRecord, List.append_assoc]
    exact List.drop_left' (I.asBytes e).toList_length
  have hnext : (sequenceRecord e sequence ++ rest).drop 40 = rest :=
    List.drop_left' (length_sequenceRecord e sequence)
  have hnumber :
      UInt64.ofNat (ofBeBytes ((beBytes 8 sequence.toNat ++ rest).take 8)) = sequence := by
    rw [List.take_left' (length_beBytes 8 sequence.toNat), ofBeBytes_beBytes sequence.toNat_lt,
      UInt64.ofNat_toNat]
  rw [readRecords, hkey, toArray?_toList, Option.bind_some, I.fromBytes_eq_some_iff.mpr rfl]
  simp only [hrest, hnumber, hnext]

theorem insertMany_of_readRecords :
    ∀ (entries : List (I.EndpointId × UInt64)) (sequences result : ExtTreeMap I.EndpointId UInt64),
      readRecords I entries.length
        (entries.flatMap fun entry ↦ sequenceRecord entry.1 entry.2) sequences = .ok result →
      result = sequences.insertMany entries := by
  intro entries
  induction entries with
  | nil =>
    intro sequences result h
    rw [ExtTreeMap.insertMany_nil]
    exact (Except.ok.inj h).symm
  | cons entry entries ih =>
    intro sequences result h
    rw [List.length_cons, List.flatMap_cons, readRecords_sequenceRecord] at h
    split at h
    · cases h
    · rw [ExtTreeMap.insertMany_cons]
      exact ih _ result h

theorem length_sequenceBytes (sequences : ExtTreeMap I.EndpointId UInt64) :
    (sequenceBytes sequences).length = sequences.toList.length * 40 := by
  rw [sequenceBytes, List.length_flatMap]
  simp [length_sequenceRecord]

theorem eq_of_readSequences_sequenceBytes {sequences result : ExtTreeMap I.EndpointId UInt64}
    (h : readSequences I (sequenceBytes sequences) = .ok result) : result = sequences := by
  rw [readSequences, length_sequenceBytes] at h
  split at h
  · cases h
  · rw [Nat.mul_div_cancel _ (by decide)] at h
    rw [insertMany_of_readRecords _ _ _ h]
    exact insertMany_of_perm_toList (List.Perm.refl _)

/-! ### What can be read back

`open` refuses a number that is zero and more records than the bound. So not every map can be read
back, but one without zeros and within the bound is (`readSequences_sequenceBytes`), and what is
read is such a map. -/

/-- Every number is one that was used. -/
def Positive (sequences : ExtTreeMap I.EndpointId UInt64) : Prop :=
  ∀ (e : I.EndpointId) (n : UInt64), sequences[e]? = some n → n ≠ 0

theorem Positive.insert {sequences : ExtTreeMap I.EndpointId UInt64} (h : Positive sequences)
    (e : I.EndpointId) {n : UInt64} (hn : n ≠ 0) : Positive (sequences.insert e n) := by
  intro e' n' hn'
  rw [getElem?_insert_eq] at hn'
  split at hn'
  · exact Option.some.inj hn' ▸ hn
  · exact h e' n' hn'

/-- The loop over the records adds at most one number for each, none of them zero. -/
theorem of_readRecords : ∀ (n : ℕ) (bytes : List UInt8)
    (sequences result : ExtTreeMap I.EndpointId UInt64),
    readRecords I n bytes sequences = .ok result → Positive sequences →
      Positive result ∧ result.size ≤ sequences.size + n := by
  intro n
  induction n with
  | zero =>
    intro bytes sequences result h hpositive
    obtain rfl := Except.ok.inj h
    exact ⟨hpositive, le_rfl⟩
  | succ n ih =>
    intro bytes sequences result h hpositive
    rw [readRecords] at h
    split at h
    · cases h
    · next e _ =>
      simp only at h
      split at h
      · cases h
      · next hok =>
        obtain ⟨hresult, hsize⟩ :=
          ih _ _ result h (hpositive.insert e fun hzero ↦ hok (Or.inl hzero))
        refine ⟨hresult, hsize.trans ?_⟩
        have hinsert := ExtTreeMap.size_insert_le (t := sequences) (k := e)
          (v := UInt64.ofNat (ofBeBytes ((bytes.drop 32).take 8)))
        omega

theorem of_readSequences {bytes : List UInt8} {sequences : ExtTreeMap I.EndpointId UInt64}
    (h : readSequences I bytes = .ok sequences) :
    Positive sequences ∧ sequences.size ≤ maxAuthorized := by
  rw [readSequences] at h
  split at h
  · cases h
  · next hok =>
    obtain ⟨hpositive, hsize⟩ := of_readRecords _ _ _ _ h (by simp [Positive])
    refine ⟨hpositive, hsize.trans ?_⟩
    rw [ExtTreeMap.size_empty]
    omega

/-- The loop reads back records of different endpoints, without a zero. -/
theorem readRecords_entries :
    ∀ (entries : List (I.EndpointId × UInt64)) (sequences : ExtTreeMap I.EndpointId UInt64),
      (entries.Pairwise fun a b ↦ a.1 ≠ b.1) →
      (∀ entry ∈ entries, entry.2 ≠ 0 ∧ sequences[entry.1]? = none) →
      readRecords I entries.length
        (entries.flatMap fun entry ↦ sequenceRecord entry.1 entry.2) sequences
          = .ok (sequences.insertMany entries) := by
  intro entries
  induction entries with
  | nil =>
    intro sequences _ _
    rw [ExtTreeMap.insertMany_nil]
    rfl
  | cons entry entries ih =>
    intro sequences hdistinct hfresh
    obtain ⟨hhead, hrest⟩ := List.pairwise_cons.mp hdistinct
    obtain ⟨hzero, hnone⟩ := hfresh entry List.mem_cons_self
    rw [List.length_cons, List.flatMap_cons, readRecords_sequenceRecord, if_neg,
      ExtTreeMap.insertMany_cons]
    · refine ih _ hrest fun entry' hmem ↦ ?_
      rw [getElem?_insert_eq, if_neg (hhead entry' hmem)]
      exact hfresh entry' (List.mem_cons_of_mem _ hmem)
    · simp [hzero, hnone]

/-- What is written can be read back, unless it is too much or holds a zero. -/
theorem readSequences_sequenceBytes {sequences : ExtTreeMap I.EndpointId UInt64}
    (hpositive : Positive sequences) (hsize : sequences.size ≤ maxAuthorized) :
    readSequences I (sequenceBytes sequences) = .ok sequences := by
  have hlength : sequences.toList.length ≤ maxAuthorized := by
    rwa [ExtTreeMap.length_toList]
  rw [readSequences, length_sequenceBytes, if_neg, Nat.mul_div_cancel _ (by decide), sequenceBytes,
    readRecords_entries, insertMany_of_perm_toList (List.Perm.refl _)]
  · refine ExtTreeMap.distinct_keys_toList.imp fun hne heq ↦ hne ?_
    rw [heq]
    exact Std.ReflCmp.compare_self
  · intro entry hmem
    refine ⟨hpositive entry.1 entry.2 ?_, ExtTreeMap.getElem?_empty⟩
    exact ExtTreeMap.mem_toList_iff_getElem?_eq_some.mp hmem
  · omega

/-! ## The store -/

/-- The store: its numbers in memory, and the disk with its file. -/
structure FileSequenceStore (I : Iroh) where
  /-- The parent of the file's path. -/
  parent : Option String
  sequences : ExtTreeMap I.EndpointId UInt64
  disk : Disk

namespace FileSequenceStore

variable {s s' : FileSequenceStore I} {e : I.EndpointId} {n : UInt64}

/-- Open the file of a disk. A missing file is an empty one; any other failure to read it is an
error. -/
def openFile (parent : Option String) (readFails : Bool) (disk : Disk) :
    Except Error (FileSequenceStore I) :=
  if readFails then .error .sequenceStoreFailed
  else
    match readSequences I (disk.file.getD []) with
    | .ok sequences => .ok ⟨parent, sequences, disk⟩
    | .error error => .error error

def load (store : FileSequenceStore I) (endpoint : I.EndpointId) : Except Error UInt64 :=
  .ok (store.sequences.getD endpoint 0)

def persist : Method (FileSequenceStore I) Error Unit := do
  let store ← get
  let result ← Method.attempt (Method.zoom FileSequenceStore.disk
    (fun disk store ↦ { store with disk })
    (Disk.atomicWrite store.parent (sequenceBytes store.sequences)))
  match result with
  | .ok () => pure ()
  | .error _ => throw .sequenceStoreFailed

def advance (endpoint : I.EndpointId) (sequence : UInt64) :
    Method (FileSequenceStore I) Error Unit := do
  let store ← get
  let stored ← liftM (store.load endpoint)
  Method.failIf (sequence ≤ stored) .staleSequence
  let previous := store.sequences[endpoint]?
  Method.failIf (previous.isNone = true ∧ store.sequences.size = maxAuthorized) .sequenceStoreFailed
  modify fun store ↦ { store with sequences := store.sequences.insert endpoint sequence }
  let result ← Method.attempt persist
  match result with
  | .ok () => pure ()
  | .error error => do
    modify fun store ↦ { store with
      sequences :=
        match previous with
        | some value => store.sequences.insert endpoint value
        | none => store.sequences.erase endpoint }
    throw error

instance : SequenceStore I (FileSequenceStore I) := ⟨load, advance⟩

/-! ## What a caller can rely on

A call that fails was refused or could not write its file. In the second case the number was already
in memory and is taken out again, and undoing an insertion gives the map from before, also where the
endpoint had a number. What became of the file is left open here. -/

theorem returns_persist {u : Unit} (h : persist.Returns s u s') :
    s'.sequences = s.sequences ∧ s'.disk.contents = [some (sequenceBytes s.sequences)] := by
  simp only [persist, Method.returns_bind, Method.returns_get, Method.returns_attempt] at h
  obtain ⟨_, _, ⟨rfl, rfl⟩, result, s₁, hcall, h⟩ := h
  cases result with
  | ok u =>
    obtain ⟨-, rfl⟩ := Method.returns_pure.mp h
    obtain ⟨disk, hwrite, rfl⟩ := Method.returns_zoom.mp hcall
    exact ⟨rfl, Disk.contents_of_returns_atomicWrite hwrite⟩
  | error error => exact absurd h Method.returns_throw

theorem fails_persist_iff {err : Error} :
    persist.Fails s err s' ↔ .sequenceStoreFailed = err
      ∧ ∃ g disk, (Disk.atomicWrite s.parent (sequenceBytes s.sequences)).Fails s.disk g disk
        ∧ s' = { s with disk } := by
  simp only [persist, Method.fails_bind, Method.fails_get, Method.returns_get,
    Method.fails_attempt, Method.returns_attempt, false_or]
  constructor
  · rintro ⟨_, _, ⟨rfl, rfl⟩, result, s₁, hcall, h⟩
    cases result with
    | ok u => exact absurd h Method.fails_pure
    | error error =>
      obtain ⟨rfl, rfl⟩ := Method.fails_throw.mp h
      exact ⟨rfl, error, Method.fails_zoom.mp hcall⟩
  · rintro ⟨rfl, g, hfails⟩
    exact ⟨s, s, ⟨rfl, rfl⟩, .error g, s', Method.fails_zoom.mpr hfails,
      Method.fails_throw.mpr ⟨rfl, rfl⟩⟩

theorem returns_advance {u : Unit} (h : (advance e n).Returns s u s') :
    s.sequences.getD e 0 < n ∧ s'.sequences = s.sequences.insert e n
      ∧ s'.disk.contents = [some (sequenceBytes (s.sequences.insert e n))] := by
  simp only [advance, load, Method.returns_bind, Method.returns_get, Method.returns_lift,
    Method.returns_failIf, Method.returns_modify, Method.returns_attempt] at h
  obtain ⟨_, _, ⟨rfl, rfl⟩, stored, _, ⟨hload, rfl⟩, _, _, ⟨hstale, rfl⟩, _, _, ⟨-, rfl⟩, _, _, rfl,
    result, s₁, hcall, h⟩ := h
  obtain rfl := Except.ok.inj hload
  cases result with
  | ok u =>
    obtain ⟨-, rfl⟩ := Method.returns_pure.mp h
    obtain ⟨hsequences, hcontents⟩ := returns_persist hcall
    exact ⟨UInt64.not_le.mp hstale, hsequences, hcontents⟩
  | error error => simp at h

theorem rollback (sequences : ExtTreeMap I.EndpointId UInt64) (e : I.EndpointId) (n : UInt64) :
    (match sequences[e]? with
      | some value => (sequences.insert e n).insert e value
      | none => (sequences.insert e n).erase e) = sequences := by
  refine ExtTreeMap.ext_getElem? fun e' ↦ ?_
  cases h : sequences[e]? with
  | some value =>
    simp only [insert_insert_self, getElem?_insert_eq]
    split
    · next he => rw [← he, h]
    · rfl
  | none =>
    simp only [getElem?_erase_eq, getElem?_insert_eq]
    split
    · next he => rw [← he, h]
    · rfl

/-- A call that fails was refused, or its write failed; the memory is as before. -/
theorem fails_advance_cases {err : Error} (h : (advance e n).Fails s err s') :
    s' = s ∨ s.sequences.getD e 0 < n
      ∧ ¬(s.sequences[e]?.isNone = true ∧ s.sequences.size = maxAuthorized)
      ∧ ∃ g disk, (Disk.atomicWrite s.parent (sequenceBytes (s.sequences.insert e n))).Fails
        s.disk g disk ∧ s' = { s with disk } := by
  simp only [advance, load, Method.fails_bind, Method.fails_get, Method.returns_get,
    Method.fails_lift, Method.returns_lift, Method.fails_failIf, Method.returns_failIf,
    Method.fails_modify, Method.returns_modify, Method.fails_attempt, Method.returns_attempt,
    false_or] at h
  obtain ⟨_, _, ⟨rfl, rfl⟩, ⟨hload, -⟩ | ⟨stored, _, ⟨hload, rfl⟩, h⟩⟩ := h
  · cases hload
  obtain rfl := Except.ok.inj hload
  rcases h with ⟨-, -, rfl⟩ | ⟨_, _, ⟨hstale, rfl⟩, ⟨-, -, rfl⟩ | ⟨_, _, ⟨hroom, rfl⟩, h⟩⟩
  · exact Or.inl rfl
  · exact Or.inl rfl
  obtain ⟨_, _, rfl, result, s₁, hcall, h⟩ := h
  cases result with
  | ok u => exact absurd h Method.fails_pure
  | error error =>
    simp only [Method.fails_bind, Method.fails_modify, Method.returns_modify, Method.fails_throw,
      false_or] at h
    obtain ⟨_, _, rfl, -, rfl⟩ := h
    obtain ⟨-, g, disk, hwrite, rfl⟩ := fails_persist_iff.mp hcall
    refine Or.inr ⟨UInt64.not_le.mp hstale, hroom, g, disk, hwrite, ?_⟩
    rw [rollback s.sequences e n]

theorem fails_advance_of_write {g : Fault} {disk : Disk} (hlt : s.sequences.getD e 0 < n)
    (hroom : ¬(s.sequences[e]?.isNone = true ∧ s.sequences.size = maxAuthorized))
    (hwrite : (Disk.atomicWrite s.parent (sequenceBytes (s.sequences.insert e n))).Fails s.disk g
      disk) : (advance e n).Fails s .sequenceStoreFailed { s with disk } := by
  have hpersist : persist.Fails { s with sequences := s.sequences.insert e n } .sequenceStoreFailed
      { s with sequences := s.sequences.insert e n, disk } :=
    fails_persist_iff.mpr ⟨rfl, g, disk, hwrite, rfl⟩
  simp only [advance, load, Method.fails_bind, Method.fails_get, Method.returns_get,
    Method.fails_lift, Method.returns_lift, Method.fails_failIf, Method.returns_failIf,
    Method.fails_modify, Method.returns_modify, Method.fails_attempt, Method.returns_attempt,
    false_or]
  refine ⟨s, s, ⟨rfl, rfl⟩, Or.inr ⟨_, s, ⟨rfl, rfl⟩, Or.inr ⟨(), s, ⟨UInt64.not_le.mpr hlt, rfl⟩,
    Or.inr ⟨(), s, ⟨hroom, rfl⟩, (), _, rfl, .error _, _, hpersist, ?_⟩⟩⟩⟩
  simp only [Method.fails_bind, Method.fails_modify, Method.returns_modify, Method.fails_throw,
    false_or]
  refine ⟨(), _, rfl, trivial, ?_⟩
  rw [rollback s.sequences e n]

theorem fails_advance {err : Error} (h : (advance e n).Fails s err s') :
    s'.sequences = s.sequences ∧ (s'.disk.contents = s.disk.contents
      ∨ s.sequences.getD e 0 < n ∧ s'.disk.contents
        = some (sequenceBytes (s.sequences.insert e n)) :: s.disk.contents) := by
  rcases fails_advance_cases h with rfl | ⟨hlt, -, g, disk, hwrite, rfl⟩
  · exact ⟨rfl, Or.inl rfl⟩
  · refine ⟨rfl, ?_⟩
    rcases Disk.contents_of_fails_atomicWrite hwrite with hold | hnew
    · exact Or.inl hold
    · exact Or.inr ⟨hlt, hnew⟩

instance : LawfulSequenceStore I (FileSequenceStore I) where
  load_of_returns {e n s s' u} h := by
    obtain ⟨-, hsequences, -⟩ := returns_advance h
    simp [SequenceStore.load, load, hsequences]
  load_of_returns_of_ne {e e' n s s' u} h hne := by
    obtain ⟨-, hsequences, -⟩ := returns_advance h
    simp [SequenceStore.load, load, hsequences, ExtTreeMap.getD_insert, hne.symm]
  load_of_fails {e n s s' err} h e' := by
    obtain ⟨hsequences, -⟩ := fails_advance h
    simp [SequenceStore.load, load, hsequences]

end FileSequenceStore

end NervesP2P
