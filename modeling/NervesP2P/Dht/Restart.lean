import NervesP2P.Dht.State
import NervesP2P.Lib.Server

/-!
# The routing table across restarts

A node that stops in order writes its routing table to a file, and a node that starts adds what it
finds there to its routing table. In between the node may be killed at any time, also while it
writes, and every step of the way may fail; then it goes on without.

## What is remembered

The messages alone say which table was saved last: the one the node had when it last stopped and
nothing went wrong (`remembered`). The theorem is that a start adds that table. It rests on two
facts: the file always holds the encoding of the remembered table, because a write that does not
end well does not touch it, and an encoding is read back. The file is written without regard to the
limit that is applied when it is read, so a table over the limit is saved and then refused.
-/

namespace NervesP2P

namespace Restart

open DhtState (encode decode Sized)

/-- Peers and addresses, and how they are written. -/
structure Addressing where
  PeerId : Type
  Multiaddr : Type
  toBytes : PeerId → List UInt8
  fromBytes : List UInt8 → Option PeerId
  toVec : Multiaddr → List UInt8
  tryFrom : List UInt8 → Option Multiaddr
  fromBytes_toBytes : ∀ peer, fromBytes (toBytes peer) = some peer
  tryFrom_toVec : ∀ address, tryFrom (toVec address) = some address

variable (A : Addressing)

/-! ## Tables -/

/-- The peers of the routing table with their addresses, bucket after bucket. -/
abbrev Table := List (A.PeerId × List A.Multiaddr)

variable {A}

def exported (table : Table A) : List RoutingEntry :=
  table.map fun node ↦ ⟨A.toBytes node.1, node.2.map A.toVec⟩

/-- What is added for the entries that were read. A peer or an address that makes no sense is
skipped. -/
def imported (entries : List RoutingEntry) : List (A.PeerId × A.Multiaddr) :=
  entries.flatMap fun entry ↦
    match A.fromBytes entry.peerId with
    | some peer => entry.addresses.filterMap fun bytes ↦ (A.tryFrom bytes).map fun a ↦ (peer, a)
    | none => []

def addresses (table : Table A) : List (A.PeerId × A.Multiaddr) :=
  table.flatMap fun node ↦ node.2.map fun a ↦ (node.1, a)

/-- What was exported is imported, and nothing is skipped. -/
theorem imported_exported (table : Table A) : imported (exported table) = addresses table := by
  rw [imported, exported, addresses, List.flatMap_map]
  congr 1
  funext node
  simp only [A.fromBytes_toBytes]
  rw [List.filterMap_map]
  simp [A.tryFrom_toVec]

/-! ## The file

A file is replaced by writing another one and renaming it. Whatever stops this before the rename, an
error or the death of the node, leaves the old file as it was. -/

structure Files where
  file : Option (List UInt8)
  temporary : Option (List UInt8)

/-- How a write can end otherwise than by its return. -/
inductive Interruption where
  /-- Writing, changing the mode or renaming gives an error. -/
  | error
  /-- The node is killed when so many bytes are in the temporary file. -/
  | killed (written : ℕ)
  /-- The node is killed after the temporary file was renamed. -/
  | killedLate

/-- Write to a temporary file and rename it. After an error the temporary file is removed. -/
def Files.write (bytes : List UInt8) (interruption : Option Interruption) (files : Files) : Files :=
  match interruption with
  | none | some .killedLate => { file := some bytes, temporary := none }
  | some .error => { files with temporary := none }
  | some (.killed written) => { files with temporary := some (bytes.take written) }

def replaces : Option Interruption → Bool
  | none | some .killedLate => true
  | some .error | some (.killed _) => false

theorem Files.file_write (bytes : List UInt8) (interruption : Option Interruption)
    (files : Files) :
    (files.write bytes interruption).file
      = if replaces interruption = true then some bytes else files.file := by
  cases interruption with
  | none => rfl
  | some interruption => cases interruption <;> rfl

/-! ## The node -/

/-- Why the native node does not take or give a table. -/
inductive NifError where
  | invalid (error : DhtStateError)
  | dhtNotEnabled
  /-- The queue of the node is full, or its loop has ended. -/
  | unreachable
  deriving DecidableEq

structure Config where
  /-- There is a path for the file. -/
  saves : Bool
  dhtEnabled : Bool

inductive Message (A : Addressing) where
  | start (readable reachable : Bool)
  /-- The routing table becomes another, for whatever reason. -/
  | changed (table : Table A)
  /-- The node stops in order. -/
  | terminate (reachable : Bool) (interruption : Option Interruption)
  | kill

inductive Effect (A : Addressing) where
  | addAddress (peer : A.PeerId) (address : A.Multiaddr)
  | logImported (count : ℕ)
  | logImportFailed (reason : NifError)
  | logUnreadable
  | logExported (size : ℕ)
  | logUnwritten
  | logExportFailed (reason : NifError)

structure State (A : Addressing) where
  files : Files
  /-- The routing table of a node that runs. -/
  table : Option (Table A)

variable (config : Config)

def kadImportRoutingTable (reachable : Bool) (data : List UInt8) :
    Except NifError (List (A.PeerId × A.Multiaddr)) := do
  let entries ← (decode data).mapError .invalid
  if reachable = false then throw .unreachable
  if config.dhtEnabled = false then throw .dhtNotEnabled
  pure (imported entries)

def kadExportRoutingTable (reachable : Bool) (table : Table A) : Except NifError (List UInt8) := do
  if reachable = false then throw .unreachable
  if config.dhtEnabled = false then throw .dhtNotEnabled
  pure (encode (exported table))

def maybeImportDhtState (readable reachable : Bool) (files : Files) : List (Effect A) :=
  if config.saves = false then []
  else
    match files.file with
    | none => []
    | some bytes =>
      if readable = false then [.logUnreadable]
      else
        match kadImportRoutingTable config reachable bytes with
        | .ok added => added.map (fun x ↦ .addAddress x.1 x.2) ++ [.logImported added.length]
        | .error reason => [.logImportFailed reason]

def maybeExportDhtState (reachable : Bool) (interruption : Option Interruption) (table : Table A)
    (files : Files) : List (Effect A) × Files :=
  if config.saves = false then ([], files)
  else
    match kadExportRoutingTable config reachable table with
    | .ok bytes =>
      (match interruption with
        | none => [.logExported bytes.length]
        | some .error => [.logUnwritten]
        | some (.killed _) | some .killedLate => [],
        files.write bytes interruption)
    | .error reason => ([.logExportFailed reason], files)

/-- A node that runs is not started, and one that does not run does nothing else. -/
def handle : Message A → State A → Option (List (Effect A) × State A)
  | .start readable reachable, ⟨files, none⟩ =>
    some (maybeImportDhtState config readable reachable files, ⟨files, some []⟩)
  | .changed table, ⟨files, some _⟩ => some ([], ⟨files, some table⟩)
  | .terminate reachable interruption, ⟨files, some table⟩ =>
    let ended := maybeExportDhtState config reachable interruption table files
    some (ended.1, ⟨ended.2, none⟩)
  | .kill, ⟨files, some _⟩ => some ([], ⟨files, none⟩)
  | _, _ => none

/-- At first there is no file. -/
def server (A : Addressing) : Server (State A) (Message A) (Effect A) :=
  ⟨⟨⟨none, none⟩, none⟩, handle config⟩

abbrev Turn (A : Addressing) := Server.Turn (Message A) (Effect A)

abbrev History (turns : List (Turn A)) (s : State A) : Prop :=
  (server config A).History (fun _ _ _ ↦ True) turns s

/-! ## What is saved

A table is saved when the native node gives it and the file is replaced. These are conditions on the
message alone, so `remembered` can be computed from the messages, and the invariant is that the file
holds its encoding. -/

/-- What the messages say: the table of the node that runs, and the one that was saved last. -/
structure Memory (A : Addressing) where
  table : Option (Table A)
  saved : Option (Table A)

def Memory.next (memory : Memory A) : Message A → Memory A
  | .start _ _ => { memory with table := some [] }
  | .changed table => { memory with table := some table }
  | .terminate reachable interruption =>
    ⟨none, if (reachable && replaces interruption) = true then memory.table else memory.saved⟩
  | .kill => { memory with table := none }

def remembered (turns : List (Turn A)) : Memory A :=
  turns.foldl (fun memory turn ↦ memory.next turn.1) ⟨none, none⟩

theorem remembered_snoc (turns : List (Turn A)) (turn : Turn A) :
    remembered (turns ++ [turn]) = (remembered turns).next turn.1 := by
  rw [remembered, List.foldl_append]
  rfl

/-- The state is what is remembered. -/
structure Holds (memory : Memory A) (s : State A) : Prop where
  table : s.table = memory.table
  file : s.files.file = memory.saved.map fun table ↦ encode (exported table)

theorem file_maybeExportDhtState (hsaves : config.saves = true) (hdht : config.dhtEnabled = true)
    (reachable : Bool) (interruption : Option Interruption) (table : Table A) (files : Files) :
    (maybeExportDhtState config reachable interruption table files).2.file
      = if (reachable && replaces interruption) = true then some (encode (exported table))
        else files.file := by
  rw [maybeExportDhtState, if_neg (by rw [hsaves]; decide), kadExportRoutingTable, hdht]
  cases reachable with
  | false => rfl
  | true => exact files.file_write _ interruption

theorem Holds.step (hsaves : config.saves = true) (hdht : config.dhtEnabled = true)
    {memory : Memory A} {s s' : State A} {m : Message A} {done : List (Effect A)}
    (h : Holds memory s) (hhandle : handle config m s = some (done, s')) :
    Holds (memory.next m) s' := by
  obtain ⟨files, table⟩ := s
  have htable : table = memory.table := h.table
  cases table with
  | none =>
    cases m with
    | start => cases hhandle; exact ⟨rfl, h.file⟩
    | changed | terminate | kill => cases hhandle
  | some table =>
    cases m with
    | start => cases hhandle
    | changed | kill => cases hhandle; exact ⟨rfl, h.file⟩
    | terminate reachable interruption =>
      cases hhandle
      refine ⟨rfl, ?_⟩
      rw [file_maybeExportDhtState config hsaves hdht, Memory.next, ← htable]
      split
      · rfl
      · exact h.file

theorem holds_of_history (hsaves : config.saves = true) (hdht : config.dhtEnabled = true)
    {turns : List (Turn A)} {s : State A} (h : History config turns s) :
    Holds (remembered turns) s := by
  induction h with
  | init => exact ⟨rfl, rfl⟩
  | step h _ hhandle ih =>
    rw [remembered_snoc]
    exact ih.step config hsaves hdht hhandle

/-! ## What is restored -/

/-- What a start does with the table that was saved last. -/
def restored : Option (Table A) → List (Effect A)
  | none => []
  | some table =>
    if (encode (exported table)).length ≤ maxDhtExportBytes then
      (addresses table).map (fun x ↦ .addAddress x.1 x.2) ++ [.logImported (addresses table).length]
    else
      [.logImportFailed
        (.invalid (.inputTooLarge (encode (exported table)).length maxDhtExportBytes))]

theorem kadImportRoutingTable_encode (hdht : config.dhtEnabled = true) {table : Table A}
    (hsized : Sized (exported table)) :
    kadImportRoutingTable config true (encode (exported table))
      = if (encode (exported table)).length ≤ maxDhtExportBytes then .ok (addresses table)
        else .error (.invalid
          (.inputTooLarge (encode (exported table)).length maxDhtExportBytes)) := by
  rw [kadImportRoutingTable, hdht]
  by_cases hle : (encode (exported table)).length ≤ maxDhtExportBytes
  · rw [if_pos hle, DhtState.decode_eq_ok_iff.mpr ⟨hle, hsized, List.prefix_rfl⟩,
      ← imported_exported]
    rfl
  · rw [if_neg hle, decode, if_pos (not_le.mp hle)]
    rfl

/-- **A node starts with the table that was saved last.** Given a path and the hash table switched
on, after any sequence of starts, changes of the table, stops that may fail and kills, a start that
can read the file and reach the node adds exactly the peers and addresses of the table that the node
had when it last stopped without a failure. If there was none it adds nothing, and if the encoding
of that table is over the limit, the import is refused as a whole. -/
theorem restart_restores (hsaves : config.saves = true) (hdht : config.dhtEnabled = true)
    {turns : List (Turn A)} {s : State A} (h : History config turns s) (hstopped : s.table = none)
    (hsized : ∀ table, (remembered turns).saved = some table → Sized (exported table)) :
    ∃ s', handle config (.start true true) s = some (restored (remembered turns).saved, s') := by
  have hholds := holds_of_history config hsaves hdht h
  obtain ⟨files, table⟩ := s
  obtain rfl : table = none := hstopped
  have hfile : files.file = (remembered turns).saved.map fun table ↦ encode (exported table) :=
    hholds.file
  refine ⟨⟨files, some []⟩, ?_⟩
  rw [handle, maybeImportDhtState, if_neg (by rw [hsaves]; decide), hfile]
  cases hsaved : (remembered turns).saved with
  | none => rfl
  | some table =>
    simp only [Option.map_some]
    rw [if_neg (by decide), kadImportRoutingTable_encode config hdht (hsized table hsaved),
      restored]
    by_cases hle : (encode (exported table)).length ≤ maxDhtExportBytes
    · rw [if_pos hle, if_pos hle]
    · rw [if_neg hle, if_neg hle]

/-- Peers and addresses that are their own encodings. -/
def plain : Addressing where
  PeerId := List UInt8
  Multiaddr := List UInt8
  toBytes := id
  fromBytes := some
  toVec := id
  tryFrom := some
  fromBytes_toBytes _ := rfl
  tryFrom_toVec _ := rfl

/-- A node has saved a peer with two addresses, was started again and killed while it stopped. -/
theorem restart_restores_sample :
    ∃ turns s s', History (A := plain) ⟨true, true⟩ turns s
      ∧ handle ⟨true, true⟩ (.start true true) s
        = some ([.addAddress [1] [2], .addAddress [1] [3], .logImported 2], s') := by
  obtain ⟨turns, s, h, hstopped, hsaved⟩ : ∃ turns s, History (A := plain) ⟨true, true⟩ turns s
      ∧ s.table = none ∧ (remembered turns).saved = some [([1], [[2], [3]])] :=
    ⟨_, _, @Server.history_run _ _ _ _ _ _ [.start true true, .changed [([1], [[2], [3]])],
      .terminate true none, .start true true, .terminate true (some (.killed 3))] rfl, rfl, rfl⟩
  have hsized : Sized (exported (A := plain) [([1], [[2], [3]])]) :=
    ⟨by decide, fun entry hentry ↦ by
      obtain rfl := List.mem_singleton.mp hentry
      exact ⟨by decide, by decide, by decide⟩⟩
  obtain ⟨s', hstart⟩ := restart_restores ⟨true, true⟩ rfl rfl h hstopped fun table htable ↦ by
    obtain rfl := Option.some.inj (hsaved.symm.trans htable)
    exact hsized
  rw [hsaved] at hstart
  exact ⟨turns, s, s', h, hstart⟩

end Restart

end NervesP2P
