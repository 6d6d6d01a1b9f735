import NervesP2P.Discovery.FileStore
import NervesP2P.Discovery.Runs
import NervesP2P.Lib.Ledger

/-!
# Numbers survive crashes

Two programs keep their numbers in a sequence file: the receiver, whose watermarks must never fall
below an accepted message, and the sender, which must never sign under a number twice. Both are
`Program`s: they hold a store, and a call uses a number up exactly by advancing it. A `Run` of such
a program takes calls with any fault at any step, lets the process die between calls or inside one,
lets the machine lose what was not durable, and restarts on whatever file is left.

## The invariant

Memory and disk may disagree. After a failed write the numbers in memory have been rolled back and
the file may hold the new ones; after a crash it may hold the old ones again. What never happens is
that one of them falls below a number that was reported as used. `Above` says that of the memory and
of every content a crash may leave, and it is enough: a number is used only when it is larger than
the one in memory.
-/

open Std (ExtTreeMap)

namespace NervesP2P

variable {I : Iroh}

/-! ## The invariant

A successful `advance` raises the number that it reports, in memory and on the disk. A failed one
leaves everything above what it was above: the new contents, should they be on the disk, are higher
at one endpoint and the same at the others. These are the cases of the step lemma `Above.of_uses`.
To open a file is to start from what the disk holds. -/

/-- Whatever numbers the contents hold are not below the given ones. -/
def ContentsAbove (floor : I.EndpointId → UInt64) (contents : Option (List UInt8)) : Prop :=
  ∀ sequences, readSequences I (contents.getD []) = .ok sequences →
    ∀ e, floor e ≤ sequences.getD e 0

/-- Everything a crash may leave on the disk is above the given numbers. -/
def DiskAbove (floor : I.EndpointId → UInt64) (disk : Disk) : Prop :=
  ∀ contents ∈ disk.contents, ContentsAbove floor contents

namespace FileSequenceStore

variable {floor : I.EndpointId → UInt64} {s : FileSequenceStore I}

/-- Neither the memory nor anything a crash may leave is below the given numbers. -/
structure Above (floor : I.EndpointId → UInt64) (store : FileSequenceStore I) : Prop where
  memory : ∀ e, floor e ≤ store.sequences.getD e 0
  disk : DiskAbove floor store.disk

theorem contentsAbove_sequenceBytes {sequences : ExtTreeMap I.EndpointId UInt64}
    (h : ∀ e, floor e ≤ sequences.getD e 0) :
    ContentsAbove floor (some (sequenceBytes sequences)) := by
  intro result hread e
  rw [eq_of_readSequences_sequenceBytes hread]
  exact h e

theorem le_getD_insert {sequences : ExtTreeMap I.EndpointId UInt64} {e : I.EndpointId}
    {n : UInt64} (h : ∀ e', e' ≠ e → floor e' ≤ sequences.getD e' 0) (hn : floor e ≤ n)
    (e' : I.EndpointId) : floor e' ≤ (sequences.insert e n).getD e' 0 := by
  rw [ExtTreeMap.getD_eq_getD_getElem?, getElem?_insert_eq]
  split
  · next he => exact he ▸ hn
  · next he =>
    rw [← ExtTreeMap.getD_eq_getD_getElem?]
    exact h e' (Ne.symm he)

theorem Above.of_returns {s' : FileSequenceStore I} {e : I.EndpointId} {n : UInt64} {u : Unit}
    (h : s.Above floor) (hadvance : (advance e n).Returns s u s') :
    floor e < n ∧ s'.Above fun e' ↦ if e = e' then n else floor e' := by
  obtain ⟨hlt, hsequences, hcontents⟩ := returns_advance hadvance
  have hmemory : ∀ e', (if e = e' then n else floor e')
      ≤ (s.sequences.insert e n).getD e' 0 := by
    refine le_getD_insert (fun e' he ↦ ?_) ?_
    · rw [if_neg (Ne.symm he)]
      exact h.memory e'
    · rw [if_pos rfl]
      exact UInt64.le_refl n
  refine ⟨UInt64.lt_of_le_of_lt (h.memory e) hlt, fun e' ↦ ?_, ?_⟩
  · rw [hsequences]
    exact hmemory e'
  · intro contents hmem
    rw [hcontents, List.mem_singleton] at hmem
    subst hmem
    exact contentsAbove_sequenceBytes hmemory

theorem Above.of_fails {s' : FileSequenceStore I} {e : I.EndpointId} {n : UInt64} {err : Error}
    (h : s.Above floor) (hadvance : (advance e n).Fails s err s') : s'.Above floor := by
  obtain ⟨hsequences, hcontents⟩ := fails_advance hadvance
  refine ⟨fun e' ↦ ?_, fun contents hmem ↦ ?_⟩
  · rw [hsequences]
    exact h.memory e'
  · rcases hcontents with hold | ⟨hlt, hnew⟩
    · rw [hold] at hmem
      exact h.disk contents hmem
    · rw [hnew] at hmem
      rcases List.mem_cons.mp hmem with rfl | hmem
      · refine contentsAbove_sequenceBytes (le_getD_insert (fun e' _ ↦ h.memory e') ?_)
        exact UInt64.le_trans (h.memory e) (UInt64.le_of_lt hlt)
      · exact h.disk contents hmem

theorem above_of_openFile {parent : Option String} {readFails : Bool} {disk : Disk}
    (h : DiskAbove floor disk) (hopen : openFile parent readFails disk = .ok s) :
    s.Above floor := by
  rw [openFile] at hopen
  split at hopen
  · cases hopen
  · split at hopen
    · next sequences hread =>
      obtain rfl := Except.ok.inj hopen
      exact ⟨h disk.file List.mem_cons_self sequences hread, h⟩
    · cases hopen

/-- The environment decides how the next writes fail. -/
def plan (faults : List (Option Fault)) (store : FileSequenceStore I) : FileSequenceStore I :=
  { store with disk := { store.disk with faults } }

theorem Above.plan (h : s.Above floor) (faults : List (Option Fault)) :
    (s.plan faults).Above floor := ⟨h.memory, h.disk⟩

/-- What a call does to the store: it uses a number up by advancing the store to it, or it reports
no number, and then at most an `advance` has failed. -/
def Uses (s : FileSequenceStore I) (used : Option (I.EndpointId × UInt64))
    (s' : FileSequenceStore I) : Prop :=
  match used with
  | some (e, n) => (advance e n).Returns s () s'
  | none => s' = s ∨ ∃ e n err, (advance e n).Fails s err s'

theorem Above.mono {floor' : I.EndpointId → UInt64} (h : s.Above floor)
    (hle : ∀ e, floor' e ≤ floor e) : s.Above floor' where
  memory e := UInt64.le_trans (hle e) (h.memory e)
  disk contents hmem sequences hread e :=
    UInt64.le_trans (hle e) (h.disk contents hmem sequences hread e)

/-- **The step lemma**: a number that is used up is above the last one, and stays below everything
the store holds. -/
theorem Above.of_uses {ledger : Ledger I.EndpointId} {s' : FileSequenceStore I}
    {used : Option (I.EndpointId × UInt64)} (hinc : ledger.Increasing) (h : s.Above ledger.last)
    (huses : s.Uses used s') :
    (ledger.record used).Increasing ∧ s'.Above (ledger.record used).last
      ∧ s'.Above ledger.last := by
  cases used with
  | some entry =>
    obtain ⟨e, n⟩ := entry
    obtain ⟨hlt, habove⟩ := h.of_returns huses
    refine ⟨hinc.cons hlt, habove.mono fun e' ↦ ?_, habove.mono fun e' ↦ ?_⟩
    · rw [Ledger.record, Option.toList_some, List.singleton_append, Ledger.last_cons]
      exact UInt64.le_refl _
    · split
      · next he => exact he ▸ UInt64.le_of_lt hlt
      · exact UInt64.le_refl _
  | none =>
    have habove : s'.Above ledger.last := by
      rcases huses with rfl | ⟨e, n, err, hfails⟩
      · exact h
      · exact h.of_fails hfails
    exact ⟨hinc, habove, habove⟩

end FileSequenceStore

/-! ## Programs that keep their numbers in a file

`Run` has the numbers reported as used in its type, newest first, and they are the only thing that
the conclusion speaks of. A number that was written and not reported may be used again after a
restart, or be skipped; neither is seen in the list. -/

/-- A program that holds a sequence store and uses numbers up. -/
structure Program (I : Iroh) where
  State : Type
  Call : Type
  store : State → FileSequenceStore I
  /-- The state with other faults ahead. -/
  plan : List (Option Fault) → State → State
  store_plan : ∀ faults s, store (plan faults s) = (store s).plan faults
  /-- The state a call leaves, and the number it reports as used. -/
  perform : Call → State → State × Option (I.EndpointId × UInt64)
  uses : ∀ c s, (store s).Uses (perform c s).2 (store (perform c s).1)
  /-- The states a program may start in on an opened store. -/
  Starts : FileSequenceStore I → State → Prop
  store_starts : ∀ {s st}, Starts st s → store s = st

namespace Program

/-- A program is running, or it is not and there is only its disk. -/
inductive Machine (P : Program I) where
  | up (state : P.State)
  | down (disk : Disk)

/-- The runs of a program, with the numbers reported as used so far. -/
inductive Run (P : Program I) : Ledger I.EndpointId → P.Machine → Prop
  /-- Any file may be there at first. -/
  | init (disk : Disk) : Run P [] (.down disk)
  | start {ledger : Ledger I.EndpointId} {disk : Disk} {parent : Option String} {readFails : Bool}
      {store : FileSequenceStore I} {state : P.State} (h : Run P ledger (.down disk))
      (hopen : FileSequenceStore.openFile parent readFails disk = .ok store)
      (hstart : P.Starts store state) : Run P ledger (.up state)
  /-- A call runs to its end, with any faults on its way. -/
  | call {ledger : Ledger I.EndpointId} {state : P.State} (c : P.Call)
      (faults : List (Option Fault)) (h : Run P ledger (.up state)) :
      Run P (ledger.record (P.perform c (P.plan faults state)).2)
        (.up (P.perform c (P.plan faults state)).1)
  /-- The process dies between two calls. -/
  | die {ledger : Ledger I.EndpointId} {state : P.State} (h : Run P ledger (.up state)) :
      Run P ledger (.down (P.store state).disk)
  /-- The process dies inside a call. The disk is as a call leaves it that fails at the step it did
  not reach, or succeeds without anyone hearing of it. -/
  | dieInCall {ledger : Ledger I.EndpointId} {state : P.State} (c : P.Call)
      (faults : List (Option Fault)) (h : Run P ledger (.up state)) :
      Run P ledger (.down (P.store (P.perform c (P.plan faults state)).1).disk)
  /-- The machine loses what was not durable. -/
  | powerLoss {ledger : Ledger I.EndpointId} {disk : Disk} {survivor : Option (List UInt8)}
      (hmem : survivor ∈ disk.contents) (h : Run P ledger (.down disk)) :
      Run P ledger (.down (disk.lose survivor))

/-- The disk or the store of a machine is above the given numbers. -/
def Machine.Above {P : Program I} (floor : I.EndpointId → UInt64) : P.Machine → Prop
  | .up state => (P.store state).Above floor
  | .down disk => DiskAbove floor disk

variable {P : Program I}

/-- **The run lemma**: numbers are used in increasing order, and nothing the machine holds is below
them. -/
theorem Run.increasing {ledger : Ledger I.EndpointId} {machine : P.Machine}
    (h : P.Run ledger machine) : ledger.Increasing ∧ machine.Above ledger.last := by
  have hcall : ∀ (ledger : Ledger I.EndpointId) (state : P.State) (c : P.Call)
      (faults : List (Option Fault)), ledger.Increasing ∧ (P.store state).Above ledger.last →
      (ledger.record (P.perform c (P.plan faults state)).2).Increasing
        ∧ (P.store (P.perform c (P.plan faults state)).1).Above
          (ledger.record (P.perform c (P.plan faults state)).2).last
        ∧ (P.store (P.perform c (P.plan faults state)).1).Above ledger.last := by
    rintro ledger state c faults ⟨hinc, habove⟩
    refine FileSequenceStore.Above.of_uses hinc ?_ (P.uses c (P.plan faults state))
    rw [P.store_plan]
    exact habove.plan faults
  induction h with
  | init disk =>
    refine ⟨List.Pairwise.nil, fun contents _ sequences _ e ↦ ?_⟩
    exact UInt64.zero_le
  | start _ hopen hstart ih =>
    refine ⟨ih.1, ?_⟩
    rw [Machine.Above, P.store_starts hstart]
    exact FileSequenceStore.above_of_openFile ih.2 hopen
  | call c faults _ ih =>
    obtain ⟨hinc, habove, -⟩ := hcall _ _ c faults ih
    exact ⟨hinc, habove⟩
  | die _ ih => exact ⟨ih.1, ih.2.disk⟩
  | dieInCall c faults _ ih => exact ⟨ih.1, (hcall _ _ c faults ih).2.2.disk⟩
  | powerLoss hmem _ ih =>
    refine ⟨ih.1, fun contents hcontents ↦ ?_⟩
    rw [Disk.contents, Disk.lose, List.mem_singleton] at hcontents
    exact hcontents ▸ ih.2 _ hmem

theorem Run.called {ledger : Ledger I.EndpointId} {state state' : P.State}
    {used : Option (I.EndpointId × UInt64)} {c : P.Call} (h : P.Run ledger (.up state))
    (hplan : P.plan [] state = state) (hperform : P.perform c state = (state', used)) :
    P.Run (ledger.record used) (.up state') := by
  have hcall := h.call c []
  rw [hplan, hperform] at hcall
  exact hcall

end Program

/-! ## The receiver

A registry over a sequence file is such a program. Only the acceptance of a message uses a number
up, and it does so by advancing the store to the sequence of the message; queries, authorizations
and refusals leave the store where a failed `advance` may leave it. -/

namespace Registry

/-- The message in an envelope, when it decodes. -/
def messageOf (I : Iroh) (envelope : List UInt8) : Option (Message I) :=
  match decodeEnvelope I envelope with
  | .ok (body, _) => (decodeMessage I body.val).toOption
  | .error _ => none

theorem Opens.messageOf_eq {envelope : List UInt8} {m : Message I} {signature : I.Signature}
    (h : Opens envelope m signature) : messageOf I envelope = some m := by
  obtain ⟨-, body, -, henvelope, hmessage⟩ := opens_iff.mp h
  rw [messageOf, henvelope]
  simp only [hmessage, Except.toOption]

/-- The endpoint and the sequence of the message a call accepts. -/
def accepted (registry : Registry I (FileSequenceStore I)) :
    Operation I → Option (I.EndpointId × UInt64)
  | .receive envelope now =>
    match ((receive envelope now).call registry).1 with
    | .ok _ => (messageOf I envelope).map fun message ↦ (message.endpointId, message.sequence)
    | .error _ => none
  | _ => none

theorem store_of_fails_receive {S : Type} [SequenceStore I S] {envelope : List UInt8}
    {now : UInt64} {r r' : Registry I S} {err : Error}
    (h : (receive envelope now).Fails r err r') :
    r'.store = r.store
      ∨ ∃ (e : I.EndpointId) (n : UInt64) (err : Error),
        (SequenceStore.advance e n).Fails r.store err r'.store := by
  have hretained : ∀ e, r.Retained e now r' → r'.store = r.store
      ∨ ∃ (e : I.EndpointId) (n : UInt64) (err : Error),
        (SequenceStore.advance e n).Fails r.store err r'.store := by
    intro e hretained
    rcases hretained.store with heq | ⟨n, err, hfails⟩
    · exact Or.inl heq
    · exact Or.inr ⟨e, n, err, hfails⟩
  rcases fails_receive h with rfl | ⟨m, signature, -, hprocess⟩
  · exact Or.inl rfl
  cases hname : r.authorization.nodeName m.endpointId with
  | some name => exact hretained _ (fails_process_enrolled hname hprocess).1
  | none =>
    rcases fails_process_unknown hname hprocess with ⟨rfl, -⟩ | ⟨a, -, -, h, -⟩
    · exact Or.inl rfl
    · exact hretained _ h

theorem accepted_of_returns {envelope : List UInt8} {now : UInt64}
    {r r' : Registry I (FileSequenceStore I)} {u : Unit} {m : Message I} {signature : I.Signature}
    (hopens : Opens envelope m signature) (h : (receive envelope now).Returns r u r') :
    r.accepted (.receive envelope now) = some (m.endpointId, m.sequence) := by
  simp only [accepted, congrArg Prod.fst h, hopens.messageOf_eq, Option.map_some]

theorem uses_run (op : Operation I) (r : Registry I (FileSequenceStore I)) :
    r.store.Uses (r.accepted op) (op.run r).store := by
  cases op with
  | receive envelope now =>
    rcases Method.returns_or_fails (receive envelope now) r with ⟨u, h⟩ | ⟨err, h⟩
    · obtain ⟨m, hadm, haccepted⟩ := returns_receive_iff.mp h
      obtain ⟨signature, henvelope, -⟩ := hadm.signed
      have hopens : Opens envelope m signature := ⟨hadm.length_le, hadm.bounded, henvelope⟩
      rw [accepted_of_returns hopens h]
      exact haccepted.store
    · have hused : r.accepted (.receive envelope now) = none := by
        simp only [accepted, congrArg Prod.fst h]
      rw [hused]
      exact store_of_fails_receive h
  | authorize e name =>
    refine Or.inl ?_
    rcases Method.returns_or_fails (authorize e name) r with ⟨u, h⟩ | ⟨err, h⟩
    · obtain ⟨-, table, hr, -⟩ := returns_authorize.mp h
      rw [Operation.run, hr]
    · obtain ⟨-, -, hr⟩ := fails_authorize.mp h
      rw [Operation.run, ← hr]
  | revoke e => exact Or.inl rfl
  | active e now => exact Or.inl rfl
  | find order predicates now =>
    refine Or.inl ?_
    rw [Operation.run, after_find]
    rfl
  | endpointForNode order name now => exact Or.inl rfl
  | bindings order now => exact Or.inl rfl

end Registry

/-- The receiver: a registry over a sequence file, started without records on any table. -/
def registryProgram (I : Iroh) : Program I where
  State := Registry I (FileSequenceStore I)
  Call := Operation I
  store registry := registry.store
  plan faults registry := { registry with store := registry.store.plan faults }
  store_plan _ _ := rfl
  perform op registry := (op.run registry, registry.accepted op)
  uses op registry := registry.uses_run op
  Starts store registry := ∃ fleetId authorization enrollment,
    registry = (Registry.new fleetId authorization store).withEnrollmentPolicy enrollment
  store_starts := by
    rintro _ _ ⟨fleetId, authorization, enrollment, rfl⟩
    rfl

theorem perform_registryProgram {envelope : List UInt8} {now : UInt64}
    {r r' : Registry I (FileSequenceStore I)} {m : Message I} {signature : I.Signature}
    (hopens : Registry.Opens envelope m signature)
    (h : (Registry.receive envelope now).Returns r () r') :
    (registryProgram I).perform (.receive envelope now) r
      = (r', some (m.endpointId, m.sequence)) :=
  Prod.ext h.after_eq (Registry.accepted_of_returns hopens h)

/-- **The sequences accepted from an endpoint strictly increase**, over any number of crashes and
restarts, so no message is accepted twice. -/
theorem accepted_sequences_increase {ledger : Ledger I.EndpointId}
    {machine : (registryProgram I).Machine} (h : (registryProgram I).Run ledger machine) :
    (∀ e, ((ledger.reverse.filter fun entry ↦ entry.1 = e).map Prod.snd).Pairwise (· < ·))
      ∧ ledger.Nodup := by
  obtain ⟨hinc, -⟩ := h.increasing
  exact ⟨hinc.numbers, hinc.nodup⟩

/-- A disk without a file. -/
def Disk.blank : Disk := ⟨none, [], none, []⟩

/-- The store on a disk without a file. -/
def FileSequenceStore.blank : FileSequenceStore Iroh.single := ⟨some "d", ∅, Disk.blank⟩

/-- A registry over that store which enrolls whoever signs for its fleet. -/
def Registry.blank : Registry Iroh.single (FileSequenceStore Iroh.single) :=
  (Registry.new (List.Vector.replicate 32 0) .empty
    FileSequenceStore.blank).withEnrollmentPolicy .signedFleet

theorem FileSequenceStore.openFile_blank :
    openFile (some "d") false Disk.blank = .ok FileSequenceStore.blank := rfl

namespace Registry

/-- The registry after the first message. -/
def blankHeard : Registry Iroh.single (FileSequenceStore Iroh.single) :=
  (process (encodeAnnouncement sample) () (.announcement sample) 0).after Registry.blank

/-- A registry over the file that the first one leaves. -/
def reopened : Registry Iroh.single (FileSequenceStore Iroh.single) :=
  (Registry.new (List.Vector.replicate 32 0) .empty
    ⟨some "d", (∅ : ExtTreeMap Iroh.single.EndpointId UInt64).insert () 1,
      Registry.blankHeard.store.disk⟩).withEnrollmentPolicy .signedFleet

theorem returns_blankHeard : (receive sampleEnvelope 0).Returns blank () blankHeard :=
  returns_receive.mpr ⟨_, _, opens_sampleEnvelope, Method.returns_after (by decide +kernel)⟩

theorem openFile_blankHeard :
    FileSequenceStore.openFile (some "d") false blankHeard.store.disk = .ok reopened.store := by
  rfl

theorem returns_reopened : ∃ r', (receive nextEnvelope 1).Returns reopened () r' :=
  ⟨_, returns_receive.mpr ⟨_, _, opens_nextEnvelope, Method.returns_after (by decide +kernel)⟩⟩

theorem fails_reopened : ∃ r', (receive sampleEnvelope 1).Fails reopened .staleSequence r' :=
  ⟨_, opens_sampleEnvelope.fails_receive (Method.fails_after (by decide +kernel))⟩

end Registry

/-- A message is accepted and the process dies. The next one opens the file, refuses the same
message and accepts the one that follows it. -/
theorem accepted_sequences_sample :
    (∃ r', (Registry.receive Registry.sampleEnvelope 1).Fails Registry.reopened .staleSequence r')
      ∧ ∃ machine, (registryProgram Iroh.single).Run [((), 2), ((), 1)] machine
        ∧ (∀ e, ((([((), 2), ((), 1)] : Ledger Unit).reverse.filter fun entry ↦ entry.1 = e).map
            Prod.snd).Pairwise (· < ·)) ∧ ([((), 2), ((), 1)] : Ledger Unit).Nodup := by
  have hstart : (registryProgram Iroh.single).Run [] (.up Registry.blank) :=
    .start (.init Disk.blank) FileSequenceStore.openFile_blank ⟨_, _, .signedFleet, rfl⟩
  have hfirst := hstart.called rfl
    (perform_registryProgram Registry.opens_sampleEnvelope Registry.returns_blankHeard)
  have hrestart : (registryProgram Iroh.single).Run _ (.up Registry.reopened) :=
    .start hfirst.die Registry.openFile_blankHeard ⟨_, _, .signedFleet, rfl⟩
  obtain ⟨r', hreturns⟩ := Registry.returns_reopened
  have hsecond := hrestart.called rfl
    (perform_registryProgram Registry.opens_nextEnvelope hreturns)
  exact ⟨Registry.fails_reopened, _, hsecond, accepted_sequences_increase hsecond⟩

/-! ## The sender

A reservation uses up the number that it returns, which is one more than the last, and fails when
there is none. -/

/-- The number a reservation returns. -/
def reserved (store : FileSequenceStore I) (endpoint : I.EndpointId) :
    Option (I.EndpointId × UInt64) :=
  match ((reserveNext endpoint).call store).1 with
  | .ok next => some (endpoint, next)
  | .error _ => none

theorem uses_reserveNext (e : I.EndpointId) (s : FileSequenceStore I) :
    s.Uses (reserved s e) ((reserveNext e).after s) := by
  rcases Method.returns_or_fails (reserveNext e) s with ⟨n, h⟩ | ⟨err, h⟩
  · have hused : reserved s e = some (e, n) := by
      simp only [reserved, congrArg Prod.fst h]
    obtain ⟨stored, -, -, -, hadvance⟩ := returns_reserveNext.mp h
    rw [hused]
    exact hadvance
  · have hused : reserved s e = none := by
      simp only [reserved, congrArg Prod.fst h]
    rw [hused]
    rcases fails_reserveNext h with heq | ⟨n, hfails⟩
    · exact Or.inl heq
    · exact Or.inr ⟨e, n, err, hfails⟩

/-- The sender: a sequence file from which numbers are reserved. -/
def senderProgram (I : Iroh) : Program I where
  State := FileSequenceStore I
  Call := I.EndpointId
  store := id
  plan := FileSequenceStore.plan
  store_plan _ _ := rfl
  perform endpoint store := ((reserveNext endpoint).after store, reserved store endpoint)
  uses endpoint store := uses_reserveNext endpoint store
  Starts store state := state = store
  store_starts := id

/-- **No number is handed out twice**: what reservations return strictly increases over any number
of crashes and restarts, and at the largest number a reservation fails. -/
theorem reserved_numbers_increase (I : Iroh) :
    (∀ ledger machine, (senderProgram I).Run ledger machine →
        (∀ e, ((ledger.reverse.filter fun entry ↦ entry.1 = e).map Prod.snd).Pairwise (· < ·))
          ∧ ledger.Nodup)
      ∧ ∀ (e : I.EndpointId) (store : FileSequenceStore I),
        store.load e = .ok (UInt64.ofNat (2 ^ 64 - 1)) →
          (reserveNext e).Fails store .invalidRecord store := by
  refine ⟨fun ledger machine h ↦ ?_, fun e store h ↦ fails_reserveNext_of_max h⟩
  obtain ⟨hinc, -⟩ := h.increasing
  exact ⟨hinc.numbers, hinc.nodup⟩

/-- The store whose file holds the largest number. -/
def FileSequenceStore.full : FileSequenceStore Iroh.single :=
  ⟨some "d", (∅ : ExtTreeMap Iroh.single.EndpointId UInt64).insert ()
    (UInt64.ofNat (2 ^ 64 - 1)), Disk.blank⟩

/-- A reservation, one that fails after the file was replaced, a restart, and the next number is one
more than that of the failed reservation. At the largest number there is none. -/
theorem reserved_numbers_sample :
    (∃ machine, (senderProgram Iroh.single).Run [((), 3), ((), 1)] machine
      ∧ ([((), 3), ((), 1)] : Ledger Unit).Nodup)
      ∧ (reserveNext (I := Iroh.single) ()).Fails FileSequenceStore.full .invalidRecord
        FileSequenceStore.full := by
  have hstart : (senderProgram Iroh.single).Run [] (.up FileSequenceStore.blank) :=
    .start (.init Disk.blank) FileSequenceStore.openFile_blank rfl
  have hfailed := ((hstart.call () []).call () [some .syncParent]).die
  have hrestart := Program.Run.start (P := senderProgram Iroh.single) hfailed
    (rfl : FileSequenceStore.openFile (some "d") false _ = .ok _) rfl
  have hlast := hrestart.call () []
  have hnumbers := reserved_numbers_increase Iroh.single
  refine ⟨⟨_, hlast, (hnumbers.1 _ _ hlast).2⟩, hnumbers.2 () FileSequenceStore.full ?_⟩
  decide

end NervesP2P
