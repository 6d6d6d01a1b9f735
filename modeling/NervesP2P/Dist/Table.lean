import NervesP2P.Dist.Bindings
import NervesP2P.Dist.Lifecycle

/-!
# The table of streams

All streams of a daemon share one table, keyed by a 64-bit number, and one channel of events. What a
task does to its stream it does to whatever entry is found under its number; what a caller does goes
to the entry of the number it names, and from there into the queue of the task behind it. That these
are always the same stream is not in the types: numbers are taken from a counter that wraps.

A `Dist` is the table with all calls of `connect` and `accept` and the tasks they have spawned. Each
of them sees the table as one `Side` (`Dist.side`), and its steps are those of a side, written back
under its number (`Dist.put`).

## The result of the module

While fewer than `2 ^ 64` streams have been installed, the numbers are different, and the steps of
any run, taken apart by stream, are runs of single sides (`Consistent.projects`). What holds of
every side then holds of every stream in the table.
-/

open Std (ExtTreeMap)

namespace NervesP2P

/-! ## Places in a list -/

theorem getElem?_set_cases {α : Type} {l : List α} {i j : ℕ} {a b : α}
    (h : (l.set i a)[j]? = some b) : j = i ∧ b = a ∨ j ≠ i ∧ l[j]? = some b := by
  rw [List.getElem?_set] at h
  split at h
  · next heq =>
    split at h
    · exact Or.inl ⟨heq.symm, (Option.some.inj h).symm⟩
    · cases h
  · next hne => exact Or.inr ⟨Ne.symm hne, h⟩

theorem countP_set {α : Type} {p : α → Bool} {l : List α} {i : ℕ} {a b : α} (h : l[i]? = some a) :
    (l.set i b).countP p + (if p a then 1 else 0) = l.countP p + if p b then 1 else 0 := by
  obtain ⟨hi, hget⟩ := List.getElem?_eq_some_iff.mp h
  have hle : (if p a then 1 else 0) ≤ l.countP p := by
    split
    · next hp => exact List.countP_pos_iff.mpr ⟨a, hget ▸ List.getElem_mem hi, hp⟩
    · exact Nat.zero_le _
  rw [List.countP_set hi, hget]
  omega

theorem exists_getElem?_set {α β : Type} {f : α → β} {l : List α} {i j : ℕ} {a b c : α}
    (ha : l[i]? = some a) (hf : f b = f a) (hc : l[j]? = some c) :
    ∃ c', (l.set i b)[j]? = some c' ∧ f c' = f c := by
  by_cases hj : j = i
  · subst hj
    obtain rfl := Option.some.inj (ha.symm.trans hc)
    exact ⟨b, List.getElem?_set_self (List.getElem?_eq_some_iff.mp ha).1, hf⟩
  · exact ⟨c, (List.getElem?_set_ne (Ne.symm hj)).trans hc, rfl⟩

/-! ## The shared table

A worker is a call of `connect` or `accept`, and after the installation its task. It knows its
number, and the table knows for each number which queue its commands go into. The step of a worker
is that of a side: the entry of its number is looked up, the side makes its step, and what has
become of it is written back. -/

/-- An entry of the table: its counters, and which queue its commands go into. -/
structure TableEntry where
  state : StreamState
  /-- The place of the task at the other end of the queue. -/
  reader : ℕ

/-- A call of `connect` or `accept`, and later the task it has spawned. -/
structure Worker (I : Iroh) where
  /-- The authenticated key of the other end. -/
  remote : I.EndpointId
  /-- The number that `install_stream` has taken. -/
  id : Option UInt64
  commands : List StreamCommand
  task : Task
  receiveCredit : ℕ

namespace Worker

variable {I : Iroh}

/-- A call that begins. -/
def start (remote : I.EndpointId) (side : Side) : Worker I :=
  ⟨remote, none, side.commands, side.task, side.receiveCredit⟩

def put (side : Side) (worker : Worker I) : Worker I :=
  { worker with
    commands := side.commands, task := side.task, receiveCredit := side.receiveCredit }

/-- The events of a step, with the number of the stream. -/
def sent (worker : Worker I) (action : Action) : List (UInt64 × Event) :=
  match worker.id with
  | some id => (events [action]).map fun event ↦ (id, event)
  | none => []

end Worker

/-- The state behind a `Dist` and its handler. -/
structure Dist (I : Iroh) where
  shared : Shared I
  streams : ExtTreeMap UInt64 TableEntry
  /-- In the order in which the calls began. -/
  workers : List (Worker I)

namespace Dist

variable {I : Iroh}

def new : Dist I := ⟨.new, ∅, []⟩

/-- How many streams have been given a number. -/
def installed (dist : Dist I) : ℕ := dist.workers.countP fun worker ↦ worker.id.isSome

/-- What a call or task sees of its stream: the table is looked up under its number. -/
def side (dist : Dist I) (worker : Worker I) : Side where
  entry := worker.id.bind fun id ↦ dist.streams[id]?.map TableEntry.state
  commands := worker.commands
  task := worker.task
  receiveCredit := worker.receiveCredit

/-- Update the entry of a number where there is one, or remove it. -/
def write (id : UInt64) (state : Option StreamState) (streams : ExtTreeMap UInt64 TableEntry) :
    ExtTreeMap UInt64 TableEntry :=
  streams.alter id fun entry ↦ state.bind fun state ↦ entry.map fun entry ↦ { entry with state }

/-- A call or task has done something to its stream. -/
def put (dist : Dist I) (i : ℕ) (worker : Worker I) (side : Side) : Dist I :=
  { dist with
    streams :=
      match worker.id with
      | some id => write id side.entry dist.streams
      | none => dist.streams
    workers := dist.workers.set i (worker.put side) }

/-- `install_stream` takes a number and puts the entry in, over whatever was there. -/
def install (dist : Dist I) (i : ℕ) (worker : Worker I) (opening : Opening) : Dist I where
  shared := dist.shared.takeId
  streams := dist.streams.insert dist.shared.nextId ⟨⟨creditWindow, creditWindow⟩, i⟩
  workers := dist.workers.set i
    { worker with id := some dist.shared.nextId, task := .installing opening }

/-- A step of `connect`, of `accept` or of a stream's task. -/
inductive TaskStep (d : Dist I) (i : ℕ) : List (UInt64 × Event) → Dist I → Prop
  | moves {worker : Worker I} {action : Action} {side : Side}
      (hworker : d.workers[i]? = some worker) (hcall : action.isCall = false)
      (hinstalls : ∀ opening, side.task ≠ .installing opening)
      (h : (d.side worker).Step action side) :
      TaskStep d i (worker.sent action) (d.put i worker side)
  | connected {worker : Worker I} {target : Text} (hworker : d.workers[i]? = some worker)
      (htask : worker.task = .connecting [] target) :
      TaskStep d i [] (d.install i worker (.connected target))
  | allowed {worker : Worker I} {header : Header} {instant : ℕ}
      (hworker : d.workers[i]? = some worker)
      (htask : worker.task = .accepting (.done (.ok header)))
      (hallows : d.shared.allows header worker.remote instant = true) :
      TaskStep d i [] (d.install i worker (.incoming header.fromNode header.targetNode))

/-- Everything that can happen, with the events sent to the port. -/
inductive Step : Dist I → List (UInt64 × Event) → Dist I → Prop
  | listens {d : Dist I} {nodeName : Text} {shared : Shared I}
      (h : (Shared.listen nodeName).Returns d.shared () shared) : Step d [] { d with shared }
  | replaces {d : Dist I} (bindings : List (I.EndpointId × Text × UInt64)) (instant : ℕ) :
      Step d [] { d with shared := d.shared.replaceBindings bindings instant }
  | connects {d : Dist I} {fromNode targetNode : Text} {instant : ℕ} {remote : I.EndpointId}
      {shared : Shared I}
      (h : (Shared.resolve fromNode targetNode instant).Returns d.shared remote shared) :
      Step d [] { d with workers := d.workers ++ [.start remote (.connecting fromNode targetNode)] }
  | accepts {d : Dist I} (remote : I.EndpointId) :
      Step d [] { d with workers := d.workers ++ [.start remote .accepting] }
  /-- `send`, `credit` or `close`: the number leads to an entry, and the entry to a queue. -/
  | calls {d : Dist I} {id : UInt64} {entry : TableEntry} {worker : Worker I} {action : Action}
      {side : Side} (hentry : d.streams[id]? = some entry)
      (hworker : d.workers[entry.reader]? = some worker) (hcall : action.isCall = true)
      (h : Side.Step ⟨some entry.state, worker.commands, worker.task, worker.receiveCredit⟩ action
        side) :
      Step d []
        { d with
          streams := write id side.entry d.streams
          workers := d.workers.set entry.reader (worker.put side) }
  | works {d d' : Dist I} {i : ℕ} {emitted : List (UInt64 × Event)} (h : d.TaskStep i emitted d') :
      Step d emitted d'

/-- The runs of a `Dist`, with all events sent to the port. -/
inductive Run : List (UInt64 × Event) → Dist I → Prop
  | new : Run [] new
  | step {log emitted : List (UInt64 × Event)} {d d' : Dist I} (h : Run log d)
      (hstep : d.Step emitted d') : Run (log ++ emitted) d'

variable {log emitted : List (UInt64 × Event)} {d d' : Dist I} {i j : ℕ} {worker other : Worker I}
  {id : UInt64} {entry : TableEntry}

theorem told_sent (worker : Worker I) (action : Action) (id : UInt64) :
    told id (worker.sent action) = if worker.id = some id then events [action] else [] := by
  rw [Worker.sent]
  cases worker.id with
  | none => rfl
  | some own =>
    simp only [told, List.filter_map, Option.some_inj]
    split
    · next heq => simp [Function.comp_def, heq]
    · next hne => simp [Function.comp_def, hne]

theorem getElem?_write (id id' : UInt64) (state : Option StreamState)
    (streams : ExtTreeMap UInt64 TableEntry) :
    (write id state streams)[id']? =
      if id = id' then
        state.bind fun state ↦ streams[id]?.map fun entry : TableEntry ↦ { entry with state }
      else streams[id']? := by
  rw [write, ExtTreeMap.getElem?_alter]
  simp only [Std.compare_eq_iff_eq]

/-! ## Streams do not meet

`Consistent` has the three facts that make this sound: the numbers of the workers are different, an
entry leads back to the worker of its number, and each worker has made a run of a side with the
events that were sent under its number. A step changes the entry of its own number only, and never
which queue an entry leads to, so a change under other numbers is not seen. -/

/-- The numbers are different, the table leads back to the streams, and each stream, seen from its
own place, has made a run of its own. -/
structure Consistent (log : List (UInt64 × Event)) (d : Dist I) : Prop where
  numbered : ∀ (i : ℕ) (worker : Worker I) (id : UInt64), d.workers[i]? = some worker →
    worker.id = some id → 1 ≤ id.toNat ∧ id.toNat ≤ d.installed
  unique : ∀ (i j : ℕ) (worker other : Worker I) (id : UInt64), d.workers[i]? = some worker →
    d.workers[j]? = some other → worker.id = some id → other.id = some id → i = j
  /-- The counter has not wrapped. -/
  next : d.installed + 1 < 2 ^ 64 → d.shared.nextId.toNat = d.installed + 1
  unopened : ∀ (i : ℕ) (worker : Worker I), d.workers[i]? = some worker →
    worker.task.opened = false → worker.id = none
  owned : ∀ (id : UInt64) (entry : TableEntry), d.streams[id]? = some entry →
    ∃ worker, d.workers[entry.reader]? = some worker ∧ worker.id = some id
  projects : ∀ (i : ℕ) (worker : Worker I), d.workers[i]? = some worker →
    ∃ (start : Side) (trace : List Action), start.Fresh ∧ start.Run trace (d.side worker)
      ∧ ∀ id, worker.id = some id → events trace = told id log
  silent : ∀ id : UInt64, (∀ (i : ℕ) (worker : Worker I), d.workers[i]? = some worker →
    worker.id ≠ some id) → told id log = []

theorem consistent_new : Consistent [] (new : Dist I) where
  numbered i worker id h := by cases h
  unique i j worker other id h := by cases h
  next _ := rfl
  unopened i worker h := by cases h
  owned id entry h := by
    rw [new, ExtTreeMap.getElem?_empty] at h
    cases h
  projects i worker h := by cases h
  silent id _ := rfl

/-- What is seen after a step is what the step has made. -/
theorem side_put {action : Action} {side : Side} (h : (d.side worker).Step action side)
    (hinstalls : worker.task.opened = false → ∀ opening, side.task ≠ .installing opening) :
    (d.put i worker side).side (worker.put side) = side := by
  have hnone : (d.side worker).entry = none → side.entry = none := fun hentry ↦
    h.entry_eq_none hentry hinstalls
  have hentry : ((d.put i worker side).side (worker.put side)).entry = side.entry := by
    simp only [Dist.side, Dist.put, Worker.put] at hnone ⊢
    cases hid : worker.id with
    | none =>
      rw [hid] at hnone
      exact (hnone rfl).symm
    | some id =>
      simp only [hid, Option.bind_some, getElem?_write, if_pos] at hnone ⊢
      cases hstate : side.entry with
      | none => rfl
      | some state =>
        cases hfound : d.streams[id]? with
        | none =>
          rw [hfound] at hnone
          exact absurd (hstate.symm.trans (hnone rfl)) (by simp)
        | some entry => rfl
  cases side
  simp only [Dist.side, Side.mk.injEq] at hentry ⊢
  exact ⟨hentry, rfl, rfl, rfl⟩

theorem installed_put (hworker : d.workers[i]? = some worker) (side : Side) :
    (d.put i worker side).installed = d.installed := by
  have hcount := countP_set (p := fun worker : Worker I ↦ worker.id.isSome) (b := worker.put side)
    hworker
  exact Nat.add_right_cancel hcount

/-- A step changes the entry of its own number only. -/
theorem streams_put_of_ne {side : Side} (hne : worker.id ≠ some id) :
    (d.put i worker side).streams[id]? = d.streams[id]? := by
  rw [Dist.put]
  cases hid : worker.id with
  | none => rfl
  | some own =>
    rw [hid] at hne
    simp only [getElem?_write]
    rw [if_neg fun heq ↦ hne (congrArg some heq)]

theorem reader_of_put {side : Side} (h : (d.put i worker side).streams[id]? = some entry) :
    ∃ before, d.streams[id]? = some before ∧ before.reader = entry.reader := by
  by_cases hown : worker.id = some id
  · simp only [Dist.put, hown, getElem?_write, if_pos] at h
    obtain ⟨state, -, h⟩ := Option.bind_eq_some_iff.mp h
    obtain ⟨before, hbefore, rfl⟩ := Option.map_eq_some_iff.mp h
    exact ⟨before, hbefore, rfl⟩
  · rw [streams_put_of_ne hown] at h
    exact ⟨entry, h, rfl⟩

theorem side_eq_of_streams (h : ∀ id, worker.id = some id → d'.streams[id]? = d.streams[id]?) :
    d'.side worker = d.side worker := by
  simp only [Dist.side, Side.mk.injEq, and_true]
  cases hid : worker.id with
  | none => rfl
  | some id => rw [Option.bind_some, Option.bind_some, h id hid]

theorem Consistent.projects_same {log' : List (UInt64 × Event)} (hd : Consistent log d)
    (hworker : d.workers[i]? = some worker)
    (hstreams : ∀ id, worker.id = some id → d'.streams[id]? = d.streams[id]?)
    (hlog : ∀ id, worker.id = some id → told id log' = told id log) :
    ∃ (start : Side) (trace : List Action), start.Fresh ∧ start.Run trace (d'.side worker)
      ∧ ∀ id, worker.id = some id → events trace = told id log' := by
  obtain ⟨start, trace, hstart, hrun, htold⟩ := hd.projects i worker hworker
  rw [← side_eq_of_streams hstreams] at hrun
  exact ⟨start, trace, hstart, hrun, fun id hid ↦ (htold id hid).trans (hlog id hid).symm⟩

/-! ### A step of one stream, written back

No number changes. The stream that makes the step has made one more, and the others have the same
run as before, because nothing was sent under their numbers and their entries were left alone. -/

section Put

variable {action : Action}
  {side : Side}

theorem exists_before_put (hworker : d.workers[i]? = some worker)
    (hother : (d.put i worker side).workers[j]? = some other) :
    ∃ before, d.workers[j]? = some before ∧ before.id = other.id := by
  rcases getElem?_set_cases hother with ⟨rfl, rfl⟩ | ⟨-, hother⟩
  · exact ⟨worker, hworker, rfl⟩
  · exact ⟨other, hother, rfl⟩

theorem exists_after_put (hworker : d.workers[i]? = some worker) (side : Side)
    (hother : d.workers[j]? = some other) :
    ∃ after, (d.put i worker side).workers[j]? = some after ∧ after.id = other.id :=
  exists_getElem?_set (f := Worker.id) (b := worker.put side) hworker rfl hother

theorem Consistent.unopened_put (hd : Consistent log d) (hworker : d.workers[i]? = some worker)
    (h : (d.side worker).Step action side) (j : ℕ) (other : Worker I)
    (hother : (d.put i worker side).workers[j]? = some other)
    (hopened : other.task.opened = false) : other.id = none := by
  rcases getElem?_set_cases hother with ⟨rfl, rfl⟩ | ⟨-, hother⟩
  · refine hd.unopened j worker hworker ?_
    by_contra hne
    rw [Bool.not_eq_false] at hne
    exact absurd (h.opened hne) (by rw [show side.task.opened = false from hopened]; decide)
  · exact hd.unopened j other hother hopened

theorem Consistent.owned_put (hd : Consistent log d) (hworker : d.workers[i]? = some worker)
    (id : UInt64) (entry : TableEntry)
    (hentry : (d.put i worker side).streams[id]? = some entry) :
    ∃ owner, (d.put i worker side).workers[entry.reader]? = some owner ∧ owner.id = some id := by
  obtain ⟨before, hbefore, hreader⟩ := reader_of_put hentry
  obtain ⟨owner, howner, hid⟩ := hd.owned id before hbefore
  rw [hreader] at howner
  obtain ⟨after, hafter, heq⟩ := exists_after_put hworker side howner
  exact ⟨after, hafter, heq.trans hid⟩

/-- The stream that makes the step has made one more, and the others see nothing of it. -/
theorem Consistent.projects_put (hd : Consistent log d) (hworker : d.workers[i]? = some worker)
    (h : (d.side worker).Step action side)
    (hinstalls : worker.task.opened = false → ∀ opening, side.task ≠ .installing opening) (j : ℕ)
    (other : Worker I) (hother : (d.put i worker side).workers[j]? = some other) :
    ∃ (start : Side) (trace : List Action), start.Fresh
      ∧ start.Run trace ((d.put i worker side).side other)
      ∧ ∀ id, other.id = some id → events trace = told id (log ++ worker.sent action) := by
  rcases getElem?_set_cases hother with ⟨rfl, rfl⟩ | ⟨hne, hother⟩
  · obtain ⟨start, trace, hstart, hrun, htold⟩ := hd.projects j worker hworker
    refine ⟨start, trace ++ [action], hstart, ?_, fun id hid ↦ ?_⟩
    · rw [side_put h hinstalls]
      exact hrun.step h
    · have hown : worker.id = some id := hid
      rw [events_append, htold id hown, told_append, told_sent, if_pos hown]
  · have hapart : ∀ id, other.id = some id → worker.id ≠ some id := fun id hid hown ↦
      hne (hd.unique j i other worker id hother hworker hid hown)
    refine hd.projects_same hother (fun id hid ↦ streams_put_of_ne (hapart id hid)) ?_
    intro id hid
    rw [told_append, told_sent, if_neg (hapart id hid), List.append_nil]

theorem Consistent.silent_put (hd : Consistent log d) (hworker : d.workers[i]? = some worker)
    (id : UInt64) (hnobody : ∀ (j : ℕ) (other : Worker I),
      (d.put i worker side).workers[j]? = some other → other.id ≠ some id) :
    told id (log ++ worker.sent action) = [] := by
  have hbefore : ∀ (j : ℕ) (other : Worker I), d.workers[j]? = some other →
      other.id ≠ some id := by
    intro j other hother
    obtain ⟨after, hafter, heq⟩ := exists_after_put hworker side hother
    rw [← heq]
    exact hnobody j after hafter
  rw [told_append, hd.silent id hbefore, told_sent, if_neg (hbefore i worker hworker)]
  rfl

theorem Consistent.put (hd : Consistent log d) (hworker : d.workers[i]? = some worker)
    (h : (d.side worker).Step action side)
    (hinstalls : worker.task.opened = false → ∀ opening, side.task ≠ .installing opening) :
    Consistent (log ++ worker.sent action) (d.put i worker side) where
  numbered j other id hother hid := by
    obtain ⟨before, hbefore, heq⟩ := exists_before_put hworker hother
    rw [installed_put hworker]
    exact hd.numbered j before id hbefore (heq.trans hid)
  unique j k other another id hother hanother hid hid' := by
    obtain ⟨before, hbefore, heq⟩ := exists_before_put hworker hother
    obtain ⟨before', hbefore', heq'⟩ := exists_before_put hworker hanother
    exact hd.unique j k before before' id hbefore hbefore' (heq.trans hid) (heq'.trans hid')
  next := by
    rw [installed_put hworker]
    exact hd.next
  unopened := hd.unopened_put hworker h
  owned := hd.owned_put hworker
  projects := hd.projects_put hworker h hinstalls
  silent := hd.silent_put hworker

end Put

/-! ### A stream is installed

The next number is a new one as long as the counter has not wrapped. Installing touches none of the
streams that have a number, and nothing has been told under the new one. -/

theorem toNat_nextId_takeId {shared : Shared I} {n : ℕ} (h : shared.nextId.toNat = n)
    (hn : n + 1 < 2 ^ 64) : shared.takeId.nextId.toNat = n + 1 := by
  have hsucc : (shared.nextId + 1).toNat = n + 1 := by
    rw [UInt64.toNat_add, h]
    exact Nat.mod_eq_of_lt hn
  show (if shared.nextId + 1 ≤ 1 then 1 else shared.nextId + 1).toNat = n + 1
  split
  · next hle =>
    rw [UInt64.le_iff_toNat_le, hsucc] at hle
    exact le_antisymm (Nat.le_add_left 1 n) hle
  · exact hsucc

theorem installed_install (hworker : d.workers[i]? = some worker) (hid : worker.id = none)
    (opening : Opening) :
    (d.install i worker opening).installed = d.installed + 1 := by
  have hcount := countP_set (p := fun worker : Worker I ↦ worker.id.isSome)
    (b := { worker with id := some d.shared.nextId, task := .installing opening }) hworker
  simp only [hid, Option.isSome_none, Option.isSome_some, Bool.false_eq_true, if_false, if_true,
    Nat.add_zero] at hcount
  exact hcount

/-- The next number is a new one. -/
theorem Consistent.ne_nextId (hd : Consistent log d) (hfew : d.installed + 1 < 2 ^ 64)
    (hworker : d.workers[i]? = some worker) : worker.id ≠ some d.shared.nextId := by
  intro hid
  have hnext := hd.next hfew
  have hle := (hd.numbered i worker _ hworker hid).2
  omega

theorem streams_install_of_ne {opening : Opening} (hne : id ≠ d.shared.nextId) :
    (d.install i worker opening).streams[id]? = d.streams[id]? := by
  rw [Dist.install, getElem?_insert_eq, if_neg (Ne.symm hne)]

theorem workers_install_of_id {opening : Opening} (hworker : d.workers[i]? = some worker)
    (hnone : worker.id = none) (hother : d.workers[j]? = some other) (hid : other.id = some id) :
    (d.install i worker opening).workers[j]? = some other := by
  refine (List.getElem?_set_ne ?_).trans hother
  rintro rfl
  obtain rfl := Option.some.inj (hworker.symm.trans hother)
  exact absurd (hnone.symm.trans hid) (by simp)

theorem side_install (d : Dist I) (i : ℕ) (worker : Worker I) (opening : Opening) :
    (d.install i worker opening).side
      { worker with id := some d.shared.nextId, task := .installing opening }
        = (d.side worker).install opening := by
  simp only [Dist.side, Dist.install, Side.install, Option.bind_some, getElem?_insert_eq, if_pos,
    Option.map_some]

section Install

variable {opening : Opening}

theorem Consistent.unique_install (hd : Consistent log d) (hfew : d.installed + 1 < 2 ^ 64)
    {k : ℕ} {another : Worker I} (hother : (d.install i worker opening).workers[j]? = some other)
    (hanother : (d.install i worker opening).workers[k]? = some another)
    (hid : other.id = some id) (hid' : another.id = some id) : j = k := by
  rcases getElem?_set_cases hother with ⟨hj, rfl⟩ | ⟨-, hold⟩ <;>
    rcases getElem?_set_cases hanother with ⟨hk, rfl⟩ | ⟨-, hold'⟩
  · exact hj.trans hk.symm
  · exact absurd (hid'.trans hid.symm) (hd.ne_nextId hfew hold')
  · exact absurd (hid.trans hid'.symm) (hd.ne_nextId hfew hold)
  · exact hd.unique j k other another id hold hold' hid hid'

theorem Consistent.owned_install (hd : Consistent log d) (hworker : d.workers[i]? = some worker)
    (hnone : worker.id = none) (hentry : (d.install i worker opening).streams[id]? = some entry) :
    ∃ owner, (d.install i worker opening).workers[entry.reader]? = some owner
      ∧ owner.id = some id := by
  by_cases hid : id = d.shared.nextId
  · rw [Dist.install, getElem?_insert_eq, if_pos hid.symm] at hentry
    obtain rfl := Option.some.inj hentry
    rw [hid]
    exact ⟨_, List.getElem?_set_self (List.getElem?_eq_some_iff.mp hworker).1, rfl⟩
  · rw [streams_install_of_ne hid] at hentry
    obtain ⟨owner, howner, hown⟩ := hd.owned id entry hentry
    exact ⟨owner, workers_install_of_id hworker hnone howner hown, hown⟩

theorem Consistent.projects_install (hd : Consistent log d)
    (hworker : d.workers[i]? = some worker) (hopened : worker.task.opened = false)
    (h : (d.side worker).Step .quiet ((d.side worker).install opening))
    (hfew : d.installed + 1 < 2 ^ 64)
    (hother : (d.install i worker opening).workers[j]? = some other) :
    ∃ (start : Side) (trace : List Action), start.Fresh
      ∧ start.Run trace ((d.install i worker opening).side other)
      ∧ ∀ id, other.id = some id → events trace = told id log := by
  rcases getElem?_set_cases hother with ⟨rfl, rfl⟩ | ⟨-, hother⟩
  · obtain ⟨start, trace, hstart, hrun, -⟩ := hd.projects j worker hworker
    refine ⟨start, trace ++ [.quiet], hstart, ?_, fun id hid ↦ ?_⟩
    · rw [side_install]
      exact hrun.step h
    · obtain rfl := Option.some.inj hid
      have htells : worker.task.Tells (events trace) := hrun.tells hstart
      rw [hd.silent _ fun _ _ hother ↦ hd.ne_nextId hfew hother, events_append,
        htells.eq_nil hopened]
      rfl
  · refine hd.projects_same hother (fun id hid ↦ streams_install_of_ne ?_) fun _ _ ↦ rfl
    rintro rfl
    exact hd.ne_nextId hfew hother hid

theorem Consistent.install (hd : Consistent log d) (hworker : d.workers[i]? = some worker)
    (hopened : worker.task.opened = false)
    (h : (d.side worker).Step .quiet ((d.side worker).install opening))
    (hfew : (d.install i worker opening).installed < 2 ^ 64) :
    Consistent log (d.install i worker opening) := by
  have hnone := hd.unopened i worker hworker hopened
  have hinstalled := installed_install hworker hnone opening
  rw [hinstalled] at hfew
  have hnext := hd.next hfew
  exact
    { numbered := by
        intro j other id hother hid
        rw [hinstalled]
        rcases getElem?_set_cases hother with ⟨rfl, rfl⟩ | ⟨-, hother⟩
        · obtain rfl := Option.some.inj hid
          omega
        · obtain ⟨hpos, hle⟩ := hd.numbered j other id hother hid
          omega
      unique := fun _ _ _ _ _ hother hanother ↦ hd.unique_install hfew hother hanother
      next := by
        intro hmore
        rw [hinstalled] at hmore ⊢
        exact toNat_nextId_takeId hnext hmore
      unopened := by
        intro j other hother hclosed
        rcases getElem?_set_cases hother with ⟨rfl, rfl⟩ | ⟨-, hother⟩
        · cases hclosed
        · exact hd.unopened j other hother hclosed
      owned := fun _ _ ↦ hd.owned_install hworker hnone
      projects := fun _ _ ↦ hd.projects_install hworker hopened h hfew
      silent := fun id hnobody ↦ hd.silent id fun j other hother hid ↦
        hnobody j other (workers_install_of_id hworker hnone hother hid) hid }

end Install

/-! ### The other steps

Calls begin, and calls on a number reach the queue of the stream that has it. The table itself is
shared with the bindings, which the streams do not see. -/

theorem side_start (d : Dist I) (remote : I.EndpointId) {side : Side} (h : side.entry = none) :
    d.side (.start remote side) = side := by
  cases side
  simp only [Dist.side, Worker.start, Option.bind_none, Side.mk.injEq, and_true]
  exact h.symm

theorem Consistent.begin (hd : Consistent log d) (remote : I.EndpointId) {side : Side}
    (hside : side.Fresh) :
    Consistent log { d with workers := d.workers ++ [.start remote side] } := by
  have hcases : ∀ (j : ℕ) (other : Worker I),
      (d.workers ++ [Worker.start remote side])[j]? = some other →
        d.workers[j]? = some other ∨ other = .start remote side := by
    intro j other hother
    rcases lt_or_ge j d.workers.length with hlt | hge
    · rw [List.getElem?_append_left hlt] at hother
      exact Or.inl hother
    · rw [List.getElem?_append_right hge] at hother
      exact Or.inr (List.mem_singleton.mp (List.mem_of_getElem? hother))
  have hkept : ∀ (j : ℕ) (other : Worker I), d.workers[j]? = some other →
      (d.workers ++ [Worker.start remote side])[j]? = some other := by
    intro j other hother
    rw [List.getElem?_append_left (List.getElem?_eq_some_iff.mp hother).1, hother]
  have hinstalled : ({ d with workers := d.workers ++ [.start remote side] } : Dist I).installed
      = d.installed := by
    rw [installed, List.countP_append]
    rfl
  refine
    { numbered := ?numbered
      unique := ?unique
      next := by
        rw [hinstalled]
        exact hd.next
      unopened := ?unopened
      owned := ?owned
      projects := ?projects
      silent := fun id hnobody ↦
        hd.silent id fun j other hother ↦ hnobody j other (hkept j other hother) }
  case numbered =>
    intro j other id hother hid
    rw [hinstalled]
    rcases hcases j other hother with hold | rfl
    · exact hd.numbered j other id hold hid
    · cases hid
  case unique =>
    intro j k other another id hother hanother hid hid'
    rcases hcases j other hother with hold | rfl
    · rcases hcases k another hanother with hold' | rfl
      · exact hd.unique j k other another id hold hold' hid hid'
      · cases hid'
    · cases hid
  case unopened =>
    intro j other hother hopened
    rcases hcases j other hother with hold | rfl
    · exact hd.unopened j other hold hopened
    · rfl
  case owned =>
    intro id entry hentry
    obtain ⟨owner, howner, hid⟩ := hd.owned id entry hentry
    exact ⟨owner, hkept _ owner howner, hid⟩
  case projects =>
    intro j other hother
    rcases hcases j other hother with hold | rfl
    · exact hd.projects_same hold (fun _ _ ↦ rfl) fun _ _ ↦ rfl
    · refine ⟨side, [], hside, ?_, fun id hid ↦ by cases hid⟩
      rw [side_start _ remote hside.entry]
      exact .start

theorem Consistent.of_shared (hd : Consistent log d) {shared : Shared I}
    (h : shared.nextId = d.shared.nextId) :
    Consistent log { d with shared } :=
  ⟨hd.numbered, hd.unique, fun hmore ↦ (congrArg UInt64.toNat h).trans (hd.next hmore),
    hd.unopened, hd.owned, hd.projects, hd.silent⟩

/-- A call on a number reaches the queue of the stream that has it. -/
theorem Consistent.call (hd : Consistent log d) {action : Action} {side : Side}
    (hentry : d.streams[id]? = some entry) (hworker : d.workers[entry.reader]? = some worker)
    (h : Side.Step ⟨some entry.state, worker.commands, worker.task, worker.receiveCredit⟩ action
      side) (hcall : action.isCall = true) :
    Consistent log
      { d with
        streams := write id side.entry d.streams
        workers := d.workers.set entry.reader (worker.put side) } := by
  obtain ⟨owner, howner, hid⟩ := hd.owned id entry hentry
  obtain rfl := Option.some.inj (hworker.symm.trans howner)
  have hview : d.side worker
      = ⟨some entry.state, worker.commands, worker.task, worker.receiveCredit⟩ := by
    simp only [Dist.side, hid, Option.bind_some, hentry, Option.map_some]
  have hput : d.put entry.reader worker side
      = { d with
        streams := write id side.entry d.streams
        workers := d.workers.set entry.reader (worker.put side) } := by
    simp only [Dist.put, hid]
  have hsent : worker.sent action = [] := by
    cases action with
    | sent _ | granted _ | closeAsked => rw [Worker.sent, hid]; rfl
    | _ => cases hcall
  rw [← hview] at h
  have hafter := hd.put hworker h fun hopened ↦
    absurd ((hd.unopened _ worker hworker hopened).symm.trans hid) (by simp)
  rw [hsent, List.append_nil, hput] at hafter
  exact hafter

theorem TaskStep.installed_le (h : d.TaskStep i emitted d') : d.installed ≤ d'.installed := by
  have hset : ∀ {worker : Worker I} (other : Worker I), d.workers[i]? = some worker →
      (worker.id.isSome = true → other.id.isSome = true) →
        d.installed ≤ (d.workers.set i other).countP fun worker ↦ worker.id.isSome := by
    intro worker other hworker himp
    have hcount := countP_set (p := fun worker : Worker I ↦ worker.id.isSome) (b := other) hworker
    rw [installed]
    split at hcount
    · next hsome =>
      rw [if_pos (himp hsome)] at hcount
      omega
    · omega
  cases h with
  | moves hworker => exact hset _ hworker id
  | connected hworker | allowed hworker => exact hset _ hworker fun _ ↦ rfl

theorem Step.installed_le (h : d.Step emitted d') : d.installed ≤ d'.installed := by
  cases h with
  | listens | replaces => exact le_rfl
  | connects | accepts =>
    rw [installed, installed, List.countP_append]
    exact Nat.le_add_right _ _
  | calls hentry hworker => exact (installed_put hworker _).ge
  | works h => exact h.installed_le

/-- **The step lemma.** -/
theorem Consistent.step (hd : Consistent log d) (h : d.Step emitted d')
    (hfew : d'.installed < 2 ^ 64) :
    Consistent (log ++ emitted) d' := by
  cases h with
  | listens h =>
    obtain ⟨-, rfl⟩ := Shared.returns_listen.mp h
    rw [List.append_nil]
    exact hd.of_shared rfl
  | replaces bindings instant =>
    rw [List.append_nil]
    exact hd.of_shared rfl
  | connects h =>
    rw [List.append_nil]
    exact hd.begin _ (Side.fresh_connecting _ _)
  | accepts remote =>
    rw [List.append_nil]
    exact hd.begin remote Side.fresh_accepting
  | calls hentry hworker hcall h =>
    rw [List.append_nil]
    exact hd.call hentry hworker h hcall
  | works h =>
    cases h with
    | moves hworker hcall hinstalls h => exact hd.put hworker h fun _ ↦ hinstalls
    | connected hworker htask =>
      rw [List.append_nil]
      exact hd.install hworker (by rw [htask]; rfl) (.connected htask) hfew
    | allowed hworker htask hallows =>
      rw [List.append_nil]
      exact hd.install hworker (by rw [htask]; rfl) (.allowed htask) hfew

theorem Run.consistent (h : Run log d) (hfew : d.installed < 2 ^ 64) : Consistent log d := by
  induction h with
  | new => exact consistent_new
  | step _ hstep ih => exact (ih (hstep.installed_le.trans_lt hfew)).step hstep hfew

/-! ## What holds of the table

From here the workers are not needed any more. What was sent under a number is what the side of that
number has told, an entry under a number is that of its side, and so the facts about single sides
become facts about the table. -/

/-- An entry under the number of a stream is the entry of that stream. -/
theorem Consistent.reader_eq (hd : Consistent log d) (hworker : d.workers[i]? = some worker)
    (hid : worker.id = some id) (hentry : d.streams[id]? = some entry) : entry.reader = i := by
  obtain ⟨owner, howner, hown⟩ := hd.owned id entry hentry
  exact hd.unique _ i owner worker id howner hworker hown hid

/-- A task leaves the entries of the others alone. -/
theorem Consistent.frame (hd : Consistent log d) (h : d.TaskStep i emitted d')
    (hfew : d'.installed < 2 ^ 64) (hentry : entry.reader ≠ i) :
    d'.streams[id]? = some entry ↔ d.streams[id]? = some entry := by
  have hinstall : ∀ (worker : Worker I) (opening : Opening), d.workers[i]? = some worker →
      worker.task.opened = false → (d.install i worker opening).installed < 2 ^ 64 →
      ((d.install i worker opening).streams[id]? = some entry ↔ d.streams[id]? = some entry) := by
    intro worker opening hworker hopened hfew
    rw [installed_install hworker (hd.unopened i worker hworker hopened)] at hfew
    rw [Dist.install, getElem?_insert_eq]
    split
    · next hid =>
      refine ⟨fun heq ↦ absurd (Option.some.inj heq ▸ rfl) hentry, fun hold ↦ ?_⟩
      obtain ⟨owner, howner, hown⟩ := hd.owned id entry hold
      exact absurd (hid ▸ hown) (hd.ne_nextId hfew howner)
    · exact Iff.rfl
  cases h with
  | @moves worker action side hworker hcall hinstalls h =>
    by_cases hid : worker.id = some id
    · constructor
      · intro hafter
        obtain ⟨before, hbefore, hreader⟩ := reader_of_put hafter
        exact absurd (hreader.symm.trans (hd.reader_eq hworker hid hbefore)) hentry
      · intro hbefore
        exact absurd (hd.reader_eq hworker hid hbefore) hentry
    · rw [streams_put_of_ne hid]
  | connected hworker htask => exact hinstall _ _ hworker (by rw [htask]; rfl) hfew
  | allowed hworker htask _ => exact hinstall _ _ hworker (by rw [htask]; rfl) hfew

theorem Consistent.removed (hd : Consistent log d) (hworker : d.workers[i]? = some worker)
    (hid : worker.id = some id) (hremoved : worker.task.removed = true) :
    d.streams[id]? = none := by
  obtain ⟨start, trace, hstart, hrun, -⟩ := hd.projects i worker hworker
  have hentry := hrun.entry_of_removed hstart (Or.inr hremoved)
  simp only [Dist.side, hid, Option.bind_some, Option.map_eq_none_iff] at hentry
  exact hentry

/-- What was sent under a number fits the stream that has it. -/
theorem Consistent.tells (hd : Consistent log d) (hworker : d.workers[i]? = some worker)
    (hid : worker.id = some id) : worker.task.Tells (told id log) := by
  obtain ⟨start, trace, hstart, hrun, htold⟩ := hd.projects i worker hworker
  rw [← htold id hid]
  exact hrun.tells hstart

/-- **The events of every stream are well formed.** While fewer than `2 ^ 64` streams have been
installed: no two streams have one number; what was sent under a number is one event that opens the
stream, then data and credit, and at most one event that closes it, as far as its task has got;
after the last event, and when the installation has failed, there is no entry of the stream; and a
step of one task changes no entry of another. -/
theorem streams_well_formed {log : List (UInt64 × Event)} {d : Dist I} (h : Run log d)
    (hfew : d.installed < 2 ^ 64) :
    (∀ (i j : ℕ) (worker other : Worker I) (id : UInt64), d.workers[i]? = some worker →
        d.workers[j]? = some other → worker.id = some id → other.id = some id → i = j)
      ∧ (∀ id, WellFormed (told id log))
      ∧ (∀ (i : ℕ) (worker : Worker I) (id : UInt64), d.workers[i]? = some worker →
        worker.id = some id → worker.task.Tells (told id log)
          ∧ (worker.task.removed = true → d.streams[id]? = none))
      ∧ (∀ id reason, .closed reason ∈ told id log → d.streams[id]? = none)
      ∧ (∀ (id : UInt64) (entry : TableEntry), d.streams[id]? = some entry →
        ∃ worker, d.workers[entry.reader]? = some worker ∧ worker.id = some id)
      ∧ ∀ (i : ℕ) (emitted : List (UInt64 × Event)) (d' : Dist I), d.TaskStep i emitted d' →
        d'.installed < 2 ^ 64 → ∀ (id : UInt64) (entry : TableEntry), entry.reader ≠ i →
          (d'.streams[id]? = some entry ↔ d.streams[id]? = some entry) := by
  have hd := h.consistent hfew
  have howner : ∀ id, told id log = [] ∨ ∃ (i : ℕ) (worker : Worker I),
      d.workers[i]? = some worker ∧ worker.id = some id := by
    intro id
    by_contra hnot
    rw [not_or, not_exists] at hnot
    exact hnot.1 (hd.silent id fun i worker hworker hid ↦ hnot.2 i ⟨worker, hworker, hid⟩)
  refine ⟨hd.unique, fun id ↦ ?_, fun i worker id hworker hid ↦
    ⟨hd.tells hworker hid, hd.removed hworker hid⟩, fun id reason hmem ↦ ?_, hd.owned,
    fun i emitted d' hstep hfew' id entry hentry ↦ hd.frame hstep hfew' hentry⟩
  · rcases howner id with hnil | ⟨i, worker, hworker, hid⟩
    · exact Or.inl hnil
    · exact (hd.tells hworker hid).wellFormed
  · rcases howner id with hnil | ⟨i, worker, hworker, hid⟩
    · rw [hnil] at hmem
      cases hmem
    · exact hd.removed hworker hid ((hd.tells hworker hid).removed_of_closed hmem)

/-! ### Two streams

A node that listens connects to itself, and gets the stream that it has opened as an incoming one. A
chunk goes through, and the end that has sent it is closed. -/

/-- A table in which the sample node listens and is bound to the only endpoint. -/
def bound : Dist Iroh.single :=
  { new with
    shared := { Shared.new.replaceBindings [((), sampleNode, 5000)] 0 with
      listenNode := some sampleNode } }

theorem run_bound : Run [] bound :=
  ((Run.new : Run _ (new : Dist Iroh.single)).step (.replaces [((), sampleNode, 5000)] 0)).step
    (@Step.listens _ _ sampleNode bound.shared (Method.returns_after (by decide)))

theorem returns_resolve_bound :
    (Shared.resolve sampleNode sampleNode 0).Returns bound.shared () bound.shared :=
  Method.returns_after (by decide)

/-- Both streams are open, with all their credit. -/
def opened : Dist Iroh.single where
  shared := { bound.shared with nextId := 3 }
  streams := (∅ : ExtTreeMap UInt64 TableEntry).insert 1 ⟨⟨creditWindow, creditWindow⟩, 0⟩
    |>.insert 2 ⟨⟨creditWindow, creditWindow⟩, 1⟩
  workers := [⟨(), some 1, [], .selecting, creditWindow⟩,
    ⟨(), some 2, [], .selecting, creditWindow⟩]

set_option maxRecDepth 4000 in
theorem run_opened :
    Run [(1, .connected sampleNode), (2, .incoming sampleNode sampleNode)] opened := by
  have hrun := run_bound
    |>.step (.connects returns_resolve_bound)
    |>.step (.works (.moves (i := 0) rfl rfl (by simp)
      (@Side.Step.writeHeader _ (encodeHeader sampleNode sampleNode) [] sampleNode (by decide)
        (by rw [List.append_nil]; rfl))))
    |>.step (.works (.connected (i := 0) rfl rfl))
    |>.step (.works (.moves (i := 0) rfl rfl (by simp) (.announce rfl)))
    |>.step (.accepts ())
    |>.step (.works (.moves (i := 1) rfl rfl (by simp)
      (@Side.Step.readHeader _ magic _ (by decide) (by decide) rfl)))
    |>.step (.works (.moves (i := 1) rfl rfl (by simp)
      (@Side.Step.readHeader _ [0, 3] _ (by decide) (by decide) rfl)))
    |>.step (.works (.moves (i := 1) rfl rfl (by simp)
      (@Side.Step.readHeader _ [97, 64, 98] _ (by decide) (by decide) rfl)))
    |>.step (.works (.moves (i := 1) rfl rfl (by simp)
      (@Side.Step.readHeader _ [0, 3] _ (by decide) (by decide) rfl)))
    |>.step (.works (.moves (i := 1) rfl rfl (by simp)
      (@Side.Step.readHeader _ [97, 64, 98] _ (by decide) (by decide) rfl)))
    |>.step (.works (@TaskStep.allowed _ _ 1 _ ⟨sampleNode, sampleNode⟩ 0 rfl rfl (by decide)))
    |>.step (.works (.moves (i := 1) rfl rfl (by simp) (.announce rfl)))
  exact hrun

/-- The first stream is closed after a chunk, and the second one has told of the chunk. -/
def halfClosed : Dist Iroh.single where
  shared := opened.shared
  streams := (∅ : ExtTreeMap UInt64 TableEntry).insert 2
    ⟨⟨creditWindow, creditWindow - 1⟩, 1⟩
  workers := [⟨(), some 1, [], .ended, creditWindow⟩,
    ⟨(), some 2, [], .selecting, creditWindow - 1⟩]

theorem run_halfClosed :
    Run [(1, .connected sampleNode), (2, .incoming sampleNode sampleNode), (1, .credit 1),
      (2, .data [5]), (1, .closed .remoteClose)] halfClosed := by
  have hrun := run_opened
    |>.step (@Step.calls _ _ 1 _ _ (.sent [5]) _ rfl rfl rfl
      (.send (Method.returns_after (by decide))))
    |>.step (.works (.moves (i := 0) rfl rfl (by simp) (.takeSend rfl rfl)))
    |>.step (.works (.moves (i := 0) rfl rfl (by simp)
      (@Side.Step.write _ [5] [] _ (by decide) rfl)))
    |>.step (.works (.moves (i := 0) rfl rfl (by simp) (.written rfl)))
    |>.step (.works (.moves (i := 0) rfl rfl (by simp [Side.replenish]) (.replenish rfl)))
    |>.step (.works (.moves (i := 0) rfl rfl (by simp) (.creditEvent rfl)))
    |>.step (.works (.moves (i := 1) rfl rfl (by simp)
      (@Side.Step.readData _ [5] (by decide) (by decide) rfl)))
    |>.step (.works (.moves (i := 1) rfl rfl (fun _ h ↦ by cases h) (.deduct rfl)))
    |>.step (.works (.moves (i := 1) rfl rfl (by simp) (.dataEvent rfl)))
    |>.step (.works (.moves (i := 0) rfl rfl (by simp) (.readEnd (by decide) rfl)))
    |>.step (.works (.moves (i := 0) rfl rfl (by simp) (.remove rfl)))
    |>.step (.works (.moves (i := 0) rfl rfl (by simp) (.report rfl)))
  exact hrun

theorem streams_well_formed_sample :
    ∃ (log : List (UInt64 × Event)) (d : Dist Iroh.single), Run log d
      ∧ told 1 log = [.connected sampleNode, .credit 1, .closed .remoteClose]
      ∧ told 2 log = [.incoming sampleNode sampleNode, .data [5]]
      ∧ WellFormed (told 1 log) ∧ WellFormed (told 2 log) ∧ d.streams[(1 : UInt64)]? = none
      ∧ d.streams[(2 : UInt64)]? = some ⟨⟨creditWindow, creditWindow - 1⟩, 1⟩ := by
  obtain ⟨-, hformed, -, hclosed, -, -⟩ := streams_well_formed run_halfClosed (by decide)
  exact ⟨_, _, run_halfClosed, rfl, rfl, hformed 1, hformed 2,
    hclosed 1 .remoteClose (List.mem_of_getElem? (i := 2) rfl), rfl⟩

end Dist

end NervesP2P
