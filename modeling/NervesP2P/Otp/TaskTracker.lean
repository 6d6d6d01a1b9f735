import NervesP2P.Lib.Maps
import NervesP2P.Lib.Numbered
import NervesP2P.Lib.Server
import NervesP2P.Lib.Term

/-!
# The task tracker

Work that is dispatched to a peer is recorded as a task. A task is pending until it is reported as
completed or failed, or until the last connection to its peer is closed: then all pending tasks of
that peer are marked as failed and the subscribers are told which ones these are, so that the work
can be given to another peer.

The tracker is a process that handles one message at a time. What its environment decides comes
with the message: the clock, and which processes are alive when a report goes out. The subscribers
are processes of the tracker's own node: of any other pid the runtime does not say whether it is
alive, and raises instead. A map is traversed in the order of its keys here; the runtime traverses
large maps in another order, and nothing below depends on it.
-/

open Std (ExtTreeMap)

namespace NervesP2P

namespace TaskTracker

/-! ## State -/

abbrev Pid := ℕ

inductive Status where
  | pending
  | completed
  | failed (reason : Term)

/-- The failure of a task whose peer is gone. -/
def Status.peerLost : Status := .failed (.atom "peer_lost")

structure Task where
  id : String
  peerId : String
  /-- An atom. -/
  target : String
  message : Term
  dispatchedAt : ℤ
  status : Status := .pending

structure State where
  tasks : ExtTreeMap String Task
  subscribers : List Pid
  counter : ℕ

inductive Message where
  | dispatch (peerId : String) (target : String) (message : Term) (now : ℤ)
  | complete (taskId : String)
  | fail (taskId : String) (reason : Term)
  | get (taskId : String)
  | pendingForPeer (peerId : String)
  | allPending
  | subscribe (pid : Pid)
  | cleanup
  | unknownCall
  | connectionClosed (peerId : String) (numEstablished : ℕ) (alive : Pid → Bool)
  | other

inductive Reply where
  | ok
  | id (id : String)
  | task (task : Task)
  | tasks (tasks : List Task)
  | count (n : ℕ)
  | notFound
  | unknownCall

inductive Effect where
  | reply (reply : Reply)
  /-- The tasks of a lost peer, to every recipient. A process that has subscribed twice is told
  twice. -/
  | peerLost (recipients : List Pid) (peerId : String) (orphaned : List Task)

/-! ## Handlers

The loop over the tasks when a peer is lost is a fold that changes the map and makes the list of
what it has changed, as in the source. -/

def Task.isPending (task : Task) : Bool :=
  match task.status with
  | .pending => true
  | _ => false

def updateTaskStatus (s : State) (taskId : String) (status : Status) : List Effect × State :=
  match s.tasks[taskId]? with
  | some task =>
    ([.reply .ok], { s with tasks := s.tasks.insert taskId { task with status := status } })
  | none => ([.reply .notFound], s)

def pendingTasks (s : State) (extraFilter : Task → Bool) : List Task :=
  (s.tasks.toList.map Prod.snd).filter fun task ↦ task.isPending && extraFilter task

/-- A task that is pending for a peer. -/
def Task.waitsFor (peerId : String) (task : Task) : Bool :=
  task.isPending && task.peerId == peerId

/-- The task without its peer. -/
def Task.lost (task : Task) : Task := { task with status := .peerLost }

/-- One entry of the loop over the tasks when a peer is lost. -/
def loseEntry (peerId : String) (acc : ExtTreeMap String Task × List Task)
    (entry : String × Task) : ExtTreeMap String Task × List Task :=
  if entry.2.waitsFor peerId then (acc.1.insert entry.1 entry.2.lost, entry.2.lost :: acc.2)
  else acc

/-- The tasks with those of the peer marked as failed, and a list of these. -/
def losePeer (tasks : ExtTreeMap String Task) (peerId : String) :
    ExtTreeMap String Task × List Task :=
  tasks.toList.foldl (loseEntry peerId) (tasks, [])

def handle : Message → State → List Effect × State
  | .dispatch peerId target message now, s =>
    let id := numbered "task-" (s.counter + 1)
    let task : Task :=
      { id := id, peerId := peerId, target := target, message := message, dispatchedAt := now }
    ([.reply (.id id)], { s with tasks := s.tasks.insert id task, counter := s.counter + 1 })
  | .complete taskId, s => updateTaskStatus s taskId .completed
  | .fail taskId reason, s => updateTaskStatus s taskId (.failed reason)
  | .get taskId, s =>
    match s.tasks[taskId]? with
    | some task => ([.reply (.task task)], s)
    | none => ([.reply .notFound], s)
  | .pendingForPeer peerId, s =>
    ([.reply (.tasks (pendingTasks s fun task ↦ task.peerId == peerId))], s)
  | .allPending, s => ([.reply (.tasks (pendingTasks s fun _ ↦ true))], s)
  | .subscribe pid, s => ([.reply .ok], { s with subscribers := pid :: s.subscribers })
  | .cleanup, s =>
    let removed := s.tasks.filter fun _ task ↦ !task.isPending
    let kept := s.tasks.filter fun _ task ↦ task.isPending
    ([.reply (.count removed.size)], { s with tasks := kept })
  | .unknownCall, s => ([.reply .unknownCall], s)
  | .connectionClosed peerId 0 alive, s =>
    match losePeer s.tasks peerId with
    | (_, []) => ([], s)
    | (updated, orphaned) =>
      ([.peerLost (s.subscribers.filter alive) peerId orphaned], { s with tasks := updated })
  | .connectionClosed _ _ _, s => ([], s)
  | .other, s => ([], s)

def server : Server State Message Effect where
  init := ⟨∅, [], 0⟩
  handle message s := some (handle message s)

abbrev Turn := Server.Turn Message Effect

/-- What the tracker can have done, on any messages. -/
abbrev History (turns : List Turn) (s : State) : Prop :=
  server.History (fun _ _ _ ↦ True) turns s

theorem handle_of_server {message : Message} {s s' : State} {done : List Effect}
    (h : server.handle message s = some (done, s')) :
    (handle message s).1 = done ∧ (handle message s).2 = s' := by
  have heq : handle message s = (done, s') := Option.some.inj h
  rw [heq]
  exact ⟨rfl, rfl⟩

/-! ## Losing a peer

Entries under other keys leave an entry of the map alone, and no key occurs twice. So the fold marks
exactly the pending tasks of the peer, and lists them as they are afterwards. -/

section LosePeer

variable {peerId : String}

theorem foldl_loseEntry_snd (entries : List (String × Task))
    (acc : ExtTreeMap String Task × List Task) :
    (entries.foldl (loseEntry peerId) acc).2
      = (((entries.map Prod.snd).filter (Task.waitsFor peerId)).map Task.lost).reverse
        ++ acc.2 := by
  induction entries generalizing acc with
  | nil => rfl
  | cons entry entries ih =>
    rw [List.foldl_cons, ih, loseEntry, List.map_cons]
    by_cases hwaits : entry.2.waitsFor peerId = true
    · simp [hwaits]
    · simp [hwaits]

theorem foldl_loseEntry_of_notMem {entries : List (String × Task)} {id : String}
    (h : ∀ task, (id, task) ∈ entries → task.waitsFor peerId = false)
    (acc : ExtTreeMap String Task × List Task) :
    (entries.foldl (loseEntry peerId) acc).1[id]? = acc.1[id]? := by
  induction entries generalizing acc with
  | nil => rfl
  | cons entry entries ih =>
    rw [List.foldl_cons, ih fun task hmem ↦ h task (List.mem_cons_of_mem _ hmem), loseEntry]
    split
    · next hwaits =>
      rw [getElem?_insert_eq]
      refine if_neg ?_
      rintro rfl
      rw [h entry.2 List.mem_cons_self] at hwaits
      cases hwaits
    · rfl

theorem foldl_loseEntry_of_mem {entries : List (String × Task)} {id : String} {task : Task}
    (hkeys : (entries.map Prod.fst).Nodup) (hmem : (id, task) ∈ entries)
    (hwaits : task.waitsFor peerId = true) (acc : ExtTreeMap String Task × List Task) :
    (entries.foldl (loseEntry peerId) acc).1[id]? = some task.lost := by
  induction entries generalizing acc with
  | nil => cases hmem
  | cons entry entries ih =>
    rw [List.map_cons, List.nodup_cons] at hkeys
    rw [List.foldl_cons]
    rcases List.mem_cons.mp hmem with rfl | htail
    · rw [foldl_loseEntry_of_notMem, loseEntry, if_pos hwaits, getElem?_insert_eq, if_pos rfl]
      intro task' hmem'
      exact absurd (List.mem_map_of_mem hmem') hkeys.1
    · exact ih hkeys.2 htail _

variable (tasks : ExtTreeMap String Task)

/-- **Exactly the pending tasks of the peer are marked.** -/
theorem getElem?_losePeer (id : String) :
    (losePeer tasks peerId).1[id]?
      = tasks[id]?.map fun task ↦ if task.waitsFor peerId then task.lost else task := by
  have hkeys : (tasks.toList.map Prod.fst).Nodup := by
    rw [ExtTreeMap.map_fst_toList_eq_keys]
    exact ExtTreeMap.nodup_keys
  have hmem : ∀ task, (id, task) ∈ tasks.toList ↔ tasks[id]? = some task := fun task ↦
    ExtTreeMap.mem_toList_iff_getElem?_eq_some
  cases hget : tasks[id]? with
  | none =>
    rw [losePeer, foldl_loseEntry_of_notMem, hget]
    · rfl
    · intro task htask
      rw [hmem, hget] at htask
      cases htask
  | some task =>
    rw [Option.map_some]
    by_cases hwaits : task.waitsFor peerId = true
    · rw [losePeer, foldl_loseEntry_of_mem hkeys ((hmem task).mpr hget) hwaits, if_pos hwaits]
    · rw [losePeer, foldl_loseEntry_of_notMem, hget, if_neg hwaits]
      intro task' htask'
      rw [hmem, hget, Option.some_inj] at htask'
      subst htask'
      exact Bool.not_eq_true _ ▸ hwaits

/-- The tasks that are listed are the pending ones of the peer, as they are now. -/
theorem losePeer_snd :
    (losePeer tasks peerId).2
      = (((tasks.toList.map Prod.snd).filter (Task.waitsFor peerId)).map Task.lost).reverse := by
  rw [losePeer, foldl_loseEntry_snd, List.append_nil]

theorem mem_losePeer_snd {task : Task} :
    task ∈ (losePeer tasks peerId).2
      ↔ ∃ (id : String) (before : Task), tasks[id]? = some before
        ∧ before.waitsFor peerId = true ∧ task = before.lost := by
  rw [losePeer_snd, List.mem_reverse, List.mem_map]
  constructor
  · rintro ⟨before, hbefore, rfl⟩
    obtain ⟨hmem, hwaits⟩ := List.mem_filter.mp hbefore
    obtain ⟨⟨id, _⟩, hentry, rfl⟩ := List.mem_map.mp hmem
    exact ⟨id, _, ExtTreeMap.mem_toList_iff_getElem?_eq_some.mp hentry, hwaits, rfl⟩
  · rintro ⟨id, before, hget, hwaits, rfl⟩
    refine ⟨before, List.mem_filter.mpr ⟨?_, hwaits⟩, rfl⟩
    exact List.mem_map_of_mem (ExtTreeMap.mem_toList_iff_getElem?_eq_some.mpr hget)

end LosePeer

/-! ## What becomes of an entry -/

def Message.started? (s : State) : Message → Option Task
  | .dispatch peerId target message now =>
    some { id := numbered "task-" (s.counter + 1), peerId := peerId, target := target,
           message := message, dispatchedAt := now }
  | _ => none

/-- The outcome that a message reports, and the task it reports it for. -/
def Message.settles? : Message → Option (String × Status)
  | .complete taskId => some (taskId, .completed)
  | .fail taskId reason => some (taskId, .failed reason)
  | _ => none

/-- What a message makes of a task that is recorded under `id`. -/
def Message.change (id : String) (task : Task) : Message → Option Task
  | .complete taskId =>
    some (if taskId = id then { task with status := .completed } else task)
  | .fail taskId reason =>
    some (if taskId = id then { task with status := .failed reason } else task)
  | .cleanup => if task.isPending then some task else none
  | .connectionClosed peerId 0 _ => some (if task.waitsFor peerId then task.lost else task)
  | _ => some task

theorem getElem?_updateTaskStatus (s : State) (taskId id : String) (status : Status) :
    (updateTaskStatus s taskId status).2.tasks[id]?
      = s.tasks[id]?.map fun task ↦
        if taskId = id then { task with status := status } else task := by
  rw [updateTaskStatus]
  by_cases hid : taskId = id
  · subst hid
    cases hget : s.tasks[taskId]? with
    | none => exact hget
    | some task => simp
  · cases hget : s.tasks[taskId]? with
    | none => simp [hid]
    | some task => simp [getElem?_insert_eq, hid]

theorem tasks_connectionClosed (s : State) (peerId : String) (alive : Pid → Bool) (id : String) :
    (handle (.connectionClosed peerId 0 alive) s).2.tasks[id]?
      = (losePeer s.tasks peerId).1[id]? := by
  rw [handle]
  split
  · next hnone =>
    -- nothing is listed, so nothing was marked
    rw [getElem?_losePeer]
    cases hget : s.tasks[id]? with
    | none => rfl
    | some task =>
      have hkeeps : task.waitsFor peerId = false := by
        by_contra hwaits
        have hmem : task.lost ∈ (losePeer s.tasks peerId).2 :=
          (mem_losePeer_snd _).mpr ⟨id, task, hget, Bool.not_eq_false _ ▸ hwaits, rfl⟩
        rw [hnone] at hmem
        cases hmem
      rw [Option.map_some, hkeeps]
      rfl
  · next hsome => rw [hsome]

/-- **What becomes of an entry**: a message that starts no task changes the entries one by one. -/
theorem getElem?_handle {m : Message} {s : State} (h : m.started? s = none) (id : String) :
    (handle m s).2.tasks[id]? = s.tasks[id]?.bind (m.change id) := by
  have hsame : s.tasks[id]? = s.tasks[id]?.bind some := (Option.bind_fun_some _).symm
  cases m with
  | dispatch => cases h
  | complete taskId => rw [handle, getElem?_updateTaskStatus, Option.map_eq_bind]; rfl
  | fail taskId reason => rw [handle, getElem?_updateTaskStatus, Option.map_eq_bind]; rfl
  | get taskId =>
    rw [handle]
    split <;> exact hsame
  | pendingForPeer => exact hsame
  | allPending => exact hsame
  | subscribe => exact hsame
  | cleanup =>
    rw [handle, ExtTreeMap.getElem?_filter']
    cases hget : s.tasks[id]? with
    | none => rfl
    | some task => rw [Option.filter_some]; rfl
  | unknownCall => exact hsame
  | connectionClosed peerId numEstablished alive =>
    cases numEstablished with
    | zero => rw [tasks_connectionClosed, getElem?_losePeer, Option.map_eq_bind]; rfl
    | succ n => exact hsame
  | other => exact hsame

theorem getElem?_handle_of_started {m : Message} {s : State} {task : Task}
    (h : m.started? s = some task) (id : String) :
    (handle m s).2.tasks[id]?
        = (if numbered "task-" (s.counter + 1) = id then some task else s.tasks[id]?)
      ∧ (handle m s).2.counter = s.counter + 1
      ∧ (handle m s).1 = [.reply (.id (numbered "task-" (s.counter + 1)))] := by
  cases m with
  | dispatch peerId target message now =>
    cases h
    exact ⟨getElem?_insert_eq _ _ _ _, rfl, rfl⟩
  | _ => cases h

theorem counter_handle {m : Message} {s : State} (h : m.started? s = none) :
    (handle m s).2.counter = s.counter := by
  cases m with
  | dispatch => cases h
  | complete => rw [handle, updateTaskStatus]; split <;> rfl
  | fail => rw [handle, updateTaskStatus]; split <;> rfl
  | get => rw [handle]; split <;> rfl
  | connectionClosed peerId numEstablished alive =>
    cases numEstablished with
    | zero => rw [handle]; split <;> rfl
    | succ n => rfl
  | _ => rfl

end TaskTracker

end NervesP2P
