import NervesP2P.Otp.TaskTracker

/-!
# Orphaned tasks

What the subscribers of a tracker are told when a peer is lost is exact, in every run: the tasks
that are pending for the peer, each once, and no task is reported in two reports. The invariant that
carries this is about pending tasks: such a task has been neither reported nor settled before. The
other half of it is that a name is never given out twice, so that a new task has no past.

Outcomes are another matter. A message that reports the outcome of a task overwrites whatever
outcome is recorded, also that of a task that was given up and reported. The outcomes of a run are
final exactly when no such message comes late.
-/

open Std (ExtTreeMap)

namespace NervesP2P

namespace TaskTracker

open Server (effects)
variable {s : State} {id : String} {task : Task} {m : Message}

/-! ## Reports

A report goes out when the last connection to a peer is closed, and lists what the loop over the
tasks has listed. Nothing else is reported. -/

/-- The name that a dispatch returns. -/
def Effect.dispatched? : Effect → Option String
  | .reply (.id id) => some id
  | _ => none

def Effect.orphaned : Effect → List Task
  | .peerLost _ _ orphaned => orphaned
  | .reply _ => []

/-- The tasks that were reported, in order. -/
def reported (done : List Effect) : List Task := done.flatMap Effect.orphaned

def reportedIds (done : List Effect) : List String := (reported done).map Task.id

theorem reportedIds_append (done done' : List Effect) :
    reportedIds (done ++ done') = reportedIds done ++ reportedIds done' := by
  rw [reportedIds, reported, List.flatMap_append, List.map_append]
  rfl

theorem reported_connectionClosed (s : State) (peerId : String) (alive : Pid → Bool) :
    reported (handle (.connectionClosed peerId 0 alive) s).1 = (losePeer s.tasks peerId).2 := by
  rw [handle]
  split
  · next hnone => rw [hnone]; rfl
  · next hsome => rw [hsome]; exact List.append_nil _

theorem exists_of_mem_reported (h : task ∈ reported (handle m s).1) :
    ∃ peerId alive, m = .connectionClosed peerId 0 alive ∧ task ∈ (losePeer s.tasks peerId).2 := by
  cases m with
  | connectionClosed peerId numEstablished alive =>
    cases numEstablished with
    | zero =>
      rw [reported_connectionClosed] at h
      exact ⟨peerId, alive, rfl, h⟩
    | succ n => cases h
  | complete =>
    rw [handle, updateTaskStatus] at h
    split at h <;> cases h
  | fail =>
    rw [handle, updateTaskStatus] at h
    split at h <;> cases h
  | get =>
    rw [handle] at h
    split at h <;> cases h
  | _ => cases h

theorem dispatched_handle (h : m.started? s = none) :
    (handle m s).1.filterMap Effect.dispatched? = [] := by
  cases m with
  | dispatch => cases h
  | complete => rw [handle, updateTaskStatus]; split <;> rfl
  | fail => rw [handle, updateTaskStatus]; split <;> rfl
  | get => rw [handle]; split <;> rfl
  | connectionClosed peerId numEstablished alive =>
    cases numEstablished with
    | zero => rw [handle]; split <;> rfl
    | succ n => rfl
  | _ => rfl

theorem exists_of_acknowledged {status : Status}
    (h : (updateTaskStatus s id status).1 = [.reply .ok]) : ∃ task, s.tasks[id]? = some task := by
  rw [updateTaskStatus] at h
  split at h
  · next task hget => exact ⟨task, hget⟩
  · cases h

/-! ## Tasks without a past

`Unsettled` is about the history of a task: no report has listed it, and no message has told an
outcome of it. A message leaves a task as it is, or gives it a status other than pending, so what a
turn settles is not pending after it. -/

/-- Nothing has been reported about a task, neither by the tracker nor to it. -/
structure Unsettled (id : String) (turns : List Turn) : Prop where
  reported : id ∉ reportedIds (effects turns)
  completed : (Message.complete id, [Effect.reply .ok]) ∉ turns
  failed : ∀ reason, (Message.fail id reason, [Effect.reply .ok]) ∉ turns

theorem Unsettled.append {turns turns' : List Turn} (h : Unsettled id turns)
    (h' : Unsettled id turns') : Unsettled id (turns ++ turns') where
  reported hmem := by
    rw [Server.effects_append, reportedIds_append] at hmem
    exact (List.mem_append.mp hmem).elim h.reported h'.reported
  completed hmem := (List.mem_append.mp hmem).elim h.completed h'.completed
  failed reason hmem := (List.mem_append.mp hmem).elim (h.failed reason) (h'.failed reason)

section Turns

variable {m : Message} {s : State} {turns : List Turn}

theorem change_cases {task' : Task} (h : m.change id task = some task') :
    task' = task
      ∨ ∃ status, task' = { task with status := status } ∧ task'.isPending = false := by
  unfold Message.change at h
  split at h
  · -- completed
    cases h
    split
    · exact .inr ⟨_, rfl, rfl⟩
    · exact .inl rfl
  · -- failed
    cases h
    split
    · exact .inr ⟨_, rfl, rfl⟩
    · exact .inl rfl
  · -- cleaned up
    split at h
    · cases h
      exact .inl rfl
    · cases h
  · -- lost
    cases h
    split
    · exact .inr ⟨_, rfl, rfl⟩
    · exact .inl rfl
  · cases h
    exact .inl rfl

/-- **What a turn settles**: a task that is there, and is not pending after it. -/
theorem exists_of_settled
    (hkeys : ∀ (id : String) (task : Task), s.tasks[id]? = some task → task.id = id)
    (h : ¬Unsettled id [(m, (handle m s).1)]) :
    ∃ task, s.tasks[id]? = some task
      ∧ ∀ task', (handle m s).2.tasks[id]? = some task' → task'.isPending = false := by
  by_contra hnone
  refine h ⟨fun hmem ↦ hnone ?_, fun hmem ↦ hnone ?_, fun reason hmem ↦ hnone ?_⟩
  · rw [Server.effects_cons, Server.effects_nil, List.append_nil, reportedIds,
      List.mem_map] at hmem
    obtain ⟨task, hmem, rfl⟩ := hmem
    obtain ⟨peerId, alive, rfl, hlisted⟩ := exists_of_mem_reported hmem
    obtain ⟨id, before, hget, hwaits, rfl⟩ := (mem_losePeer_snd _).mp hlisted
    obtain rfl : before.lost.id = id := hkeys id before hget
    refine ⟨before, hget, fun task' hget' ↦ ?_⟩
    rw [tasks_connectionClosed, getElem?_losePeer, hget, Option.map_some, if_pos hwaits] at hget'
    cases hget'
    rfl
  · rw [List.mem_singleton, Prod.mk.injEq] at hmem
    obtain ⟨rfl, hok⟩ := hmem
    obtain ⟨task, hget⟩ := exists_of_acknowledged hok.symm
    refine ⟨task, hget, fun task' hget' ↦ ?_⟩
    rw [handle, getElem?_updateTaskStatus, hget, Option.map_some, if_pos rfl] at hget'
    cases hget'
    rfl
  · rw [List.mem_singleton, Prod.mk.injEq] at hmem
    obtain ⟨rfl, hok⟩ := hmem
    obtain ⟨task, hget⟩ := exists_of_acknowledged hok.symm
    refine ⟨task, hget, fun task' hget' ↦ ?_⟩
    rw [handle, getElem?_updateTaskStatus, hget, Option.map_some, if_pos rfl] at hget'
    cases hget'
    rfl

/-! ## The invariant

Names are given out in order, so that a new task has a new name and no history. What is pending has
no past, and since a report lists pending tasks only and marks them, none of them is reported
again. -/

/-- Names are given out in order, and what is pending has no past. -/
structure Tracked (turns : List Turn) (s : State) : Prop where
  dispatched : (effects turns).filterMap Effect.dispatched? = names "task-" s.counter
  keys : ∀ (id : String) (task : Task), s.tasks[id]? = some task → task.id = id
  named : ∀ (id : String) (task : Task), s.tasks[id]? = some task → id ∈ names "task-" s.counter
  pending : ∀ (id : String) (task : Task), s.tasks[id]? = some task → task.isPending = true →
    Unsettled id turns
  known : ∀ id, id ∉ names "task-" s.counter → Unsettled id turns
  reported : (reportedIds (effects turns)).Nodup

theorem tracked_init : Tracked [] server.init := by
  have hnone : ∀ (id : String) (task : Task), server.init.tasks[id]? ≠ some task :=
    getElem?_empty_ne_some
  have hfresh : ∀ id, Unsettled id [] := fun _ ↦
    ⟨List.not_mem_nil, List.not_mem_nil, fun _ ↦ List.not_mem_nil⟩
  exact ⟨rfl, fun id task h ↦ absurd h (hnone id task), fun id task h ↦ absurd h (hnone id task),
    fun id _ _ _ ↦ hfresh id, fun id _ ↦ hfresh id, List.nodup_nil⟩

theorem nodup_losePeer_ids
    (hkeys : ∀ (id : String) (task : Task), s.tasks[id]? = some task → task.id = id)
    (peerId : String) : ((losePeer s.tasks peerId).2.map Task.id).Nodup := by
  have hids : (s.tasks.toList.map Prod.snd).map Task.id = s.tasks.keys := by
    rw [← ExtTreeMap.map_fst_toList_eq_keys, List.map_map]
    refine List.map_congr_left fun entry hentry ↦ ?_
    exact hkeys entry.1 entry.2 (ExtTreeMap.mem_toList_iff_getElem?_eq_some.mp hentry)
  have hnodup : ((s.tasks.toList.map Prod.snd).map Task.id).Nodup := by
    rw [hids]
    exact ExtTreeMap.nodup_keys
  rw [losePeer_snd, List.map_reverse, List.nodup_reverse, List.map_map]
  exact hnodup.sublist (List.filter_sublist.map Task.id)

theorem nodup_reportedIds_handle
    (hkeys : ∀ (id : String) (task : Task), s.tasks[id]? = some task → task.id = id) :
    (reportedIds (handle m s).1).Nodup := by
  by_cases hreport : ∃ peerId alive, m = .connectionClosed peerId 0 alive
  · obtain ⟨peerId, alive, rfl⟩ := hreport
    rw [reportedIds, reported_connectionClosed]
    exact nodup_losePeer_ids hkeys peerId
  · have hnil : reported (handle m s).1 = [] := by
      refine List.eq_nil_iff_forall_not_mem.mpr fun task hmem ↦ hreport ?_
      obtain ⟨peerId, alive, hm, -⟩ := exists_of_mem_reported hmem
      exact ⟨peerId, alive, hm⟩
    rw [reportedIds, hnil]
    exact List.nodup_nil

theorem Tracked.unsettled_of_reported (h : Tracked turns s)
    (hid : id ∈ reportedIds (handle m s).1) : Unsettled id turns := by
  rw [reportedIds, List.mem_map] at hid
  obtain ⟨task, hmem, rfl⟩ := hid
  obtain ⟨peerId, alive, rfl, hlisted⟩ := exists_of_mem_reported hmem
  obtain ⟨id, found, hget, hwaits, rfl⟩ := (mem_losePeer_snd _).mp hlisted
  have hfound : found.lost.id = id := h.keys id found hget
  rw [Task.waitsFor, Bool.and_eq_true] at hwaits
  rw [hfound]
  exact h.pending id found hget hwaits.1

theorem Tracked.started (h : Tracked turns s) (hstarted : m.started? s = some task) :
    Tracked (turns ++ [(m, (handle m s).1)]) (handle m s).2 := by
  have hentries := fun id ↦ (getElem?_handle_of_started hstarted id).1
  obtain ⟨-, hcounter, hdone⟩ := getElem?_handle_of_started hstarted ""
  have htask : task.id = numbered "task-" (s.counter + 1) := by
    cases m with
    | dispatch => cases hstarted; rfl
    | _ => cases hstarted
  have hturn : ∀ id, Unsettled id [(m, (handle m s).1)] := by
    intro id
    rw [hdone]
    refine ⟨List.not_mem_nil, fun hmem ↦ ?_, fun reason hmem ↦ ?_⟩ <;>
      · rw [List.mem_singleton, Prod.mk.injEq] at hmem
        cases hmem.2
  have hnew : Unsettled (numbered "task-" (s.counter + 1)) turns :=
    h.known _ (numbered_notMem_names _ _)
  have heffects : effects (turns ++ [(m, (handle m s).1)])
      = effects turns ++ [.reply (.id (numbered "task-" (s.counter + 1)))] := by
    rw [Server.effects_append, hdone]
    rfl
  refine ⟨?_, ?_, ?_, ?_, ?_, ?_⟩
  · rw [heffects, List.filterMap_append, h.dispatched, hcounter, names_succ]
    rfl
  · intro id task' hget
    rw [hentries] at hget
    split at hget
    · next hid => cases hget; rw [htask, hid]
    · exact h.keys id task' hget
  · intro id task' hget
    rw [hentries] at hget
    rw [hcounter, names_succ]
    split at hget
    · next hid => exact List.mem_append_right _ (by rw [hid]; exact List.mem_singleton_self id)
    · exact List.mem_append_left _ (h.named id task' hget)
  · intro id task' hget hpending
    rw [hentries] at hget
    split at hget
    · next hid =>
      rw [← hid]
      exact hnew.append (hturn _)
    · exact (h.pending id task' hget hpending).append (hturn id)
  · intro id hid
    rw [hcounter, names_succ] at hid
    exact (h.known id fun hmem ↦ hid (List.mem_append_left _ hmem)).append (hturn id)
  · rw [heffects, reportedIds_append]
    exact List.nodup_append.mpr ⟨h.reported, List.nodup_nil, fun _ _ _ hmem ↦ by cases hmem⟩

/-- Any other message: what is pending after it was pending before it, and was not settled by it. -/
theorem Tracked.changed (h : Tracked turns s) (hstarted : m.started? s = none) :
    Tracked (turns ++ [(m, (handle m s).1)]) (handle m s).2 := by
  have hcounter := counter_handle hstarted
  have heffects : effects (turns ++ [(m, (handle m s).1)]) = effects turns ++ (handle m s).1 := by
    simp
  have hentry : ∀ (id : String) (task' : Task), (handle m s).2.tasks[id]? = some task' →
      ∃ task, s.tasks[id]? = some task ∧ m.change id task = some task' := by
    intro id task' hget
    rw [getElem?_handle hstarted, Option.bind_eq_some_iff] at hget
    exact hget
  refine ⟨?_, ?_, ?_, ?_, ?_, ?_⟩
  · rw [heffects, List.filterMap_append, dispatched_handle hstarted, List.append_nil, h.dispatched,
      hcounter]
  · intro id task' hget
    obtain ⟨task, hbefore, hchange⟩ := hentry id task' hget
    rcases change_cases hchange with rfl | ⟨status, rfl, -⟩
    · exact h.keys id _ hbefore
    · exact h.keys id task hbefore
  · intro id task' hget
    obtain ⟨task, hbefore, -⟩ := hentry id task' hget
    rw [hcounter]
    exact h.named id task hbefore
  · intro id task' hget hpending
    obtain ⟨task, hbefore, hchange⟩ := hentry id task' hget
    have htask : task.isPending = true := by
      rcases change_cases hchange with rfl | ⟨status, -, hnot⟩
      · exact hpending
      · rw [hnot] at hpending
        cases hpending
    refine (h.pending id task hbefore htask).append ?_
    by_contra hsettled
    obtain ⟨-, -, hafter⟩ := exists_of_settled h.keys hsettled
    rw [hafter task' hget] at hpending
    cases hpending
  · intro id hid
    rw [hcounter] at hid
    refine (h.known id hid).append ?_
    by_contra hsettled
    obtain ⟨task, hget, -⟩ := exists_of_settled h.keys hsettled
    exact hid (h.named id task hget)
  · rw [heffects, reportedIds_append]
    refine List.nodup_append.mpr ⟨h.reported, nodup_reportedIds_handle h.keys, ?_⟩
    rintro id hbefore _ hnow rfl
    exact (h.unsettled_of_reported hnow).reported hbefore

end Turns

/-! ## Runs -/

theorem tracked_of_history {turns : List Turn} (h : History turns s) : Tracked turns s := by
  induction h with
  | init => exact tracked_init
  | @step turns s s' m done hist _ hhandle ih =>
    obtain ⟨rfl, rfl⟩ := handle_of_server hhandle
    cases hstarted : m.started? s with
    | some task => exact ih.started hstarted
    | none => exact ih.changed hstarted

theorem isPending_iff : task.isPending = true ↔ task.status = .pending := by
  rw [Task.isPending]
  cases task.status <;> simp

/-- What happens when the last connection to a peer is closed: the tasks that are pending for it are
reported, each once, to all living subscribers, and marked as failed. -/
structure ReportsExactly (peerId : String) (alive : Pid → Bool) (done : List Effect)
    (s s' : State) : Prop where
  exact : ∀ task, task ∈ reported done ↔ ∃ (id : String) (before : Task),
    s.tasks[id]? = some before ∧ before.status = .pending ∧ before.peerId = peerId
      ∧ task = { before with status := .peerLost }
  once : (reportedIds done).Nodup
  sent : done = if (reported done).isEmpty then []
    else [.peerLost (s.subscribers.filter alive) peerId (reported done)]
  marked : ∀ id : String, s'.tasks[id]? = s.tasks[id]?.map fun task ↦
    if task.isPending ∧ task.peerId = peerId then { task with status := .peerLost } else task

theorem waitsFor_iff {peerId : String} :
    task.waitsFor peerId = true ↔ task.isPending = true ∧ task.peerId = peerId := by
  rw [Task.waitsFor, Bool.and_eq_true, beq_iff_eq]

theorem reportsExactly_handle {turns : List Turn} (h : Tracked turns s) (peerId : String)
    (alive : Pid → Bool) :
    ReportsExactly peerId alive (handle (.connectionClosed peerId 0 alive) s).1 s
      (handle (.connectionClosed peerId 0 alive) s).2 where
  exact task := by
    rw [reported_connectionClosed, mem_losePeer_snd]
    simp only [waitsFor_iff, isPending_iff, and_assoc]
    rfl
  once := by
    rw [reportedIds, reported_connectionClosed]
    exact nodup_losePeer_ids h.keys peerId
  sent := by
    rw [reported_connectionClosed, handle]
    split
    · next hnone => rw [hnone]; rfl
    · next hsome hlisted =>
      rw [hlisted, if_neg]
      rw [List.isEmpty_iff]
      exact hsome
  marked id := by
    rw [tasks_connectionClosed, getElem?_losePeer]
    simp only [waitsFor_iff]
    rfl

/-- **Orphans.** In every run, each loss of a peer is reported exactly; no task is reported twice,
or after an outcome of it was reported to the tracker; no name is given out twice; and a cleanup
removes no pending task. -/
theorem orphans_exact {turns : List Turn} {s : State} (h : History turns s) :
    (∀ before peerId alive done after,
      turns = before ++ (.connectionClosed peerId 0 alive, done) :: after →
        ∃ s₁ s₂, History before s₁
          ∧ History (before ++ [(.connectionClosed peerId 0 alive, done)]) s₂
          ∧ ReportsExactly peerId alive done s₁ s₂)
      ∧ (reportedIds (effects turns)).Nodup
      ∧ (∀ before m done after, turns = before ++ (m, done) :: after →
        ∀ id ∈ reportedIds done, (Message.complete id, [Effect.reply .ok]) ∉ before
          ∧ ∀ reason, (Message.fail id reason, [Effect.reply .ok]) ∉ before)
      ∧ ((effects turns).filterMap Effect.dispatched?).Nodup
      ∧ ∀ before done after, turns = before ++ (.cleanup, done) :: after →
        ∃ s₁ s₂, History before s₁ ∧ History (before ++ [(.cleanup, done)]) s₂
          ∧ ∀ (id : String) (task : Task), s₁.tasks[id]? = some task → task.status = .pending →
            s₂.tasks[id]? = some task := by
  have htracked := tracked_of_history h
  refine ⟨?_, htracked.reported, ?_, ?_, ?_⟩
  · intro before peerId alive done after hturns
    subst hturns
    obtain ⟨s₁, s₂, h₁, -, hhandle, h₂⟩ := h.split
    obtain ⟨rfl, rfl⟩ := handle_of_server hhandle
    exact ⟨s₁, _, h₁, h₂, reportsExactly_handle (tracked_of_history h₁) peerId alive⟩
  · intro before m done after hturns id hid
    subst hturns
    obtain ⟨s₁, s₂, h₁, -, hhandle, -⟩ := h.split
    obtain ⟨rfl, rfl⟩ := handle_of_server hhandle
    have hunsettled := (tracked_of_history h₁).unsettled_of_reported hid
    exact ⟨hunsettled.completed, hunsettled.failed⟩
  · rw [htracked.dispatched]
    exact nodup_names _ _
  · intro before done after hturns
    subst hturns
    obtain ⟨s₁, s₂, h₁, -, hhandle, h₂⟩ := h.split
    obtain ⟨rfl, rfl⟩ := handle_of_server hhandle
    refine ⟨s₁, _, h₁, h₂, fun id task hget hpending ↦ ?_⟩
    rw [getElem?_handle rfl, hget, Option.bind_some]
    exact if_pos (isPending_iff.mpr hpending)

/-- Two tasks of one peer, of which one is completed; then the peer is lost twice. -/
theorem orphans_exact_run :
    ∃ turns s, server.run [.dispatch "peer" "worker" (.atom "job") 0,
        .dispatch "peer" "worker" (.atom "job") 1, .complete "task-1",
        .connectionClosed "peer" 0 fun _ ↦ true, .connectionClosed "peer" 0 fun _ ↦ true]
          = some (turns, s)
      ∧ reportedIds (effects turns) = ["task-2"] ∧ (reportedIds (effects turns)).Nodup := by
  obtain ⟨turns, s, hrun, hids⟩ : ∃ turns s, server.run
      [.dispatch "peer" "worker" (.atom "job") 0, .dispatch "peer" "worker" (.atom "job") 1,
        .complete "task-1", .connectionClosed "peer" 0 fun _ ↦ true,
        .connectionClosed "peer" 0 fun _ ↦ true] = some (turns, s)
      ∧ reportedIds (effects turns) = ["task-2"] := ⟨_, _, rfl, rfl⟩
  exact ⟨turns, s, hrun, hids, (orphans_exact (Server.history_run hrun)).2.1⟩

/-! ## Outcomes

A message in time finds its task pending, or with that outcome already, and then it leaves every
status that is not pending. A late one is recorded whatever was recorded before. So finality is the
same as that no message is late, in both directions. -/

/-- A message that reports an outcome finds its task pending, or with that outcome already. -/
def Timely (m : Message) (s : State) : Prop :=
  ∀ id status, m.settles? = some (id, status) → ∀ task : Task, s.tasks[id]? = some task →
    task.status = .pending ∨ task.status = status

/-- A task that is no longer pending keeps its status for the rest of the run. -/
def OutcomesFinal (turns : List Turn) : Prop :=
  ∀ before middle after s₁ s₂, turns = before ++ middle ++ after →
    History before s₁ → History (before ++ middle) s₂ →
    ∀ (id : String) (task task' : Task), s₁.tasks[id]? = some task → task.status ≠ .pending →
      s₂.tasks[id]? = some task' → task'.status = task.status

theorem change_of_timely {task' : Task} (htimely : Timely m s) (hget : s.tasks[id]? = some task)
    (hsettled : task.status ≠ .pending) (h : m.change id task = some task') :
    task'.status = task.status := by
  unfold Message.change at h
  split at h
  · next taskId =>
    cases h
    split
    · next hid =>
      subst hid
      rcases htimely taskId .completed rfl task hget with hpending | hsame
      · exact absurd hpending hsettled
      · exact hsame.symm
    · rfl
  · next taskId reason =>
    cases h
    split
    · next hid =>
      subst hid
      rcases htimely taskId (.failed reason) rfl task hget with hpending | hsame
      · exact absurd hpending hsettled
      · exact hsame.symm
    · rfl
  · split at h
    · cases h
      rfl
    · cases h
  · cases h
    split
    · next hwaits => exact absurd (isPending_iff.mp (waitsFor_iff.mp hwaits).1) hsettled
    · rfl
  · cases h
    rfl

/-- The task of a name has a status, or it is gone and does not come back. -/
structure Settled (id : String) (status : Status) (s : State) : Prop where
  status : ∀ task : Task, s.tasks[id]? = some task → task.status = status
  named : id ∈ names "task-" s.counter

/-- A message in time leaves a settled task as it is. -/
theorem Settled.step {status : Status} (h : Settled id status s) (hstatus : status ≠ .pending)
    (htimely : Timely m s) :
    Settled id status (handle m s).2 := by
  cases hstarted : m.started? s with
  | some task =>
    obtain ⟨hentry, hcounter, -⟩ := getElem?_handle_of_started hstarted id
    have hne : numbered "task-" (s.counter + 1) ≠ id := by
      rintro rfl
      exact numbered_notMem_names _ _ h.named
    rw [if_neg hne] at hentry
    refine ⟨fun task hget ↦ h.status task (hentry ▸ hget), ?_⟩
    rw [hcounter, names_succ]
    exact List.mem_append_left _ h.named
  | none =>
    refine ⟨fun task' hget ↦ ?_, ?_⟩
    · rw [getElem?_handle hstarted, Option.bind_eq_some_iff] at hget
      obtain ⟨task, hbefore, hchange⟩ := hget
      have hkeeps : task.status = status := h.status task hbefore
      rw [← hkeeps] at hstatus ⊢
      exact change_of_timely htimely hbefore hstatus hchange
    · rw [counter_handle hstarted]
      exact h.named

/-- The outcome that a message reports is recorded, whatever was recorded before. -/
theorem exists_of_settles {status : Status} (hsettles : m.settles? = some (id, status))
    (hget : s.tasks[id]? = some task) :
    (handle m s).2.tasks[id]? = some { task with status := status } := by
  cases m with
  | complete =>
    cases hsettles
    rw [handle, getElem?_updateTaskStatus, hget, Option.map_some, if_pos rfl]
  | fail =>
    cases hsettles
    rw [handle, getElem?_updateTaskStatus, hget, Option.map_some, if_pos rfl]
  | _ => cases hsettles

/-- **Outcomes are final exactly in the runs without late reports.** -/
theorem outcomesFinal_iff {turns : List Turn} {s : State} (h : History turns s) :
    OutcomesFinal turns ↔ ∀ before m done after s₁, turns = before ++ (m, done) :: after →
      History before s₁ → Timely m s₁ := by
  constructor
  · intro hfinal before m done after s₁ hturns hbefore id status hsettles task hget
    subst hturns
    obtain ⟨s₁', s₂, h₁, -, hhandle, h₂⟩ := h.split
    obtain rfl := h₁.unique hbefore
    obtain ⟨rfl, rfl⟩ := handle_of_server hhandle
    by_contra hlate
    obtain ⟨hpending, hdiffers⟩ := not_or.mp hlate
    have hafter := exists_of_settles hsettles hget
    have hsame := hfinal before [(m, (handle m s₁').1)] after s₁' _ (by simp) h₁ h₂ id task _ hget
      hpending hafter
    exact hdiffers hsame.symm
  · intro htimely before middle after s₁ s₂ hturns h₁ h₂ id task task' hget hsettled hget'
    have hstart : Settled id task.status s₁ := by
      refine ⟨fun found hfound ↦ ?_, (tracked_of_history h₁).named id task hget⟩
      rw [hget, Option.some_inj] at hfound
      rw [hfound]
    -- every turn in between is in time
    have hend : Settled id task.status s₂ := by
      refine h₁.preserved h₂ hstart ?_
      intro first m done last s s' hmiddle hfirst hhandle hsettledNow
      obtain ⟨rfl, rfl⟩ := handle_of_server hhandle
      refine hsettledNow.step hsettled ?_
      refine htimely (before ++ first) m (handle m s).1 (last ++ after) s ?_ hfirst
      rw [hturns, hmiddle]
      simp
    exact hend.status task' hget'

theorem timely_concat {turns : List Turn} {done : List Effect} (h : History turns s)
    (hm : Timely m s) (hturns : ∀ before m' done' after s₁, turns = before ++ (m', done') :: after →
      History before s₁ → Timely m' s₁) (before : List Turn) (m' : Message) (done' : List Effect)
    (after : List Turn) (s₁ : State)
    (hsplit : turns ++ [(m, done)] = before ++ (m', done') :: after) (hbefore : History before s₁) :
    Timely m' s₁ := by
  rcases List.eq_nil_or_concat after with rfl | ⟨after, turn, rfl⟩
  · obtain ⟨rfl, hlast⟩ := List.append_inj' hsplit rfl
    obtain ⟨rfl, -⟩ := Prod.mk.inj (List.cons.inj hlast).1
    obtain rfl := h.unique hbefore
    exact hm
  · rw [List.concat_eq_append, ← List.cons_append, ← List.append_assoc] at hsplit
    exact hturns before m' done' after s₁ (List.append_inj' hsplit rfl).1 hbefore

/-- All messages are in time, one after the other. -/
def AllTimely : List Message → State → Prop
  | [], _ => True
  | m :: ms, s => Timely m s ∧ AllTimely ms (handle m s).2

theorem AllTimely.turns {ms : List Message} {turns later : List Turn} {s' : State}
    (hms : AllTimely ms s) (h : History turns s) (hrun : server.runFrom ms s = some (later, s'))
    (hturns : ∀ before m done after s₁, turns = before ++ (m, done) :: after →
      History before s₁ → Timely m s₁) (before : List Turn) (m : Message) (done : List Effect)
    (after : List Turn) (s₁ : State) (hsplit : turns ++ later = before ++ (m, done) :: after)
    (hbefore : History before s₁) : Timely m s₁ := by
  induction ms generalizing turns later s with
  | nil =>
    cases hrun
    rw [List.append_nil] at hsplit
    exact hturns before m done after s₁ hsplit hbefore
  | cons m' ms ih =>
    obtain ⟨⟨rest, s₂⟩, hrest, heq⟩ := Option.map_eq_some_iff.mp hrun
    cases heq
    have hstep : History (turns ++ [(m', (handle m' s).1)]) (handle m' s).2 := h.step trivial rfl
    rw [List.append_cons] at hsplit
    exact ih hms.2 hstep hrest (timely_concat h hms.1 hturns) hsplit

/-- Of two tasks, one is completed while it is pending. The other is lost with their peer, and the
first is reported as completed once more. -/
def completedTwice : List Message :=
  [.dispatch "peer" "worker" (.atom "job") 0, .dispatch "peer" "worker" (.atom "job") 1,
    .complete "task-1", .connectionClosed "peer" 0 fun _ ↦ true, .complete "task-1"]

theorem allTimely_completedTwice : AllTimely completedTwice server.init := by
  have htask : ∀ s status, s.tasks["task-1"]?.map Task.status = some status →
      status = .pending ∨ status = .completed → Timely (.complete "task-1") s := by
    rintro s status hstatus hor id _ ⟨⟩ task hget
    rw [hget] at hstatus
    obtain rfl := Option.some.inj hstatus
    exact hor
  have hother : ∀ m s, m.settles? = none → Timely m s := by
    intro m s hnone id status hsettles
    rw [hnone] at hsettles
    cases hsettles
  exact ⟨hother _ _ rfl, hother _ _ rfl, htask _ .pending rfl (Or.inl rfl), hother _ _ rfl,
    htask _ .completed rfl (Or.inr rfl), trivial⟩

theorem outcomesFinal_completed :
    ∃ turns s, server.run completedTwice = some (turns, s) ∧ OutcomesFinal turns
      ∧ s.tasks["task-1"]?.map Task.status = some .completed
      ∧ s.tasks["task-2"]?.map Task.status = some .peerLost := by
  obtain ⟨turns, s, hrun, hfirst, hsecond⟩ : ∃ turns s, server.run completedTwice = some (turns, s)
      ∧ s.tasks["task-1"]?.map Task.status = some .completed
      ∧ s.tasks["task-2"]?.map Task.status = some .peerLost := ⟨_, _, rfl, rfl, rfl⟩
  refine ⟨turns, s, hrun, (outcomesFinal_iff (Server.history_run hrun)).mpr ?_, hfirst, hsecond⟩
  exact allTimely_completedTwice.turns .init hrun (by simp)

/-- A task whose peer is lost is reported, and completed afterwards. -/
theorem outcome_overwritten :
    ∃ turns s, server.run [.dispatch "peer" "worker" (.atom "job") 0,
        .connectionClosed "peer" 0 fun _ ↦ true, .complete "task-1"] = some (turns, s)
      ∧ reportedIds (effects turns) = ["task-1"]
      ∧ s.tasks["task-1"]?.map Task.status = some .completed ∧ ¬OutcomesFinal turns := by
  refine ⟨_, _, rfl, rfl, rfl, fun hfinal ↦ ?_⟩
  have hlost := Server.history_run (show server.run [.dispatch "peer" "worker" (.atom "job") 0,
    .connectionClosed "peer" 0 fun _ ↦ true] = some _ from rfl)
  have hlate := Server.history_run (show server.run [.dispatch "peer" "worker" (.atom "job") 0,
    .connectionClosed "peer" 0 fun _ ↦ true, .complete "task-1"] = some _ from rfl)
  have hsame := hfinal _ [_] [] _ _ rfl hlost hlate "task-1" _ _ rfl Status.noConfusion rfl
  cases hsame

end TaskTracker

end NervesP2P
