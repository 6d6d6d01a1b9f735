import NervesP2P.Lib.Keyed
import NervesP2P.Lib.Maps
import NervesP2P.Lib.Server
import NervesP2P.Lib.Term

/-!
# The registry of event handlers

Processes register for the events of a node, and are monitored as long as they are registered. The
registry keeps this twice: for each kind of event the list of its subscribers with their monitors,
and for each monitor the registration it belongs to. A registration ends when it is withdrawn, when
the node goes away, or when the subscriber exits, which is when the monitor fires.

What the two maps stand for is one function, `registered`: from the node, the event and the
subscriber to the monitor of the registration. It is a fold over the messages, and says in a line
for each of them what a message means. That the maps are two presentations of this function is the
invariant; it says at once that they are inverse to each other, and that an event is sent to those
who are registered.

References are made by the runtime. A new one has not been seen before, and the message that a
monitor has fired names the process that was monitored.
-/

open Std (ExtTreeMap TransCmp LawfulEqCmp)

namespace NervesP2P

namespace HandlerRegistry

/-! ## State

Subscribers are listed by topic, newest first, and monitors are mapped to their registrations.
Neither map is derived from the other in the source. -/

abbrev Pid := ℕ

abbrev Ref := ℕ

/-- An event of a node. -/
structure Topic where
  node : Pid
  /-- An atom. -/
  event : String
  deriving DecidableEq

def Topic.cmp (a b : Topic) : Ordering := (compare a.node b.node).then (compare a.event b.event)

instance : TransCmp Topic.cmp :=
  inferInstanceAs (TransCmp (compareLex (compareOn Topic.node) (compareOn Topic.event)))

instance : LawfulEqCmp Topic.cmp where
  eq_of_compare {a b} h := by
    rw [Topic.cmp, Ordering.then_eq_eq] at h
    obtain ⟨hnode, hevent⟩ := h
    cases a
    cases b
    exact congrArg₂ Topic.mk (Std.compare_eq_iff_eq.mp hnode) (Std.compare_eq_iff_eq.mp hevent)

structure State where
  subscriptions : ExtTreeMap Topic (List (Pid × Ref)) Topic.cmp
  monitors : ExtTreeMap Ref (Pid × Topic)

inductive Message where
  /-- With the monitor that is made if there is none. -/
  | register (topic : Topic) (pid : Pid) (ref : Ref)
  | unregister (topic : Topic) (pid : Pid)
  | count (topic : Topic)
  | cleanupNode (node : Pid)
  | sync
  | unknownCall
  | dispatch (topic : Topic) (event : Term)
  | unknownCast
  | down (ref : Ref) (deadPid : Pid)
  | other

inductive Reply where
  | ok
  | count (n : ℕ)
  | unknownCall

inductive Effect where
  | monitor (pid : Pid) (ref : Ref)
  | demonitor (ref : Ref)
  | send (pid : Pid) (eventType : String) (event : Term)
  | reply (reply : Reply)

/-! ## Handlers

Each handler updates both maps. To withdraw a registration, to clean up after a node and to forget a
process that has exited are three loops of their own, and the last has a case without a clause for a
monitor of another process. -/

def State.entries (s : State) (topic : Topic) : List (Pid × Ref) :=
  s.subscriptions[topic]?.getD []

def alreadyRegistered (s : State) (topic : Topic) (pid : Pid) : Bool :=
  keymember pid (s.entries topic)

/-- Record what remains of a list of subscribers; an empty list is not kept. -/
def putRemaining (subscriptions : ExtTreeMap Topic (List (Pid × Ref)) Topic.cmp) (topic : Topic)
    (remaining : List (Pid × Ref)) : ExtTreeMap Topic (List (Pid × Ref)) Topic.cmp :=
  if remaining.isEmpty then subscriptions.erase topic else subscriptions.insert topic remaining

def removeSubscription (s : State) (topic : Topic) (pid : Pid) : List Effect × State :=
  match keyfind pid (s.entries topic) with
  | some (_, ref) =>
    ([.demonitor ref],
      { subscriptions := putRemaining s.subscriptions topic (keydelete pid (s.entries topic))
        monitors := s.monitors.erase ref })
  | none => ([], s)

/-- The case has no clause for a monitor of another process. -/
def removeDeadSubscriber (s : State) (ref : Ref) (deadPid : Pid) : Option State :=
  match s.monitors[ref]? with
  | some (pid, topic) =>
    if pid = deadPid then
      some { subscriptions :=
               putRemaining s.subscriptions topic (keydelete deadPid (s.entries topic))
             monitors := s.monitors.erase ref }
    else none
  | none => some s

/-- One entry of the loop over the subscriptions when a node is cleaned up. -/
def collect (node : Pid) (acc : List Topic × List Ref) (entry : Topic × List (Pid × Ref)) :
    List Topic × List Ref :=
  if entry.1.node = node then (entry.1 :: acc.1, entry.2.map Prod.snd ++ acc.2) else acc

def removeAllForNode (s : State) (node : Pid) : List Effect × State :=
  let drop := s.subscriptions.toList.foldl (collect node) ([], [])
  (drop.2.map .demonitor,
    { subscriptions := s.subscriptions.filter fun topic _ ↦ topic ∉ drop.1
      monitors := s.monitors.filter fun ref _ ↦ ref ∉ drop.2 })

def handle : Message → State → Option (List Effect × State)
  | .register topic pid ref, s =>
    if alreadyRegistered s topic pid then some ([.reply .ok], s)
    else some ([.monitor pid ref, .reply .ok],
      { subscriptions := s.subscriptions.insert topic ((pid, ref) :: s.entries topic)
        monitors := s.monitors.insert ref (pid, topic) })
  | .unregister topic pid, s =>
    let removed := removeSubscription s topic pid
    some (removed.1 ++ [.reply .ok], removed.2)
  | .count topic, s => some ([.reply (.count (s.entries topic).length)], s)
  | .cleanupNode node, s =>
    let removed := removeAllForNode s node
    some (removed.1 ++ [.reply .ok], removed.2)
  | .sync, s => some ([.reply .ok], s)
  | .unknownCall, s => some ([.reply .unknownCall], s)
  | .dispatch topic event, s =>
    some ((s.entries topic).map fun entry ↦ .send entry.1 topic.event event, s)
  | .unknownCast, s => some ([], s)
  | .down ref deadPid, s => (removeDeadSubscriber s ref deadPid).map fun s' ↦ ([], s')
  | .other, s => some ([], s)

def server : Server State Message Effect where
  init := ⟨∅, ∅⟩
  handle := handle

abbrev Turn := Server.Turn Message Effect

open Server (effects messages)

/-- What the runtime guarantees: a new reference has not been seen before, and a monitor fires for
the process it was made for. -/
def allowed (turns : List Turn) (_ : State) : Message → Prop
  | .register _ _ ref =>
    (∀ pid, Effect.monitor pid ref ∉ effects turns) ∧ ∀ pid, Message.down ref pid ∉ messages turns
  | .down ref deadPid => ∀ pid, Effect.monitor pid ref ∈ effects turns → pid = deadPid
  | _ => True

abbrev History (turns : List Turn) (s : State) : Prop :=
  server.History allowed turns s

/-! ## What registration means

Four messages change who is registered, and `Message.meaning` has a line for each. Who is registered
stays registered as before when they register again. A monitor that fires ends the one registration
it belongs to, and if it belongs to nobody it fires in vain. -/

/-- The monitor of each registration. -/
abbrev Registrations := Topic → Pid → Option Ref

/-- What a message does to the registrations. -/
def Message.meaning : Message → Registrations → Registrations
  | .register topic pid ref, r => fun t p ↦
    if topic = t ∧ pid = p then some ((r t p).getD ref) else r t p
  | .unregister topic pid, r => fun t p ↦ if topic = t ∧ pid = p then none else r t p
  | .cleanupNode node, r => fun t p ↦ if t.node = node then none else r t p
  | .down ref _, r => fun t p ↦ if r t p = some ref then none else r t p
  | _, r => r

/-- Who is registered after some messages. -/
def registered (ms : List Message) : Registrations :=
  ms.foldl (fun r m ↦ m.meaning r) fun _ _ ↦ none

variable {topic : Topic} {pid : Pid} {ref : Ref}

theorem registered_append (ms : List Message) (m : Message) :
    registered (ms ++ [m]) = m.meaning (registered ms) := by
  rw [registered, List.foldl_append, List.foldl_cons, List.foldl_nil]
  rfl

section Meaning

variable {r : Registrations} {topic : Topic} {pid : Pid} {ref : Ref}

theorem meaning_register_of_some {ref' : Ref} (h : r topic pid = some ref') :
    (Message.register topic pid ref).meaning r = r := by
  funext t p
  simp only [Message.meaning]
  split
  · next heq =>
    obtain ⟨rfl, rfl⟩ := heq
    rw [h]
    rfl
  · rfl

theorem meaning_register_of_none (h : r topic pid = none) :
    (Message.register topic pid ref).meaning r
      = fun t p ↦ if topic = t ∧ pid = p then some ref else r t p := by
  funext t p
  simp only [Message.meaning]
  split
  · next heq =>
    obtain ⟨rfl, rfl⟩ := heq
    rw [h]
    rfl
  · rfl

theorem meaning_unregister_of_none (h : r topic pid = none) :
    (Message.unregister topic pid).meaning r = r := by
  funext t p
  simp only [Message.meaning]
  split
  · next heq =>
    obtain ⟨rfl, rfl⟩ := heq
    exact h.symm
  · rfl

theorem meaning_down_of_forall (h : ∀ t p, r t p ≠ some ref) :
    (Message.down ref pid).meaning r = r := by
  funext t p
  simp only [Message.meaning]
  exact if_neg (h t p)

/-- A monitor ends the one registration it belongs to. -/
theorem meaning_down_of_some (deadPid : Pid)
    (h : ∀ t p, r t p = some ref ↔ topic = t ∧ pid = p) :
    (Message.down ref deadPid).meaning r
      = fun t p ↦ if topic = t ∧ pid = p then none else r t p := by
  funext t p
  simp only [Message.meaning, h]

end Meaning

/-! ## The two maps

To present a function is to list exactly its points, without repetitions and without empty lists. A
registration can be added to such maps or removed from them, and then they present the function with
one point more or less. A monitor belongs to one registration. -/

/-- Both maps present the registrations. -/
structure Presents (r : Registrations) (s : State) : Prop where
  entries : ∀ topic pid ref, (pid, ref) ∈ s.entries topic ↔ r topic pid = some ref
  monitors : ∀ (ref : Ref) pid topic, s.monitors[ref]? = some (pid, topic) ↔ r topic pid = some ref
  distinct : ∀ topic, DistinctKeys (s.entries topic)
  nonempty : ∀ topic : Topic, s.subscriptions[topic]? ≠ some []

section Maps

variable {s : State} {r : Registrations}

theorem entries_putRemaining (s : State) (topic : Topic) (remaining : List (Pid × Ref))
    (monitors : ExtTreeMap Ref (Pid × Topic)) (t : Topic) :
    State.entries ⟨putRemaining s.subscriptions topic remaining, monitors⟩ t
      = if topic = t then remaining else s.entries t := by
  rw [State.entries, putRemaining]
  by_cases hempty : remaining.isEmpty = true
  · rw [if_pos hempty, getElem?_erase_eq]
    split
    · exact (List.isEmpty_iff.mp hempty).symm
    · rfl
  · rw [if_neg hempty, getElem?_insert_eq]
    split <;> rfl

theorem putRemaining_ne_nil (h : ∀ t : Topic, s.subscriptions[t]? ≠ some []) (topic : Topic)
    (remaining : List (Pid × Ref)) (t : Topic) :
    (putRemaining s.subscriptions topic remaining)[t]? ≠ some [] := by
  rw [putRemaining]
  split
  · rw [getElem?_erase_eq]
    split
    · exact (Option.some_ne_none _).symm
    · exact h t
  · next hempty =>
    rw [getElem?_insert_eq]
    split
    · intro hnil
      rw [Option.some_inj] at hnil
      rw [hnil] at hempty
      exact hempty rfl
    · exact h t

/-- A monitor belongs to one registration. -/
theorem Presents.unique (h : Presents r s) {topic' : Topic} {pid' : Pid}
    (hr : r topic pid = some ref) (hr' : r topic' pid' = some ref) :
    topic = topic' ∧ pid = pid' := by
  have hmonitor := (h.monitors ref pid topic).mpr hr
  have hmonitor' := (h.monitors ref pid' topic').mpr hr'
  rw [hmonitor, Option.some_inj, Prod.mk.injEq] at hmonitor'
  exact ⟨hmonitor'.2, hmonitor'.1⟩

theorem Presents.remove (h : Presents r s) (hr : r topic pid = some ref) :
    Presents (fun t p ↦ if topic = t ∧ pid = p then none else r t p)
      ⟨putRemaining s.subscriptions topic (keydelete pid (s.entries topic)),
        s.monitors.erase ref⟩ where
  entries t p ref' := by
    rw [entries_putRemaining]
    split
    · next htopic =>
      subst htopic
      rw [(h.distinct topic).mem_keydelete, h.entries]
      by_cases hp : pid = p
      · simp [hp]
      · simp [hp, Ne.symm hp]
    · next htopic => simp [htopic, h.entries]
  monitors ref' p t := by
    rw [getElem?_erase_eq]
    split
    · next href =>
      subst href
      constructor
      · intro hnone
        cases hnone
      · intro hr'
        split at hr'
        · cases hr'
        · next hne => exact absurd (h.unique hr hr') hne
    · next href =>
      rw [h.monitors]
      split
      · next heq =>
        obtain ⟨rfl, rfl⟩ := heq
        simp [hr, href]
      · rfl
  distinct t := by
    rw [entries_putRemaining]
    split
    · exact (h.distinct topic).keydelete pid
    · exact h.distinct t
  nonempty t := putRemaining_ne_nil h.nonempty topic _ t

theorem Presents.add (h : Presents r s) (hnew : r topic pid = none)
    (hfresh : s.monitors[ref]? = none) :
    Presents (fun t p ↦ if topic = t ∧ pid = p then some ref else r t p)
      ⟨s.subscriptions.insert topic ((pid, ref) :: s.entries topic),
        s.monitors.insert ref (pid, topic)⟩ := by
  have hentries : ∀ t, State.entries ⟨s.subscriptions.insert topic ((pid, ref) :: s.entries topic),
      s.monitors.insert ref (pid, topic)⟩ t
        = if topic = t then (pid, ref) :: s.entries topic else s.entries t := by
    intro t
    rw [State.entries, getElem?_insert_eq]
    split <;> rfl
  have hnotin : ∀ ref', (pid, ref') ∉ s.entries topic := by
    intro ref' hmem
    rw [h.entries, hnew] at hmem
    cases hmem
  refine ⟨?_, ?_, ?_, ?_⟩
  · intro t p ref'
    rw [hentries]
    split
    · next htopic =>
      subst htopic
      rw [List.mem_cons, Prod.mk.injEq, h.entries]
      by_cases hp : pid = p
      · subst hp
        simp [hnew, eq_comm]
      · simp [hp, Ne.symm hp]
    · next htopic => simp [htopic, h.entries]
  · intro ref' p t
    rw [getElem?_insert_eq]
    split
    · next href =>
      subst href
      rw [Option.some_inj, Prod.mk.injEq]
      constructor
      · rintro ⟨rfl, rfl⟩
        simp
      · intro hr'
        split at hr'
        · next heq => exact ⟨heq.2, heq.1⟩
        · rw [← h.monitors, hfresh] at hr'
          cases hr'
    · next href =>
      rw [h.monitors]
      split
      · next heq =>
        obtain ⟨rfl, rfl⟩ := heq
        simp [hnew, href]
      · rfl
  · intro t
    rw [hentries]
    split
    · exact (h.distinct topic).cons hnotin
    · exact h.distinct t
  · intro t
    rw [getElem?_insert_eq]
    split
    · intro hnil
      cases hnil
    · exact h.nonempty t

/-! ### Cleaning up

All registrations of a node go at once. The loop collects topics and monitors from the entries of
the node, and the monitors that are given up are those of its registrations. -/

/-- The loop collects from the entries of the node. -/
theorem foldl_collect (node : Pid) (subscriptions : List (Topic × List (Pid × Ref)))
    (acc : List Topic × List Ref) :
    subscriptions.foldl (collect node) acc
      = ((subscriptions.filter fun entry ↦ entry.1.node = node).reverse.map Prod.fst ++ acc.1,
        ((subscriptions.filter fun entry ↦ entry.1.node = node).reverse.flatMap fun entry ↦
          entry.2.map Prod.snd) ++ acc.2) := by
  induction subscriptions generalizing acc with
  | nil => rfl
  | cons entry subscriptions ih =>
    rw [List.foldl_cons, ih, collect]
    by_cases hnode : entry.1.node = node
    · simp [hnode]
    · simp [hnode]

theorem mem_collect_topics (node : Pid) (subscriptions : List (Topic × List (Pid × Ref)))
    (topic : Topic) :
    topic ∈ (subscriptions.foldl (collect node) ([], [])).1
      ↔ topic.node = node ∧ ∃ list, (topic, list) ∈ subscriptions := by
  rw [foldl_collect]
  simp only [List.append_nil, List.mem_map, List.mem_reverse, List.mem_filter, decide_eq_true_iff]
  constructor
  · rintro ⟨⟨_, list⟩, ⟨hmem, hnode⟩, rfl⟩
    exact ⟨hnode, list, hmem⟩
  · rintro ⟨hnode, list, hmem⟩
    exact ⟨(topic, list), ⟨hmem, hnode⟩, rfl⟩

theorem mem_collect_refs (node : Pid) (subscriptions : List (Topic × List (Pid × Ref)))
    (ref : Ref) :
    ref ∈ (subscriptions.foldl (collect node) ([], [])).2
      ↔ ∃ topic list pid, (topic, list) ∈ subscriptions ∧ topic.node = node
        ∧ (pid, ref) ∈ list := by
  rw [foldl_collect]
  simp only [List.append_nil, List.mem_flatMap, List.mem_map, List.mem_reverse, List.mem_filter,
    decide_eq_true_iff]
  constructor
  · rintro ⟨⟨topic, list⟩, ⟨hmem, hnode⟩, ⟨pid, _⟩, hpid, rfl⟩
    exact ⟨topic, list, pid, hmem, hnode, hpid⟩
  · rintro ⟨topic, list, pid, hmem, hnode, hpid⟩
    exact ⟨(topic, list), ⟨hmem, hnode⟩, (pid, ref), hpid, rfl⟩

/-- The monitors that are given up with a node are those of its registrations. -/
theorem Presents.mem_dropped (h : Presents r s) (node : Pid) (ref : Ref) :
    ref ∈ (s.subscriptions.toList.foldl (collect node) ([], [])).2
      ↔ ∃ topic pid, topic.node = node ∧ r topic pid = some ref := by
  rw [mem_collect_refs]
  constructor
  · rintro ⟨topic, list, pid, hmem, hnode, hpid⟩
    refine ⟨topic, pid, hnode, (h.entries topic pid ref).mp ?_⟩
    rw [State.entries, ExtTreeMap.mem_toList_iff_getElem?_eq_some.mp hmem]
    exact hpid
  · rintro ⟨topic, pid, hnode, hr⟩
    have hpid := (h.entries topic pid ref).mpr hr
    rw [State.entries] at hpid
    cases hget : s.subscriptions[topic]? with
    | none => rw [hget] at hpid; cases hpid
    | some list =>
      rw [hget] at hpid
      exact ⟨topic, list, pid, ExtTreeMap.mem_toList_iff_getElem?_eq_some.mpr hget, hnode, hpid⟩

theorem Presents.cleanup (h : Presents r s) (node : Pid) :
    Presents (fun t p ↦ if t.node = node then none else r t p) (removeAllForNode s node).2 := by
  have htopics : ∀ t : Topic, (removeAllForNode s node).2.subscriptions[t]?
      = if t.node = node then none else s.subscriptions[t]? := by
    intro t
    rw [removeAllForNode, ExtTreeMap.getElem?_filter']
    cases hget : s.subscriptions[t]? with
    | none => simp
    | some list =>
      have hmem : t ∈ (s.subscriptions.toList.foldl (collect node) ([], [])).1 ↔ t.node = node := by
        rw [mem_collect_topics]
        exact ⟨And.left,
          fun hnode ↦ ⟨hnode, list, ExtTreeMap.mem_toList_iff_getElem?_eq_some.mpr hget⟩⟩
      by_cases hnode : t.node = node
      · simp [hmem, hnode]
      · simp [hmem, hnode]
  have hentries : ∀ t, (removeAllForNode s node).2.entries t
      = if t.node = node then [] else s.entries t := by
    intro t
    rw [State.entries, htopics]
    split <;> rfl
  refine ⟨?_, ?_, ?_, ?_⟩
  · intro t p ref
    rw [hentries]
    split
    · simp
    · exact h.entries t p ref
  · intro ref p t
    rw [removeAllForNode, ExtTreeMap.getElem?_filter', Option.filter_eq_some_iff, h.monitors,
      decide_eq_true_iff, h.mem_dropped]
    constructor
    · rintro ⟨hr, hkept⟩
      have hnode : t.node ≠ node := fun hnode ↦ hkept ⟨t, p, hnode, hr⟩
      rw [if_neg hnode]
      exact hr
    · intro hr
      split at hr
      · cases hr
      · next hnode =>
        refine ⟨hr, ?_⟩
        rintro ⟨topic, pid, htopic, hr'⟩
        exact hnode ((h.unique hr hr').1 ▸ htopic)
  · intro t
    rw [hentries]
    split
    · exact List.nodup_nil
    · exact h.distinct t
  · intro t
    rw [htopics]
    split
    · exact (Option.some_ne_none _).symm
    · exact h.nonempty t

end Maps

/-! ## Turns

`Coherent` adds the monitors of the runtime: those that were made, and neither given up nor fired,
are those of the registrations. A turn that makes no monitor keeps the ones that it neither gives up
nor sees fired. A turn that registers somebody makes one, and it is new. -/

/-- A monitor that was made, and has been neither given up nor fired. -/
structure Active (ref : Ref) (turns : List Turn) : Prop where
  made : ∃ pid, Effect.monitor pid ref ∈ effects turns
  kept : Effect.demonitor ref ∉ effects turns
  quiet : ∀ pid, Message.down ref pid ∉ messages turns

/-- The maps present the registrations, and the monitors of the registry are the active ones. -/
structure Coherent (turns : List Turn) (s : State) : Prop where
  presents : Presents (registered (messages turns)) s
  made : ∀ (ref : Ref) pid topic, s.monitors[ref]? = some (pid, topic) →
    Effect.monitor pid ref ∈ effects turns
  demonitored : ∀ ref, Effect.demonitor ref ∈ effects turns →
    ∃ pid, Effect.monitor pid ref ∈ effects turns
  active : ∀ ref : Ref, s.monitors[ref]?.isSome = true ↔ Active ref turns

theorem coherent_init : Coherent [] server.init := by
  have hsubscriptions : ∀ topic : Topic, server.init.subscriptions[topic]? = none := fun _ ↦
    ExtTreeMap.getElem?_empty
  have hmonitors : ∀ ref : Ref, server.init.monitors[ref]? = none := fun _ ↦
    ExtTreeMap.getElem?_empty
  have hentries : ∀ topic, server.init.entries topic = [] := by
    intro topic
    rw [State.entries, hsubscriptions]
    rfl
  refine ⟨⟨?_, ?_, ?_, ?_⟩, ?_, ?_, ?_⟩
  · intro topic pid ref
    rw [hentries]
    constructor <;>
      · intro h
        cases h
  · intro ref pid topic
    rw [hmonitors]
    constructor <;>
      · intro h
        cases h
  · intro topic
    rw [hentries]
    exact List.nodup_nil
  · intro topic
    rw [hsubscriptions]
    exact (Option.some_ne_none _).symm
  · intro ref pid topic h
    rw [hmonitors] at h
    cases h
  · intro ref h
    cases h
  · intro ref
    rw [hmonitors]
    constructor
    · intro h
      cases h
    · rintro ⟨⟨pid, hmade⟩, -, -⟩
      cases hmade

section Turns

variable {turns : List Turn} {s s' : State} {m : Message} {done : List Effect}

/-- A monitor that is not made in a turn is active after it if it was before, and is neither given
up nor fired in it. -/
theorem active_snoc (hmake : ∀ pid, Effect.monitor pid ref ∉ done) :
    Active ref (turns ++ [(m, done)])
      ↔ Active ref turns ∧ Effect.demonitor ref ∉ done ∧ ∀ pid, m ≠ .down ref pid := by
  have heffects : effects (turns ++ [(m, done)]) = effects turns ++ done := by simp
  have hmessages : messages (turns ++ [(m, done)]) = messages turns ++ [m] := by simp
  constructor
  · rintro ⟨⟨pid, hmade⟩, hkept, hquiet⟩
    rw [heffects, List.mem_append] at hmade hkept
    simp only [hmessages, List.mem_append, List.mem_singleton, not_or] at hquiet
    have hbefore : Effect.monitor pid ref ∈ effects turns := hmade.resolve_right (hmake pid)
    exact ⟨⟨⟨pid, hbefore⟩, fun hmem ↦ hkept (.inl hmem), fun pid ↦ (hquiet pid).1⟩,
      fun hmem ↦ hkept (.inr hmem), fun pid hdown ↦ (hquiet pid).2 hdown.symm⟩
  · rintro ⟨⟨⟨pid, hmade⟩, hkept, hquiet⟩, hnow, hdown⟩
    refine ⟨⟨pid, ?_⟩, ?_, ?_⟩
    · rw [heffects]
      exact List.mem_append_left _ hmade
    · rw [heffects, List.mem_append, not_or]
      exact ⟨hkept, hnow⟩
    · intro pid
      rw [hmessages, List.mem_append, List.mem_singleton, not_or]
      exact ⟨hquiet pid, fun heq ↦ hdown pid heq.symm⟩

theorem Coherent.keep (h : Coherent turns s)
    (hpresents : Presents (m.meaning (registered (messages turns))) s')
    (hmonitors : ∀ ref : Ref, s'.monitors[ref]? = s.monitors[ref]?
      ∨ s'.monitors[ref]? = none ∧ (Effect.demonitor ref ∈ done ∨ ∃ pid, m = .down ref pid))
    (hdemonitor : ∀ ref, Effect.demonitor ref ∈ done →
      s.monitors[ref]?.isSome = true ∧ s'.monitors[ref]? = none)
    (hdown : ∀ ref pid, m = .down ref pid → s'.monitors[ref]? = none)
    (hmake : ∀ pid ref, Effect.monitor pid ref ∉ done) : Coherent (turns ++ [(m, done)]) s' := by
  have heffects : effects (turns ++ [(m, done)]) = effects turns ++ done := by simp
  have hmessages : messages (turns ++ [(m, done)]) = messages turns ++ [m] := by simp
  refine ⟨?_, ?_, ?_, ?_⟩
  · rw [hmessages, registered_append]
    exact hpresents
  · intro ref pid topic hget
    rw [heffects]
    rcases hmonitors ref with hsame | ⟨hnone, -⟩
    · rw [hsame] at hget
      exact List.mem_append_left _ (h.made ref pid topic hget)
    · rw [hnone] at hget
      cases hget
  · intro ref hmem
    rw [heffects] at hmem ⊢
    have hmade : ∃ pid, Effect.monitor pid ref ∈ effects turns := by
      rcases List.mem_append.mp hmem with hbefore | hnow
      · exact h.demonitored ref hbefore
      · exact ((h.active ref).mp (hdemonitor ref hnow).1).made
    obtain ⟨pid, hpid⟩ := hmade
    exact ⟨pid, List.mem_append_left _ hpid⟩
  · intro ref
    rw [active_snoc (hmake · ref), ← h.active]
    constructor
    · intro hsome
      rcases hmonitors ref with hsame | ⟨hnone, -⟩
      · refine ⟨by rwa [← hsame], fun hmem ↦ ?_, fun pid hm ↦ ?_⟩
        · rw [(hdemonitor ref hmem).2] at hsome
          cases hsome
        · rw [hdown ref pid hm] at hsome
          cases hsome
      · rw [hnone] at hsome
        cases hsome
    · rintro ⟨hsome, hkept, hquiet⟩
      rcases hmonitors ref with hsame | ⟨-, hgiven | ⟨pid, hm⟩⟩
      · rwa [hsame]
      · exact absurd hgiven hkept
      · exact absurd hm (hquiet pid)

theorem Coherent.same (h : Coherent turns s)
    (hmeaning : m.meaning (registered (messages turns)) = registered (messages turns))
    (hdemonitor : ∀ ref, Effect.demonitor ref ∉ done)
    (hdown : ∀ ref pid, m = .down ref pid → s.monitors[ref]? = none)
    (hmake : ∀ pid ref, Effect.monitor pid ref ∉ done) : Coherent (turns ++ [(m, done)]) s := by
  refine h.keep ?_ (fun ref ↦ .inl rfl) (fun ref hmem ↦ absurd hmem (hdemonitor ref)) hdown hmake
  rw [hmeaning]
  exact h.presents

theorem Coherent.unregistered (h : Coherent turns s)
    (hnew : ¬alreadyRegistered s topic pid = true) :
    registered (messages turns) topic pid = none := by
  cases hr : registered (messages turns) topic pid with
  | none => rfl
  | some ref =>
    exact absurd (keymember_iff.mpr ⟨ref, (h.presents.entries topic pid ref).mpr hr⟩) hnew

theorem Coherent.active_new (h : Coherent turns s)
    (hfresh : allowed turns s (.register topic pid ref)) :
    Active ref (turns ++ [(.register topic pid ref, [.monitor pid ref, .reply .ok])]) := by
  refine ⟨⟨pid, by simp⟩, ?_, ?_⟩
  · intro hmem
    have hbefore : Effect.demonitor ref ∈ effects turns := by simpa using hmem
    obtain ⟨pid', hpid⟩ := h.demonitored ref hbefore
    exact hfresh.1 pid' hpid
  · intro pid' hmem
    exact hfresh.2 pid' (by simpa using hmem)

theorem Coherent.add (h : Coherent turns s) (hfresh : allowed turns s (.register topic pid ref))
    (hnew : ¬alreadyRegistered s topic pid = true) :
    Coherent (turns ++ [(.register topic pid ref, [.monitor pid ref, .reply .ok])])
      { subscriptions := s.subscriptions.insert topic ((pid, ref) :: s.entries topic)
        monitors := s.monitors.insert ref (pid, topic) } := by
  have hnone := h.unregistered hnew
  have hunused : s.monitors[ref]? = none := by
    cases hget : s.monitors[ref]? with
    | none => rfl
    | some entry => exact absurd (h.made ref entry.1 entry.2 hget) (hfresh.1 entry.1)
  have heffects : effects (turns ++ [(.register topic pid ref, [.monitor pid ref, .reply .ok])])
      = effects turns ++ [.monitor pid ref, .reply .ok] := by simp
  have hmonitors : ∀ ref' : Ref, (s.monitors.insert ref (pid, topic))[ref']?
      = if ref = ref' then some (pid, topic) else s.monitors[ref']? :=
    fun ref' ↦ getElem?_insert_eq _ _ _ _
  refine ⟨?_, ?_, ?_, ?_⟩
  · have hmessages : messages (turns ++ [(.register topic pid ref,
        [Effect.monitor pid ref, .reply .ok])]) = messages turns ++ [.register topic pid ref] := by
      simp
    rw [hmessages, registered_append, meaning_register_of_none hnone]
    exact h.presents.add hnone hunused
  · intro ref' pid' topic' hget
    rw [heffects]
    rw [hmonitors] at hget
    split at hget
    · next href =>
      cases hget
      subst href
      simp
    · exact List.mem_append_left _ (h.made ref' pid' topic' hget)
  · intro ref' hmem
    rw [heffects] at hmem ⊢
    obtain ⟨pid', hpid⟩ := h.demonitored ref' (by simpa using hmem)
    exact ⟨pid', List.mem_append_left _ hpid⟩
  · intro ref'
    rw [hmonitors]
    split
    · next href =>
      subst href
      exact ⟨fun _ ↦ h.active_new hfresh, fun _ ↦ rfl⟩
    · next href =>
      rw [h.active, active_snoc (by simp [Ne.symm href])]
      simp

theorem Coherent.register (h : Coherent turns s)
    (hfresh : allowed turns s (.register topic pid ref))
    (hhandle : handle (.register topic pid ref) s = some (done, s')) :
    Coherent (turns ++ [(.register topic pid ref, done)]) s' := by
  rw [handle] at hhandle
  split at hhandle
  · next hthere =>
    -- the registration and its monitor stay
    cases hhandle
    obtain ⟨ref', hmem⟩ := keymember_iff.mp hthere
    have hr := (h.presents.entries topic pid ref').mp hmem
    exact h.same (meaning_register_of_some hr) (by simp) (fun _ _ hdown ↦ by cases hdown) (by simp)
  · next hnew =>
    cases hhandle
    exact h.add hfresh hnew

theorem Coherent.unregister (h : Coherent turns s)
    (hhandle : handle (.unregister topic pid) s = some (done, s')) :
    Coherent (turns ++ [(.unregister topic pid, done)]) s' := by
  rw [handle, removeSubscription] at hhandle
  cases hfind : keyfind pid (s.entries topic) with
  | none =>
    rw [hfind] at hhandle
    cases hhandle
    have hnone : registered (messages turns) topic pid = none := by
      cases hr : registered (messages turns) topic pid with
      | none => rfl
      | some ref =>
        exact absurd ((h.presents.entries topic pid ref).mpr hr) (keyfind_eq_none.mp hfind ref)
    exact h.same (meaning_unregister_of_none hnone) (by simp) (fun _ _ hdown ↦ by cases hdown)
      (by simp)
  | some entry =>
    obtain ⟨pid', ref⟩ := entry
    obtain ⟨rfl, hmem⟩ := mem_of_keyfind hfind
    rw [hfind] at hhandle
    cases hhandle
    have hr := (h.presents.entries topic pid' ref).mp hmem
    have hmonitor := (h.presents.monitors ref pid' topic).mpr hr
    refine h.keep (h.presents.remove hr) ?_ ?_ (fun _ _ hdown ↦ by cases hdown) (by simp)
    · intro ref'
      change (s.monitors.erase ref)[ref']? = _ ∨ (s.monitors.erase ref)[ref']? = _ ∧ _
      rw [getElem?_erase_eq]
      split
      · next href =>
        subst href
        exact .inr ⟨rfl, .inl (by simp)⟩
      · exact .inl rfl
    · intro ref' hmem'
      obtain rfl : ref' = ref := by simpa using hmem'
      refine ⟨by rw [hmonitor]; rfl, ?_⟩
      change (s.monitors.erase ref')[ref']? = none
      rw [getElem?_erase_eq, if_pos rfl]

theorem Coherent.cleanup (h : Coherent turns s) {node : Pid}
    (hhandle : handle (.cleanupNode node) s = some (done, s')) :
    Coherent (turns ++ [(.cleanupNode node, done)]) s' := by
  rw [handle] at hhandle
  cases hhandle
  have hdropped : ∀ ref, Effect.demonitor ref ∈ (removeAllForNode s node).1 ++ [.reply .ok]
      ↔ ref ∈ (s.subscriptions.toList.foldl (collect node) ([], [])).2 := by
    intro ref
    rw [removeAllForNode]
    simp
  have hmonitors : ∀ ref : Ref, (removeAllForNode s node).2.monitors[ref]?
      = if ref ∈ (s.subscriptions.toList.foldl (collect node) ([], [])).2 then none
        else s.monitors[ref]? := by
    intro ref
    rw [removeAllForNode, ExtTreeMap.getElem?_filter']
    split
    · next hmem => cases s.monitors[ref]? <;> simp [hmem]
    · next hmem => cases s.monitors[ref]? <;> simp [hmem]
  refine h.keep (h.presents.cleanup node) ?_ ?_ (fun _ _ hdown ↦ by cases hdown) ?_
  · intro ref
    rw [hmonitors]
    split
    · next hmem => exact .inr ⟨rfl, .inl ((hdropped ref).mpr hmem)⟩
    · exact .inl rfl
  · intro ref hmem
    rw [hdropped] at hmem
    refine ⟨?_, by rw [hmonitors, if_pos hmem]⟩
    obtain ⟨topic, pid, -, hr⟩ := (h.presents.mem_dropped node ref).mp hmem
    rw [(h.presents.monitors ref pid topic).mpr hr]
    rfl
  · intro pid ref
    rw [removeAllForNode]
    simp

theorem Coherent.down (h : Coherent turns s) {deadPid : Pid}
    (hhandle : handle (.down ref deadPid) s = some (done, s')) :
    Coherent (turns ++ [(.down ref deadPid, done)]) s' := by
  rw [handle, removeDeadSubscriber] at hhandle
  cases hget : s.monitors[ref]? with
  | none =>
    rw [hget] at hhandle
    cases hhandle
    refine h.same (meaning_down_of_forall fun t p hr ↦ ?_) (by simp) ?_ (by simp)
    · rw [← h.presents.monitors, hget] at hr
      cases hr
    · intro ref' pid hdown
      cases hdown
      exact hget
  | some entry =>
    obtain ⟨pid, topic⟩ := entry
    rw [hget] at hhandle
    have hr := (h.presents.monitors ref pid topic).mp hget
    by_cases hpid : pid = deadPid
    · subst hpid
      simp only [if_true, Option.map_some, Option.some.injEq, Prod.mk.injEq] at hhandle
      obtain ⟨rfl, rfl⟩ := hhandle
      have hone : ∀ t p, registered (messages turns) t p = some ref ↔ topic = t ∧ pid = p := by
        intro t p
        constructor
        · exact fun hr' ↦ h.presents.unique hr hr'
        · rintro ⟨rfl, rfl⟩
          exact hr
      refine h.keep ?_ ?_ (by simp) ?_ (by simp)
      · rw [meaning_down_of_some pid hone]
        exact h.presents.remove hr
      · intro ref'
        rw [getElem?_erase_eq]
        split
        · next href =>
          subst href
          exact .inr ⟨rfl, .inr ⟨pid, rfl⟩⟩
        · exact .inl rfl
      · intro ref' pid' hdown
        cases hdown
        rw [getElem?_erase_eq, if_pos rfl]
    · simp [hpid] at hhandle

end Turns

/-! ## Runs

The invariant holds after every run by induction on its turns. Since only registering makes a
registration, a process that has lost its own is not registered until it registers again; and since
a monitor fires for the process it was made for, the clause that is missing is never needed. -/

theorem coherent_of_history {turns : List Turn} {s : State}
    (h : History turns s) : Coherent turns s := by
  induction h with
  | init => exact coherent_init
  | @step turns s s' m done hist hallowed hhandle ih =>
    have hhandle : handle m s = some (done, s') := hhandle
    cases m with
    | register topic pid ref => exact ih.register hallowed hhandle
    | unregister topic pid => exact ih.unregister hhandle
    | cleanupNode node => exact ih.cleanup hhandle
    | down ref deadPid => exact ih.down hhandle
    | dispatch topic event =>
      cases hhandle
      exact ih.same rfl (by simp) (fun _ _ hdown ↦ by cases hdown) (by simp)
    | _ =>
      cases hhandle
      exact ih.same rfl (by simp) (fun _ _ hdown ↦ by cases hdown) (by simp)

/-- A message after which a process is not registered, given what came before it. -/
def Ends (topic : Topic) (pid : Pid) (before : List Message) : Message → Prop
  | .unregister t p => t = topic ∧ p = pid
  | .cleanupNode node => node = topic.node
  | .down ref _ => registered before topic pid = some ref
  | _ => False

theorem meaning_of_ends {before : List Message} {m : Message} (h : Ends topic pid before m) :
    m.meaning (registered before) topic pid = none := by
  cases m with
  | unregister t p => exact if_pos h
  | cleanupNode node => exact if_pos h.symm
  | down ref p => exact if_pos h
  | _ => exact absurd h id

/-- Only registering makes a registration. -/
theorem foldl_meaning_of_none {later : List Message}
    (hlater : ∀ ref, Message.register topic pid ref ∉ later) {r : Registrations}
    (hr : r topic pid = none) : later.foldl (fun r m ↦ m.meaning r) r topic pid = none := by
  induction later generalizing r with
  | nil => exact hr
  | cons m later ih =>
    refine ih (fun ref hmem ↦ hlater ref (List.mem_cons_of_mem m hmem)) ?_
    cases m with
    | register t p ref =>
      refine (if_neg ?_).trans hr
      rintro ⟨rfl, rfl⟩
      exact hlater ref List.mem_cons_self
    | unregister t p => exact (ite_eq_left_iff.mpr fun _ ↦ hr)
    | cleanupNode node => exact (ite_eq_left_iff.mpr fun _ ↦ hr)
    | down ref p => exact (ite_eq_left_iff.mpr fun _ ↦ hr)
    | _ => exact hr

/-- No handler fails: a monitor that fires names the subscriber it was made for. -/
theorem exists_handle {turns : List Turn} {s : State} (h : Coherent turns s)
    {m : Message} (hallowed : allowed turns s m) : ∃ done s', handle m s = some (done, s') := by
  cases m with
  | down ref deadPid =>
    cases hget : s.monitors[ref]? with
    | none => exact ⟨[], s, by simp [handle, removeDeadSubscriber, hget]⟩
    | some entry =>
      have hpid : entry.1 = deadPid := hallowed entry.1 (h.made ref entry.1 entry.2 hget)
      exact ⟨[], _, by simp [handle, removeDeadSubscriber, hget, hpid]; rfl⟩
  | register topic pid ref =>
    rw [handle]
    split <;> exact ⟨_, _, rfl⟩
  | _ => exact ⟨_, _, rfl⟩

/-- **The registry.** In every run the two maps are inverse to each other, with no process twice in
a list and no empty list; no message makes the registry fail; an event is sent once to each process
that is registered, and a process is not registered after its registration has ended, until it
registers again; and a monitor is active exactly as long as it belongs to a registration. -/
theorem registry_coherent {turns : List Turn} {s : State} (h : History turns s) :
    ((∀ (ref : Ref) pid topic, s.monitors[ref]? = some (pid, topic) ↔ (pid, ref) ∈ s.entries topic)
      ∧ (∀ topic, ((s.entries topic).map Prod.fst).Nodup)
      ∧ ∀ topic : Topic, s.subscriptions[topic]? ≠ some [])
      ∧ (∀ m, allowed turns s m → ∃ done s', handle m s = some (done, s'))
      ∧ (∀ topic event, ∃ pids : List Pid, pids.Nodup
        ∧ handle (.dispatch topic event) s
          = some (pids.map fun pid ↦ .send pid topic.event event, s)
        ∧ ∀ pid, pid ∈ pids ↔ (registered (messages turns) topic pid).isSome = true)
      ∧ (∀ before m done after topic pid, turns = before ++ (m, done) :: after →
        Ends topic pid (messages before) m →
        (∀ ref, Message.register topic pid ref ∉ messages after) →
        registered (messages turns) topic pid = none)
      ∧ ∀ ref, Active ref turns ↔ ∃ topic pid, (pid, ref) ∈ s.entries topic := by
  have hcoherent := coherent_of_history h
  have hpresents := hcoherent.presents
  have hinverse : ∀ (ref : Ref) pid topic,
      s.monitors[ref]? = some (pid, topic) ↔ (pid, ref) ∈ s.entries topic := by
    intro ref pid topic
    rw [hpresents.monitors, hpresents.entries]
  refine ⟨⟨hinverse, hpresents.distinct, hpresents.nonempty⟩,
    fun m hallowed ↦ exists_handle hcoherent hallowed, ?_, ?_, ?_⟩
  · intro topic event
    refine ⟨(s.entries topic).map Prod.fst, hpresents.distinct topic, ?_, ?_⟩
    · rw [handle, List.map_map]
      rfl
    · intro pid
      rw [List.mem_map, Option.isSome_iff_exists]
      constructor
      · rintro ⟨⟨_, ref⟩, hmem, rfl⟩
        exact ⟨ref, (hpresents.entries topic _ ref).mp hmem⟩
      · rintro ⟨ref, hr⟩
        exact ⟨(pid, ref), (hpresents.entries topic pid ref).mpr hr, rfl⟩
  · intro before m done after topic pid hturns hends hlater
    rw [hturns, Server.messages_append, Server.messages_cons, registered, List.foldl_append,
      List.foldl_cons]
    exact foldl_meaning_of_none hlater (meaning_of_ends hends)
  · intro ref
    rw [← hcoherent.active, Option.isSome_iff_exists]
    constructor
    · rintro ⟨⟨pid, topic⟩, hget⟩
      exact ⟨topic, pid, (hinverse ref pid topic).mp hget⟩
    · rintro ⟨topic, pid, hmem⟩
      exact ⟨(pid, topic), (hinverse ref pid topic).mpr hmem⟩

/-! ### A subscriber that exits

Three processes are registered for one kind of event, and the one that exits for another kind as
well. Of its two monitors the first has fired. -/

def closedTopic : Topic := ⟨1, "connection_closed"⟩

def mdnsTopic : Topic := ⟨1, "mdns_discovered"⟩

def exitTurns : List Turn :=
  [(.register closedTopic 5 9, [.monitor 5 9, .reply .ok]),
    (.register closedTopic 6 10, [.monitor 6 10, .reply .ok]),
    (.register mdnsTopic 5 11, [.monitor 5 11, .reply .ok]),
    (.register closedTopic 7 12, [.monitor 7 12, .reply .ok]), (.down 9 5, [])]

theorem history_exitTurns : ∃ s, History exitTurns s
    ∧ s.entries closedTopic = [(7, 12), (6, 10)] ∧ s.entries mdnsTopic = [(5, 11)] := by
  have hfirst : History (exitTurns.take 1) _ :=
    Server.History.init.step ⟨by simp, by simp⟩ rfl
  have hsecond : History (exitTurns.take 2) _ :=
    hfirst.step ⟨by simp [exitTurns], by simp [exitTurns]⟩ rfl
  have hthird : History (exitTurns.take 3) _ :=
    hsecond.step ⟨by simp [exitTurns], by simp [exitTurns]⟩ rfl
  have hfourth : History (exitTurns.take 4) _ :=
    hthird.step ⟨by simp [exitTurns], by simp [exitTurns]⟩ rfl
  have hexit : History exitTurns _ := hfourth.step (by simp [allowed, exitTurns]) rfl
  exact ⟨_, hexit, rfl, rfl⟩

/-- The other monitor of the process is still active, and it may be told once more that the first
has fired. -/
theorem registry_coherent_exit :
    ∃ s, History exitTurns s ∧ (∃ done s', handle (.down 9 5) s = some (done, s'))
      ∧ Active 10 exitTurns ∧ Active 11 exitTurns
      ∧ registered (messages exitTurns) closedTopic 5 = none
      ∧ ∃ pids : List Pid, pids = [7, 6] ∧ pids.Nodup
        ∧ handle (.dispatch closedTopic (.atom "event")) s
          = some (pids.map fun pid ↦ .send pid "connection_closed" (.atom "event"), s) := by
  obtain ⟨s, hexit, hclosed, hmdns⟩ := history_exitTurns
  obtain ⟨⟨-, hdistinct, -⟩, hhandles, -, hended, hactive⟩ := registry_coherent hexit
  have hdown : allowed exitTurns s (.down 9 5) := by simp [allowed, exitTurns]
  refine ⟨s, hexit, hhandles _ hdown, (hactive 10).mpr ⟨closedTopic, 6, ?_⟩,
    (hactive 11).mpr ⟨mdnsTopic, 5, ?_⟩,
    hended (exitTurns.take 4) (.down 9 5) [] [] closedTopic 5 rfl rfl (by simp),
    (s.entries closedTopic).map Prod.fst, ?_, hdistinct closedTopic, ?_⟩
  · simp [hclosed]
  · simp [hmdns]
  · rw [hclosed]
    rfl
  · rw [handle, hclosed]
    rfl

end HandlerRegistry

end NervesP2P
