import NervesP2P.Daemon.Basic

/-!
# What a step of the daemon does

A step of the daemon touches the registry, the table of the network, the streams and the channel of
events. Each is looked at apart here, so that what holds of one of them along a run does not need
all the cases of `Daemon.Step`. The handlers are methods put together from calls of the registry and
of single streams, and stay within the preorder `Evolves` because their parts do.

## How the cases are divided

The steps of the loop and the steps of the streams have little in common. A turn of the loop is a
method, and all that is used of it is that it stays within `Evolves` (`Turn.evolves`). A step of a
stream is a step of `Side`, and it moves the loop only if the loop is connecting this stream: then
`settle` takes it back to its commands. After these two facts each of the sections below asks one
question of a step and answers it with one lemma: `Step.registry`, `Step.listens?`, `Step.network`
and `Step.stream`.
-/

namespace NervesP2P

/-! ## What the loop may change

A preorder on daemons, and for each handler the proof that it keeps within it. A call of the
interface never moves the task of a stream (`Side.Called.task`), which is why streams can be
followed through a turn of the loop by their tasks. Where the loop is has no part in what it may
change (`evolves_main`), so the points at which handlers await need no cases. Of the commands only
`dist_listen` is looked at more closely: it refuses any name but that of the node. -/

/-- A call of the interface has succeeded on the side. -/
def Side.Called (s s' : Side) : Prop := ∃ action : Action, action.isCall = true ∧ s.Step action s'

/-- A call leaves the task where it is. -/
theorem Side.Called.task {s s' : Side} (h : s.Called s') : s'.task = s.task := by
  obtain ⟨action, hcall, hstep⟩ := h
  cases hstep with
  | send h =>
    obtain ⟨-, entry, -, -, -, rfl⟩ := returns_send.mp h
    rfl
  | credit h =>
    obtain ⟨-, entry, -, -, -, rfl⟩ := returns_credit.mp h
    rfl
  | close h =>
    obtain ⟨-, -, rfl⟩ := returns_close.mp h
    rfl
  | _ => exact absurd hcall Bool.false_ne_true

theorem Side.task_of_called {s s' : Side} (h : Relation.ReflTransGen Called s s') :
    s'.task = s.task := by
  induction h with
  | refl => rfl
  | tail _ hcall ih => exact hcall.task.trans ih

theorem Side.within_send (bytes : List UInt8) :
    (send bytes).Within (Relation.ReflTransGen Called) := by
  rw [Method.within_iff]
  refine ⟨fun s u s' h ↦ .single ⟨.sent bytes, rfl, .send h⟩, fun s err s' h ↦ ?_⟩
  rw [(fails_issue h).1]

theorem Side.within_credit (bytes : ℕ) :
    (credit bytes).Within (Relation.ReflTransGen Called) := by
  rw [Method.within_iff]
  refine ⟨fun s u s' h ↦ .single ⟨.granted bytes, rfl, .credit h⟩, fun s err s' h ↦ ?_⟩
  rw [(fails_issue h).1]

theorem Side.within_close : close.Within (Relation.ReflTransGen Called) := by
  rw [Method.within_iff]
  refine ⟨fun s u s' h ↦ .single ⟨.closeAsked, rfl, .close h⟩, fun s err s' h ↦ ?_⟩
  rw [(fails_close h).1]

/-- Calls have succeeded on the stream, and nothing else has happened to it. -/
structure Stream.Called {I : Iroh} (s s' : Stream I) : Prop where
  remote : s'.remote = s.remote
  id : s'.id = s.id
  side : Relation.ReflTransGen Side.Called s.side s'.side

theorem Stream.Called.refl {I : Iroh} (s : Stream I) : s.Called s := ⟨rfl, rfl, .refl⟩

theorem Stream.Called.trans {I : Iroh} {s s' s'' : Stream I} (h : s.Called s')
    (h' : s'.Called s'') : s.Called s'' :=
  ⟨h'.remote.trans h.remote, h'.id.trans h.id, h.side.trans h'.side⟩

theorem Stream.Called.task {I : Iroh} {s s' : Stream I} (h : s.Called s') :
    s'.side.task = s.side.task :=
  Side.task_of_called h.side

/-- The name that the handler of `dist_listen` carries along. -/
def Main.listens? : Main → Option Text
  | .polling _ (.listen nodeName) | .syncing _ (.listen nodeName) | .synced _ (.listen nodeName)
  | .listening nodeName => some nodeName
  | _ => none

namespace Daemon

variable {I : Iroh} {S : Type} [SequenceStore I S]
variable {d d' : Daemon I S} {i : ℕ} {stream : Stream I} {labels : List (Label I)}

/-- The loop changes its registry through the interface of the registry and the streams through
theirs. Only `resolves` begins to connect, and a node listens under no name but its own. -/
structure Evolves (d d' : Daemon I S) : Prop where
  nodeName : d'.nodeName = d.nodeName
  registry : Relation.ReflTransGen (fun r r' ↦ ∃ op : Operation I, r' = op.run r)
    d.registry d'.registry
  network : d'.network = d.network ∨ d'.network = some .new
  streams : ∀ i : ℕ, Option.Rel Stream.Called d.streams[i]? d'.streams[i]?
  events : d'.events = d.events
  main : ∀ i, d'.main = .connecting i → d.main = .connecting i
  listens : ∀ name, d'.main.listens? = some name →
    d.main.listens? = some name ∨ name = d.nodeName

theorem rel_called_refl (stream : Option (Stream I)) : Option.Rel Stream.Called stream stream := by
  cases stream with
  | none => exact .none
  | some s => exact .some (Stream.Called.refl s)

theorem Evolves.refl (d : Daemon I S) : d.Evolves d :=
  ⟨rfl, .refl, Or.inl rfl, fun _ ↦ rel_called_refl _, rfl, fun _ ↦ id, fun _ ↦ Or.inl⟩

theorem Evolves.trans {d'' : Daemon I S} (h : d.Evolves d') (h' : d'.Evolves d'') :
    d.Evolves d'' where
  nodeName := h'.nodeName.trans h.nodeName
  registry := h.registry.trans h'.registry
  network := by
    rcases h'.network with heq | hnew
    · rw [heq]
      exact h.network
    · exact Or.inr hnew
  streams i := by
    have hfirst := h.streams i
    have hsecond := h'.streams i
    generalize d.streams[i]? = a, d'.streams[i]? = b, d''.streams[i]? = c at hfirst hsecond
    cases hfirst with
    | none => exact hsecond
    | some hs =>
      cases hsecond with
      | some hs' => exact .some (hs.trans hs')
  events := h'.events.trans h.events
  main i hi := h.main i (h'.main i hi)
  listens name hname := by
    rcases h'.listens name hname with hold | rfl
    · exact h.listens name hold
    · exact Or.inr h.nodeName

instance : IsPreorder (Daemon I S) Evolves where
  refl := Evolves.refl
  trans _ _ _ := Evolves.trans

section Within

open Method

variable {α : Type}

theorem within_parsed (value : Option α) :
    (parsed value : Method (Daemon I S) HandleError α).Within Evolves := by
  cases value with
  | none => exact within_throw _
  | some value => exact within_pure value

theorem within_onRegistry {m : Method (Registry I S) Error α}
    (h : ∀ r, ∃ op : Operation I, m.after r = op.run r) : (onRegistry m).Within Evolves := by
  refine Within.mapError (Within.zoom (Q := fun r r' ↦ ∃ op : Operation I, r' = op.run r) h
    fun d r hop ↦ ?_) _
  exact { Evolves.refl d with registry := .single hop }

theorem within_onOutbound (m : Method S Error α) :
    (onOutbound m : Method (Daemon I S) HandleError α).Within Evolves :=
  fun d ↦ { Evolves.refl d with }

theorem evolves_main (d : Daemon I S) (main : Main) (h : ∀ i, main ≠ .connecting i)
    (hlistens : ∀ name, main.listens? = some name →
      d.main.listens? = some name ∨ name = d.nodeName) : d.Evolves { d with main } :=
  { Evolves.refl d with main := fun i hi ↦ absurd hi (h i), listens := hlistens }

theorem evolves_idle (d : Daemon I S) (main : Main) (h : ∀ i, main ≠ .connecting i)
    (hlistens : main.listens? = none) : d.Evolves { d with main } :=
  d.evolves_main main h fun _ hname ↦ absurd (hname.symm.trans hlistens) (Option.some_ne_none _)

theorem within_await (main : Main) (h : ∀ i, main ≠ .connecting i)
    (hlistens : main.listens? = none) :
    (await main : Method (Daemon I S) HandleError (Option (Response I))).Within Evolves :=
  fun d ↦ d.evolves_idle main h hlistens

theorem within_answer (response : Response I) :
    (answer response : Method (Daemon I S) HandleError (Option (Response I))).Within Evolves :=
  fun d ↦ d.evolves_idle .selecting (by simp) rfl

theorem within_poll (now : UInt64) (next : Next) (h : ∀ name, next ≠ .listen name) :
    (poll now next : Method (Daemon I S) HandleError (Option (Response I))).Within Evolves := by
  refine within_get.bind fun daemon ↦ within_await _ (fun i ↦ ?_) ?_
  · split <;> simp
  · cases next with
    | listen other => exact absurd rfl (h other)
    | _ => split <;> rfl

/-- The handler of `dist_listen` refuses any name but that of the node. -/
theorem within_distListen (nodeName : Text) (now : UInt64) :
    (handle (.distListen nodeName) now : Method (Daemon I S) HandleError
      (Option (Response I))).Within Evolves := by
  simp only [handle, poll, await]
  rw [within_iff]
  constructor
  · intro d response d' h
    simp only [returns_bind, returns_get, returns_failIf, returns_modify, returns_pure,
      not_ne_iff] at h
    obtain ⟨_, _, ⟨rfl, rfl⟩, _, _, ⟨hname, rfl⟩, _, _, ⟨rfl, rfl⟩, _, _, rfl, -, rfl⟩ := h
    refine d.evolves_main _ (fun i ↦ ?_) fun name hlistens ↦ Or.inr ?_
    · split <;> simp
    · split at hlistens <;> exact (Option.some.inj hlistens).symm.trans hname
  · intro d error d' h
    simp only [fails_bind, fails_get, fails_failIf, fails_modify, fails_pure, returns_get,
      and_false, exists_false, or_false, false_or] at h
    obtain ⟨_, _, ⟨rfl, rfl⟩, -, -, rfl⟩ := h
    exact Evolves.refl d

theorem rel_called_modify {streams : List (Stream I)} {side : Side}
    (h : ∀ stream, streams[i]? = some stream →
      Relation.ReflTransGen Side.Called stream.side side) (j : ℕ) :
    Option.Rel Stream.Called streams[j]?
      (streams.modify i fun stream ↦ { stream with side })[j]? := by
  rw [List.getElem?_modify]
  by_cases hij : i = j
  · subst hij
    cases hs : streams[i]? with
    | none => exact .none
    | some stream =>
      simp only [↓reduceIte, Option.map_eq_map, Option.map_some]
      exact .some ⟨rfl, rfl, h stream hs⟩
  · simpa [hij] using rel_called_refl streams[j]?

theorem within_onStream (number : UInt64) {m : Method Side DistError Unit}
    (h : m.Within (Relation.ReflTransGen Side.Called)) :
    (onStream number m : Method (Daemon I S) HandleError (Option (Response I))).Within
      Evolves := by
  refine within_get.bind fun daemon ↦ (within_failIf _ _).bind fun _ ↦
    ((h.zoom fun d side hside ↦ ?_).mapError _).bind fun _ ↦ within_pure _
  refine { Evolves.refl d with streams := rel_called_modify fun stream hstream ↦ ?_ }
  rwa [Daemon.side, hstream] at hside

theorem within_handle (command : Command I) (now : UInt64) :
    (handle command now : Method (Daemon I S) HandleError (Option (Response I))).Within
      Evolves := by
  have hreceive : ∀ envelope : List UInt8,
      (onRegistry (Registry.receive envelope now) : Method (Daemon I S) _ _).Within Evolves :=
    fun envelope ↦ within_onRegistry fun _ ↦ ⟨.receive envelope now, rfl⟩
  have hauthorize : ∀ (e : I.EndpointId) (name : Text),
      (onRegistry (Registry.authorize e name) : Method (Daemon I S) _ _).Within Evolves :=
    fun e name ↦ within_onRegistry fun _ ↦ ⟨.authorize e name, rfl⟩
  cases command with
  | identity => exact within_get.bind fun _ ↦ within_pure _
  | authorize endpoint nodeName =>
    exact (within_parsed endpoint).bind fun e ↦ (hauthorize e nodeName).bind fun _ ↦ within_pure _
  | networkStart =>
    exact within_get.bind fun _ ↦ (within_failIf _ _).bind fun _ ↦ within_await _ (by simp) rfl
  | publish draft =>
    exact (within_lift _).bind fun _ ↦ within_get.bind fun _ ↦ (within_onOutbound _).bind fun _ ↦
      (within_lift _).bind fun envelope ↦ (hreceive envelope).bind fun _ ↦
        within_await _ (by simp) rfl
  | ingest envelope endpoint nodeName =>
    exact (within_parsed endpoint).bind fun e ↦ (hauthorize e nodeName).bind fun _ ↦
      (within_parsed envelope).bind fun bytes ↦ (hreceive bytes).bind fun _ ↦
        within_await _ (by simp) rfl
  | find predicates => exact within_poll now _ (by simp)
  | distListen nodeName => exact within_distListen nodeName now
  | distConnect fromNode targetNode =>
    exact within_get.bind fun _ ↦ (within_failIf _ _).bind fun _ ↦ within_poll now _ (by simp)
  | distSend stream bytes =>
    exact (within_parsed bytes).bind fun bytes ↦
      within_onStream stream (Side.within_send bytes)
  | distCredit stream bytes => exact within_onStream stream (Side.within_credit bytes)
  | distClose stream => exact within_onStream stream Side.within_close
  | shutdown =>
    exact (within_modify fun d ↦ d.evolves_idle .stopped (by simp) rfl).bind fun _ ↦ within_pure _

theorem evolves_resume (order : HashOrder (ActiveRecord I)) {now : UInt64} {next : Next}
    (h : d.main = .synced now next) :
    d.Evolves ((resume order now next).after d) := by
  cases next with
  | tick => exact within_await .selecting (by simp) rfl d
  | ingested => exact within_answer _ d
  | published sequence envelope =>
    refine (within_get.bind fun daemon ↦ ?_) d
    split
    · exact within_await _ (by simp) rfl
    · exact within_answer _
  | find predicates =>
    refine ((within_lift _).bind fun predicates ↦ (within_onRegistry fun _ ↦
      ⟨.find order predicates now, rfl⟩).bind fun _ ↦ within_answer _) d
  | listen nodeName =>
    refine d.evolves_main (.listening nodeName) (by simp) fun name hname ↦ Or.inl ?_
    rwa [h]
  | connect fromNode targetNode =>
    exact within_await (.resolving fromNode targetNode) (by simp) rfl d

/-- **The loop stays within its bounds.** -/
theorem Turn.evolves {m : Method (Daemon I S) HandleError (Option (Response I))} (h : d.Turn m) :
    d.Evolves (m.after d) := by
  cases h with
  | command command now _ => exact within_handle command now d
  | joinFails | pollFails | startFails | broadcastFails => exact Evolves.refl d
  | tick now _ => exact within_poll now .tick (by simp) d
  | eof => exact within_await .stopped (by simp) rfl d
  | @polled now next hmain =>
    refine d.evolves_main (.syncing now next) (by simp) fun name hname ↦ Or.inl ?_
    rw [hmain]
    cases next <;> exact hname
  | @received envelope now next _ =>
    exact { Evolves.refl d with registry := .single ⟨.receive envelope now, rfl⟩ }
  | resume order hmain => exact evolves_resume order hmain
  | started => exact { d.evolves_idle .selecting (by simp) rfl with network := Or.inr rfl }
  | broadcast => exact within_answer _ d

theorem Turn.of_returns {response : Option (Response I)}
    {m : Method (Daemon I S) HandleError (Option (Response I))} (h : d.Turn m)
    (hm : m.Returns d response d') : d.Evolves d' :=
  hm.after_eq ▸ h.evolves

theorem Turn.of_fails {error : HandleError}
    {m : Method (Daemon I S) HandleError (Option (Response I))} (h : d.Turn m)
    (hm : m.Fails d error d') : d.Evolves d' :=
  hm.after_eq ▸ h.evolves

end Within

omit [SequenceStore I S] in
theorem returns_onDist {α : Type} {m : Method (Shared I) DistError α} {a : α} :
    (onDist m).Returns d a d' ↔ ∃ shared shared', d.network = some shared
      ∧ m.Returns shared a shared' ∧ d' = { d with network := some shared' } := by
  rw [onDist, Method.returns_bind]
  constructor
  · rintro ⟨_, _, hget, h⟩
    obtain ⟨rfl, rfl⟩ := Method.returns_get.mp hget
    split at h
    · exact absurd h Method.returns_throw
    · next shared hnetwork =>
      rw [Method.returns_mapError, Method.returns_zoom] at h
      obtain ⟨shared', hm, rfl⟩ := h
      exact ⟨shared, shared', hnetwork, hm, rfl⟩
  · rintro ⟨shared, shared', hnetwork, hm, rfl⟩
    refine ⟨d, d, Method.returns_get.mpr ⟨rfl, rfl⟩, ?_⟩
    rw [hnetwork]
    exact Method.returns_mapError.mpr (Method.returns_zoom.mpr ⟨shared', hm, rfl⟩)

omit [SequenceStore I S] in
theorem of_fails_onDist {α : Type} {m : Method (Shared I) DistError α} {error : HandleError}
    (h : (onDist m).Fails d error d')
    (hm : ∀ shared err shared', m.Fails shared err shared' → shared = shared') : d' = d := by
  rw [onDist, Method.fails_bind] at h
  rcases h with h | ⟨_, _, hget, h⟩
  · exact absurd h Method.fails_get
  obtain ⟨rfl, rfl⟩ := Method.returns_get.mp hget
  split at h
  · exact (Method.fails_throw.mp h).2.symm
  · next shared hnetwork =>
    obtain ⟨err, hzoom, -⟩ := Method.fails_mapError.mp h
    obtain ⟨shared', hfails, rfl⟩ := Method.fails_zoom.mp hzoom
    rw [← hm _ _ _ hfails, ← hnetwork]

/-! ## The registry

Both kinds of steps leave the registry where calls of its interface take it, so that what every
registry keeps holds of the registry of a daemon at all times. -/

omit [SequenceStore I S] in
theorem syncDistBindings_eq (order : HashOrder (ActiveRecord I)) (now : UInt64) (instant : ℕ)
    (d : Daemon I S) :
    d.syncDistBindings order now instant = match d.network with
      | none => d
      | some shared => { d with
          registry := d.registry.expire now
          network := some (shared.replaceBindings (((d.registry.expire now).values order).map
            fun record ↦ (record.announcement.endpointId, record.announcement.nodeName,
              saturatingSub (saturatingAdd record.receivedAt record.announcement.ttlMs) now))
            instant) } := rfl

/-- The registry changes through its interface. -/
theorem Step.registry (h : d.Step labels d') :
    Relation.ReflTransGen (fun r r' ↦ ∃ op : Operation I, r' = op.run r)
      d.registry d'.registry := by
  cases h with
  | returns hturn h => exact (hturn.of_returns h).registry
  | fails hturn h => exact (hturn.of_fails h).registry
  | syncs order instant hmain =>
    rw [syncDistBindings_eq]
    split
    · exact .refl
    · exact .single ⟨.bindings order _, rfl⟩
  | listens _ h | resolves _ h =>
    obtain ⟨shared, shared', -, -, rfl⟩ := returns_onDist.mp h
    exact .refl
  | listenFails _ h =>
    rw [of_fails_onDist h fun _ _ _ ↦ Shared.fails_listen]
  | resolveFails _ h =>
    rw [of_fails_onDist h fun _ _ _ ↦ (Shared.within_resolve _ _ _).of_fails]
  | drains | incoming | moves | connected | allowed | emits => exact .refl

/-! ## The name listened to

The handler of `dist_listen` carries the name along while it awaits the gossip. Since it has refused
every other name before, what it carries is the name of the node. -/

omit [SequenceStore I S] in
/-- A step of a stream takes the loop nowhere but back to its commands. -/
theorem settle_main (d : Daemon I S) (i : ℕ) (stream : Stream I) :
    (d.settle i stream).1 = d.main ∨ (d.settle i stream).1 = .selecting := by
  rw [settle]
  split
  · next j hmain =>
    rw [hmain]
    split
    · split
      · exact Or.inl rfl
      · exact Or.inl rfl
      · exact Or.inr rfl
      · exact Or.inr rfl
    · exact Or.inl rfl
  · exact Or.inl rfl

theorem Step.nodeName (h : d.Step labels d') :
    d'.nodeName = d.nodeName := by
  cases h with
  | returns hturn h => exact (hturn.of_returns h).nodeName
  | fails hturn h => exact (hturn.of_fails h).nodeName
  | syncs order instant hmain =>
    rw [syncDistBindings_eq]
    split <;> rfl
  | listens _ h | resolves _ h =>
    obtain ⟨shared, shared', -, -, rfl⟩ := returns_onDist.mp h
    rfl
  | listenFails _ h =>
    rw [of_fails_onDist h fun _ _ _ ↦ Shared.fails_listen]
  | resolveFails _ h =>
    rw [of_fails_onDist h fun _ _ _ ↦ (Shared.within_resolve _ _ _).of_fails]
  | drains | incoming | moves | connected | allowed | emits => rfl

/-- The loop takes up no name but that of the node. -/
theorem Step.listens? (h : d.Step labels d') {name : Text} (hname : d'.main.listens? = some name) :
    d.main.listens? = some name ∨ name = d.nodeName := by
  have hput : ∀ {i : ℕ} {stream : Stream I},
      Main.listens? (d.settle i stream).1 = some name → d.main.listens? = some name := by
    intro i stream hname
    rcases d.settle_main i stream with hmain | hmain
    · rwa [hmain] at hname
    · rw [hmain] at hname
      cases hname
  cases h with
  | returns hturn h => exact (hturn.of_returns h).listens name hname
  | syncs order instant hmain =>
    rw [hmain]
    exact Or.inl (by cases ‹Next› <;> exact hname)
  | fails | listens | listenFails | resolves | resolveFails => cases hname
  | drains | incoming => exact Or.inl hname
  | moves | connected | allowed | emits => exact Or.inl (hput hname)

/-! ## The table

The names and bindings of the table change at two places only, when a node begins to listen and when
the bindings are synchronised, and each of them leaves a label. All other labels are `Quiet`. So the
table can be read off the labels of a run. -/

end Daemon

/-- The name that was listened to, if the label says so. -/
def Label.listened? {I : Iroh} : Label I → Option Text
  | .listened nodeName => some nodeName
  | _ => none

def Label.isSynced {I : Iroh} : Label I → Bool
  | .synced _ _ => true
  | _ => false

namespace Daemon

variable {I : Iroh} {S : Type} [SequenceStore I S]
variable {d d' : Daemon I S}

/-- No label speaks of the table. -/
def Quiet (labels : List (Label I)) : Prop :=
  ∀ label ∈ labels, label.listened? = none ∧ label.isSynced = false

/-- What a step does to the names and the bindings of the table. -/
inductive NetworkChange (d : Daemon I S) : List (Label I) → Option (Shared I) → Prop
  | kept {labels : List (Label I)} {network : Option (Shared I)} (hquiet : Quiet labels)
      (h : ∀ shared', network = some shared' → ∃ shared, d.network = some shared
        ∧ shared'.listenNode = shared.listenNode ∧ shared'.bindings = shared.bindings) :
      NetworkChange d labels network
  | fresh {labels : List (Label I)} (hquiet : Quiet labels) : NetworkChange d labels (some .new)
  | synced {order : HashOrder (ActiveRecord I)} {now : UInt64} {instant : ℕ} :
      NetworkChange d [.synced now instant] (d.syncDistBindings order now instant).network
  | listened {nodeName : Text} {shared : Shared I} (hmain : d.main = .listening nodeName)
      (h : d.network = some shared) :
      NetworkChange d [.listened nodeName, .answered (.ok .done)]
        (some { shared with listenNode := some nodeName })

theorem quiet_nil : Quiet ([] : List (Label I)) :=
  fun _ hlabel ↦ absurd hlabel List.not_mem_nil

theorem quiet_answers (response : Option (Response I)) : Quiet (answers response) := by
  intro label hlabel
  cases response with
  | none => exact absurd hlabel List.not_mem_nil
  | some response =>
    obtain rfl := List.mem_singleton.mp hlabel
    exact ⟨rfl, rfl⟩

theorem quiet_answered (answer : Except HandleError (Response I)) : Quiet [.answered answer] := by
  intro label hlabel
  obtain rfl := List.mem_singleton.mp hlabel
  exact ⟨rfl, rfl⟩

omit [SequenceStore I S] in
theorem settle_labels {i : ℕ} {stream : Stream I} {label : Label I}
    (h : label ∈ (d.settle i stream).2) : ∃ answer, label = .answered answer := by
  rw [settle] at h
  split at h
  · split at h
    · split at h
      · exact absurd h List.not_mem_nil
      · exact absurd h List.not_mem_nil
      · exact ⟨_, List.mem_singleton.mp h⟩
      · exact ⟨_, List.mem_singleton.mp h⟩
    · exact absurd h List.not_mem_nil
  · exact absurd h List.not_mem_nil

omit [SequenceStore I S] in
theorem quiet_moved (d : Daemon I S) (i : ℕ) (action : Action) (stream : Stream I) :
    Quiet (.moved i action :: (d.settle i stream).2) := by
  intro label hlabel
  rcases List.mem_cons.mp hlabel with rfl | hlabel
  · exact ⟨rfl, rfl⟩
  · obtain ⟨answer, rfl⟩ := settle_labels hlabel
    exact ⟨rfl, rfl⟩

theorem Step.network {labels : List (Label I)} (h : d.Step labels d') :
    d.NetworkChange labels d'.network := by
  -- the same table, but for the number of the next stream
  have hsame : ∀ {labels : List (Label I)}, Quiet labels → d.NetworkChange labels d.network :=
    fun hquiet ↦ .kept hquiet fun shared hshared ↦ ⟨shared, hshared, rfl, rfl⟩
  have hturn : ∀ {labels : List (Label I)} {network : Option (Shared I)}, Quiet labels →
      network = d.network ∨ network = some .new → d.NetworkChange labels network := by
    intro labels network hquiet hevolves
    rcases hevolves with heq | hnew
    · rw [heq]
      exact hsame hquiet
    · rw [hnew]
      exact .fresh hquiet
  cases h with
  | returns hm h => exact hturn (quiet_answers _) (hm.of_returns h).network
  | fails hm h => exact hturn (quiet_answered _) (hm.of_fails h).network
  | drains =>
    refine hsame fun label hlabel ↦ ?_
    obtain rfl := List.mem_singleton.mp hlabel
    exact ⟨rfl, rfl⟩
  | syncs order instant _ => exact .synced
  | listens hmain h =>
    obtain ⟨shared, shared', hnetwork, hlisten, rfl⟩ := returns_onDist.mp h
    obtain ⟨-, rfl⟩ := Shared.returns_listen.mp hlisten
    exact .listened hmain hnetwork
  | listenFails _ h =>
    rw [of_fails_onDist h fun _ _ _ ↦ Shared.fails_listen]
    exact hsame (quiet_answered _)
  | resolves _ h =>
    obtain ⟨shared, shared', hnetwork, hresolve, rfl⟩ := returns_onDist.mp h
    rw [← (Shared.within_resolve _ _ _).of_returns hresolve]
    exact .kept quiet_nil fun shared' hshared' ↦ ⟨shared', hnetwork.trans hshared', rfl, rfl⟩
  | resolveFails _ h =>
    rw [of_fails_onDist h fun _ _ _ ↦ (Shared.within_resolve _ _ _).of_fails]
    exact hsame (quiet_answered _)
  | incoming => exact hsame quiet_nil
  | moves => exact hsame (quiet_moved _ _ _ _)
  | emits => exact hsame (quiet_moved _ _ _ _)
  | @connected i stream target shared _ hnetwork _ =>
    refine .kept (fun label hlabel ↦ ?_) fun shared' hshared' ↦ ?_
    · obtain rfl := List.mem_singleton.mp hlabel
      exact ⟨rfl, rfl⟩
    · obtain rfl := Option.some.inj hshared'
      exact ⟨shared, hnetwork, rfl, rfl⟩
  | @allowed i stream header shared instant _ hnetwork _ _ =>
    refine .kept (fun label hlabel ↦ ?_) fun shared' hshared' ↦ ?_
    · rcases List.mem_cons.mp hlabel with rfl | hlabel
      · exact ⟨rfl, rfl⟩
      · obtain rfl := List.mem_singleton.mp hlabel
        exact ⟨rfl, rfl⟩
    · obtain rfl := Option.some.inj hshared'
      exact ⟨shared, hnetwork, rfl, rfl⟩

/-- A name that is listened to is the one the loop carried. -/
theorem Step.listened {labels : List (Label I)} (h : d.Step labels d') {label : Label I}
    (hlabel : label ∈ labels) {name : Text} (hname : label.listened? = some name) :
    d.main.listens? = some name := by
  have hchange := h.network
  generalize d'.network = network at hchange
  cases hchange with
  | kept hquiet | fresh hquiet =>
    rw [(hquiet label hlabel).1] at hname
    cases hname
  | synced =>
    obtain rfl := List.mem_singleton.mp hlabel
    cases hname
  | listened hmain _ =>
    rcases List.mem_cons.mp hlabel with rfl | hlabel
    · rw [hmain]
      exact hname
    · obtain rfl := List.mem_singleton.mp hlabel
      cases hname

/-! ## The streams

Streams are only ever put behind the others, and a step of one leaves the others alone. What a step
does to the stream at one place is therefore one of a few things, and the place of a stream is as
good as an identity. -/

/-- What a step does to the stream at one place. -/
inductive StreamChange (d : Daemon I S) (labels : List (Label I)) (i : ℕ) :
    Option (Stream I) → Option (Stream I) → Prop
  /-- At most calls are made on it. -/
  | kept {a b : Option (Stream I)} (hlabels : ∀ action, .moved i action ∉ labels)
      (h : Option.Rel Stream.Called a b) : StreamChange d labels i a b
  | opened {stream : Stream I} (hlabels : ∀ action, .moved i action ∉ labels) (hid : stream.id = 0)
      (h : stream.side = .accepting ∨ ∃ fromNode targetNode,
        stream.side = .connecting fromNode targetNode) :
      StreamChange d labels i none (some stream)
  | moved {stream : Stream I} {action : Action} {side : Side}
      (hlabels : ∀ a, .moved i a ∈ labels ↔ a = action) (hcall : action.isCall = false)
      (h : stream.side.Step action side) (hinstalls : ∀ opening, side.task ≠ .installing opening) :
      StreamChange d labels i (some stream) (some { stream with side })
  | connected {stream : Stream I} {target : Text} {shared : Shared I}
      (hlabels : ∀ a, .moved i a ∈ labels ↔ a = .quiet) (hnetwork : d.network = some shared)
      (htask : stream.side.task = .connecting [] target) :
      StreamChange d labels i (some stream) (some { stream with
        id := shared.nextId, side := stream.side.install (.connected target) })
  | allowed {stream : Stream I} {header : Header} {shared : Shared I} {instant : ℕ}
      (hlabels : labels = [.checked i header instant, .moved i .quiet])
      (hnetwork : d.network = some shared)
      (htask : stream.side.task = .accepting (.done (.ok header)))
      (hallows : shared.allows header stream.remote instant = true) :
      StreamChange d labels i (some stream) (some { stream with
        id := shared.nextId
        side := stream.side.install (.incoming header.fromNode header.targetNode) })

theorem not_installing_of_emitted {s s' : Side} {event : Event} (h : s.Step (.emitted event) s')
    (opening : Opening) : s'.task ≠ .installing opening := by
  cases h <;> simp

theorem moved_notMem_answers {response : Option (Response I)} {i : ℕ} {action : Action} :
    .moved i action ∉ answers response := by
  cases response with
  | none => exact List.not_mem_nil
  | some response => simp [answers]

omit [SequenceStore I S] in
theorem moved_mem_settle {i j : ℕ} {action a : Action} {stream : Stream I} :
    .moved j a ∈ .moved i action :: (d.settle i stream).2 ↔ j = i ∧ a = action := by
  rw [List.mem_cons]
  constructor
  · rintro (heq | hmem)
    · obtain ⟨rfl, rfl⟩ := Label.moved.inj heq
      exact ⟨rfl, rfl⟩
    · obtain ⟨answer, hanswer⟩ := settle_labels hmem
      cases hanswer
  · rintro ⟨rfl, rfl⟩
    exact Or.inl rfl

omit [SequenceStore I S] in
theorem getElem?_put_self {i : ℕ} {stream : Stream I} (h : d.streams[i]? = some stream)
    (stream' : Stream I) :
    (d.put i stream').streams[i]? = some stream' := by
  obtain ⟨hlt, -⟩ := List.getElem?_eq_some_iff.mp h
  exact List.getElem?_set_self hlt

omit [SequenceStore I S] in
theorem getElem?_put_of_ne {i j : ℕ} (h : i ≠ j) (stream : Stream I) :
    (d.put i stream).streams[j]? = d.streams[j]? :=
  List.getElem?_set_ne h

omit [SequenceStore I S] in
theorem streams_syncDistBindings (d : Daemon I S) (order : HashOrder (ActiveRecord I))
    (now : UInt64) (instant : ℕ) : (d.syncDistBindings order now instant).streams = d.streams := by
  rw [syncDistBindings_eq]
  split <;> rfl

omit [SequenceStore I S] in
theorem StreamChange.append {stream : Stream I} (hid : stream.id = 0)
    (h : stream.side = .accepting ∨ ∃ fromNode targetNode,
      stream.side = .connecting fromNode targetNode) (i : ℕ) :
    d.StreamChange [] i d.streams[i]? (d.streams ++ [stream])[i]? := by
  rcases lt_trichotomy i d.streams.length with hlt | rfl | hgt
  · rw [List.getElem?_append_left hlt]
    exact .kept (fun _ ↦ List.not_mem_nil) (rel_called_refl _)
  · rw [List.getElem?_concat_length, List.getElem?_eq_none le_rfl]
    exact .opened (fun _ ↦ List.not_mem_nil) hid h
  · rw [List.getElem?_eq_none hgt.le, List.getElem?_eq_none (by simpa using hgt)]
    exact .kept (fun _ ↦ List.not_mem_nil) .none

omit [SequenceStore I S] in
/-- A step of a stream leaves the others alone. -/
theorem StreamChange.put {labels : List (Label I)} {i j : ℕ} {stream stream' : Stream I}
    (hstream : d.streams[j]? = some stream)
    (hlabels : ∀ k action, .moved k action ∈ labels → k = j)
    (h : d.StreamChange labels j (some stream) (some stream')) :
    d.StreamChange labels i d.streams[i]? (d.put j stream').streams[i]? := by
  by_cases hij : j = i
  · subst hij
    rw [hstream, getElem?_put_self hstream]
    exact h
  · rw [getElem?_put_of_ne hij]
    exact .kept (fun action hmem ↦ hij (hlabels i action hmem).symm) (rel_called_refl _)

/-- **What a step does to one stream.** -/
theorem Step.stream {labels : List (Label I)} (h : d.Step labels d') (i : ℕ) :
    d.StreamChange labels i d.streams[i]? d'.streams[i]? := by
  have hsame : ∀ {labels : List (Label I)}, (∀ action, .moved i action ∉ labels) →
      d.StreamChange labels i d.streams[i]? d.streams[i]? :=
    fun hlabels ↦ .kept hlabels (rel_called_refl _)
  cases h with
  | returns hm h =>
    exact .kept (fun _ ↦ moved_notMem_answers) ((hm.of_returns h).streams i)
  | fails hm h => exact .kept (by simp) ((hm.of_fails h).streams i)
  | drains => exact hsame (by simp)
  | syncs order instant _ =>
    rw [streams_syncDistBindings]
    exact hsame (by simp)
  | listens _ h =>
    obtain ⟨shared, shared', -, -, rfl⟩ := returns_onDist.mp h
    exact hsame (by simp)
  | listenFails _ h =>
    rw [of_fails_onDist h fun _ _ _ ↦ Shared.fails_listen]
    exact hsame (by simp)
  | resolves _ h =>
    obtain ⟨shared, shared', -, -, rfl⟩ := returns_onDist.mp h
    exact .append rfl (Or.inr ⟨_, _, rfl⟩) i
  | resolveFails _ h =>
    rw [of_fails_onDist h fun _ _ _ ↦ (Shared.within_resolve _ _ _).of_fails]
    exact hsame (by simp)
  | incoming => exact .append rfl (Or.inl rfl) i
  | moves hstream hcall _ h hinstalls =>
    exact .put hstream (fun _ _ hmem ↦ (moved_mem_settle.mp hmem).1)
      (.moved (fun _ ↦ moved_mem_settle.trans (and_iff_right rfl)) hcall h hinstalls)
  | connected hstream hnetwork htask =>
    exact .put hstream (by simp) (.connected (by simp) hnetwork htask)
  | allowed hstream hnetwork htask hallows =>
    exact .put hstream (by simp) (.allowed rfl hnetwork htask hallows)
  | emits hstream h _ =>
    exact .put hstream (fun _ _ hmem ↦ (moved_mem_settle.mp hmem).1)
      (.moved (fun _ ↦ moved_mem_settle.trans (and_iff_right rfl)) rfl h
        (not_installing_of_emitted h))

/-! ## The beginning -/

omit [SequenceStore I S] in
/-- A daemon starts with nothing but the enrollment of its own endpoint. -/
theorem start_eq {nodeName : Text} {secret : I.SecretKey} {fleet : FleetId} {outbound inbound : S}
    (h : start nodeName secret fleet outbound inbound = .ok d) :
    ∃ authorization, AuthorizationTable.new [(I.publicKey secret, nodeName)] = .ok authorization
      ∧ d = {
        nodeName, secret, fleet, outbound
        registry := (Registry.new fleet authorization inbound).withEnrollmentPolicy .signedFleet
        network := none, main := .selecting, events := .empty, streams := [] } := by
  rw [start] at h
  cases htable : AuthorizationTable.new [(I.publicKey secret, nodeName)] with
  | error error =>
    rw [htable] at h
    cases h
  | ok authorization =>
    rw [htable] at h
    exact ⟨authorization, rfl, (Except.ok.inj h).symm⟩

/-! ## Ways through the loop -/

theorem Path.trans {d'' : Daemon I S} {trace trace' : List (Label I)} (h : d.Path trace d')
    (h' : d'.Path trace' d'') : d.Path (trace ++ trace') d'' := by
  induction h' with
  | refl => rwa [List.append_nil]
  | tail _ hstep ih =>
    rw [← List.append_assoc]
    exact ih.tail hstep

/-- The registry after an announcement was taken from the gossip and the bindings synchronised. -/
def heardRegistry (d : Daemon I S) (envelope : List UInt8) (now : UInt64) : Registry I S :=
  ((Registry.receive envelope now).after d.registry).expire now

/-- The table that is synchronised with it. -/
def heardTable (d : Daemon I S) (shared : Shared I) (envelope : List UInt8) (now : UInt64)
    (instant : ℕ) : Shared I :=
  shared.replaceBindings (((d.heardRegistry envelope now).values ⟨id, List.Perm.refl⟩).map
    fun record ↦ (record.announcement.endpointId, record.announcement.nodeName,
      saturatingSub (saturatingAdd record.receivedAt record.announcement.ttlMs) now)) instant

def heard (d : Daemon I S) (shared : Shared I) (envelope : List UInt8) (now : UInt64)
    (instant : ℕ) : Daemon I S :=
  { d with
    registry := d.heardRegistry envelope now
    network := some (d.heardTable shared envelope now instant) }

/-- A handler that looks at the gossip gets as far as the bindings. -/
theorem path_heard {m : Method (Daemon I S) HandleError (Option (Response I))} {now : UInt64}
    {next : Next} {shared : Shared I} (hturn : d.Turn m)
    (hm : m.Returns d none { d with main := .polling now next })
    (hnetwork : d.network = some shared) (envelope : List UInt8) (instant : ℕ) :
    d.Path [.synced now instant]
      { d.heard shared envelope now instant with main := .synced now next } := by
  have hheard : { syncDistBindings ⟨id, List.Perm.refl⟩ now instant { d with
      registry := (Registry.receive envelope now).after d.registry
      main := .syncing now next } with main := .synced now next }
        = { d.heard shared envelope now instant with main := .synced now next } := by
    rw [syncDistBindings_eq]
    simp only [hnetwork, heard, heardRegistry, heardTable]
  rw [← hheard]
  exact (((Path.refl.tail (.returns hturn hm)).tail (.returns (.received envelope rfl) rfl)).tail
    (.returns (.polled rfl) rfl)).tail (.syncs ⟨id, List.Perm.refl⟩ instant rfl)

end Daemon

end NervesP2P
