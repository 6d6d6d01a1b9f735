import NervesP2P.Daemon.Identity

/-!
# The loop that waits for itself

Only the loop empties the channel of events. While it connects it also fills it: `install_stream`
sends the first event of the new stream from inside the handler. If the other streams have taken all
the places by then, the loop waits for a place that nobody but the loop could make (`Suspended`),
and nothing that happens afterwards changes that.

Between the command and the event lies the network, so the number of places at the time of the
command says nothing. What keeps the loop going is that it begins to connect only while there is a
place, and that the other streams leave one until it is done (`Considerate`). Any step against this
leads to where the loop may be suspended.
-/

namespace NervesP2P

/-- The task belongs to a stream that is not yet open. -/
def Task.Opens (task : Task) : Prop :=
  (∃ rest target, task = .connecting rest target) ∨ ∃ opening, task = .installing opening

namespace Daemon

variable {I : Iroh} {S : Type}
variable {d d' : Daemon I S} {stream : Stream I} {events : Channel (UInt64 × Event) eventQueue}

/-- The loop waits inside `dist_connect` for a place in the channel, and there is none. -/
def Suspended (d : Daemon I S) : Prop :=
  ∃ i stream opening, d.main = .connecting i ∧ d.streams[i]? = some stream
    ∧ stream.side.task = .installing opening ∧ d.events.Full

/-- A step that begins to connect finds a place in the channel, and while the loop is connecting
a stream, the others leave a place in it. -/
def Considerate (d : Daemon I S) (labels : List (Label I)) (d' : Daemon I S) : Prop :=
  (∀ i, d'.main = .connecting i → d.main ≠ .connecting i → ¬d.events.Full)
    ∧ ∀ i j event, d.main = .connecting i → .moved j (.emitted event) ∈ labels → j ≠ i →
      d.events.items.length + 1 < eventQueue

variable [SequenceStore I S]

/-- The loop makes a step: it goes on to another point, or takes the stream it connects further. -/
def Advances (d d' : Daemon I S) : Prop :=
  ∃ labels, d.Step labels d'
    ∧ (d'.main ≠ d.main ∨ ∃ i action, d.main = .connecting i ∧ .moved i action ∈ labels)

/-! ## While the loop connects

The loop is at one point, `connecting`, for the whole of this time, and `Meanwhile` lists what can
happen: another stream makes a step, the stream that is connected makes one of its own, or it sends
its event and the loop is back. The place of the stream among the others does not change, so the
loop knows which one it waits for. -/

section Connecting

variable {d d' : Daemon I S} {labels : List (Label I)} {i : ℕ}

theorem Turn.not_connecting {m : Method (Daemon I S) HandleError (Option (Response I))}
    (h : d.Turn m) (i : ℕ) : d.main ≠ .connecting i := by
  intro hmain
  cases h <;> simp_all

omit [SequenceStore I S] in
theorem settle_of_ne {j : ℕ} (hmain : d.main = .connecting i) (hij : j ≠ i) (stream : Stream I) :
    d.settle j stream = (.connecting i, []) := by
  rw [settle, hmain]
  exact if_neg (Ne.symm hij)

omit [SequenceStore I S] in
theorem settle_of_opens (hmain : d.main = .connecting i) (h : stream.side.task.Opens) :
    d.settle i stream = (.connecting i, []) := by
  rw [settle, hmain]
  rcases h with ⟨rest, target, htask⟩ | ⟨opening, htask⟩
  · simp [htask]
  · simp [htask]

omit [SequenceStore I S] in
theorem settle_of_not_opens (hmain : d.main = .connecting i) (h : ¬stream.side.task.Opens) :
    (d.settle i stream).1 = .selecting := by
  rw [settle, hmain]
  dsimp only
  rw [if_pos rfl]
  split
  · next htask => exact absurd (Or.inl ⟨_, _, htask⟩) h
  · next htask => exact absurd (Or.inr ⟨_, htask⟩) h
  · rfl
  · rfl

/-- What can happen while the loop connects the stream at a place. -/
inductive Meanwhile (d : Daemon I S) (i : ℕ) (stream : Stream I) (labels : List (Label I))
    (d' : Daemon I S) : Prop
  /-- Something else happens. -/
  | beside (hmain : d'.main = .connecting i) (hstream : d'.streams[i]? = some stream)
      (hnetwork : d.network.isSome = true → d'.network.isSome = true)
      (hlabels : ∀ action, .moved i action ∉ labels)
      (hevents : d'.events = d.events ∧ (∀ j event, .moved j (.emitted event) ∉ labels)
        ∨ d'.events.items.length = d.events.items.length + 1
          ∧ ∃ j event, .moved j (.emitted event) ∈ labels)
  /-- The stream is on its way. -/
  | further {stream' : Stream I} (hmain : d'.main = .connecting i)
      (hstream : d'.streams[i]? = some stream') (hopens : stream'.side.task.Opens)
      (hwaits : stream.side.task.waits = none)
      (hnetwork : d.network.isSome = true → d'.network.isSome = true)
      (hlabels : ∀ j action, .moved j action ∈ labels → j = i) (hevents : d'.events = d.events)
  /-- The stream is open, or has failed. -/
  | back (hmain : d'.main = .selecting) (hlabels : ∀ j action, .moved j action ∈ labels → j = i)
      (hroom : stream.side.task.waits.isSome = true → ¬d.events.Full)

theorem waits_of_emitted {s s' : Side} {event : Event} (h : s.Step (.emitted event) s') :
    s.task.waits = some event := by
  generalize haction : Action.emitted event = action at h
  cases h with
  | announce htask | creditEvent htask | dataEvent htask | report htask =>
    rw [htask, Task.waits, Action.emitted.inj haction]
  | _ => cases haction

theorem not_opens_of_emitted {s s' : Side} {event : Event} (h : s.Step (.emitted event) s') :
    ¬s'.task.Opens := by
  rintro (⟨rest, target, htask⟩ | ⟨opening, htask⟩)
  · cases h <;> cases htask
  · exact not_installing_of_emitted h opening htask

omit [SequenceStore I S] in
theorem Meanwhile.install {j : ℕ} {other : Stream I} {opening : Opening} {id : UInt64}
    {shared : Shared I} (hmain : d.main = .connecting i) (hstream : d.streams[i]? = some stream)
    (hother : d.streams[j]? = some other) (hwaits : other.side.task.waits = none)
    (hlabels : ∀ k action, .moved k action ∈ labels ↔ k = j ∧ action = .quiet) :
    d.Meanwhile i stream labels { d.put j { other with
      id, side := other.side.install opening } with network := some shared } := by
  by_cases hji : j = i
  · subst hji
    obtain rfl := Option.some.inj (hstream.symm.trans hother)
    have hopens : (stream.side.install opening).task.Opens := Or.inr ⟨opening, rfl⟩
    exact .further (congrArg Prod.fst (settle_of_opens hmain hopens))
      (getElem?_put_self hstream _) hopens hwaits (fun _ ↦ rfl)
      (fun k action hmem ↦ ((hlabels k action).mp hmem).1) rfl
  · refine .beside (congrArg Prod.fst (settle_of_ne hmain hji _)) ?_ (fun _ ↦ rfl)
      (fun action hmem ↦ hji ((hlabels i action).mp hmem).1.symm) (Or.inl ⟨rfl, ?_⟩)
    · dsimp only
      rw [getElem?_put_of_ne hji, hstream]
    · intro k event hmem
      cases ((hlabels k _).mp hmem).2

theorem Step.meanwhile (h : d.Step labels d') (hmain : d.main = .connecting i)
    (hstream : d.streams[i]? = some stream) : d.Meanwhile i stream labels d' := by
  -- the loop is elsewhere in most of the cases
  have hbusy : ∀ {main : Main}, d.main = main → main ≠ .connecting i → False :=
    fun heq hne ↦ hne (heq.symm.trans hmain)
  cases h with
  | returns hturn | fails hturn => exact absurd hmain (hturn.not_connecting i)
  | drains h | syncs _ _ h | listens h | listenFails h | resolves h | resolveFails h =>
    exact (hbusy h (by simp)).elim
  | incoming remote =>
    obtain ⟨hlt, -⟩ := List.getElem?_eq_some_iff.mp hstream
    refine .beside hmain ?_ id (by simp) (Or.inl ⟨rfl, (by simp)⟩)
    rw [List.getElem?_append_left hlt, hstream]
  | @moves j other action side hother hcall hwaits h hinstalls =>
    have hquiet : ∀ k event, .moved k (.emitted event) ∉ .moved j action ::
        (d.settle j { other with side }).2 := by
      intro k event hmem
      obtain ⟨-, rfl⟩ := moved_mem_settle.mp hmem
      rw [waits_of_emitted h] at hwaits
      cases hwaits
    by_cases hji : j = i
    · subst hji
      obtain rfl := Option.some.inj (hstream.symm.trans hother)
      by_cases hopens : side.task.Opens
      · exact .further (congrArg Prod.fst (settle_of_opens hmain hopens))
          (getElem?_put_self hstream _) hopens hwaits id
          (fun k a hmem ↦ (moved_mem_settle.mp hmem).1) rfl
      · refine .back (settle_of_not_opens hmain hopens)
          (fun k a hmem ↦ (moved_mem_settle.mp hmem).1) ?_
        rw [hwaits]
        simp
    · refine .beside (congrArg Prod.fst (settle_of_ne hmain hji _)) ?_ id
        (fun a hmem ↦ hji (moved_mem_settle.mp hmem).1.symm) (Or.inl ⟨rfl, hquiet⟩)
      rw [getElem?_put_of_ne hji, hstream]
  | connected hother hnetwork htask =>
    exact .install hmain hstream hother (by rw [htask]; rfl) (by simp)
  | allowed hother hnetwork htask hallows =>
    exact .install hmain hstream hother (by rw [htask]; rfl) (by simp)
  | @emits j other event side events hother h hputs =>
    by_cases hji : j = i
    · subst hji
      obtain rfl := Option.some.inj (hstream.symm.trans hother)
      refine .back (settle_of_not_opens hmain (not_opens_of_emitted h))
        (fun k a hmem ↦ (moved_mem_settle.mp hmem).1) fun _ hfull ↦ ?_
      exact absurd (hfull.puts hputs) (List.cons_ne_nil _ _)
    · refine .beside (congrArg Prod.fst (settle_of_ne hmain hji _)) ?_ id
        (fun a hmem ↦ hji (moved_mem_settle.mp hmem).1.symm)
        (Or.inr ⟨hputs.length, j, event, List.mem_cons_self⟩)
      dsimp only
      rw [getElem?_put_of_ne hji, hstream]

/-- How the loop begins to connect. -/
theorem Step.begins (h : d.Step labels d') (hmain : d'.main = .connecting i)
    (hnot : d.main ≠ .connecting i) : d'.events = d.events ∧ d'.network.isSome = true
      ∧ ∃ stream, d'.streams[i]? = some stream ∧ stream.side.task.Opens := by
  have hput : ∀ {j : ℕ} {stream : Stream I}, (d.settle j stream).1 ≠ .connecting i := by
    intro j stream hsettle
    rcases d.settle_main j stream with heq | heq
    · exact hnot (heq.symm.trans hsettle)
    · rw [heq] at hsettle
      cases hsettle
  cases h with
  | returns hturn h => exact absurd ((hturn.of_returns h).main i hmain) hnot
  | drains | incoming => exact absurd hmain hnot
  | fails | syncs | listens | listenFails | resolveFails => cases hmain
  | moves | connected | allowed | emits => exact absurd hmain hput
  | resolves _ h =>
    obtain ⟨shared, shared', -, -, rfl⟩ := returns_onDist.mp h
    obtain rfl := Main.connecting.inj hmain
    exact ⟨rfl, rfl, _, List.getElem?_concat_length, Or.inl ⟨_, _, rfl⟩⟩

/-! ## The loop is never anywhere else

That the loop is connecting means little without a stream to connect. `Connects` says that there is
one, at the place that the loop has in mind, with a task that has not told the port of itself. -/

/-- While the loop connects, there are a network and a stream that is not yet open. -/
def Connects (d : Daemon I S) : Prop :=
  ∀ i, d.main = .connecting i → d.network.isSome = true
    ∧ ∃ stream, d.streams[i]? = some stream ∧ stream.side.task.Opens

theorem Connects.step (h : d.Connects) (hstep : d.Step labels d') : d'.Connects := by
  intro i hmain'
  by_cases hmain : d.main = .connecting i
  · obtain ⟨hnetwork, stream, hstream, hopens⟩ := h i hmain
    cases hstep.meanwhile hmain hstream with
    | beside _ hsame hnetwork' _ _ => exact ⟨hnetwork' hnetwork, stream, hsame, hopens⟩
    | further _ hstream' hopens' _ hnetwork' _ _ =>
      exact ⟨hnetwork' hnetwork, _, hstream', hopens'⟩
    | back hback => cases hback.symm.trans hmain'
  · exact (hstep.begins hmain' hmain).2

theorem Path.connects {trace : List (Label I)} (h : d.Path trace d') (hd : d.Connects) :
    d'.Connects := by
  induction h with
  | refl => exact hd
  | tail _ hstep ih => exact ih.step hstep

/-! ## A suspended loop

A full channel can become less full only by a turn of the loop, and the loop can go on only when its
stream has sent its event. `Suspended.step` says that neither happens. To get there is easy: the
header of the stream is written, it gets its number, and if there is no place in the channel by
then, the loop is suspended (`Connects.exists_suspended`). -/

/-- **Nothing wakes a suspended loop.** -/
theorem Suspended.step (h : d.Suspended) (hstep : d.Step labels d') : d'.Suspended
    ∧ d'.main = d.main ∧ ∀ i action, d.main = .connecting i → .moved i action ∉ labels := by
  obtain ⟨i, stream, opening, hmain, hstream, htask, hfull⟩ := h
  cases hstep.meanwhile hmain hstream with
  | beside hmain' hstream' _ hlabels hevents =>
    have hsame : d'.events = d.events := by
      rcases hevents with ⟨hsame, -⟩ | ⟨hlength, -⟩
      · exact hsame
      · have hbounded := d'.events.bounded
        rw [Channel.Full] at hfull
        omega
    refine ⟨⟨i, stream, opening, hmain', hstream', htask, hsame ▸ hfull⟩,
      hmain'.trans hmain.symm, fun j action hj ↦ ?_⟩
    obtain rfl := Main.connecting.inj (hmain.symm.trans hj)
    exact hlabels action
  | further _ _ _ hwaits =>
    rw [htask] at hwaits
    cases hwaits
  | back _ _ hroom =>
    rw [htask] at hroom
    exact absurd hfull (hroom rfl)

theorem Suspended.not_advances (h : d.Suspended) (d' : Daemon I S) : ¬d.Advances d' := by
  rintro ⟨labels, hstep, hmain | ⟨i, action, hmain, hlabel⟩⟩
  · exact hmain (h.step hstep).2.1
  · exact (h.step hstep).2.2 i action hmain hlabel

theorem Suspended.path {trace : List (Label I)} (h : d.Suspended) (hpath : d.Path trace d') :
    d'.Suspended := by
  induction hpath with
  | refl => exact h
  | tail _ hstep ih => exact (ih.step hstep).1

theorem step_header {rest : List UInt8} {target : Text} (hmain : d.main = .connecting i)
    (hstream : d.streams[i]? = some stream) (htask : stream.side.task = .connecting rest target)
    (hne : rest ≠ []) :
    d.Step [.moved i (.wrote rest)] { d with
      streams := d.streams.set i { stream with
        side := { stream.side with task := .connecting [] target } }
      main := .connecting i } := by
  have hwrite : stream.side.Step (.wrote rest) { stream.side with task := .connecting [] target } :=
    .writeHeader hne (by rw [List.append_nil, htask])
  have hstep := Step.moves hstream rfl (by rw [htask]; rfl) hwrite (by simp)
  rwa [put, settle_of_opens hmain (Or.inl ⟨_, _, rfl⟩)] at hstep

theorem step_install {target : Text} {shared : Shared I} (hmain : d.main = .connecting i)
    (hstream : d.streams[i]? = some stream) (htask : stream.side.task = .connecting [] target)
    (hnetwork : d.network = some shared) :
    d.Step [.moved i .quiet] { d with
      streams := d.streams.set i { stream with
        id := shared.nextId, side := stream.side.install (.connected target) }
      main := .connecting i
      network := some shared.takeId } := by
  have hstep := Step.connected hstream hnetwork htask
  rwa [put, settle_of_opens hmain (Or.inr ⟨_, rfl⟩)] at hstep

/-- **A loop that connects while the channel is full may be suspended.** -/
theorem Connects.exists_suspended (h : d.Connects) (hmain : d.main = .connecting i)
    (hfull : d.events.Full) : ∃ trace d', d.Path trace d' ∧ d'.Suspended := by
  obtain ⟨hnetwork, stream, hstream, hopens⟩ := h i hmain
  obtain ⟨shared, hshared⟩ := Option.isSome_iff_exists.mp hnetwork
  obtain ⟨hlt, -⟩ := List.getElem?_eq_some_iff.mp hstream
  rcases hopens with ⟨rest, target, htask⟩ | ⟨opening, htask⟩
  · by_cases hne : rest = []
    · subst hne
      exact ⟨_, _, Path.refl.tail (step_install hmain hstream htask hshared), i, _, _, rfl,
        List.getElem?_set_self hlt, rfl, hfull⟩
    · have hwritten := Path.refl.tail (step_header hmain hstream htask hne)
      refine ⟨_, _, hwritten.tail (step_install rfl (List.getElem?_set_self hlt) rfl hshared), i, _,
        _, rfl, List.getElem?_set_self ?_, rfl, hfull⟩
      rwa [List.length_set]
  · exact ⟨_, _, .refl, i, stream, opening, hmain, hstream, htask, hfull⟩

/-! ## The loop goes on

At every other point the loop has a turn to make. A handler that resumes does not stay where it is,
and while the loop connects and there is a place, the stream can be taken further. -/

omit [SequenceStore I S] in
theorem main_of_returns_resume {order : HashOrder (ActiveRecord I)} {now : UInt64} {next : Next}
    {response : Option (Response I)} (h : (resume order now next).Returns d response d')
    (hmain : d.main = .synced now next) : d'.main ≠ d.main := by
  rw [hmain]
  cases next with
  | published sequence envelope =>
    simp only [resume, Method.returns_bind, Method.returns_get] at h
    obtain ⟨_, _, ⟨rfl, rfl⟩, h⟩ := h
    split at h
    · simp only [await, Method.returns_bind, Method.returns_modify, Method.returns_pure] at h
      obtain ⟨_, _, rfl, -, rfl⟩ := h
      simp
    · simp only [answer, Method.returns_bind, Method.returns_modify, Method.returns_pure] at h
      obtain ⟨_, _, rfl, -, rfl⟩ := h
      simp
  | find predicates =>
    simp only [resume, answer, Method.returns_bind, Method.returns_modify,
      Method.returns_pure] at h
    obtain ⟨_, _, -, _, _, -, _, _, rfl, -, rfl⟩ := h
    simp
  | _ =>
    simp only [resume, await, answer, Method.returns_bind, Method.returns_modify,
      Method.returns_pure] at h
    obtain ⟨_, _, rfl, -, rfl⟩ := h
    simp

theorem Step.advances (h : d.Step labels d') {main : Main} (hmain : d.main = main)
    (hne : d'.main ≠ main) : ∃ d', d.Advances d' :=
  ⟨d', labels, h, Or.inl (by rwa [hmain])⟩

/-- The stream that the loop connects can be taken further while there is a place. -/
theorem Connects.exists_advances_of_connecting (h : d.Connects) (hawake : ¬d.Suspended)
    (hmain : d.main = .connecting i) : ∃ d', d.Advances d' := by
  obtain ⟨hnetwork, stream, hstream, hopens⟩ := h i hmain
  obtain ⟨shared, hshared⟩ := Option.isSome_iff_exists.mp hnetwork
  rcases hopens with ⟨rest, target, htask⟩ | ⟨opening, htask⟩
  · by_cases hne : rest = []
    · subst hne
      exact ⟨_, _, step_install hmain hstream htask hshared,
        Or.inr ⟨i, _, hmain, List.mem_singleton_self _⟩⟩
    · exact ⟨_, _, step_header hmain hstream htask hne,
        Or.inr ⟨i, _, hmain, List.mem_singleton_self _⟩⟩
  · have hroom : d.events.items.length ≠ eventQueue :=
      fun hfull ↦ hawake ⟨i, stream, opening, hmain, hstream, htask, hfull⟩
    have hbounded := d.events.bounded
    obtain ⟨events, hputs⟩ : ∃ events, d.events.Puts [(stream.id, opening.event)] events :=
      Channel.exists_puts (by rw [List.length_singleton]; omega)
    exact ⟨_, _, .emits hstream (.announce htask) hputs,
      Or.inr ⟨i, _, hmain, List.mem_cons_self⟩⟩

/-- **The loop can always go on, unless it is suspended** or has stopped. -/
theorem Connects.exists_advances (h : d.Connects) (hawake : ¬d.Suspended)
    (hrunning : d.main ≠ .stopped) : ∃ d', d.Advances d' := by
  cases hmain : d.main with
  | selecting =>
    refine Step.advances (.returns (.tick 0 hmain) rfl) hmain ?_
    dsimp only
    split <;> simp
  | polling now next => exact Step.advances (.returns (.polled hmain) rfl) hmain (by simp)
  | syncing now next =>
    exact Step.advances (.syncs ⟨id, List.Perm.refl⟩ 0 hmain) hmain (by simp)
  | synced now next =>
    rcases (resume ⟨id, List.Perm.refl⟩ now next).returns_or_fails d with ⟨_, hm⟩ | ⟨_, hm⟩
    · exact Step.advances (.returns (.resume _ hmain) hm) rfl (main_of_returns_resume hm hmain)
    · exact Step.advances (.fails (.resume _ hmain) hm) hmain (by simp)
  | listening nodeName =>
    rcases (onDist (Shared.listen nodeName)).returns_or_fails d with ⟨_, hm⟩ | ⟨_, hm⟩
    · exact Step.advances (.listens hmain hm) hmain (by simp)
    · exact Step.advances (.listenFails hmain hm) hmain (by simp)
  | resolving fromNode targetNode =>
    rcases (onDist (Shared.resolve fromNode targetNode 0)).returns_or_fails d with
      ⟨_, hm⟩ | ⟨_, hm⟩
    · exact Step.advances (.resolves hmain hm) hmain (by simp)
    · exact Step.advances (.resolveFails hmain hm) hmain (by simp)
  | connecting i => exact h.exists_advances_of_connecting hawake hmain
  | starting => exact Step.advances (.returns (.started hmain) rfl) hmain (by simp)
  | broadcasting sequence envelope =>
    exact Step.advances (.returns (.broadcast hmain) rfl) hmain (by simp)
  | stopped => exact absurd hmain hrunning

/-! ## Considerate runs

`Clear` is the invariant of these runs: while the loop connects, there is a place in the channel. A
step keeps it exactly if it is considerate, so the condition on the steps could not be weaker. Since
the channel grows only by what the streams send, a run in which they send nothing is considerate if
there was a place at its beginning. -/

/-- While the loop connects, there is a place in the channel. -/
def Clear (d : Daemon I S) : Prop := ∀ i, d.main = .connecting i → ¬d.events.Full

omit [SequenceStore I S] in
theorem Clear.not_suspended (h : d.Clear) : ¬d.Suspended := by
  rintro ⟨i, stream, opening, hmain, -, -, hfull⟩
  exact h i hmain hfull

/-- **A step keeps the place exactly if it is considerate.** -/
theorem Clear.considerate_iff (hclear : d.Clear) (h : d.Connects) (hstep : d.Step labels d') :
    d.Considerate labels d' ↔ d'.Clear := by
  constructor
  · rintro ⟨hbegins, hleave⟩ i hmain'
    by_cases hmain : d.main = .connecting i
    · obtain ⟨-, stream, hstream, -⟩ := h i hmain
      cases hstep.meanwhile hmain hstream with
      | beside _ _ _ hlabels hevents =>
        rcases hevents with ⟨hsame, -⟩ | ⟨hlength, j, event, hmem⟩
        · rw [hsame]
          exact hclear i hmain
        · have hroom := hleave i j event hmain hmem fun hji ↦ hlabels _ (hji ▸ hmem)
          rw [Channel.Full]
          omega
      | further _ _ _ _ _ _ hsame =>
        rw [hsame]
        exact hclear i hmain
      | back hback => cases hback.symm.trans hmain'
    · rw [(hstep.begins hmain' hmain).1]
      exact hbegins i hmain' hmain
  · intro hclear'
    refine ⟨fun i hmain' hmain ↦ ?_, fun i j event hmain hmem hji ↦ ?_⟩
    · rw [← (hstep.begins hmain' hmain).1]
      exact hclear' i hmain'
    · obtain ⟨-, stream, hstream, -⟩ := h i hmain
      cases hstep.meanwhile hmain hstream with
      | beside hmain' _ _ _ hevents =>
        rcases hevents with ⟨-, hquiet⟩ | ⟨hlength, -⟩
        · exact absurd hmem (hquiet j event)
        · have hnot := hclear' i hmain'
          have hbounded := d'.events.bounded
          rw [Channel.Full] at hnot
          omega
      | further _ _ _ _ _ hlabels _ => exact absurd (hlabels j _ hmem) hji
      | back _ hlabels _ => exact absurd (hlabels j _ hmem) hji

end Connecting

omit [SequenceStore I S] in
theorem considerate_of_room {labels : List (Label I)} (h : d.events.items.length + 1 < eventQueue) :
    d.Considerate labels d' := by
  refine ⟨fun i _ _ hfull ↦ ?_, fun _ _ _ _ _ _ ↦ h⟩
  rw [Channel.Full] at hfull
  omega

def ConsiderateRun : Daemon I S → Daemon I S → Prop :=
  Relation.ReflTransGen fun d d' ↦ ∃ labels, d.Step labels d' ∧ d.Considerate labels d'

theorem ConsiderateRun.clear (h : d.ConsiderateRun d') (hconnects : d.Connects) (hclear : d.Clear) :
    d'.Connects ∧ d'.Clear := by
  induction h with
  | refl => exact ⟨hconnects, hclear⟩
  | tail _ hstep ih =>
    obtain ⟨labels, hstep, hconsiderate⟩ := hstep
    exact ⟨ih.1.step hstep, (ih.2.considerate_iff ih.1 hstep).mp hconsiderate⟩

theorem Step.length_events_le {labels : List (Label I)} (h : d.Step labels d')
    (hquiet : ∀ j event, .moved j (.emitted event) ∉ labels) :
    d'.events.items.length ≤ d.events.items.length := by
  cases h with
  | returns hturn h => rw [(hturn.of_returns h).events]
  | fails hturn h => exact (congrArg (·.items.length) (hturn.of_fails h).events).le
  | drains _ h => exact (Nat.le_add_left _ _).trans h.length.ge
  | syncs order instant hmain =>
    rw [syncDistBindings_eq]
    split <;> exact le_rfl
  | listens _ h | resolves _ h =>
    obtain ⟨shared, shared', -, -, rfl⟩ := returns_onDist.mp h
    exact le_rfl
  | listenFails _ h => rw [of_fails_onDist h fun _ _ _ ↦ Shared.fails_listen]
  | resolveFails _ h =>
    rw [of_fails_onDist h fun _ _ _ ↦ (Shared.within_resolve _ _ _).of_fails]
  | incoming | moves | connected | allowed => exact le_rfl
  | emits => exact absurd List.mem_cons_self (hquiet _ _)

/-- A run in which the streams send nothing is considerate if there is room to begin with. -/
theorem Path.considerate {trace : List (Label I)} (h : d.Path trace d')
    (hroom : d.events.items.length + 1 < eventQueue)
    (hquiet : ∀ j event, .moved j (.emitted event) ∉ trace) :
    d.ConsiderateRun d' ∧ d'.events.items.length + 1 < eventQueue := by
  induction h with
  | refl => exact ⟨.refl, hroom⟩
  | tail _ hstep ih =>
    obtain ⟨hrun, hroom'⟩ := ih fun j event hmem ↦ hquiet j event (List.mem_append_left _ hmem)
    have hle := hstep.length_events_le fun j event hmem ↦
      hquiet j event (List.mem_append_right _ hmem)
    exact ⟨hrun.tail ⟨_, hstep, considerate_of_room hroom'⟩, by omega⟩

omit [SequenceStore I S] in
theorem main_of_start {nodeName : Text} {secret : I.SecretKey} {fleet : FleetId}
    {outbound inbound : S} (h : start nodeName secret fleet outbound inbound = .ok d) :
    d.main = .selecting := by
  obtain ⟨authorization, -, rfl⟩ := start_eq h
  rfl

/-- **The loop is never suspended in a considerate run**, and can always go on. Any other step makes
it possible that the loop is suspended. -/
theorem considerate_never_suspended {nodeName : Text} {secret : I.SecretKey} {fleet : FleetId}
    {outbound inbound : S} {d₀ d : Daemon I S}
    (hstart : start nodeName secret fleet outbound inbound = .ok d₀) (h : d₀.ConsiderateRun d) :
    ¬d.Suspended ∧ (d.main ≠ .stopped → ∃ d', d.Advances d')
      ∧ ∀ labels d', d.Step labels d' → ¬d.Considerate labels d' →
        ∃ trace d'', d'.Path trace d'' ∧ d''.Suspended := by
  have hmain := main_of_start hstart
  obtain ⟨hconnects, hclear⟩ := h.clear (fun i hi ↦ by cases hmain.symm.trans hi)
    fun i hi ↦ by cases hmain.symm.trans hi
  refine ⟨hclear.not_suspended, hconnects.exists_advances hclear.not_suspended,
    fun labels d' hstep hrude ↦ ?_⟩
  rw [hclear.considerate_iff hconnects hstep, Clear] at hrude
  push Not at hrude
  obtain ⟨i, hmain', hfull⟩ := hrude
  exact (hconnects.step hstep).exists_suspended hmain' hfull

/-! ### One stream keeps another from opening

The node of the sample connects to the other, which then sends a byte at a time until the channel is
full. When the node connects once more, it is suspended. -/

theorem path_connect {shared : Shared I} {envelope : List UInt8} {now : UInt64} {instant : ℕ}
    {target : Text} {e : I.EndpointId} (hmain : d.main = .selecting)
    (hnetwork : d.network = some shared)
    (hresolve : ((Shared.resolve d.nodeName target instant).call
      (d.heardTable shared envelope now instant)).1 = .ok e) :
    d.Path [.synced now instant] { d.heard shared envelope now instant with
      main := .connecting d.streams.length
      streams := d.streams ++ [⟨e, 0, .connecting d.nodeName target⟩] } := by
  have hcommand : (handle (.distConnect d.nodeName target) now).Returns d none
      { d with main := .polling now (.connect d.nodeName target) } := by
    simp [handle, poll, await, hnetwork]
  have hresume : Step { d.heard shared envelope now instant with
      main := .synced now (.connect d.nodeName target) } (answers none)
      { d.heard shared envelope now instant with main := .resolving d.nodeName target } :=
    .returns (.resume ⟨id, List.Perm.refl⟩ rfl) rfl
  have hreturns := Method.returns_after hresolve
  rw [← Shared.within_resolve d.nodeName target instant] at hreturns
  have hdist : (onDist (Shared.resolve d.nodeName target instant)).Returns
      { d.heard shared envelope now instant with main := .resolving d.nodeName target } e
      { d.heard shared envelope now instant with main := .resolving d.nodeName target } :=
    returns_onDist.mpr ⟨_, _, rfl, hreturns, rfl⟩
  have hresolves := Step.resolves rfl hdist
  exact ((path_heard (.command _ now hmain) hcommand hnetwork envelope instant).tail hresume).tail
    hresolves

/-- The node with a stream to the other. -/
def linked (main : Main) (shared : Shared Iroh.pair) (events : Channel (UInt64 × Event) eventQueue)
    (id : UInt64) (side : Side) : Daemon Iroh.pair (MemorySequenceStore Iroh.pair) :=
  { home.heard .new hello 0 0 with
    main, events
    network := some shared
    streams := [⟨true, id, side⟩] }

theorem stream_linked (main : Main) (shared : Shared Iroh.pair)
    (events : Channel (UInt64 × Event) eventQueue) (id : UInt64) (side : Side) :
    (linked main shared events id side).streams[0]? = some ⟨true, id, side⟩ := rfl

theorem step_linked {shared : Shared Iroh.pair} {id : UInt64} {side side' : Side}
    {action : Action} (hcall : action.isCall = false) (hwaits : side.task.waits = none)
    (h : side.Step action side') (hinstalls : ∀ opening, side'.task ≠ .installing opening) :
    (linked .selecting shared events id side).Step [.moved 0 action]
      (linked .selecting shared events id side') :=
  .moves (stream_linked _ _ _ _ _) hcall hwaits h hinstalls

theorem step_linked_emits (main : Main) (shared : Shared Iroh.pair)
    {events' : Channel (UInt64 × Event) eventQueue} {id : UInt64} {side side' : Side}
    {event : Event} (h : side.Step (.emitted event) side')
    (hputs : events.Puts [(id, event)] events')
    (hmain : ((linked main shared events id side).settle 0 ⟨true, id, side'⟩).1 = .selecting) :
    ∃ labels, (linked main shared events id side).Step labels
      (linked .selecting shared events' id side') := by
  have hstep := Step.emits (stream_linked main shared events id side) h hputs
  rw [put, hmain] at hstep
  exact ⟨_, hstep⟩

/-- The node while it connects. -/
def calling : Daemon Iroh.pair (MemorySequenceStore Iroh.pair) :=
  linked (.connecting 0) (home.heardTable .new hello 0 0) .empty 0
    (.connecting homeNode Registry.sample.nodeName)

theorem path_calling : Path { home with network := none }
    [.answered (.ok .networkStarted), .synced 0 0] calling :=
  path_home.trans (path_connect rfl rfl (by decide +kernel))

/-- A stream that is open and may still read some bytes. -/
def flowing (credit : ℕ) : Side where
  entry := some ⟨creditWindow, credit⟩
  commands := []
  task := .selecting
  receiveCredit := credit

/-- The node after it has connected, with events in the channel. -/
def talking (events : Channel (UInt64 × Event) eventQueue) (credit : ℕ) :
    Daemon Iroh.pair (MemorySequenceStore Iroh.pair) :=
  linked .selecting (home.heardTable .new hello 0 0).takeId events 1 (flowing credit)

/-- The node waits to tell the port of the stream. -/
def telling : Daemon Iroh.pair (MemorySequenceStore Iroh.pair) :=
  linked (.connecting 0) (home.heardTable .new hello 0 0).takeId .empty 1
    (Side.install (.connected Registry.sample.nodeName)
      (.connecting homeNode Registry.sample.nodeName))

theorem path_telling : Path { home with network := none }
    [.answered (.ok .networkStarted), .synced 0 0,
      .moved 0 (.wrote (encodeHeader homeNode Registry.sample.nodeName)), .moved 0 .quiet]
    telling := by
  have hheader : calling.Step _ (linked (.connecting 0) (home.heardTable .new hello 0 0) .empty 0
      { Side.connecting homeNode Registry.sample.nodeName with
        task := .connecting [] Registry.sample.nodeName }) :=
    step_header rfl (stream_linked _ _ _ _ _) rfl (by decide)
  have hinstall : Step _ _ telling :=
    step_install rfl (stream_linked (.connecting 0) (home.heardTable .new hello 0 0) .empty 0
      { Side.connecting homeNode Registry.sample.nodeName with
        task := .connecting [] Registry.sample.nodeName }) rfl rfl
  exact (path_calling.tail hheader).tail hinstall

theorem considerate_never_suspended_telling :
    ∃ d₀ : Daemon Iroh.pair (MemorySequenceStore Iroh.pair),
      start homeNode (I := Iroh.pair) false Registry.sample.fleetId ⟨∅⟩ ⟨∅⟩ = .ok d₀
        ∧ d₀.ConsiderateRun telling ∧ telling.main = .connecting 0 ∧ ¬telling.Suspended
        ∧ ∃ d, telling.Advances d := by
  obtain ⟨hrun, -⟩ := path_telling.considerate (by decide) (by simp)
  obtain ⟨hawake, hadvances, -⟩ := considerate_never_suspended start_home hrun
  have hmain : telling.main = .connecting 0 := rfl
  exact ⟨_, start_home, hrun, hmain, hawake, hadvances (by simp [hmain])⟩

theorem path_talking : ∃ trace events, Path { home with network := none } trace
    (talking events creditWindow) ∧ events.items.length = 1 := by
  obtain ⟨events, hputs⟩ : ∃ events : Channel (UInt64 × Event) eventQueue,
      Channel.empty.Puts [(1, .connected Registry.sample.nodeName)] events :=
    Channel.exists_puts (by decide)
  have hannounce : Side.Step (Side.install (.connected Registry.sample.nodeName)
      (.connecting homeNode Registry.sample.nodeName))
      (.emitted (.connected Registry.sample.nodeName)) (flowing creditWindow) :=
    @Side.Step.announce _ (.connected Registry.sample.nodeName) rfl
  obtain ⟨labels, hevent⟩ := step_linked_emits (.connecting 0)
    (home.heardTable .new hello 0 0).takeId hannounce hputs
    (settle_of_not_opens rfl (not_opens_of_emitted hannounce))
  exact ⟨_, events, path_telling.tail hevent, hputs.length⟩

theorem path_byte {events' : Channel (UInt64 × Event) eventQueue} (credit : ℕ)
    (hputs : events.Puts [(1, .data [0])] events') :
    ∃ trace, (talking events (credit + 1)).Path trace (talking events' credit) := by
  have hread : (flowing (credit + 1)).Step (.readData [0]) { flowing (credit + 1) with
      receiveCredit := credit, task := .taking [0] } :=
    .readData (by decide) (le_min (Nat.le_add_left 1 credit) (by decide)) rfl
  have hdeduct : Side.Step { flowing (credit + 1) with
      receiveCredit := credit, task := .taking [0] } .quiet { flowing credit with
        task := .emitting [0] } := by
    have hrest : Side.deduct [0] { flowing (credit + 1) with
        receiveCredit := credit, task := .taking [0] } = { flowing credit with
          task := .emitting [0] } := by
      simp [Side.deduct, flowing]
    rw [← hrest]
    exact .deduct rfl
  have hemit : Side.Step { flowing credit with task := .emitting [0] } (.emitted (.data [0]))
      (flowing credit) := .dataEvent rfl
  obtain ⟨labels, hevent⟩ := step_linked_emits .selecting
    (home.heardTable .new hello 0 0).takeId hemit hputs rfl
  exact ⟨_, ((Path.refl.tail (step_linked rfl rfl hread (by simp))).tail
    (step_linked rfl rfl hdeduct (by simp))).tail hevent⟩

theorem path_full (n credit : ℕ) (h : events.items.length + n = eventQueue) :
    ∃ trace events', (talking events (credit + n)).Path trace (talking events' credit)
      ∧ events'.Full := by
  induction n generalizing events with
  | zero => exact ⟨_, events, .refl, h⟩
  | succ n ih =>
    obtain ⟨events', hputs⟩ : ∃ events', events.Puts [(1, .data [0])] events' :=
      Channel.exists_puts (by rw [List.length_singleton]; omega)
    obtain ⟨trace, hbyte⟩ := path_byte (credit + n) hputs
    have hlength : events'.items.length + n = eventQueue := by
      rw [hputs.length, List.length_singleton]
      omega
    obtain ⟨trace', full, hpath, hfull⟩ := ih hlength
    exact ⟨_, full, hbyte.trans hpath, hfull⟩

/-- The node connects once more, while there is no place in the channel. -/
theorem path_again (events : Channel (UInt64 × Event) eventQueue) (credit : ℕ) :
    ∃ d, (talking events credit).Path [.synced 0 0] d ∧ d.main = .connecting 1
      ∧ d.events = events := by
  have hresolve : ((Shared.resolve homeNode Registry.sample.nodeName 0).call
      ((home.heard .new hello 0 0).heardTable (home.heardTable .new hello 0 0).takeId [] 0 0)).1
        = .ok true := by
    decide +kernel
  exact ⟨_, path_connect rfl rfl hresolve, rfl, rfl⟩

/-- The loop is suspended for good. -/
theorem connecting_suspends :
    ∃ (d₀ d : Daemon Iroh.pair (MemorySequenceStore Iroh.pair)) (trace : List (Label Iroh.pair)),
      start homeNode (I := Iroh.pair) false Registry.sample.fleetId ⟨∅⟩ ⟨∅⟩ = .ok d₀
        ∧ d₀.Path trace d ∧ d.Suspended
        ∧ ∀ trace' d', d.Path trace' d' → d'.Suspended ∧ ∀ d'', ¬d'.Advances d'' := by
  obtain ⟨_, events, htalking, hone⟩ := path_talking
  have hcredit : creditWindow = (creditWindow - 63) + 63 := by decide
  rw [hcredit] at htalking
  have hlength : events.items.length + 63 = eventQueue := by
    rw [hone]
    rfl
  obtain ⟨_, full, hfill, hfull⟩ := path_full 63 (creditWindow - 63) hlength
  obtain ⟨d, hagain, hmain, hevents⟩ := path_again full (creditWindow - 63)
  have hpath := (htalking.trans hfill).trans hagain
  have hconnects : d.Connects := hpath.connects fun i hi ↦ by
    cases (main_of_start start_home).symm.trans hi
  obtain ⟨_, d', hend, hsuspended⟩ := hconnects.exists_suspended hmain (hevents ▸ hfull)
  refine ⟨_, d', _, start_home, hpath.trans hend, hsuspended, fun trace d'' h ↦ ?_⟩
  exact ⟨hsuspended.path h, (hsuspended.path h).not_advances⟩

end Daemon

end NervesP2P
