import NervesP2P.Dist.Closing
import NervesP2P.Lib.Maps

/-!
# The listener

One process of a node receives the events of all its streams, and hands each of them on. The first
event of an incoming stream goes to the acceptor, which starts a controller for the stream and tells
the listener; a stream that was set up from here is bound the same way. All other events go to the
controller of their stream. Those that come before it is known are kept, newest first, and handed
over when it is.

## What the listener knows of a stream

Binding and handing on race with each other and with the end of the controller. What the listener
knows of a stream is a `Line`, and each message does to every line what it would do if there were no
other (`Listener.Receives.turn`). Until its controller is gone, a line moves its events as a `Route`
does (`Line.route_turn`), so none is lost or overtaken.

A controller that is gone is forgotten, and with it that the stream ever had one: what comes later
is kept as if the controller were still to come.
-/

open Std (ExtTreeMap)

namespace NervesP2P

variable {P : Type}

/-! ## The process

The variables of the source's loop are the fields of one structure, which also says that nothing is
kept for a controller that is known. A turn gives what is sent, in order, and the listener after it,
and a listener that is closed gives none. -/

inductive ListenerMessage (P : Type) where
  /-- A process is ready for an incoming stream. -/
  | acceptor (pid : P)
  | bind (stream : UInt64) (controller sender : P) (ref : ℕ)
  /-- A bound controller is gone. -/
  | down (controller : P)
  | event (stream : UInt64) (event : Event)
  | close (sender : P) (ref : ℕ)
  | other

inductive ListenerReply where
  | incoming (stream : UInt64) (event : Event)
  | event (stream : UInt64) (event : Event)
  | ok (ref : ℕ)
  | listenerClosed

structure Listener (P : Type) where
  acceptor : Option P
  /-- First events of streams that no acceptor has been told of. -/
  incoming : List (UInt64 × Event)
  controllers : ExtTreeMap UInt64 P
  /-- The events of streams without controller, newest first. -/
  pending : ExtTreeMap UInt64 (List Event)
  /-- Nothing is kept for a controller that is known. -/
  kept : ∀ stream : UInt64, controllers[stream]?.isSome = true → pending[stream]? = none

namespace Listener

def init : Listener P where
  acceptor := none
  incoming := []
  controllers := ∅
  pending := ∅
  kept := fun _ _ ↦ ExtTreeMap.getElem?_empty

/-- One incoming stream is handed to an acceptor that is ready. -/
def dispatchIncoming (acceptor : P) (l : Listener P) :
    List (P × ListenerReply) × Option (Listener P) :=
  match l.incoming with
  | (stream, event) :: rest =>
    ([(acceptor, .incoming stream event)],
      some { l with acceptor := some acceptor, incoming := rest })
  | [] => ([], some { l with acceptor := some acceptor })

/-- The controller of a stream is known, and nothing is kept any more. -/
def bind (stream : UInt64) (controller : P) (l : Listener P) : Listener P :=
  { l with
    controllers := l.controllers.insert stream controller
    pending := l.pending.erase stream
    kept := by
      intro other hother
      rw [getElem?_erase_eq]
      rw [getElem?_insert_eq] at hother
      split
      · rfl
      · next hne =>
        rw [if_neg hne] at hother
        exact l.kept other hother }

/-- An event is kept for a stream without controller. -/
def keep (stream : UInt64) (event : Event) (l : Listener P) (h : l.controllers[stream]? = none) :
    Listener P :=
  { l with
    pending := l.pending.insert stream (event :: l.pending[stream]?.getD [])
    kept := by
      intro other hother
      rw [getElem?_insert_eq, if_neg]
      · exact l.kept other hother
      · rintro rfl
        rw [h] at hother
        cases hother }

section Loop

variable [DecidableEq P]

/-- A controller is forgotten. -/
def forget (controller : P) (l : Listener P) : Listener P :=
  { l with
    controllers := l.controllers.filter fun _ pid ↦ pid ≠ controller
    kept := by
      intro stream hstream
      rw [ExtTreeMap.getElem?_filter'] at hstream
      exact l.kept stream (Option.isSome_of_isSome_filter _ _ hstream) }

/-- One turn of the loop: what is sent, in order, and the listener after it. A listener that is
closed leaves the loop. -/
def receive (l : Listener P) : ListenerMessage P → List (P × ListenerReply) × Option (Listener P)
  | .acceptor pid => l.dispatchIncoming pid
  | .bind stream controller sender ref =>
    ((l.pending[stream]?.getD []).reverse.map (fun event ↦ (controller, .event stream event))
        ++ [(sender, .ok ref)],
      some (l.bind stream controller))
  | .down controller => ([], some (l.forget controller))
  | .event stream event =>
    if event.isIncoming = true then
      match l.acceptor with
      | none => ([], some { l with incoming := l.incoming ++ [(stream, event)] })
      | some acceptor => ([(acceptor, .incoming stream event)], some l)
    else
      match h : l.controllers[stream]? with
      | some controller => ([(controller, .event stream event)], some l)
      | none => ([], some (l.keep stream event h))
  | .close sender ref =>
    (l.acceptor.toList.map (fun acceptor ↦ (acceptor, .listenerClosed)) ++ [(sender, .ok ref)],
      none)
  | .other => ([], some l)

/-- A turn after which the loop goes on. -/
def Receives (l : Listener P) (m : ListenerMessage P) (sent : List (P × ListenerReply))
    (l' : Listener P) : Prop := l.receive m = (sent, some l')

/-- The loop, with all that it has received and sent. -/
inductive Run (l : Listener P) :
    List (ListenerMessage P) → List (P × ListenerReply) → Listener P → Prop
  | start : Run l [] [] l
  | step {received : List (ListenerMessage P)} {sent new : List (P × ListenerReply)}
      {m : ListenerMessage P} {l' l'' : Listener P} (h : Run l received sent l')
      (hreceives : l'.Receives m new l'') : Run l (received ++ [m]) (sent ++ new) l''

end Loop

end Listener

/-! ## One stream

Everything the listener knows is kept by stream, so it can be cut into lines. `Receives.turn` says
that a turn does to every line what its message does to it, and nothing else, and `Run.line` that a
run of the listener is a run of each of its lines. From here on most arguments are about one line,
and the tables are not seen any more. -/

/-- What the listener knows of one stream. -/
structure Line (P : Type) where
  controller : Option P
  pending : Option (List Event)
  kept : controller.isSome = true → pending = none

namespace Line

@[ext] theorem ext {line line' : Line P} (hcontroller : line.controller = line'.controller)
    (hpending : line.pending = line'.pending) : line = line' := by
  cases line
  cases line'
  simp only at hcontroller hpending
  subst hcontroller hpending
  rfl

/-- A stream that the listener has not heard of. -/
def unknown : Line P := ⟨none, none, fun _ ↦ rfl⟩

theorem controller_unknown (c : P) : (unknown : Line P).controller ≠ some c :=
  (Option.some_ne_none c).symm

/-- The events that are kept for the controller of a stream, newest first. -/
def events (line : Line P) : List Event := line.pending.getD []

def bind (controller : P) : Line P := ⟨some controller, none, fun _ ↦ rfl⟩

def keep (event : Event) (line : Line P) (h : line.controller = none) : Line P :=
  ⟨line.controller, some (event :: line.events), fun hsome ↦ by rw [h] at hsome; cases hsome⟩

variable [DecidableEq P]

def forget (controller : P) (line : Line P) : Line P :=
  ⟨line.controller.filter (· ≠ controller), line.pending,
    fun h ↦ line.kept (Option.isSome_of_isSome_filter _ _ h)⟩

/-- What a message does to a stream: the events that are handed on and to whom, and what is known
after it. -/
def turn (s : UInt64) (line : Line P) : ListenerMessage P → List (P × Event) × Line P
  | .bind stream controller _ _ =>
    if stream = s then (line.events.reverse.map fun event ↦ (controller, event), .bind controller)
    else ([], line)
  | .down controller => ([], line.forget controller)
  | .event stream event =>
    if stream = s ∧ event.isIncoming = false then
      match h : line.controller with
      | some controller => ([(controller, event)], line)
      | none => ([], line.keep event h)
    else ([], line)
  | _ => ([], line)

theorem turn_event_of_some {s : UInt64} {line : Line P} {event : Event} {controller : P}
    (hevent : event.isIncoming = false) (h : line.controller = some controller) :
    line.turn s (.event s event) = ([(controller, event)], line) := by
  rw [turn, if_pos ⟨rfl, hevent⟩]
  split
  · next heq =>
    rw [h] at heq
    obtain rfl := Option.some.inj heq
    rfl
  · next heq =>
    rw [h] at heq
    cases heq

theorem turn_event_of_none {s : UInt64} {line : Line P} {event : Event}
    (hevent : event.isIncoming = false) (h : line.controller = none) :
    line.turn s (.event s event) = ([], line.keep event h) := by
  rw [turn, if_pos ⟨rfl, hevent⟩]
  split
  · next heq =>
    rw [h] at heq
    cases heq
  · rfl

/-- What messages do to a stream. -/
def run (s : UInt64) : Line P → List (ListenerMessage P) → List (P × Event) × Line P
  | line, [] => ([], line)
  | line, m :: received =>
    ((line.turn s m).1 ++ ((line.turn s m).2.run s received).1,
      ((line.turn s m).2.run s received).2)

theorem run_append (s : UInt64) (line : Line P) (received more : List (ListenerMessage P)) :
    line.run s (received ++ more)
      = ((line.run s received).1 ++ ((line.run s received).2.run s more).1,
          ((line.run s received).2.run s more).2) := by
  induction received generalizing line with
  | nil => rfl
  | cons m received ih =>
    rw [List.cons_append, run, ih, run, List.append_assoc]

end Line

/-- The events of a stream that are handed on to controllers. -/
def handedOn (s : UInt64) (sent : List (P × ListenerReply)) : List (P × Event) :=
  sent.filterMap fun
    | (pid, .event stream event) => if stream = s then some (pid, event) else none
    | _ => none

theorem handedOn_append (s : UInt64) (sent new : List (P × ListenerReply)) :
    handedOn s (sent ++ new) = handedOn s sent ++ handedOn s new := List.filterMap_append

theorem handedOn_map (s stream : UInt64) (controller : P) (events : List Event) :
    handedOn s (events.map fun event ↦ (controller, .event stream event))
      = if stream = s then events.map fun event ↦ (controller, event) else [] := by
  induction events with
  | nil => simp [handedOn]
  | cons event events ih =>
    rw [List.map_cons, ← List.singleton_append, handedOn_append, ih]
    by_cases h : stream = s <;> simp [handedOn, h]

namespace Listener

def line (l : Listener P) (s : UInt64) : Line P :=
  ⟨l.controllers[s]?, l.pending[s]?, l.kept s⟩

theorem line_init (s : UInt64) : (init : Listener P).line s = .unknown :=
  Line.ext ExtTreeMap.getElem?_empty ExtTreeMap.getElem?_empty

theorem line_bind (l : Listener P) (stream s : UInt64) (controller : P) :
    (l.bind stream controller).line s = if stream = s then .bind controller else l.line s := by
  refine Line.ext ?_ ?_
  · simp only [line, bind, getElem?_insert_eq]
    split <;> rfl
  · simp only [line, bind, getElem?_erase_eq]
    split <;> rfl

theorem line_keep (l : Listener P) {stream : UInt64} (event : Event)
    (h : l.controllers[stream]? = none) (s : UInt64) :
    (l.keep stream event h).line s
      = if heq : stream = s then (l.line s).keep event (heq ▸ h) else l.line s := by
  by_cases heq : stream = s
  · subst heq
    rw [dif_pos rfl]
    refine Line.ext rfl ?_
    simp only [line, keep, getElem?_insert_eq, if_pos]
    rfl
  · rw [dif_neg heq]
    refine Line.ext rfl ?_
    simp only [line, keep, getElem?_insert_eq, if_neg heq]

variable [DecidableEq P] {l l' : Listener P} {m : ListenerMessage P}
  {sent new : List (P × ListenerReply)} {received : List (ListenerMessage P)}

theorem line_forget (l : Listener P) (controller : P) (s : UInt64) :
    (l.forget controller).line s = (l.line s).forget controller :=
  Line.ext ExtTreeMap.getElem?_filter' rfl

/-- A turn does to every stream what its message does to it, and nothing else. -/
theorem Receives.turn (h : l.Receives m new l') (s : UInt64) :
    (l.line s).turn s m = (handedOn s new, l'.line s) := by
  unfold Receives at h
  cases m with
  | acceptor pid =>
    rw [receive, dispatchIncoming] at h
    split at h <;> cases h <;> rfl
  | bind stream controller sender ref =>
    cases h
    rw [handedOn_append, handedOn_map, line_bind, Line.turn]
    by_cases heq : stream = s
    · subst heq
      simp [handedOn, line, Line.events]
    · simp [handedOn, heq]
  | down controller =>
    cases h
    rw [line_forget]
    rfl
  | event stream event =>
    rw [receive] at h
    split at h
    · next hincoming =>
      rw [Line.turn, if_neg (by simp [hincoming])]
      split at h <;> cases h <;> rfl
    · next hincoming =>
      have hevent : event.isIncoming = false := Bool.not_eq_true _ ▸ hincoming
      by_cases heq : stream = s
      · subst heq
        split at h
        · next controller hcontroller =>
          cases h
          rw [Line.turn_event_of_some hevent hcontroller]
          simp [handedOn]
        · next hnone =>
          cases h
          rw [Line.turn_event_of_none hevent hnone, line_keep, dif_pos rfl]
          rfl
      · rw [Line.turn, if_neg fun hand ↦ heq hand.1]
        split at h <;> cases h
        · simp [handedOn, heq]
        · rw [line_keep, dif_neg heq]
          rfl
  | close => cases h
  | other => cases h; rfl

/-- So a run of the listener is, for each stream, a run of what is known of it. -/
theorem Run.line (h : l.Run received sent l') (s : UInt64) :
    (l.line s).run s received = (handedOn s sent, l'.line s) := by
  induction h with
  | start => rfl
  | step _ hreceives ih =>
    rw [Line.run_append, ih, Line.run, Line.run, hreceives.turn s, handedOn_append, List.append_nil]

end Listener

/-! ## Events on their way to a controller

A line without the end of its controller is a queue from the port to the mailbox of the controller.
A controller that is known has been bound, and stays known until it is gone; what it has been sent
and what is still kept for it is together what has come (`flight_run`). The first events of incoming
streams have a queue of their own, to whichever acceptor is ready: each is offered once, or waits.

That the listener has a turn for every message makes this a statement about all sequences of
messages and not only about those that it happens to survive. -/

/-- The controller that a message binds to a stream. -/
def ListenerMessage.binding (s : UInt64) : ListenerMessage P → List P
  | .bind stream controller _ _ => if stream = s then [controller] else []
  | _ => []

/-- The event that a message carries. -/
def ListenerMessage.carried : ListenerMessage P → List (UInt64 × Event)
  | .event stream e => [(stream, e)]
  | _ => []

/-- The controllers that are bound to a stream. -/
def binds (s : UInt64) (received : List (ListenerMessage P)) : List P :=
  received.flatMap (·.binding s)

/-- The events of a stream that concern its controller. -/
def streamEvents (s : UInt64) (received : List (ListenerMessage P)) : List Event :=
  forwarded (told s (received.flatMap (·.carried)))

theorem binds_append (s : UInt64) (received more : List (ListenerMessage P)) :
    binds s (received ++ more) = binds s received ++ binds s more := List.flatMap_append

theorem streamEvents_append (s : UInt64) (received more : List (ListenerMessage P)) :
    streamEvents s (received ++ more) = streamEvents s received ++ streamEvents s more := by
  simp only [streamEvents, List.flatMap_append, told_append, forwarded_append]

theorem streamEvents_event (s stream : UInt64) (event : Event) :
    streamEvents s [ListenerMessage.event (P := P) stream event]
      = if stream = s ∧ event.isIncoming = false then [event] else [] := by
  by_cases hstream : stream = s <;> cases hevent : event.isIncoming <;>
    simp [streamEvents, told, ListenerMessage.carried, forwarded, hstream, hevent]

namespace Line

/-- The way of events through the listener; what its controller has been sent lies in its
mailbox. -/
def route (line : Line P) (mailbox : List Event) : Route where
  port := []
  pending := line.events
  bound := line.controller.isSome
  mailbox := mailbox
  kept := fun h ↦ by rw [events, line.kept h]; rfl

variable {s : UInt64} {line : Line P} {m : ListenerMessage P} {c : P}
  {received : List (ListenerMessage P)}

/-- What a message is for the way of the events of a stream. -/
def moves (s : UInt64) (m : ListenerMessage P) (route : Route) : Route :=
  match m with
  | .bind stream _ _ _ => if stream = s then route.bind else route
  | .event stream event =>
    if stream = s ∧ event.isIncoming = false then (route.emit [event]).relay event [] else route
  | _ => route

theorem flight_moves (route : Route) (h : route.port = []) :
    (moves s m route).flight = route.flight ++ streamEvents s [m] := by
  cases m with
  | bind stream controller sender ref =>
    rw [moves]
    split
    · rw [Route.flight_bind]
      exact (List.append_nil _).symm
    · exact (List.append_nil _).symm
  | event stream event =>
    rw [moves, streamEvents_event]
    split
    · next hand =>
      have hport : (route.emit [event]).port = event :: [] := by rw [Route.emit, h]; rfl
      rw [Route.flight_relay hport, Route.flight_emit]
      simp [forwarded, hand.2]
    · exact (List.append_nil _).symm
  | acceptor | down | close | other => exact (List.append_nil _).symm

section Controllers

variable [DecidableEq P] {K : P → Prop}

theorem known_turn (hline : ∀ c, line.controller = some c → K c)
    (hbinding : ∀ c ∈ m.binding s, K c) :
    (∀ x ∈ (line.turn s m).1, K x.1) ∧ ∀ c, (line.turn s m).2.controller = some c → K c := by
  cases m with
  | bind stream controller sender ref =>
    rw [turn]
    split
    · next heq =>
      have hK : K controller := hbinding controller (by simp [ListenerMessage.binding, heq])
      refine ⟨fun x hx ↦ ?_, fun c hc ↦ ?_⟩
      · obtain ⟨event, -, rfl⟩ := List.mem_map.mp hx
        exact hK
      · obtain rfl := Option.some.inj hc
        exact hK
    · exact ⟨fun x hx ↦ absurd hx List.not_mem_nil, hline⟩
  | down controller =>
    refine ⟨fun x hx ↦ absurd hx List.not_mem_nil, fun c hc ↦ ?_⟩
    exact hline c (Option.mem_filter_iff.mp hc).1
  | event stream event =>
    by_cases hand : stream = s ∧ event.isIncoming = false
    · obtain ⟨rfl, hevent⟩ := hand
      cases hcontroller : line.controller with
      | some controller =>
        rw [turn_event_of_some hevent hcontroller]
        refine ⟨fun x hx ↦ ?_, hline⟩
        obtain rfl := List.mem_singleton.mp hx
        exact hline _ hcontroller
      | none =>
        rw [turn_event_of_none hevent hcontroller]
        exact ⟨fun x hx ↦ absurd hx List.not_mem_nil, hline⟩
    · rw [turn, if_neg hand]
      exact ⟨fun x hx ↦ absurd hx List.not_mem_nil, hline⟩
  | acceptor | close | other => exact ⟨fun x hx ↦ absurd hx List.not_mem_nil, hline⟩

theorem known_run (hline : ∀ c, line.controller = some c → K c)
    (hbinds : ∀ c ∈ binds s received, K c) :
    (∀ x ∈ (line.run s received).1, K x.1)
      ∧ ∀ c, (line.run s received).2.controller = some c → K c := by
  induction received generalizing line with
  | nil => exact ⟨fun x hx ↦ absurd hx List.not_mem_nil, hline⟩
  | cons m received ih =>
    obtain ⟨hsent, hknown⟩ := known_turn (m := m) hline
      fun c hc ↦ hbinds c (List.mem_append_left _ hc)
    obtain ⟨hlater, hlast⟩ := ih hknown fun c hc ↦ hbinds c (List.mem_append_right _ hc)
    exact ⟨fun x hx ↦ (List.mem_append.mp hx).elim (hsent x) (hlater x), hlast⟩

theorem controller_turn (hbinding : ∀ c' ∈ m.binding s, c' = c) (hdown : m ≠ .down c)
    (h : line.controller = some c ∨ m.binding s ≠ []) : (line.turn s m).2.controller = some c := by
  cases m with
  | bind stream controller sender ref =>
    rw [turn]
    split
    · next heq =>
      exact congrArg some (hbinding controller (by simp [ListenerMessage.binding, heq]))
    · next hne => exact h.resolve_right fun hbinding ↦ hbinding (if_neg hne)
  | down controller =>
    have hcontroller := h.resolve_right fun hbinding ↦ hbinding rfl
    have hne : c ≠ controller := fun heq ↦ hdown (congrArg _ heq.symm)
    show line.controller.filter (· ≠ controller) = some c
    rw [hcontroller, Option.filter_some, if_pos (by simpa using hne)]
  | event stream event =>
    have hcontroller := h.resolve_right fun hbinding ↦ hbinding rfl
    by_cases hand : stream = s ∧ event.isIncoming = false
    · obtain ⟨rfl, hevent⟩ := hand
      rw [turn_event_of_some hevent hcontroller]
      exact hcontroller
    · rw [turn, if_neg hand]
      exact hcontroller
  | acceptor | close | other => exact h.resolve_right fun hbinding ↦ hbinding rfl

theorem controller_run (hbinds : ∀ c' ∈ binds s received, c' = c) (hdown : .down c ∉ received)
    (h : line.controller = some c ∨ binds s received ≠ []) :
    (line.run s received).2.controller = some c := by
  induction received generalizing line with
  | nil => exact h.resolve_right fun hne ↦ hne rfl
  | cons m received ih =>
    have hbinding : ∀ c' ∈ m.binding s, c' = c := fun c' hc' ↦
      hbinds c' (List.mem_append_left _ hc')
    have hne : m ≠ .down c := fun heq ↦ hdown (heq ▸ List.mem_cons_self)
    refine ih (fun c' hc' ↦ hbinds c' (List.mem_append_right _ hc'))
      (fun hmem ↦ hdown (List.mem_cons_of_mem _ hmem)) ?_
    by_cases hm : m.binding s = []
    · refine h.imp (fun hcontroller ↦ controller_turn hbinding hne (Or.inl hcontroller)) ?_
      intro hreceived hnil
      refine hreceived ?_
      rw [← List.singleton_append, binds_append, hnil, binds, List.flatMap_singleton, hm]
      rfl
    · exact Or.inl (controller_turn hbinding hne (Or.inr hm))

/-- Until its controller is gone, a stream moves on its route. -/
theorem route_turn (hline : ∀ c', line.controller = some c' → c' = c) (hdown : m ≠ .down c)
    (mailbox : List Event) :
    (line.turn s m).2.route (mailbox ++ (line.turn s m).1.map Prod.snd)
      = moves s m (line.route mailbox) := by
  cases m with
  | bind stream controller sender ref =>
    rw [turn, moves]
    split
    · simp [route, Route.bind, bind, events, Function.comp_def]
    · simp
  | down controller =>
    have hsame : line.forget controller = line := by
      refine ext ?_ rfl
      show line.controller.filter (· ≠ controller) = line.controller
      cases hcontroller : line.controller with
      | none => rfl
      | some c' =>
        have hne : c' ≠ controller := by
          rintro rfl
          exact hdown (congrArg _ (hline c' hcontroller))
        rw [Option.filter_some, if_pos (by simpa using hne)]
    rw [turn, hsame]
    exact congrArg line.route (List.append_nil mailbox)
  | event stream event =>
    rw [moves]
    by_cases hand : stream = s ∧ event.isIncoming = false
    · obtain ⟨rfl, hevent⟩ := hand
      rw [if_pos ⟨rfl, hevent⟩]
      cases hcontroller : line.controller with
      | some controller =>
        rw [turn_event_of_some hevent hcontroller]
        simp [route, Route.relay, Route.emit, hevent, hcontroller]
      | none =>
        rw [turn_event_of_none hevent hcontroller]
        simp [route, Route.relay, Route.emit, hevent, hcontroller, keep, events]
    · rw [turn, if_neg hand, if_neg hand, List.map_nil, List.append_nil]
  | acceptor | close | other => exact congrArg line.route (List.append_nil mailbox)

/-- What a controller has been sent, and what is still kept for it, is what has come. -/
theorem flight_run (hline : ∀ c', line.controller = some c' → c' = c)
    (hbinds : ∀ c' ∈ binds s received, c' = c) (hdown : .down c ∉ received)
    (mailbox : List Event) :
    ((line.run s received).2.route (mailbox ++ (line.run s received).1.map Prod.snd)).flight
      = (line.route mailbox).flight ++ streamEvents s received := by
  induction received generalizing line mailbox with
  | nil =>
    rw [run, List.map_nil, List.append_nil]
    exact (List.append_nil _).symm
  | cons m received ih =>
    have hbinding : ∀ c' ∈ m.binding s, c' = c := fun c' hc' ↦
      hbinds c' (List.mem_append_left _ hc')
    have hne : m ≠ .down c := fun heq ↦ hdown (heq ▸ List.mem_cons_self)
    rw [run, List.map_append, ← List.append_assoc,
      ih (known_turn hline hbinding).2 (fun c' hc' ↦ hbinds c' (List.mem_append_right _ hc'))
        (fun hmem ↦ hdown (List.mem_cons_of_mem _ hmem)),
      route_turn hline hne, flight_moves _ rfl, List.append_assoc, ← streamEvents_append,
      List.singleton_append]

end Controllers

end Line

/-- The events that a controller has been sent. -/
def inbox [DecidableEq P] (c : P) (sent : List (P × ListenerReply)) : List (UInt64 × Event) :=
  sent.filterMap fun
    | (pid, .event stream event) => if pid = c then some (stream, event) else none
    | _ => none

/-- The first events of streams that acceptors have been sent. -/
def offered (sent : List (P × ListenerReply)) : List (UInt64 × Event) :=
  sent.filterMap fun
    | (_, .incoming stream event) => some (stream, event)
    | _ => none

/-- The first events of incoming streams. -/
def arrivals (received : List (ListenerMessage P)) : List (UInt64 × Event) :=
  (received.flatMap (·.carried)).filter (·.2.isIncoming)

theorem offered_append (sent new : List (P × ListenerReply)) :
    offered (sent ++ new) = offered sent ++ offered new := List.filterMap_append

theorem arrivals_append (received more : List (ListenerMessage P)) :
    arrivals (received ++ more) = arrivals received ++ arrivals more := by
  rw [arrivals, List.flatMap_append, List.filter_append]
  rfl

theorem arrivals_event (stream : UInt64) (event : Event) :
    arrivals [ListenerMessage.event (P := P) stream event]
      = if event.isIncoming then [(stream, event)] else [] := by
  cases hincoming : event.isIncoming <;> simp [arrivals, ListenerMessage.carried, hincoming]

theorem told_inbox [DecidableEq P] (s : UInt64) (c : P) (sent : List (P × ListenerReply)) :
    told s (inbox c sent) = ((handedOn s sent).filter (·.1 = c)).map Prod.snd := by
  induction sent with
  | nil => rfl
  | cons reply sent ih =>
    obtain ⟨pid, reply⟩ := reply
    rw [← List.singleton_append, handedOn_append, inbox, List.filterMap_append, told_append,
      List.filter_append, List.map_append, ← ih]
    congr 1
    cases reply with
    | event stream event =>
      by_cases hs : stream = s <;> by_cases hc : pid = c <;> simp [told, handedOn, hs, hc]
    | _ => rfl

namespace Listener

variable [DecidableEq P] {l l' : Listener P} {m : ListenerMessage P}
  {sent new : List (P × ListenerReply)} {received : List (ListenerMessage P)}

/-- The first event of a stream is offered once, or waits. -/
theorem Receives.offered (h : l.Receives m new l') :
    (offered new ++ l'.incoming).Perm (l.incoming ++ arrivals [m]) := by
  unfold Receives at h
  cases m with
  | acceptor pid =>
    rw [receive, dispatchIncoming] at h
    split at h
    · next stream event rest hincoming =>
      cases h
      rw [hincoming]
      simp [NervesP2P.offered, arrivals, ListenerMessage.carried]
    · next hincoming =>
      cases h
      simp [NervesP2P.offered, arrivals, ListenerMessage.carried]
  | bind stream controller sender ref =>
    cases h
    simp [NervesP2P.offered, arrivals, ListenerMessage.carried, bind, List.filterMap_map]
  | down controller =>
    cases h
    simp [NervesP2P.offered, arrivals, ListenerMessage.carried, forget]
  | event stream event =>
    rw [receive] at h
    split at h
    · next hincoming =>
      rw [arrivals_event, if_pos hincoming]
      split at h <;> cases h
      · rfl
      · exact List.perm_append_comm
    · next hincoming =>
      rw [arrivals_event, if_neg hincoming, List.append_nil]
      split at h <;> cases h <;> rfl
  | close => cases h
  | other =>
    cases h
    simp [NervesP2P.offered, arrivals, ListenerMessage.carried]

theorem Run.offered (h : init.Run received sent l) :
    (offered sent ++ l.incoming).Perm (arrivals received) := by
  induction h with
  | start => rfl
  | @step received sent new m l' l'' _ hreceives ih =>
    rw [offered_append, arrivals_append, List.append_assoc]
    refine (hreceives.offered.append_left _).trans ?_
    rw [← List.append_assoc]
    exact ih.append_right _

theorem Run.unknown (h : init.Run received sent l) (s : UInt64) :
    Line.unknown.run s received = (handedOn s sent, l.line s) := by
  rw [← line_init, h.line]

theorem Run.mem_binds (h : init.Run received sent l) {c : P} {s : UInt64} {event : Event}
    (hmem : (c, event) ∈ handedOn s sent) : c ∈ binds s received := by
  have hknown : ∀ x ∈ (Line.unknown.run s received).1, x.1 ∈ binds s received :=
    (Line.known_run (K := (· ∈ binds s received))
      (fun c hc ↦ absurd hc (Line.controller_unknown c)) fun c hc ↦ hc).1
  rw [h.unknown] at hknown
  exact hknown _ hmem

/-- A controller that is not gone has been sent the events of its stream. -/
theorem Run.told_inbox (h : init.Run received sent l) {s : UInt64} {c : P}
    (hbinds : binds s received = [c]) (hdown : .down c ∉ received) :
    told s (inbox c sent) = streamEvents s received := by
  have hown : ∀ c' ∈ binds s received, c' = c := by
    rw [hbinds]
    exact fun c' ↦ List.mem_singleton.mp
  have hto : (handedOn s sent).filter (·.1 = c) = handedOn s sent :=
    List.filter_eq_self.mpr fun x hx ↦ decide_eq_true (hown x.1 (h.mem_binds hx))
  have hcontroller : (l.line s).controller = some c := by
    have hrun : (Line.unknown.run s received).2.controller = some c :=
      Line.controller_run hown hdown (Or.inr (by rw [hbinds]; exact List.cons_ne_nil _ _))
    rwa [h.unknown] at hrun
  have hpending : (l.line s).pending = none :=
    (l.line s).kept (Option.isSome_of_eq_some hcontroller)
  have hflight : ((Line.unknown.run s received).2.route
      ([] ++ (Line.unknown.run s received).1.map Prod.snd)).flight
        = (Line.unknown.route []).flight ++ streamEvents s received :=
    Line.flight_run (fun c' hc' ↦ absurd hc' (Line.controller_unknown c')) hown hdown []
  rw [h.unknown] at hflight
  rw [NervesP2P.told_inbox, hto]
  simpa [Route.flight, Line.route, Line.events, hpending, Line.unknown, forwarded] using hflight

/-- Across binding, a controller is sent the events of its stream, all of them, each once and in
their order; so are the first events of streams, to the acceptors. -/
theorem delivers_each_event_once (h : init.Run received sent l) :
    (∀ s c, binds s received = [c] → .down c ∉ received →
      told s (inbox c sent) = streamEvents s received)
      ∧ (∀ c, ∀ x ∈ inbox c sent, c ∈ binds x.1 received)
      ∧ (∀ s c, binds s received = [c] → .down c ∉ received →
        (∀ s', c ∈ binds s' received → s' = s) →
          inbox c sent = (streamEvents s received).map fun event ↦ (s, event))
      ∧ (offered sent ++ l.incoming).Perm (arrivals received) := by
  have hbound : ∀ c, ∀ x ∈ inbox c sent, c ∈ binds x.1 received := by
    rintro c ⟨s, event⟩ hx
    refine h.mem_binds (?_ : (c, event) ∈ handedOn s sent)
    have htold : event ∈ told s (inbox c sent) := by
      rw [told]
      exact List.mem_map.mpr ⟨_, List.mem_filter.mpr ⟨hx, decide_eq_true rfl⟩, rfl⟩
    rw [NervesP2P.told_inbox] at htold
    obtain ⟨⟨pid, event⟩, hmem, rfl⟩ := List.mem_map.mp htold
    obtain ⟨hsent, hpid⟩ := List.mem_filter.mp hmem
    obtain rfl : pid = c := of_decide_eq_true hpid
    exact hsent
  refine ⟨fun s c ↦ h.told_inbox, hbound, fun s c hbinds hdown hown ↦ ?_, h.offered⟩
  have hall : ∀ x ∈ inbox c sent, x.1 = s := fun x hx ↦ hown x.1 (hbound c x hx)
  rw [← h.told_inbox hbinds hdown, told,
    List.filter_eq_self.mpr fun x hx ↦ decide_eq_true (hall x hx), List.map_map]
  refine (List.map_id _).symm.trans (List.map_congr_left fun x hx ↦ ?_)
  rw [Function.comp, ← hall x hx]
  rfl

theorem exists_receives (l : Listener P) (h : ∀ sender ref, m ≠ .close sender ref) :
    ∃ new l', l.Receives m new l' := by
  unfold Receives
  cases m with
  | acceptor pid =>
    rw [receive, dispatchIncoming]
    split <;> exact ⟨_, _, rfl⟩
  | bind | down | other => exact ⟨_, _, rfl⟩
  | event stream event =>
    rw [receive]
    split <;> split <;> exact ⟨_, _, rfl⟩
  | close sender ref => exact absurd rfl (h sender ref)

theorem exists_run (received : List (ListenerMessage P))
    (h : ∀ m ∈ received, ∀ sender ref, m ≠ .close sender ref) :
    ∃ sent l, init.Run received sent l := by
  induction received using List.reverseRecOn with
  | nil => exact ⟨[], init, .start⟩
  | append_singleton received m ih =>
    obtain ⟨sent, l, hrun⟩ := ih fun m hm ↦ h m (List.mem_append_left _ hm)
    obtain ⟨new, l', hreceives⟩ := l.exists_receives (h m (by simp))
    exact ⟨_, _, hrun.step hreceives⟩

/-- Two streams whose events come before, between and after their controllers are bound. -/
def sampleReceived : List (ListenerMessage ℕ) :=
  [.event 7 (.incoming sampleNode sampleNode), .event 8 (.connected sampleNode), .acceptor 1,
    .event 7 (.data [1]), .event 8 (.data [3]), .bind 7 2 1 0, .event 7 (.data [2]),
    .bind 8 3 4 0]

theorem delivers_sample : ∃ sent l, init.Run sampleReceived sent l
    ∧ inbox 2 sent = [(7, .data [1]), (7, .data [2])]
    ∧ (offered sent ++ l.incoming).Perm [(7, .incoming sampleNode sampleNode)] := by
  obtain ⟨sent, l, h⟩ := exists_run sampleReceived (by simp [sampleReceived])
  obtain ⟨-, -, hinbox, hoffered⟩ := delivers_each_event_once h
  refine ⟨sent, l, h, hinbox 7 2 rfl (by simp [sampleReceived]) ?_, hoffered⟩
  intro s hs
  simpa [binds, sampleReceived, ListenerMessage.binding, eq_comm] using hs

end Listener

/-! ## The end of a stream

A stream whose controller is gone is one that the listener has not heard of (`Run.line_ended`), and
all that comes for a stream without controller is kept. So the end of a stream is clean exactly if
its controller is the last to leave. -/

namespace Line

variable [DecidableEq P] {s : UInt64} {line : Line P} {m : ListenerMessage P} {c : P}
  {received : List (ListenerMessage P)}

theorem unbound_turn (hline : line.controller = none) (hbinding : m.binding s = []) :
    (line.turn s m).2.controller = none
      ∧ ((line.turn s m).2.pending = none ↔ line.pending = none ∧ streamEvents s [m] = []) := by
  cases m with
  | bind stream controller sender ref =>
    have hne : stream ≠ s := by
      rintro rfl
      simp [ListenerMessage.binding] at hbinding
    rw [turn, if_neg hne]
    exact ⟨hline, (and_iff_left rfl).symm⟩
  | down controller =>
    refine ⟨?_, (and_iff_left rfl).symm⟩
    show line.controller.filter (· ≠ controller) = none
    rw [hline]
    rfl
  | event stream event =>
    by_cases hand : stream = s ∧ event.isIncoming = false
    · obtain ⟨rfl, hevent⟩ := hand
      rw [turn_event_of_none hevent hline]
      refine ⟨hline, ?_⟩
      rw [streamEvents_event, if_pos ⟨rfl, hevent⟩]
      simp [keep]
    · rw [turn, if_neg hand]
      refine ⟨hline, (and_iff_left ?_).symm⟩
      rw [streamEvents_event, if_neg hand]
  | acceptor | close | other => exact ⟨hline, (and_iff_left rfl).symm⟩

theorem unbound_run (hline : line.controller = none) (hbinds : binds s received = []) :
    (line.run s received).2.controller = none
      ∧ ((line.run s received).2.pending = none
        ↔ line.pending = none ∧ streamEvents s received = []) := by
  induction received generalizing line with
  | nil => exact ⟨hline, (and_iff_left rfl).symm⟩
  | cons m received ih =>
    obtain ⟨hbinding, hrest⟩ := List.append_eq_nil_iff.mp hbinds
    obtain ⟨hcontroller, hpending⟩ := unbound_turn hline hbinding
    obtain ⟨hlast, hkept⟩ := ih hcontroller hrest
    refine ⟨hlast, ?_⟩
    rw [← List.singleton_append, streamEvents_append, List.append_eq_nil_iff, ← and_assoc,
      ← hpending]
    exact hkept

end Line

namespace Listener

variable [DecidableEq P] {l : Listener P} {sent : List (P × ListenerReply)}
  {before between after : List (ListenerMessage P)} {s : UInt64} {c sender : P} {ref : ℕ}

/-- A stream whose controller is gone is one that the listener has not heard of. -/
theorem Run.line_ended (h : init.Run (before ++ .bind s c sender ref :: between ++ .down c :: after)
    sent l) (hbetween : binds s between = []) (hdown : .down c ∉ between) :
    (Line.unknown.run s after).2 = l.line s := by
  have hrun := congrArg Prod.snd (h.unknown s)
  simp only [Line.run_append, Line.run] at hrun
  generalize (Line.unknown.run s before).2 = line at hrun
  have hbind : (line.turn s (.bind s c sender ref)).2 = .bind c := by rw [Line.turn, if_pos rfl]
  have hstay : ((Line.bind c).run s between).2.controller = some c :=
    Line.controller_run (fun c' hc' ↦ by rw [hbetween] at hc'; cases hc') hdown (Or.inl rfl)
  have hgone : (((Line.bind c).run s between).2.turn s (.down c)).2 = .unknown := by
    have hpending : ((Line.bind c).run s between).2.pending = none :=
      Line.kept _ (Option.isSome_of_eq_some hstay)
    refine Line.ext ?_ hpending
    show ((Line.bind c).run s between).2.controller.filter (· ≠ c) = none
    rw [hstay]
    simp
  rw [hbind, hgone] at hrun
  exact hrun

/-- A listener keeps nothing of a stream whose controller is gone if and only if no event of the
stream comes after that. -/
theorem forgets_ended_stream_iff
    (h : init.Run (before ++ .bind s c sender ref :: between ++ .down c :: after) sent l)
    (hbetween : binds s between = []) (hdown : .down c ∉ between) (hafter : binds s after = []) :
    (l.controllers[s]? = none ∧ l.pending[s]? = none) ↔ streamEvents s after = [] := by
  have hline := Line.unbound_run (rfl : (Line.unknown : Line P).controller = none) hafter
  rw [h.line_ended hbetween hdown] at hline
  obtain ⟨hcontroller, hpending⟩ := hline
  exact (and_iff_right hcontroller).trans (hpending.trans (and_iff_right rfl))

/-- A stream is closed from here: its controller is gone before the daemon reports the end. -/
def closedLate : List (ListenerMessage ℕ) :=
  [.event 7 (.incoming sampleNode sampleNode), .acceptor 1, .bind 7 2 1 0, .down 2,
    .event 7 (.closed .localClose)]

/-- The report that the stream is closed is kept for a controller that will never come. -/
theorem ended_stream_remains :
    ∃ sent l, init.Run closedLate sent l ∧ binds 7 closedLate = [2] ∧ .down 2 ∈ closedLate
      ∧ .event 7 (.closed .localClose) ∈ closedLate
      ∧ l.pending[(7 : UInt64)]? = some [.closed .localClose] := by
  obtain ⟨sent, l, h⟩ := exists_run closedLate (by simp [closedLate])
  have hline : l.line 7 = (Line.unknown.run 7 closedLate).2 :=
    (congrArg Prod.snd (h.unknown 7)).symm
  refine ⟨sent, l, h, rfl, by simp [closedLate], by simp [closedLate], ?_⟩
  exact congrArg Line.pending hline

/-- A stream is closed from the other end: its controller leaves when it learns of that. -/
def closedEarly : List (ListenerMessage ℕ) :=
  [.event 7 (.incoming sampleNode sampleNode), .acceptor 1]
    ++ .bind 7 2 1 0 :: [.event 7 (.closed .remoteClose)] ++ .down 2 :: []

theorem forgets_closed_early : ∃ sent l, init.Run closedEarly sent l
    ∧ l.controllers[(7 : UInt64)]? = none ∧ l.pending[(7 : UInt64)]? = none := by
  obtain ⟨sent, l, h⟩ := exists_run closedEarly (by simp [closedEarly])
  exact ⟨sent, l, h, (forgets_ended_stream_iff h rfl (by simp) rfl).mpr rfl⟩

end Listener

end NervesP2P
