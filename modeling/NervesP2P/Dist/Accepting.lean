import NervesP2P.Dist.Listener
import NervesP2P.Lib.Mailbox

/-!
# Accepting streams

The acceptor is a loop next to the listener. It tells the listener that it is ready, waits for the
first event of a stream, starts a controller, has the listener bind it, and offers it to the kernel.
Before it is told of an acceptor the listener keeps such events in a queue, and takes one from it
each time the acceptor is ready again; afterwards new ones are sent on directly, so that several may
lie in the mailbox of the acceptor while it is busy.

## Nothing is forgotten

Streams that wait in the queue need somebody to ask for them. The acceptor asks once for each stream
that it has dealt with, and a message that it is ready, a stream in its mailbox or a stream that it
is busy with is under way for as long as the queue is not empty (`Sound.awaited`). An acceptor may
exit, since it calls a controller that can be gone; streams that were sent to it are then lost, and
the next acceptor goes on with the queue.
-/

namespace NervesP2P

variable {P : Type}

/-! ## The loop of the acceptor

It receives selectively: while it waits for an answer of the listener, streams that come stay in its
mailbox. So what it takes depends on where it is, and what it leaves behind keeps its order. -/

/-- Where the loop of an acceptor is. -/
inductive AcceptPhase (P : Type) where
  /-- It has said that it is ready. -/
  | waiting
  /-- A controller is started, and the listener is to bind it. -/
  | binding (stream : UInt64) (controller : P) (ref : ℕ)
  /-- The kernel was told of the controller. -/
  | offering (stream : UInt64) (controller : P)

structure Acceptor (P : Type) where
  pid : P
  phase : AcceptPhase P
  /-- What the listener has sent and the loop has not taken. -/
  mailbox : List ListenerReply

namespace ListenerReply

/-- What a waiting acceptor takes: a stream, or the end of the listener. -/
def accepted : ListenerReply → Option (Option UInt64)
  | .incoming stream _ => some (some stream)
  | .listenerClosed => some none
  | _ => none

/-- What an acceptor takes that waits for a stream to be bound. -/
def acknowledged (ref : ℕ) : ListenerReply → Option Unit
  | .ok ref' => if ref' = ref then some () else none
  | _ => none

def stream? : ListenerReply → Option UInt64
  | .incoming stream _ => some stream
  | _ => none

def ref? : ListenerReply → Option ℕ
  | .ok ref => some ref
  | _ => none

end ListenerReply

def streams (mailbox : List ListenerReply) : List UInt64 := mailbox.filterMap (·.stream?)

def acks (mailbox : List ListenerReply) : List ℕ := mailbox.filterMap (·.ref?)

theorem streams_append (mailbox new : List ListenerReply) :
    streams (mailbox ++ new) = streams mailbox ++ streams new := List.filterMap_append

theorem acks_append (mailbox new : List ListenerReply) :
    acks (mailbox ++ new) = acks mailbox ++ acks new := List.filterMap_append

/-! ## The listener and its acceptor

`Site` has both loops, what is on its way to each of them, and the history that the results speak
of: what the listener has received and sent, which controllers were started and which were offered,
and the streams that were lost with an acceptor. The listener itself is the one of `Dist.Listener`,
and a turn here is a turn there. -/

/-- A node that accepts streams, and what has happened there. -/
structure Site (P : Type) where
  listener : Listener P
  acceptor : Option (Acceptor P)
  /-- What acceptors have sent to the listener and it has not received. -/
  toListener : List (ListenerMessage P)
  received : List (ListenerMessage P)
  sent : List (P × ListenerReply)
  /-- The controllers that were started for streams. -/
  started : List (UInt64 × P)
  /-- Those that the kernel was told of. -/
  accepted : List (UInt64 × P)
  /-- The streams that were sent to an acceptor that has exited. -/
  lost : List UInt64

namespace Site

def init : Site P := ⟨.init, none, [], [], [], [], [], []⟩

section Mail

variable [DecidableEq P]

def mail (pid : P) (new : List (P × ListenerReply)) : List ListenerReply :=
  new.filterMap fun reply ↦ if reply.1 = pid then some reply.2 else none

/-- The streams that are sent to other processes than the acceptor. -/
def missed (acceptor : Option (Acceptor P)) (new : List (P × ListenerReply)) : List UInt64 :=
  match acceptor with
  | some a => new.filterMap fun reply ↦ if reply.1 = a.pid then none else reply.2.stream?
  | none => new.filterMap fun reply ↦ reply.2.stream?

def turn (m : ListenerMessage P) (new : List (P × ListenerReply)) (l : Listener P)
    (site : Site P) : Site P :=
  { site with
    listener := l
    acceptor := site.acceptor.map fun a ↦ { a with mailbox := a.mailbox ++ mail a.pid new }
    received := site.received ++ [m]
    sent := site.sent ++ new
    lost := site.lost ++ missed site.acceptor new }

/-- A message from elsewhere. Streams that were opened from here are bound by others, and no other
is. -/
def Outside (outgoing : UInt64 → Prop) (site : Site P) : ListenerMessage P → Prop
  | .acceptor _ => False
  | .bind stream _ sender _ => outgoing stream ∧ ∀ a, site.acceptor = some a → sender ≠ a.pid
  | .event stream event => event.isIncoming = true → ¬outgoing stream
  | .down _ | .close _ _ | .other => True

/-- One step of the listener or of an acceptor, until the listener is closed. -/
inductive Step (outgoing : UInt64 → Prop) : Site P → Site P → Prop
  | outside {site : Site P} {m : ListenerMessage P} {new : List (P × ListenerReply)}
      {l : Listener P} (houtside : site.Outside outgoing m)
      (hreceives : site.listener.Receives m new l) : Step outgoing site (site.turn m new l)
  | deliver {site : Site P} {m : ListenerMessage P} {rest : List (ListenerMessage P)}
      {new : List (P × ListenerReply)} {l : Listener P} (hfirst : site.toListener = m :: rest)
      (hreceives : site.listener.Receives m new l) :
      Step outgoing site { site.turn m new l with toListener := rest }
  /-- The kernel starts an acceptor, and never a second one. -/
  | accept {site : Site P} (pid : P) (hnone : site.acceptor = none) :
      Step outgoing site { site with
        acceptor := some ⟨pid, .waiting, []⟩
        toListener := site.toListener ++ [.acceptor pid] }
  | incoming {site : Site P} {pid : P} {mailbox rest : List ListenerReply} {stream : UInt64}
      (controller : P) (ref : ℕ) (hacceptor : site.acceptor = some ⟨pid, .waiting, mailbox⟩)
      (hselect : select ListenerReply.accepted mailbox = some (some stream, rest)) :
      Step outgoing site { site with
        acceptor := some ⟨pid, .binding stream controller ref, rest⟩
        toListener := site.toListener ++ [.bind stream controller pid ref]
        started := site.started ++ [(stream, controller)] }
  | bound {site : Site P} {pid controller : P} {mailbox rest : List ListenerReply}
      {stream : UInt64} {ref : ℕ}
      (hacceptor : site.acceptor = some ⟨pid, .binding stream controller ref, mailbox⟩)
      (hselect : select (ListenerReply.acknowledged ref) mailbox = some ((), rest)) :
      Step outgoing site { site with
        acceptor := some ⟨pid, .offering stream controller, rest⟩
        accepted := site.accepted ++ [(stream, controller)] }
  /-- The kernel takes the controller, and the controller its supervisor. -/
  | controlled {site : Site P} {pid controller : P} {mailbox : List ListenerReply}
      {stream : UInt64}
      (hacceptor : site.acceptor = some ⟨pid, .offering stream controller, mailbox⟩) :
      Step outgoing site { site with
        acceptor := some ⟨pid, .waiting, mailbox⟩
        toListener := site.toListener ++ [.acceptor pid] }
  /-- The kernel refuses the controller, or the controller is gone when it is called. -/
  | exit {site : Site P} {pid controller : P} {mailbox : List ListenerReply} {stream : UInt64}
      (hacceptor : site.acceptor = some ⟨pid, .offering stream controller, mailbox⟩) :
      Step outgoing site { site with
        acceptor := none
        lost := site.lost ++ streams mailbox }
  | closed {site : Site P} {pid : P} {mailbox rest : List ListenerReply}
      (hacceptor : site.acceptor = some ⟨pid, .waiting, mailbox⟩)
      (hselect : select ListenerReply.accepted mailbox = some (none, rest)) :
      Step outgoing site { site with
        acceptor := none
        lost := site.lost ++ streams rest }

def Reachable (outgoing : UInt64 → Prop) (site : Site P) : Prop :=
  Relation.ReflTransGen (Step outgoing) init site

end Mail

/-! ## What is under way

A stream that has come in is in one place only: the queue of the listener, the mailbox of the
acceptor, the hands of the acceptor, with a controller that was offered, or lost. `Sound` counts the
places up to a permutation, and `Orderly` says that the acceptor waits for its answer before it goes
on, so that there is never more than one message of each kind on its way between the two. -/

/-- The controllers that were started for a stream. -/
def controllers (s : UInt64) (started : List (UInt64 × P)) : List P :=
  (started.filter (·.1 = s)).map Prod.snd

theorem length_controllers (s : UInt64) (started : List (UInt64 × P)) :
    (controllers s started).length = (started.map Prod.fst).count s := by
  rw [controllers, List.length_map, List.count, List.countP_map, List.countP_eq_length_filter]
  rfl

/-- The controller that is started and not offered yet. -/
def current : Option (Acceptor P) → List (UInt64 × P)
  | some ⟨_, .binding stream controller _, _⟩ => [(stream, controller)]
  | _ => []

/-- The streams in the mailbox of the acceptor. -/
def waiting : Option (Acceptor P) → List UInt64
  | some a => streams a.mailbox
  | none => []

/-- The acceptor waits for an answer before it goes on, so little is under way. -/
def Orderly (acceptor : Option (Acceptor P)) (toListener : List (ListenerMessage P)) : Prop :=
  match acceptor with
  | none => toListener = []
  | some ⟨pid, .waiting, mailbox⟩ =>
    acks mailbox = [] ∧ (toListener = [] ∨ toListener = [.acceptor pid])
  | some ⟨pid, .binding stream controller ref, mailbox⟩ =>
    (toListener = [] ∧ acks mailbox = [ref]) ∨
      (acks mailbox = [] ∧ (toListener = [.bind stream controller pid ref]
        ∨ toListener = [.acceptor pid, .bind stream controller pid ref]))
  | some ⟨_, .offering _ _, mailbox⟩ => toListener = [] ∧ acks mailbox = []

/-- What is true of a node whatever has happened there. -/
structure Sound [DecidableEq P] (outgoing : UInt64 → Prop) (site : Site P) : Prop where
  run : Listener.init.Run site.received site.sent site.listener
  /-- Streams that come in are not those that were opened from here. -/
  arrived : ∀ x ∈ arrivals site.received, ¬outgoing x.1
  /-- The listener is to bind what was started. -/
  bound : ∀ s, ¬outgoing s →
    binds s (site.received ++ site.toListener) = controllers s site.started
  offered : site.started = site.accepted ++ current site.acceptor
  /-- A stream that was sent to an acceptor has a controller, waits for one or is lost. -/
  conserved : ((NervesP2P.offered site.sent).map Prod.fst).Perm
    (site.started.map Prod.fst ++ waiting site.acceptor ++ site.lost)
  orderly : Orderly site.acceptor site.toListener
  /-- The listener is not closed. -/
  stays : ∀ a, site.acceptor = some a → ListenerReply.listenerClosed ∉ a.mailbox
  /-- A listener that knows no acceptor is about to hear of it. -/
  heard : ∀ a, site.acceptor = some a → site.listener.acceptor = none →
    site.toListener.head? = some (.acceptor a.pid)
  /-- Streams in the queue are asked for. -/
  awaited : ∀ a, site.acceptor = some a → a.phase = .waiting → site.toListener = [] →
    streams a.mailbox = [] → site.listener.incoming = []

/-! ## A turn of the listener

For acceptors only three kinds of turns matter. One that is ready takes from the queue, a stream
that comes in goes to the acceptor or into the queue, and a process that has a stream bound gets its
acknowledgement. A stream that is sent on lies in the mailbox of the acceptor, or is lost if the
acceptor has exited and the listener does not know it yet. -/

theorem map_fst_offered (new : List (P × ListenerReply)) :
    (NervesP2P.offered new).map Prod.fst = new.filterMap fun reply ↦ reply.2.stream? := by
  rw [NervesP2P.offered, List.map_filterMap]
  refine List.filterMap_congr fun reply _ ↦ ?_
  obtain ⟨pid, reply⟩ := reply
  cases reply <;> rfl

section Turn

variable [DecidableEq P] {l l' : Listener P} {m : ListenerMessage P}
  {new : List (P × ListenerReply)}

/-- What a turn is for acceptors: one that is ready takes from the queue, a stream that comes in
goes to the acceptor or into the queue, and nothing else concerns them. -/
theorem receives_cases (h : l.Receives m new l') :
    (∃ pid, m = .acceptor pid ∧ l'.acceptor = some pid ∧
        ((l.incoming = [] ∧ l'.incoming = [] ∧ new = [])
          ∨ ∃ stream event rest, l.incoming = (stream, event) :: rest ∧ l'.incoming = rest
            ∧ new = [(pid, .incoming stream event)]))
      ∨ (∃ stream event, m = .event stream event ∧ l'.acceptor = l.acceptor ∧
        ((l.acceptor = none ∧ l'.incoming = l.incoming ++ [(stream, event)] ∧ new = [])
          ∨ ∃ pid, l.acceptor = some pid ∧ l'.incoming = l.incoming
            ∧ new = [(pid, .incoming stream event)]))
      ∨ (∀ pid, m ≠ .acceptor pid) ∧ l'.acceptor = l.acceptor ∧ l'.incoming = l.incoming
        ∧ ∀ reply ∈ new, reply.2.stream? = none := by
  unfold Listener.Receives at h
  cases m with
  | acceptor pid =>
    refine Or.inl ⟨pid, rfl, ?_⟩
    rw [Listener.receive, Listener.dispatchIncoming] at h
    split at h
    · next stream event rest hincoming =>
      cases h
      exact ⟨rfl, Or.inr ⟨stream, event, rest, hincoming, rfl, rfl⟩⟩
    · next hincoming =>
      cases h
      exact ⟨rfl, Or.inl ⟨hincoming, hincoming, rfl⟩⟩
  | bind stream controller sender ref =>
    cases h
    refine Or.inr (Or.inr ⟨by simp, rfl, rfl, fun reply hreply ↦ ?_⟩)
    rcases List.mem_append.mp hreply with hevent | hok
    · obtain ⟨event, -, rfl⟩ := List.mem_map.mp hevent
      rfl
    · obtain rfl := List.mem_singleton.mp hok
      rfl
  | down controller =>
    cases h
    exact Or.inr (Or.inr ⟨by simp, rfl, rfl, by simp⟩)
  | event stream event =>
    rw [Listener.receive] at h
    split at h
    · refine Or.inr (Or.inl ⟨stream, event, rfl, ?_⟩)
      split at h <;> cases h
      · next hnone => exact ⟨rfl, Or.inl ⟨hnone, rfl, rfl⟩⟩
      · next pid hpid => exact ⟨rfl, Or.inr ⟨pid, hpid, rfl, rfl⟩⟩
    · refine Or.inr (Or.inr ⟨by simp, ?_⟩)
      split at h <;> cases h
      · exact ⟨rfl, rfl, by simp [ListenerReply.stream?]⟩
      · exact ⟨rfl, rfl, by simp⟩
  | close => cases h
  | other =>
    cases h
    exact Or.inr (Or.inr ⟨by simp, rfl, rfl, by simp⟩)

theorem acks_mail (h : l.Receives m new l') (pid : P) :
    acks (mail pid new) = match m with
      | .bind _ _ sender ref => if sender = pid then [ref] else []
      | _ => [] := by
  unfold Listener.Receives at h
  cases m with
  | acceptor pid' =>
    rw [Listener.receive, Listener.dispatchIncoming] at h
    split at h <;> cases h
    · by_cases hpid : pid' = pid <;> simp [acks, mail, hpid, ListenerReply.ref?]
    · rfl
  | bind stream controller sender ref =>
    cases h
    simp only [acks, mail, List.filterMap_append, List.filterMap_map, List.filterMap_filterMap]
    by_cases hpid : sender = pid <;> by_cases hcontroller : controller = pid <;>
      simp [hpid, hcontroller, ListenerReply.ref?]
  | down controller =>
    cases h
    rfl
  | event stream event =>
    rw [Listener.receive] at h
    split at h <;> split at h <;> cases h
    · rfl
    · next pid' hpid' =>
      by_cases hpid : pid' = pid <;> simp [acks, mail, hpid, ListenerReply.ref?]
    · next pid' hpid' =>
      by_cases hpid : pid' = pid <;> simp [acks, mail, hpid, ListenerReply.ref?]
    · rfl
  | close => cases h
  | other =>
    cases h
    rfl

/-- A stream that is sent lies in the mailbox of the acceptor or is lost. -/
theorem waiting_turn (acceptor : Option (Acceptor P)) (new : List (P × ListenerReply)) :
    ((NervesP2P.offered new).map Prod.fst ++ waiting acceptor).Perm
      (waiting (acceptor.map fun a ↦ { a with mailbox := a.mailbox ++ mail a.pid new })
        ++ missed acceptor new) := by
  rw [map_fst_offered]
  cases acceptor with
  | none => simp [waiting, missed]
  | some a =>
    simp only [Option.map_some, waiting, missed, streams_append]
    have hsplit := (List.filter_append_perm (fun reply ↦ reply.1 = a.pid) new).symm.filterMap
      fun reply ↦ reply.2.stream?
    rw [List.filterMap_append, List.filterMap_filter, List.filterMap_filter] at hsplit
    have hmail : streams (mail a.pid new)
        = new.filterMap fun reply ↦ if reply.1 = a.pid then reply.2.stream? else none := by
      rw [streams, mail, List.filterMap_filterMap]
      refine List.filterMap_congr fun reply _ ↦ ?_
      split <;> rfl
    have hmissed : (new.filterMap fun reply ↦ if reply.1 = a.pid then none else reply.2.stream?)
        = new.filterMap fun reply ↦
          if (!decide (reply.1 = a.pid)) = true then reply.2.stream? else none := by
      refine List.filterMap_congr fun reply _ ↦ ?_
      by_cases hpid : reply.1 = a.pid <;> simp [hpid]
    rw [List.append_assoc, hmail, hmissed]
    simp only [decide_eq_true_eq] at hsplit
    exact List.perm_append_comm.trans (hsplit.append_left _)

theorem listenerClosed_notMem_mail (h : l.Receives m new l') (pid : P) :
    ListenerReply.listenerClosed ∉ mail pid new := by
  intro hmem
  obtain ⟨⟨pid', reply⟩, hreply, heq⟩ := List.mem_filterMap.mp hmem
  obtain ⟨-, rfl⟩ : pid' = pid ∧ reply = .listenerClosed := by simpa using heq
  unfold Listener.Receives at h
  cases m with
  | acceptor pid =>
    rw [Listener.receive, Listener.dispatchIncoming] at h
    split at h <;> cases h <;> simp at hreply
  | bind | down | other =>
    cases h
    simp at hreply
  | event stream event =>
    rw [Listener.receive] at h
    split at h <;> split at h <;> cases h <;> simp at hreply
  | close => cases h

end Turn

/-! ## Every step keeps it

Each clause of `Sound` has a step lemma of its own, and `Sound.step` puts them together. Taking a
message from the mailbox takes at most one stream away and leaves the others in order; messages
without an acknowledgement change nothing about what is under way.

At rest the places in between are empty, so every stream that has come in has a controller or is
lost. As numbers are not used twice, one controller means exactly one, and what it has been sent is
what the theorem on delivery says. -/

theorem Orderly.cons {acceptor : Option (Acceptor P)} {m : ListenerMessage P}
    {rest : List (ListenerMessage P)} (h : Orderly acceptor (m :: rest)) :
    ∃ pid mailbox, acks mailbox = [] ∧
      ((acceptor = some ⟨pid, .waiting, mailbox⟩ ∧ m = .acceptor pid ∧ rest = [])
        ∨ ∃ stream controller ref, acceptor = some ⟨pid, .binding stream controller ref, mailbox⟩
          ∧ ((m = .acceptor pid ∧ rest = [.bind stream controller pid ref])
            ∨ (m = .bind stream controller pid ref ∧ rest = []))) := by
  rcases acceptor with _ | ⟨pid, _ | ⟨stream, controller, ref⟩ | ⟨stream, controller⟩, mailbox⟩
  · cases h
  · obtain ⟨hacks, hnil | hone⟩ := h
    · cases hnil
    · obtain ⟨rfl, rfl⟩ := List.cons.inj hone
      exact ⟨pid, mailbox, hacks, Or.inl ⟨rfl, rfl, rfl⟩⟩
  · rcases h with ⟨hnil, -⟩ | ⟨hacks, hone | htwo⟩
    · cases hnil
    · obtain ⟨rfl, rfl⟩ := List.cons.inj hone
      exact ⟨pid, mailbox, hacks, Or.inr ⟨stream, controller, ref, rfl, Or.inr ⟨rfl, rfl⟩⟩⟩
    · obtain ⟨rfl, rfl⟩ := List.cons.inj htwo
      exact ⟨pid, mailbox, hacks, Or.inr ⟨stream, controller, ref, rfl, Or.inl ⟨rfl, rfl⟩⟩⟩
  · cases h.1

section Steps

variable [DecidableEq P] {outgoing : UInt64 → Prop} {site site' : Site P}

theorem Orderly.mail {acceptor : Option (Acceptor P)} {toListener : List (ListenerMessage P)}
    {new : List (P × ListenerReply)} (h : Orderly acceptor toListener)
    (hacks : ∀ a, acceptor = some a → acks (mail a.pid new) = []) :
    Orderly (acceptor.map fun a ↦ { a with mailbox := a.mailbox ++ Site.mail a.pid new })
      toListener := by
  rcases acceptor with _ | ⟨pid, _ | ⟨stream, controller, ref⟩ | ⟨stream, controller⟩, mailbox⟩
  · exact h
  all_goals
    simp only [Option.map_some, Orderly, acks_append, hacks _ rfl, List.append_nil]
    exact h

theorem acks_outside {m : ListenerMessage P} {new : List (P × ListenerReply)} {l : Listener P}
    (houtside : site.Outside outgoing m) (h : site.listener.Receives m new l) (a : Acceptor P)
    (ha : site.acceptor = some a) : acks (mail a.pid new) = [] := by
  rw [acks_mail h]
  cases m with
  | bind stream controller sender ref => exact if_neg (houtside.2 a ha)
  | _ => rfl

/-- What stays in the mailbox when a message is taken. -/
theorem streams_select {mailbox rest : List ListenerReply} {stream : UInt64}
    (h : select ListenerReply.accepted mailbox = some (some stream, rest)) :
    (streams mailbox).Perm (stream :: streams rest) ∧ acks rest = acks mailbox := by
  obtain ⟨before, message, after, rfl, rfl, hwanted, -⟩ := exists_of_select h
  cases message with
  | incoming stream' event =>
    obtain rfl := Option.some.inj (Option.some.inj hwanted)
    rw [streams_append, streams_append, acks_append, acks_append]
    exact ⟨List.perm_middle, rfl⟩
  | event | ok | listenerClosed => simp [ListenerReply.accepted] at hwanted

theorem acks_select {mailbox rest : List ListenerReply} {ref : ℕ}
    (h : select (ListenerReply.acknowledged ref) mailbox = some ((), rest)) :
    (acks mailbox).Perm (ref :: acks rest) ∧ streams rest = streams mailbox := by
  obtain ⟨before, message, after, rfl, rfl, hwanted, -⟩ := exists_of_select h
  cases message with
  | ok ref' =>
    obtain rfl : ref' = ref := by
      by_contra hne
      simp [ListenerReply.acknowledged, hne] at hwanted
    rw [streams_append, streams_append, acks_append, acks_append]
    exact ⟨List.perm_middle, rfl⟩
  | event | incoming | listenerClosed => simp [ListenerReply.acknowledged] at hwanted

theorem Sound.not_closed (h : Sound outgoing site) {pid : P} {mailbox rest : List ListenerReply}
    (hacceptor : site.acceptor = some ⟨pid, .waiting, mailbox⟩) :
    select ListenerReply.accepted mailbox ≠ some (none, rest) := by
  intro hselect
  obtain ⟨before, message, after, rfl, -, hwanted, -⟩ := exists_of_select hselect
  cases message with
  | listenerClosed => exact h.stays _ hacceptor (by simp)
  | event | incoming | ok => simp [ListenerReply.accepted] at hwanted

theorem Sound.run_step (h : Sound outgoing site) (hstep : Step outgoing site site') :
    Listener.init.Run site'.received site'.sent site'.listener := by
  cases hstep with
  | outside _ hreceives | deliver _ hreceives => exact h.run.step hreceives
  | _ => exact h.run

theorem Sound.arrived_step (h : Sound outgoing site) (hstep : Step outgoing site site') :
    ∀ x ∈ arrivals site'.received, ¬outgoing x.1 := by
  cases hstep with
  | @outside m new l houtside hreceives =>
    intro x hx
    rw [turn, arrivals_append, List.mem_append] at hx
    rcases hx with hold | hnew
    · exact h.arrived x hold
    · cases m with
      | event stream event =>
        rw [arrivals_event] at hnew
        split at hnew
        · next hincoming =>
          obtain rfl := List.mem_singleton.mp hnew
          exact houtside hincoming
        · cases hnew
      | acceptor | bind | down | close | other => cases hnew
  | @deliver m rest new l hfirst hreceives =>
    intro x hx
    rw [turn, arrivals_append, List.mem_append] at hx
    rcases hx with hold | hnew
    · exact h.arrived x hold
    · have horderly := h.orderly
      rw [hfirst] at horderly
      obtain ⟨pid, mailbox, -, ⟨-, rfl, -⟩ | ⟨_, _, _, -, ⟨rfl, -⟩ | ⟨rfl, -⟩⟩⟩ := horderly.cons <;>
        cases hnew
  | _ => exact h.arrived

theorem Sound.bound_step (h : Sound outgoing site) (hstep : Step outgoing site site') (s : UInt64)
    (hs : ¬outgoing s) :
    binds s (site'.received ++ site'.toListener) = controllers s site'.started := by
  have hbound := h.bound s hs
  cases hstep with
  | @outside m new l houtside hreceives =>
    have hbinding : binds s [m] = [] := by
      cases m with
      | bind stream controller sender ref =>
        have hne : stream ≠ s := fun heq ↦ hs (heq ▸ houtside.1)
        simp [binds, ListenerMessage.binding, hne]
      | acceptor | event | down | close | other => rfl
    rw [binds_append] at hbound
    simp only [turn, binds_append, hbinding, List.append_nil]
    exact hbound
  | deliver hfirst hreceives =>
    rw [hfirst] at hbound
    simpa [turn] using hbound
  | accept pid hnone | controlled hacceptor =>
    rw [← List.append_assoc, binds_append, hbound]
    exact List.append_nil _
  | @incoming pid mailbox rest stream controller ref hacceptor hselect =>
    rw [← List.append_assoc, binds_append, hbound]
    by_cases heq : stream = s <;> simp [controllers, binds, ListenerMessage.binding, heq]
  | bound | exit | closed => exact hbound

theorem current_mail (acceptor : Option (Acceptor P)) (new : List (P × ListenerReply)) :
    current (acceptor.map fun a ↦ { a with mailbox := a.mailbox ++ mail a.pid new })
      = current acceptor := by
  rcases acceptor with _ | ⟨pid, _ | ⟨stream, controller, ref⟩ | ⟨stream, controller⟩, mailbox⟩ <;>
    rfl

theorem Sound.offered_step (h : Sound outgoing site) (hstep : Step outgoing site site') :
    site'.started = site'.accepted ++ current site'.acceptor := by
  have hoffered := h.offered
  cases hstep with
  | outside | deliver =>
    simp only [turn, current_mail]
    exact hoffered
  | accept pid hnone =>
    rw [hnone] at hoffered
    exact hoffered
  | incoming controller ref hacceptor hselect =>
    rw [hacceptor] at hoffered
    exact congrArg (· ++ _) (hoffered.trans (List.append_nil _))
  | bound hacceptor hselect =>
    rw [hacceptor] at hoffered
    exact hoffered.trans (List.append_nil _).symm
  | controlled hacceptor | exit hacceptor | closed hacceptor =>
    rw [hacceptor] at hoffered
    exact hoffered

theorem Sound.conserved_step (h : Sound outgoing site) (hstep : Step outgoing site site') :
    ((NervesP2P.offered site'.sent).map Prod.fst).Perm
      (site'.started.map Prod.fst ++ waiting site'.acceptor ++ site'.lost) := by
  have hconserved := h.conserved
  refine List.perm_iff_count.mpr fun x ↦ ?_
  cases hstep with
  | @outside m new l houtside hreceives | @deliver m rest new l hfirst hreceives =>
    have hcount := hconserved.count_eq x
    have hturn := (waiting_turn site.acceptor new).count_eq x
    simp only [turn, offered_append, List.map_append, List.count_append] at hcount hturn ⊢
    omega
  | accept pid hnone =>
    rw [hnone] at hconserved
    exact hconserved.count_eq x
  | @incoming pid mailbox rest stream controller ref hacceptor hselect =>
    rw [hacceptor] at hconserved
    have hcount := hconserved.count_eq x
    have htaken := (streams_select hselect).1.count_eq x
    simp only [waiting, List.map_append, List.map_cons, List.map_nil, List.count_append,
      List.count_cons, List.count_nil] at hcount htaken ⊢
    omega
  | bound hacceptor hselect =>
    rw [hacceptor] at hconserved
    simp only [waiting, (acks_select hselect).2]
    exact hconserved.count_eq x
  | controlled hacceptor =>
    rw [hacceptor] at hconserved
    exact hconserved.count_eq x
  | exit hacceptor =>
    rw [hacceptor] at hconserved
    have hcount := hconserved.count_eq x
    simp only [waiting, List.count_append, List.append_nil] at hcount ⊢
    omega
  | closed hacceptor hselect => exact absurd hselect (h.not_closed hacceptor)

theorem Sound.orderly_step (h : Sound outgoing site) (hstep : Step outgoing site site') :
    Orderly site'.acceptor site'.toListener := by
  have horderly := h.orderly
  cases hstep with
  | outside houtside hreceives => exact horderly.mail (acks_outside houtside hreceives)
  | @deliver m rest new l hfirst hreceives =>
    rw [hfirst] at horderly
    obtain ⟨pid, mailbox, hacks, hcases⟩ := horderly.cons
    have hmail := acks_mail hreceives pid
    rcases hcases with ⟨hacceptor, rfl, rfl⟩ |
      ⟨stream, controller, ref, hacceptor, ⟨rfl, rfl⟩ | ⟨rfl, rfl⟩⟩ <;>
      simp only [turn, hacceptor, Option.map_some, Orderly, acks_append, hacks, hmail]
    · simp
    · simp
    · simp
  | accept pid hnone =>
    rw [hnone] at horderly
    have hnil : site.toListener = [] := horderly
    exact ⟨rfl, Or.inr (by rw [hnil]; rfl)⟩
  | incoming controller ref hacceptor hselect =>
    rw [hacceptor] at horderly
    obtain ⟨hacks, hnil | hone⟩ := horderly
    · exact Or.inr ⟨(streams_select hselect).2.trans hacks, Or.inl (by rw [hnil]; rfl)⟩
    · exact Or.inr ⟨(streams_select hselect).2.trans hacks, Or.inr (by rw [hone]; rfl)⟩
  | bound hacceptor hselect =>
    rw [hacceptor] at horderly
    have hperm := (acks_select hselect).1
    rcases horderly with ⟨hnil, hacks⟩ | ⟨hacks, -⟩
    · rw [hacks] at hperm
      exact ⟨hnil, (List.cons.inj (List.perm_singleton.mp hperm.symm)).2⟩
    · rw [hacks] at hperm
      exact absurd hperm.symm (List.not_perm_nil_cons _ _ ∘ List.Perm.symm)
  | controlled hacceptor =>
    rw [hacceptor] at horderly
    exact ⟨horderly.2, Or.inr (by rw [horderly.1]; rfl)⟩
  | exit hacceptor =>
    rw [hacceptor] at horderly
    exact horderly.1
  | closed hacceptor hselect => exact absurd hselect (h.not_closed hacceptor)

theorem Sound.stays_step (h : Sound outgoing site) (hstep : Step outgoing site site')
    (a : Acceptor P) (ha : site'.acceptor = some a) : ListenerReply.listenerClosed ∉ a.mailbox := by
  cases hstep with
  | outside _ hreceives | deliver _ hreceives =>
    obtain ⟨a', ha', rfl⟩ := Option.map_eq_some_iff.mp ha
    simp only [List.mem_append, not_or]
    exact ⟨h.stays a' ha', listenerClosed_notMem_mail hreceives a'.pid⟩
  | accept pid hnone =>
    obtain rfl := Option.some.inj ha
    exact List.not_mem_nil
  | incoming controller ref hacceptor hselect =>
    obtain rfl := Option.some.inj ha
    exact fun hmem ↦ h.stays _ hacceptor (subset_of_select hselect hmem)
  | bound hacceptor hselect =>
    obtain rfl := Option.some.inj ha
    exact fun hmem ↦ h.stays _ hacceptor (subset_of_select hselect hmem)
  | controlled hacceptor =>
    obtain rfl := Option.some.inj ha
    have hstays := h.stays _ hacceptor
    exact hstays
  | exit | closed => cases ha

theorem Sound.heard_step (h : Sound outgoing site) (hstep : Step outgoing site site')
    (a : Acceptor P) (ha : site'.acceptor = some a) (hnone : site'.listener.acceptor = none) :
    site'.toListener.head? = some (.acceptor a.pid) := by
  cases hstep with
  | @outside m new l houtside hreceives =>
    obtain ⟨a', ha', rfl⟩ := Option.map_eq_some_iff.mp ha
    have hsame : l.acceptor = site.listener.acceptor := by
      rcases receives_cases hreceives with ⟨pid, rfl, -⟩ | ⟨_, _, -, hsame, -⟩ | ⟨-, hsame, -⟩
      · exact houtside.elim
      · exact hsame
      · exact hsame
    exact h.heard a' ha' (hsame.symm.trans hnone)
  | @deliver m rest new l hfirst hreceives =>
    obtain ⟨a', ha', rfl⟩ := Option.map_eq_some_iff.mp ha
    have hnone : l.acceptor = none := hnone
    exfalso
    rcases receives_cases hreceives with ⟨pid, -, hsome, -⟩ | ⟨stream, event, rfl, hsame, -⟩ |
      ⟨hother, hsame, -⟩
    · rw [hsome] at hnone
      cases hnone
    · have hhead := h.heard a' ha' (hsame.symm.trans hnone)
      rw [hfirst] at hhead
      cases hhead
    · have hhead := h.heard a' ha' (hsame.symm.trans hnone)
      rw [hfirst] at hhead
      exact hother _ (Option.some.inj hhead)
  | accept pid hacceptor =>
    obtain rfl := Option.some.inj ha
    have horderly := h.orderly
    rw [hacceptor] at horderly
    have hnil : site.toListener = [] := horderly
    show (site.toListener ++ [ListenerMessage.acceptor pid]).head? = _
    rw [hnil]
    rfl
  | incoming controller ref hacceptor hselect | controlled hacceptor =>
    obtain rfl := Option.some.inj ha
    have hhead := h.heard _ hacceptor hnone
    rw [List.head?_append, hhead]
    rfl
  | bound hacceptor hselect =>
    obtain rfl := Option.some.inj ha
    have hhead := h.heard _ hacceptor hnone
    exact hhead
  | exit | closed => cases ha

theorem Sound.awaited_step (h : Sound outgoing site) (hstep : Step outgoing site site')
    (a : Acceptor P) (ha : site'.acceptor = some a) (hphase : a.phase = .waiting)
    (hnil : site'.toListener = []) (hstreams : streams a.mailbox = []) :
    site'.listener.incoming = [] := by
  cases hstep with
  | @outside m new l houtside hreceives =>
    obtain ⟨a', ha', rfl⟩ := Option.map_eq_some_iff.mp ha
    rw [streams_append, List.append_eq_nil_iff] at hstreams
    have hbefore := h.awaited a' ha' hphase hnil hstreams.1
    show l.incoming = []
    rcases receives_cases hreceives with ⟨pid, rfl, -⟩ | ⟨stream, event, rfl, -, hcases⟩ |
      ⟨-, -, hsame, -⟩
    · exact houtside.elim
    · rcases hcases with ⟨hnone, -, -⟩ | ⟨pid, -, hsame, -⟩
      · have hhead := h.heard a' ha' hnone
        have hnil : site.toListener = [] := hnil
        rw [hnil] at hhead
        cases hhead
      · exact hsame.trans hbefore
    · exact hsame.trans hbefore
  | @deliver m rest new l hfirst hreceives =>
    obtain rfl : rest = [] := hnil
    have horderly := h.orderly
    rw [hfirst] at horderly
    obtain ⟨a', ha', rfl⟩ := Option.map_eq_some_iff.mp ha
    obtain ⟨pid, mailbox, -, ⟨hacceptor, rfl, -⟩ | ⟨_, _, _, hacceptor, -⟩⟩ := horderly.cons
    · obtain rfl := Option.some.inj (ha'.symm.trans hacceptor)
      rw [streams_append, List.append_eq_nil_iff] at hstreams
      show l.incoming = []
      rcases receives_cases hreceives with ⟨pid', heq, -, hcases⟩ | ⟨_, _, heq, -⟩ | ⟨hother, -⟩
      · rcases hcases with ⟨-, hempty, -⟩ | ⟨stream, event, rest, -, -, rfl⟩
        · exact hempty
        · -- the stream that was taken from the queue lies in the mailbox
          cases heq
          simp [streams, mail, ListenerReply.stream?] at hstreams
      · cases heq
      · exact absurd rfl (hother pid)
    · obtain rfl := Option.some.inj (ha'.symm.trans hacceptor)
      cases hphase
  | accept pid hacceptor | controlled hacceptor => simp at hnil
  | incoming controller ref hacceptor hselect | bound hacceptor hselect =>
    obtain rfl := Option.some.inj ha
    cases hphase
  | exit | closed => cases ha

/-- **The step lemma.** -/
theorem Sound.step (h : Sound outgoing site) (hstep : Step outgoing site site') :
    Sound outgoing site' where
  run := h.run_step hstep
  arrived := h.arrived_step hstep
  bound := h.bound_step hstep
  offered := h.offered_step hstep
  conserved := h.conserved_step hstep
  orderly := h.orderly_step hstep
  stays := h.stays_step hstep
  heard := h.heard_step hstep
  awaited := h.awaited_step hstep

theorem sound_init : Sound outgoing (init : Site P) where
  run := .start
  arrived := fun x hx ↦ absurd hx List.not_mem_nil
  bound := fun _ _ ↦ rfl
  offered := rfl
  conserved := .nil
  orderly := rfl
  stays := fun _ ha ↦ by cases ha
  heard := fun _ ha ↦ by cases ha
  awaited := fun _ ha ↦ by cases ha

/-- **The run lemma.** -/
theorem Reachable.sound (h : Reachable outgoing site) : Sound outgoing site := by
  induction h with
  | refl => exact sound_init
  | tail _ hstep ih => exact ih.step hstep

/-- Nothing is under way, and the acceptor is ready for the next stream. -/
def Quiet (site : Site P) : Prop :=
  site.toListener = [] ∧ ∃ a, site.acceptor = some a ∧ a.phase = .waiting ∧ streams a.mailbox = []

/-- At rest every stream that has come in has a controller or is lost. -/
theorem Sound.perm_of_quiet (h : Sound outgoing site) (hquiet : site.Quiet) :
    ((arrivals site.received).map Prod.fst).Perm (site.started.map Prod.fst ++ site.lost) := by
  obtain ⟨hnil, a, ha, hphase, hstreams⟩ := hquiet
  have hempty := h.awaited a ha hphase hnil hstreams
  have harrivals := h.run.offered
  have hconserved := h.conserved
  rw [hempty, List.append_nil] at harrivals
  rw [ha, waiting, hstreams, List.append_nil] at hconserved
  exact (harrivals.symm.map _).trans hconserved

/-- **Every stream that comes in is accepted.** If no two of them have one number, then once nothing
is under way, the kernel has been offered one controller for each, and only one, and the controller
has been sent all events of the stream, each once and in their order, whenever they came. The
exception is a stream that was sent to an acceptor that has exited: no controller was ever started
for it. -/
theorem incoming_accepted (h : Reachable outgoing site) (hquiet : site.Quiet)
    (hdistinct : ((arrivals site.received).map Prod.fst).Nodup) {s : UInt64} {event : Event}
    (harrived : (s, event) ∈ arrivals site.received) :
    (s ∈ site.lost ∧ controllers s site.started = [])
      ∨ (s ∉ site.lost ∧ ∃ c, controllers s site.accepted = [c]
        ∧ (.down c ∉ site.received →
          told s (inbox c site.sent) = streamEvents s site.received)) := by
  have hsound := h.sound
  have hcount := (hsound.perm_of_quiet hquiet).count_eq s
  have hone : ((arrivals site.received).map Prod.fst).count s = 1 :=
    List.count_eq_one_of_mem hdistinct (List.mem_map_of_mem harrived)
  rw [hone, List.count_append, ← length_controllers s site.started] at hcount
  obtain ⟨hnil, a, ha, hphase, -⟩ := hquiet
  have hstarted : site.started = site.accepted := by
    have hoffered := hsound.offered
    obtain ⟨pid, phase, mailbox⟩ := a
    obtain rfl : phase = .waiting := hphase
    rw [ha] at hoffered
    exact hoffered.trans (List.append_nil _)
  have hbinds : binds s site.received = controllers s site.started := by
    have hbound := hsound.bound s (hsound.arrived _ harrived)
    rwa [hnil, List.append_nil] at hbound
  by_cases hlost : s ∈ site.lost
  · have hpos := List.count_pos_iff.mpr hlost
    exact Or.inl ⟨hlost, List.eq_nil_of_length_eq_zero (by omega)⟩
  · rw [List.count_eq_zero_of_not_mem hlost] at hcount
    obtain ⟨c, hc⟩ := List.length_eq_one_iff.mp hcount.symm
    refine Or.inr ⟨hlost, c, by rw [← hstarted, hc], fun hdown ↦ ?_⟩
    exact hsound.run.told_inbox (hbinds.trans hc) hdown

end Steps

/-! ### A stream that comes before the acceptor -/

theorem incoming_accepted_sample :
    ∃ site : Site ℕ, Reachable (fun _ ↦ False) site ∧ site.Quiet
      ∧ ∃ c, controllers 7 site.accepted = [c] ∧ told 7 (inbox c site.sent) = [.data [1]] := by
  have harrived : Reachable (P := ℕ) (fun _ ↦ False) _ := Relation.ReflTransGen.single
    (@Step.outside ℕ _ _ init (.event 7 (.incoming sampleNode sampleNode)) _ _ (fun _ h ↦ h) rfl)
  have hready := (harrived.tail (.accept 1 rfl)).tail (.deliver rfl rfl)
  have hbound := ((hready.tail (.incoming 2 0 rfl rfl)).tail (.deliver rfl rfl)).tail
    (.bound rfl rfl)
  have hserved := ((hbound.tail (.controlled rfl)).tail (.deliver rfl rfl)).tail
    (@Step.outside ℕ _ _ _ (.event 7 (.data [1])) _ _ (fun _ h ↦ h) rfl)
  obtain ⟨site, hreachable, hquiet, hreceived, hlost⟩ : ∃ site : Site ℕ,
      Reachable (fun _ ↦ False) site ∧ site.Quiet
        ∧ site.received = [.event 7 (.incoming sampleNode sampleNode), .acceptor 1, .bind 7 2 1 0,
          .acceptor 1, .event 7 (.data [1])] ∧ site.lost = [] :=
    ⟨_, hserved, ⟨rfl, _, rfl, rfl, rfl⟩, rfl, rfl⟩
  have hone : arrivals site.received = [(7, .incoming sampleNode sampleNode)] := by
    rw [hreceived]
    rfl
  rcases incoming_accepted hreachable hquiet (by rw [hone]; exact List.nodup_singleton _)
    (by rw [hone]; exact List.mem_cons_self) with ⟨hmem, -⟩ | ⟨-, c, hc, htold⟩
  · rw [hlost] at hmem
    cases hmem
  · refine ⟨site, hreachable, hquiet, c, hc, (htold (by simp [hreceived])).trans ?_⟩
    rw [hreceived]
    rfl

end Site

end NervesP2P
