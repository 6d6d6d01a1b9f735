import NervesP2P.Dist.Closing
import NervesP2P.Dist.Output

/-!
# Two runtimes and the way between them

A packet of one runtime goes through its controller, the port and the daemon, over the stream to the
other daemon, and from there through port, listener and controller to the other runtime. A `Tunnel`
is all of it, in both directions: two connections, each with its controller and its port, whose
sides are the two ends of one stream. Their steps interleave in any order.

## The way

Each part of the way keeps the order, and may stop. The chunks that a controller asks for are put
into the stream in order as long as the port answers them well (`Relayed`), sides and transport keep
the order (`Joined`), and so does the way from the daemon to the controller (`Step.flight`).
-/

namespace NervesP2P

/-! ## Steps with what the stream does

A connection shows the turns of its controller and the events of its daemon, but not what its side
has done to the stream. `Acts` adds that, and every step of a connection is one of these. -/

namespace PortRequest

def chunk : PortRequest → List UInt8
  | .send chunk => chunk
  | _ => []

theorem sentBytes_action (request : PortRequest) : sentBytes [request.action] = request.chunk := by
  cases request with
  | send chunk => exact List.append_nil chunk
  | credit bytes | close => rfl

theorem side_ne_of_returns {request : PortRequest} {s s' : Side}
    (h : request.call.Returns s () s') : s' ≠ s := by
  have hlength : s'.commands.length = s.commands.length + 1 := by
    cases request with
    | send chunk =>
      obtain ⟨-, _, -, -, -, rfl⟩ := Side.returns_send.mp h
      exact List.length_append
    | credit bytes =>
      obtain ⟨-, _, -, -, -, rfl⟩ := Side.returns_credit.mp h
      exact List.length_append
    | close =>
      obtain ⟨-, -, rfl⟩ := Side.returns_close.mp h
      exact List.length_append
  rintro rfl
  omega

end PortRequest

namespace Connection

/-- The steps of a connection, with the turn of the controller and what the side of the stream
does. -/
inductive Acts (s : Connection) : List Turn → List Action → Connection → Prop
  | turn {turn : Turn} {s' : Connection} (h : s.Step [turn] [] s') : Acts s [turn] [] s'
  | execute {request : PortRequest} {side : Side} (hrelay : s.relay = .asked request)
      (hcall : request.call.Returns s.side () side) :
      Acts s [] [request.action] { s with relay := .answered request .ok, side }
  | executeLate {request : PortRequest} {late : List PortRequest} {side : Side}
      (hlate : s.late = request :: late) (hcall : request.call.Returns s.side () side) :
      Acts s [] [request.action] { s with late, side }
  | daemon {action : Action} {side : Side} (hstep : s.side.Step action side)
      (hcall : action.isCall = false) :
      Acts s [] [action] { s with side, route := s.route.emit (events [action]) }
  /-- The side stays as it is. -/
  | quiet {s' : Connection} (h : s.Step [] [] s') (hside : s'.side = s.side) : Acts s [] [] s'

variable {s s' : Connection} {turns : List Turn} {actions : List Action}

theorem Acts.step (h : s.Acts turns actions s') : s.Step turns (events actions) s' := by
  cases h with
  | turn h | quiet h => exact h
  | @execute request side hrelay hcall =>
    rw [request.events_action]
    exact .execute hrelay hcall
  | @executeLate request late side hlate hcall =>
    rw [request.events_action]
    exact .executeLate hlate hcall
  | daemon hstep hcall => exact .daemon hstep hcall

theorem Step.acts {new : List Event} (h : s.Step turns new s') :
    ∃ actions, events actions = new ∧ s.Acts turns actions s' := by
  cases h with
  | event hmailbox hturn => exact ⟨[], rfl, .turn (.event hmailbox hturn)⟩
  | input hinput hturn => exact ⟨[], rfl, .turn (.input hinput hturn)⟩
  | pulled hturn => exact ⟨[], rfl, .turn (.pulled hturn)⟩
  | answered hrelay hturn => exact ⟨[], rfl, .turn (.answered hrelay hturn)⟩
  | @execute request side hrelay hcall =>
    exact ⟨_, request.events_action, .execute hrelay hcall⟩
  | refuse hrelay hcall =>
    exact ⟨[], rfl, .quiet (.refuse hrelay hcall) (PortRequest.unchanged_of_fails hcall)⟩
  | fail hrelay => exact ⟨[], rfl, .quiet (.fail hrelay) rfl⟩
  | timeout hrelay => exact ⟨[], rfl, .quiet (.timeout hrelay) rfl⟩
  | @executeLate request late side hlate hcall =>
    exact ⟨_, request.events_action, .executeLate hlate hcall⟩
  | refuseLate hlate => exact ⟨[], rfl, .quiet (.refuseLate hlate) rfl⟩
  | daemon hstep hcall => exact ⟨_, rfl, .daemon hstep hcall⟩
  | relay hport => exact ⟨[], rfl, .quiet (.relay hport) rfl⟩
  | bind => exact ⟨[], rfl, .quiet .bind rfl⟩

/-- What the side does in a step. -/
theorem Acts.side (h : s.Acts turns actions s') :
    actions = [] ∧ s'.side = s.side
      ∨ ∃ action, actions = [action] ∧ s.side.Step action s'.side := by
  cases h with
  | turn h =>
    cases h with
    | event | input | pulled | answered => exact Or.inl ⟨rfl, rfl⟩
  | execute _ hcall | executeLate _ hcall =>
    exact Or.inr ⟨_, rfl, PortRequest.step_of_returns hcall⟩
  | daemon hstep => exact Or.inr ⟨_, rfl, hstep⟩
  | quiet _ hside => exact Or.inl ⟨rfl, hside⟩

end Connection

/-! ## The tunnel

Each end of a tunnel runs by itself (`Alone`), and what the one may read depends on what the other
has written. So facts about one end are proved without the other, and the two sides of a tunnel are
joined by the stream as in `Dist.Transport`. -/

/-- One end of a tunnel, with what has happened there: the turns of the controller, and what the
side of the stream has done. -/
structure Terminal where
  trace : List Turn
  actions : List Action
  connection : Connection

namespace Terminal

theorem kept_of_unbound : false = true → ([] : List Event) = [] := fun _ ↦ rfl

/-- An end where nothing has happened. -/
def start (side : Side) : Terminal where
  trace := []
  actions := []
  connection :=
    { controller := .start
      relay := .idle
      late := []
      route := ⟨[], [], false, [], @kept_of_unbound⟩
      side }

def after (e : Terminal) (turns : List Turn) (actions : List Action) (s : Connection) : Terminal :=
  ⟨e.trace ++ turns, e.actions ++ actions, s⟩

/-- The runs of one end, whatever the other does. -/
inductive Alone (side : Side) : Terminal → Prop
  | start : Alone side (start side)
  | step {e : Terminal} {turns : List Turn} {actions : List Action} {s : Connection}
      (h : Alone side e) (hacts : e.connection.Acts turns actions s) :
      Alone side (e.after turns actions s)

end Terminal

/-- The runs of two ends, the one that opens the stream first. An end reads what the other has
written. -/
inductive Tunnel (fromNode targetNode : Text) : Terminal → Terminal → Prop
  | start :
      Tunnel fromNode targetNode (.start (.connecting fromNode targetNode)) (.start .accepting)
  | opening {a b : Terminal} {turns : List Turn} {actions : List Action} {s : Connection}
      (h : Tunnel fromNode targetNode a b) (hacts : a.connection.Acts turns actions s)
      (hwire : ∀ action ∈ actions, Delivers a.actions action b.actions) :
      Tunnel fromNode targetNode (a.after turns actions s) b
  | accepting {a b : Terminal} {turns : List Turn} {actions : List Action} {s : Connection}
      (h : Tunnel fromNode targetNode a b) (hacts : b.connection.Acts turns actions s)
      (hwire : ∀ action ∈ actions, Delivers b.actions action a.actions) :
      Tunnel fromNode targetNode a (b.after turns actions s)

namespace Tunnel

variable {fromNode targetNode : Text} {a b : Terminal}

theorem opening_alone (h : Tunnel fromNode targetNode a b) :
    a.Alone (.connecting fromNode targetNode) := by
  induction h with
  | start => exact .start
  | opening _ hacts _ ih => exact ih.step hacts
  | accepting _ _ _ ih => exact ih

theorem accepting_alone (h : Tunnel fromNode targetNode a b) : b.Alone .accepting := by
  induction h with
  | start => exact .start
  | opening _ _ _ ih => exact ih
  | accepting _ hacts _ ih => exact ih.step hacts

/-- The two sides are joined by the stream. -/
theorem joined (h : Tunnel fromNode targetNode a b) :
    Joined fromNode targetNode a.actions a.connection.side b.actions b.connection.side := by
  induction h with
  | start => exact .start
  | opening _ hacts hwire ih =>
    obtain ⟨rfl, hside⟩ | ⟨action, rfl, hstep⟩ := hacts.side
    · simpa [Terminal.after, hside] using ih
    · exact ih.opening hstep (hwire action (List.mem_singleton_self action))
  | accepting _ hacts hwire ih =>
    obtain ⟨rfl, hside⟩ | ⟨action, rfl, hstep⟩ := hacts.side
    · simpa [Terminal.after, hside] using ih
    · exact ih.accepting hstep (hwire action (List.mem_singleton_self action))

end Tunnel

/-! ## From the daemon to the controller

What the controller has consumed and what is on its way to it is what the daemon has told, in
order. -/

theorem dataOf_events (actions : List Action) : dataOf (events actions) = eventBytes actions := by
  induction actions with
  | nil => rfl
  | cons action actions ih =>
    rw [← List.singleton_append, events_append, dataOf_append, eventBytes_append, ih]
    cases action with
    | emitted event => cases event <;> rfl
    | _ => rfl

namespace Terminal

variable {side : Side} {e : Terminal}

theorem Alone.controller (h : e.Alone side) :
    (Controller.init initialCredit).Run e.trace e.connection.controller := by
  induction h with
  | start => exact .start
  | @step e turns actions s _ hacts ih =>
    have hstep := hacts.step
    generalize events actions = new at hstep
    cases hstep with
    | event _ hturn | input _ hturn | pulled hturn | answered _ hturn => exact ih.step hturn
    | execute | refuse | fail | timeout | executeLate | refuseLate | daemon | relay | bind =>
      rw [Terminal.after, List.append_nil]
      exact ih

theorem Alone.flight (h : e.Alone side) :
    forwarded (events e.actions) = handled e.trace ++ e.connection.route.flight := by
  induction h with
  | start => rfl
  | step _ hacts ih =>
    rw [Terminal.after, events_append, forwarded_append, ih, handled_append, List.append_assoc,
      hacts.step.flight, List.append_assoc]

/-- What the controller has consumed and what is on its way to it is what the daemon has told. -/
theorem Alone.consumed_flight (h : e.Alone side) :
    consumed e.trace ++ dataOf e.connection.route.flight = eventBytes e.actions := by
  rw [← dataOf_events, ← dataOf_forwarded (events e.actions), h.flight, dataOf_append,
    dataOf_handled]

end Terminal

/-! ## From the controller to the daemon

The controller asks for one chunk after the other, and the port gives each to the daemon, refuses
it, or gives up waiting, and then the daemon may run it later. In the last case the controller
stops, so at most one send is late, and it is the last. `Relayed` says that what was asked for is
what the daemon was given and what is outstanding, in order, until a send has failed; each kind of
step has a lemma. -/

/-- The chunk that a controller asks the port to send. -/
def Reaction.asked (reaction : Reaction) : List UInt8 :=
  match reaction.request with
  | some (.send chunk) => chunk
  | _ => []

/-- The chunks that were asked for in a run, one behind the other. -/
def asked (trace : List Turn) : List UInt8 := trace.flatMap (·.reaction.asked)

/-- The port has answered every packet of the handshake well. Otherwise the handshake is over. -/
def HandshakeAccepted (trace : List Turn) : Prop :=
  ∀ turn ∈ trace, ∀ ref size rest answer, turn.before.phase = .sending (.handshake ref) size rest →
    turn.cause = .answered answer → answer = .ok

/-- A payload that the port has not yet given to the daemon. -/
def Relay.chunk : Relay → List UInt8
  | .asked request => request.chunk
  | _ => []

theorem Reaction.chunk_ofRequest (reaction : Reaction) :
    (Relay.ofRequest reaction.request).chunk = reaction.asked := by
  unfold Reaction.asked
  cases reaction.request with
  | none => rfl
  | some request => cases request <;> rfl

theorem Reaction.Sound.fits {credit : ℤ} {reaction : Reaction} (h : reaction.Sound credit) :
    (Relay.ofRequest reaction.request).Fits reaction.state := by
  obtain ⟨-, h⟩ := h
  cases hrequest : reaction.request with
  | none =>
    rw [hrequest] at h
    exact h
  | some request =>
    rw [hrequest] at h
    cases request with
    | send chunk => exact h
    | credit bytes => exact absurd h id
    | close => exact h

/-- After a turn the controller waits for what it has asked. -/
theorem Controller.Turns.fits {c : Controller} {cause : Cause} {reaction : Reaction}
    (h : c.Turns cause reaction) : (Relay.ofRequest reaction.request).Fits reaction.state := by
  cases h with
  | received input hphase =>
    cases input with
    | event event =>
      by_cases hdata : ∃ bytes, event = .data bytes
      · obtain ⟨bytes, rfl⟩ := hdata
        obtain ⟨hrequest, -, hcrediting⟩ := handleStreamEvent_data bytes c
        rw [receive, hrequest]
        exact hcrediting
      · rw [not_exists] at hdata
        exact (sound_handleStreamEvent hphase hdata).fits
    | call | cancelRecv | recvTimeout | distData | portDown | supervisorExit | other =>
      exact (sound_receive hphase (by simp)).fits
  | pulled data hphase => exact (sound_pull data c).fits
  | sent answer hphase => exact (sound_answerSend _ _ _ answer c).fits
  | credited answer hphase => exact (sound_answerCredit answer c).fits

namespace Connection

/-- The payloads that were asked for and that the daemon may still run. -/
def outstanding (s : Connection) : List UInt8 := s.late.flatMap PortRequest.chunk ++ s.relay.chunk

/-- A send has failed and the controller will ask for no other. -/
def Stopped (s : Connection) : Prop :=
  s.controller.phase = .exited ∨ ∃ chunk answer, s.relay = .answered (.send chunk) answer
    ∧ answer ≠ .ok

/-- What was asked for goes to the daemon in order. -/
structure Relayed (trace : List Turn) (actions : List Action) (s : Connection) : Prop where
  fits : s.relay.Fits s.controller
  order : sentBytes actions ++ s.outstanding <+: asked trace
  /-- At most one send is late, since the controller stops with it. -/
  late : (s.late.countP fun request ↦ decide (request.chunk ≠ [])) ≤ 1
  stopped : ¬s.Stopped → s.late.flatMap PortRequest.chunk = []
    ∧ sentBytes actions ++ s.outstanding = asked trace

variable {s s' : Connection} {trace : List Turn} {actions : List Action}

theorem not_stopped_of_asked {request : PortRequest} (h : s.relay.Fits s.controller)
    (hrelay : s.relay = .asked request) (hne : request.chunk ≠ []) : ¬s.Stopped := by
  rw [hrelay] at h
  cases request with
  | send chunk =>
    obtain ⟨⟨purpose, rest, hphase⟩, -⟩ := h
    rintro (hexited | ⟨_, _, hanswered, -⟩)
    · exact absurd (hphase.symm.trans hexited) (by simp)
    · exact absurd (hrelay.symm.trans hanswered) (by simp)
  | credit bytes | close => exact absurd rfl hne

theorem flatMap_chunk_eq_nil {late : List PortRequest}
    (h : (late.countP fun request ↦ decide (request.chunk ≠ [])) = 0) :
    late.flatMap PortRequest.chunk = [] := by
  rw [List.flatMap_eq_nil_iff]
  intro request hmem
  by_contra hne
  exact absurd h (List.countP_pos_iff.mpr ⟨request, hmem, decide_eq_true hne⟩).ne'

theorem countP_chunk_eq_zero {late : List PortRequest}
    (h : late.flatMap PortRequest.chunk = []) :
    (late.countP fun request ↦ decide (request.chunk ≠ [])) = 0 := by
  rw [List.flatMap_eq_nil_iff] at h
  rw [List.countP_eq_zero]
  intro request hmem
  simp [h request hmem]

theorem Relayed.execute (h : Relayed trace actions s) {request : PortRequest} {side : Side}
    (hrelay : s.relay = .asked request) :
    Relayed trace (actions ++ [request.action])
      { s with relay := .answered request .ok, side } := by
  have hfits := h.fits
  rw [hrelay] at hfits
  have hbytes : sentBytes (actions ++ [request.action])
      ++ (s.late.flatMap PortRequest.chunk ++ []) = sentBytes actions ++ s.outstanding := by
    rw [sentBytes_append, request.sentBytes_action, outstanding, hrelay, Relay.chunk]
    -- nothing is late when there is a chunk
    by_cases hchunk : request.chunk = []
    · simp [hchunk]
    · simp [(h.stopped (not_stopped_of_asked h.fits hrelay hchunk)).1]
  refine ⟨hfits, ?_, h.late, fun hgoes ↦ ?_⟩
  · exact hbytes ▸ h.order
  · have hgoes' : ¬s.Stopped := by
      rintro (hexited | ⟨_, _, hanswered, -⟩)
      · exact hgoes (Or.inl hexited)
      · exact absurd (hrelay.symm.trans hanswered) (by simp)
    exact ⟨(h.stopped hgoes').1, hbytes.trans (h.stopped hgoes').2⟩

theorem Relayed.refuse (h : Relayed trace actions s) {request : PortRequest} {answer : Answer}
    {late : List PortRequest} (hrelay : s.relay = .asked request) (hanswer : answer ≠ .ok)
    (hlate : late = s.late ∨ late = s.late ++ [request]) :
    Relayed trace actions { s with relay := .answered request answer, late } := by
  have hfits := h.fits
  rw [hrelay] at hfits
  have hle : late.flatMap PortRequest.chunk ++ [] <+: s.outstanding := by
    rw [List.append_nil, outstanding, hrelay, Relay.chunk]
    rcases hlate with rfl | rfl
    · exact List.prefix_append _ _
    · simp
  refine ⟨hfits, ((List.prefix_append_right_inj _).mpr hle).trans h.order, ?_, fun hgoes ↦ ?_⟩
  · rcases hlate with rfl | rfl
    · exact h.late
    by_cases hchunk : request.chunk = []
    · simpa [hchunk] using h.late
    · have hnone := (h.stopped (not_stopped_of_asked h.fits hrelay hchunk)).1
      rw [List.countP_append, countP_chunk_eq_zero hnone]
      exact (Nat.zero_add _).le.trans List.countP_le_length
  · have hchunk : request.chunk = [] := by
      cases request with
      | send chunk => exact absurd (Or.inr ⟨chunk, answer, rfl, hanswer⟩) hgoes
      | credit bytes | close => rfl
    have hgoes' : ¬s.Stopped := by
      rintro (hexited | ⟨_, _, hanswered, -⟩)
      · exact hgoes (Or.inl hexited)
      · exact absurd (hrelay.symm.trans hanswered) (by simp)
    obtain ⟨hnone, heq⟩ := h.stopped hgoes'
    have hnone' : late.flatMap PortRequest.chunk = [] := by
      rcases hlate with rfl | rfl
      · exact hnone
      · simp [hnone, hchunk]
    refine ⟨hnone', ?_⟩
    rw [← heq]
    simp [outstanding, hrelay, hnone, hnone', Relay.chunk, hchunk]

theorem Relayed.dropLate (h : Relayed trace actions s) {request : PortRequest}
    {late : List PortRequest} {side : Side} {new : List Action} (hlate : s.late = request :: late)
    (hnew : new = [request.action] ∨ new = []) :
    Relayed trace (actions ++ new) { s with late, side } := by
  have hcount := h.late
  rw [hlate, List.countP_cons] at hcount
  have hle : sentBytes (actions ++ new) ++ (late.flatMap PortRequest.chunk ++ s.relay.chunk)
      <+: sentBytes actions ++ s.outstanding := by
    rw [outstanding, hlate, List.flatMap_cons, sentBytes_append]
    rcases hnew with rfl | rfl
    · rw [request.sentBytes_action]
      simp
    · by_cases hchunk : request.chunk = []
      · simp [hchunk, sentBytes]
      · -- what is dropped was the only send under way
        rw [if_pos (decide_eq_true hchunk)] at hcount
        have hstopped : s.Stopped := by
          by_contra hgoes
          have hnone := (h.stopped hgoes).1
          rw [hlate, List.flatMap_cons] at hnone
          exact hchunk (List.append_eq_nil_iff.mp hnone).1
        have hrelay : s.relay.chunk = [] := by
          cases hrelay : s.relay with
          | idle | answered => rfl
          | asked asked =>
            by_contra hne
            exact not_stopped_of_asked h.fits hrelay hne hstopped
        rw [flatMap_chunk_eq_nil (by omega), hrelay]
        simp [sentBytes]
  refine ⟨h.fits, hle.trans h.order, ?_, fun hgoes ↦ ?_⟩
  · exact (Nat.le_add_right _ _).trans hcount
  · obtain ⟨hnone, heq⟩ := h.stopped hgoes
    have hnone' := hnone
    rw [hlate, List.flatMap_cons, List.append_eq_nil_iff] at hnone'
    refine ⟨hnone'.2, ?_⟩
    rw [← heq, outstanding, outstanding, hnone, hnone'.2, sentBytes_append]
    rcases hnew with rfl | rfl
    · rw [request.sentBytes_action, hnone'.1, List.append_nil]
    · rw [show sentBytes [] = [] from rfl, List.append_nil]

/-- A turn of the controller. -/
theorem Relayed.turn (h : Relayed trace actions s) {cause : Cause} {reaction : Reaction}
    {route : Route} (hturn : s.controller.Turns cause reaction)
    (hrelay : ∀ answer, cause = .answered answer → ∃ request, s.relay = .answered request answer)
    (haccepted : HandshakeAccepted (trace ++ [⟨s.controller, cause, reaction⟩])) :
    Relayed (trace ++ [⟨s.controller, cause, reaction⟩]) actions
      { s.after reaction with route } := by
  have hasked : asked (trace ++ [⟨s.controller, cause, reaction⟩])
      = asked trace ++ reaction.asked := by
    rw [asked, List.flatMap_append, List.flatMap_singleton, ← asked]
  have hlast := haccepted _ (List.mem_append_right _ (List.mem_singleton_self _))
  -- a turn with nothing at the port
  have hfree : s.relay.chunk = [] := by
    cases hrelay' : s.relay with
    | idle | answered => rfl
    | asked request =>
      have hfits := h.fits
      cases hturn with
      | received _ hphase => rw [h.fits.eq_idle (Or.inl hphase)] at hrelay'; cases hrelay'
      | pulled _ hphase => rw [h.fits.eq_idle (Or.inr hphase)] at hrelay'; cases hrelay'
      | sent answer | credited answer =>
        obtain ⟨_, hanswered⟩ := hrelay answer rfl
        exact absurd (hrelay'.symm.trans hanswered) (by simp)
  by_cases hstopped : s.Stopped
  · -- only the failed send is answered, and the controller leaves
    have hexits : reaction = s.controller.exit := by
      rcases hstopped with hexited | ⟨chunk, answer, hanswered, hanswer⟩
      · cases hturn with
        | received _ hphase | pulled _ hphase | sent _ hphase | credited _ hphase =>
          exact absurd (hphase.symm.trans hexited) (by simp)
      · have hfits := h.fits
        rw [hanswered] at hfits
        obtain ⟨⟨purpose, rest, hphase⟩, -⟩ := hfits
        cases hturn with
        | received _ hphase' | pulled _ hphase' | credited _ hphase' =>
          exact absurd (hphase'.symm.trans hphase) (by simp)
        | sent answer' hphase' =>
          obtain ⟨request', hrelay'⟩ := hrelay answer' rfl
          rw [hanswered, Relay.answered.injEq] at hrelay'
          obtain ⟨-, rfl⟩ := hrelay'
          rename_i purpose' size' rest'
          cases purpose' with
          | handshake ref => exact absurd (hlast ref _ _ answer hphase' rfl) hanswer
          | pending | tick =>
            cases answer with
            | ok => exact absurd rfl hanswer
            | error | failed => rfl
    subst hexits
    refine ⟨Or.inr (Or.inr rfl), ?_, h.late, fun hgoes ↦ absurd (Or.inl rfl) hgoes⟩
    rw [hasked, show s.controller.exit.asked = [] from rfl, List.append_nil]
    have horder := h.order
    rwa [outstanding, hfree] at horder
  · obtain ⟨hnone, heq⟩ := h.stopped hstopped
    have heq' : sentBytes actions ++ (s.late.flatMap PortRequest.chunk
        ++ (Relay.ofRequest reaction.request).chunk) = asked trace ++ reaction.asked := by
      rw [← heq, outstanding, hfree, hnone, reaction.chunk_ofRequest]
      simp
    exact ⟨hturn.fits, hasked ▸ heq' ▸ List.prefix_rfl, h.late, fun _ ↦ ⟨hnone, hasked ▸ heq'⟩⟩

end Connection

namespace Terminal

open Connection (Relayed)

variable {side : Side} {e : Terminal}

/-- **The run lemma.** -/
theorem Alone.relayed (h : e.Alone side) (haccepted : HandshakeAccepted e.trace) :
    Relayed e.trace e.actions e.connection := by
  induction h with
  | start => exact ⟨Or.inl rfl, List.prefix_rfl, Nat.zero_le _, fun _ ↦ ⟨rfl, rfl⟩⟩
  | @step e turns actions s _ hacts ih =>
    have hrelayed := ih fun turn hmem ↦ haccepted turn (List.mem_append_left _ hmem)
    rw [after]
    cases hacts with
    | turn hstep =>
      rw [List.append_nil]
      cases hstep with
      | event hmailbox hturn => exact hrelayed.turn hturn (by simp) haccepted
      | input hinput hturn => exact hrelayed.turn hturn (by simp) haccepted
      | pulled hturn => exact hrelayed.turn hturn (by simp) haccepted
      | answered hrelay hturn =>
        refine hrelayed.turn hturn ?_ haccepted
        rintro answer ⟨⟩
        exact ⟨_, hrelay⟩
    | execute hrelay hcall =>
      rw [List.append_nil]
      exact hrelayed.execute hrelay
    | executeLate hlate hcall =>
      rw [List.append_nil]
      exact hrelayed.dropLate hlate (Or.inl rfl)
    | @daemon action side hstep hcall =>
      have hsent : sentBytes (e.actions ++ [action]) = sentBytes e.actions := by
        rw [sentBytes_append]
        cases action <;> first | exact List.append_nil _ | cases hcall
      rw [List.append_nil]
      exact ⟨hrelayed.fits, hsent ▸ hrelayed.order, hrelayed.late, hsent ▸ hrelayed.stopped⟩
    | quiet hstep hside =>
      rw [List.append_nil, List.append_nil]
      generalize hturns : ([] : List Turn) = turns, hnew : ([] : List Event) = new at hstep
      cases hstep with
      | event | input | pulled | answered => cases hturns
      | execute _ hcall | executeLate _ hcall =>
        exact absurd hside (PortRequest.side_ne_of_returns hcall)
      | refuse hrelay hcall =>
        obtain rfl := hside
        exact hrelayed.refuse hrelay (by simp) (Or.inl rfl)
      | fail hrelay => exact hrelayed.refuse hrelay (by simp) (Or.inl rfl)
      | timeout hrelay => exact hrelayed.refuse hrelay (by simp) (Or.inr rfl)
      | @refuseLate request late hlate =>
        have hdropped : Relayed e.trace (e.actions ++ []) { e.connection with late } :=
          hrelayed.dropLate hlate (Or.inr rfl)
        rwa [List.append_nil] at hdropped
      | daemon | relay | bind =>
        exact ⟨hrelayed.fits, hrelayed.order, hrelayed.late, hrelayed.stopped⟩

end Terminal

end NervesP2P
