import NervesP2P.Dist.Input
import NervesP2P.Dist.Output

/-!
# Output is never forgotten

A controller flushes its output when there is news: data of the runtime, a tick, or credit. It stops
after a chunk that does not cover what is pending, even with credit left, and goes on when the
credit for that chunk comes back. Nobody else will wake it up: the runtime announces its data once,
and says nothing more until it is asked again.

So pending output is safe only if there is credit to come. That is the invariant of this module: a
controller that rests with output to send has spent credit that it has not got back.

## What others owe the controller

The daemon gives credit back, and not more than was sent (`CreditCovered`). The runtime announces
data at most once each time it was asked to (`Notified`), and a controller asks only when it is up.
-/

namespace NervesP2P

/-! ## What comes and goes

Sums over a run: sizes that were accepted, credit that came back, announcements and requests for
them. Both conditions on the others are about every beginning of a run, so they hold of its
beginnings too. -/

/-- The size of a send that was accepted. -/
def Turn.accepted (turn : Turn) : List ℕ :=
  match turn.before.phase, turn.cause with
  | .sending _ size _, .answered .ok => [size]
  | _, _ => []

namespace Cause

/-- The credit that is given back. -/
def credited : Cause → List ℕ
  | .received (.event (.credit bytes)) => [bytes]
  | _ => []

/-- The runtime announces data. -/
def announces : Cause → Bool
  | .received .distData => true
  | _ => false

/-- The turn ends with a call of `dist_ctrl_get_data_notification`. -/
def asks : Cause → Bool
  | .received (.call _ .handshakeComplete) | .pulled none => true
  | _ => false

theorem asks_of_announces {cause : Cause} (h : cause.announces = true) :
    cause.asks = false := by
  cases cause with
  | received input =>
    cases input with
    | distData => rfl
    | _ => cases h
  | _ => cases h

end Cause

/-- The sizes of the sends that were accepted. -/
def acceptedSizes (trace : List Turn) : List ℕ := trace.flatMap Turn.accepted

/-- The credit that was given back, event by event. -/
def creditedSizes (trace : List Turn) : List ℕ := trace.flatMap (·.cause.credited)

/-- At no time has more credit been given back than was sent. -/
def CreditCovered (trace : List Turn) : Prop :=
  ∀ earlier, earlier <+: trace → (creditedSizes earlier).sum ≤ (acceptedSizes earlier).sum

/-- At no time has data been announced more often than was asked for. -/
def Notified (trace : List Turn) : Prop :=
  ∀ earlier, earlier <+: trace →
    earlier.countP (·.cause.announces) ≤ earlier.countP (·.cause.asks)

instance (trace : List Turn) : Decidable (CreditCovered trace) :=
  decidable_of_iff (∀ earlier ∈ trace.inits,
    (creditedSizes earlier).sum ≤ (acceptedSizes earlier).sum) (by simp [CreditCovered])

instance (trace : List Turn) : Decidable (Notified trace) :=
  decidable_of_iff (∀ earlier ∈ trace.inits,
    earlier.countP (·.cause.announces) ≤ earlier.countP (·.cause.asks)) (by simp [Notified])

theorem CreditCovered.of_append {trace more : List Turn} (h : CreditCovered (trace ++ more)) :
    CreditCovered trace := fun earlier hearlier ↦
  h earlier (hearlier.trans (List.prefix_append trace more))

theorem Notified.of_append {trace more : List Turn} (h : Notified (trace ++ more)) :
    Notified trace := fun earlier hearlier ↦
  h earlier (hearlier.trans (List.prefix_append trace more))

namespace Controller

variable {c : Controller} {limit : ℤ}

/-! ## The credit over a run

The credit of a controller is what it began with, less what was sent, and more what was given
back. -/

theorem Turns.credit {cause : Cause} {reaction : Reaction} (h : c.Turns cause reaction) :
    reaction.state.credit
      = c.credit - (Turn.accepted ⟨c, cause, reaction⟩).sum + cause.credited.sum := by
  cases h with
  | received input hphase =>
    have haccepted : Turn.accepted ⟨c, .received input, c.receive input⟩ = [] := by
      rw [Turn.accepted]
      split <;> simp_all
    rw [haccepted, List.sum_nil, Nat.cast_zero, sub_zero]
    cases input with
    | event event =>
      cases event with
      | data bytes => exact (consumeInput_credit bytes c).trans (add_zero _).symm
      | credit bytes => exact (sound_flushOutput { c with credit := c.credit + bytes }).1
      | incoming _ _ | connected _ | closed _ =>
        exact (sound_handleStreamEvent hphase (by simp)).1
    | call _ _ | cancelRecv _ | recvTimeout _ | distData | portDown | supervisorExit | other =>
      exact (sound_receive hphase (by simp)).1.trans (add_zero _).symm
  | pulled data hphase =>
    rw [Turn.accepted, hphase]
    exact (sound_pull data c).1.trans (by simp [Cause.credited])
  | @sent purpose size rest answer hphase =>
    rw [Turn.accepted, hphase, (sound_answerSend purpose size rest answer c).1]
    cases answer with
    | ok => simp [Cause.credited]
    | error _ | failed => simp [Cause.credited]
  | credited answer hphase =>
    rw [Turn.accepted, hphase]
    exact (sound_answerCredit answer c).1.trans (by simp [Cause.credited])

/-- What is missing of the credit has been sent, and not been given back. -/
theorem Run.credit {trace : List Turn} (h : (init limit).Run trace c) :
    c.credit = limit - (acceptedSizes trace).sum + (creditedSizes trace).sum := by
  induction h with
  | start => simp [acceptedSizes, creditedSizes, init]
  | step _ hturn ih =>
    rw [hturn.credit, ih, acceptedSizes, creditedSizes, acceptedSizes, creditedSizes,
      List.flatMap_append, List.flatMap_append, List.sum_append, List.sum_append,
      List.flatMap_singleton, List.flatMap_singleton]
    push_cast
    ring

/-! ## Credit to come

A flush ends with output left only where the chunk was cut off by its size, and then it has spent
credit, or where there is no credit at all. In both cases less than all of it is there. -/

/-- What is true of a controller between two turns. -/
structure Awake (limit : ℤ) (c : Controller) : Prop where
  nonneg : 0 ≤ c.credit
  le : c.credit ≤ limit
  handshake : c.mode = .handshake → c.pendingOut = [] ∧ c.distReady = false
  /-- A controller that rests with output to send has credit to come. -/
  resting : c.phase = .loop ∨ c.phase = .crediting → c.pendingOut ≠ [] ∨ c.distReady = true →
    c.credit < limit
  pulling : c.phase = .pulling → c.mode = .up ∧ c.pendingOut = []
  sending : ∀ purpose size rest, c.phase = .sending purpose size rest → 1 ≤ size
    ∧ (size : ℤ) ≤ c.credit ∧ (c.mode = .handshake ↔ ∃ ref, purpose = .handshake ref)

theorem Awake.rest (hc : c.Awake limit) (hphase : c.phase = .loop ∨ c.phase = .crediting)
    {d : Controller} (hrest : d.phase = .loop ∨ d.phase = .crediting ∨ d.phase = .exited)
    (hcredit : d.credit = c.credit) (hmode : d.mode = .handshake → c.mode = .handshake)
    (hpending : d.pendingOut = c.pendingOut) (hready : d.distReady = c.distReady) :
    d.Awake limit := by
  refine ⟨hcredit ▸ hc.nonneg, hcredit ▸ hc.le, ?_, ?_, ?_, ?_⟩
  · intro h
    rw [hpending, hready]
    exact hc.handshake (hmode h)
  · intro _
    rw [hpending, hready, hcredit]
    exact hc.resting hphase
  · intro hpulling
    rcases hrest with h | h | h <;> exact absurd (h.symm.trans hpulling) (by simp)
  · intro purpose size rest hsending
    rcases hrest with h | h | h <;> exact absurd (h.symm.trans hsending) (by simp)

theorem Awake.exited (hc : c.Awake limit) :
    ({ c with phase := .exited } : Controller).Awake limit :=
  ⟨hc.nonneg, hc.le, hc.handshake, by simp, by simp, by simp⟩

theorem awake_keepRest {purpose : Purpose} (hpurpose : ∀ ref, purpose ≠ .handshake ref)
    (hnonneg : 0 ≤ c.credit) (hlt : c.credit < limit) (hmode : c.mode = .up) (rest : List UInt8) :
    (c.keepRest purpose rest).Awake limit := by
  have hup : c.mode ≠ .handshake := by rw [hmode]; simp
  cases purpose with
  | handshake ref => exact absurd rfl (hpurpose ref)
  | pending | tick =>
    exact ⟨hnonneg, hlt.le, fun h ↦ absurd h hup, fun _ _ ↦ hlt, by simp [keepRest],
      by simp [keepRest]⟩

/-- Output that is left when a flush ends was cut off by the size of a chunk, or there is no
credit. -/
theorem awake_sendAvailable (hlimit : 0 < limit) (hnonneg : 0 ≤ c.credit) (hle : c.credit ≤ limit)
    (hmode : c.mode = .up) {purpose : Purpose} (hpurpose : ∀ ref, purpose ≠ .handshake ref)
    {data : List UInt8} (hne : data ≠ []) : (c.sendAvailable purpose data).state.Awake limit := by
  have hup : c.mode ≠ .handshake := by rw [hmode]; simp
  rw [sendAvailable]
  by_cases hpos : 0 < c.credit
  · rw [if_pos hpos]
    obtain ⟨hone, -, hcredit⟩ := length_chunk hne hpos
    refine ⟨hnonneg, hle, fun h ↦ absurd h hup, by simp [callSend], by simp [callSend], ?_⟩
    rintro purpose size rest ⟨⟩
    refine ⟨hone, hcredit, fun h ↦ absurd h hup, ?_⟩
    rintro ⟨ref, rfl⟩
    exact absurd rfl (hpurpose ref)
  · rw [if_neg hpos]
    exact awake_keepRest hpurpose hnonneg (by omega) hmode data

theorem awake_flushOutput (hlimit : 0 < limit) (hnonneg : 0 ≤ c.credit) (hle : c.credit ≤ limit)
    (hhandshake : c.mode = .handshake → c.pendingOut = [] ∧ c.distReady = false) :
    c.flushOutput.state.Awake limit := by
  rw [flushOutput]
  by_cases hmode : c.mode = .handshake
  · rw [if_pos hmode]
    obtain ⟨hpending, hready⟩ := hhandshake hmode
    refine ⟨hnonneg, hle, hhandshake, ?_, by simp [looping], by simp [looping]⟩
    intro _ h
    simp [looping, hpending, hready] at h
  rw [if_neg hmode]
  have hup : c.mode = .up := by
    cases h : c.mode with
    | handshake => exact absurd h hmode
    | up => rfl
  by_cases hpending : c.pendingOut ≠ []
  · rw [if_pos hpending]
    exact awake_sendAvailable hlimit hnonneg hle hup (by simp) hpending
  rw [if_neg hpending]
  rw [not_not] at hpending
  by_cases htick : c.tickPending = true
  · rw [if_pos htick]
    exact awake_sendAvailable hlimit hnonneg hle hup (by simp) (by decide)
  rw [if_neg htick]
  by_cases hready : c.distReady = true
  · rw [if_pos hready]
    exact ⟨hnonneg, hle, hhandshake, by simp, fun _ ↦ ⟨hup, hpending⟩, by simp⟩
  · rw [if_neg hready]
    refine ⟨hnonneg, hle, hhandshake, ?_, by simp [looping], by simp [looping]⟩
    intro _ h
    simp [looping, hpending, hready] at h

/-! ## The other turns

The other turns end a call or bring a message, and most of them leave the output that is to be sent
as it is. A turn after which the controller has left needs no argument. -/

theorem awake_answerSend (hlimit : 0 < limit) (hc : c.Awake limit) {purpose : Purpose} {size : ℕ}
    {rest : List UInt8} (hphase : c.phase = .sending purpose size rest) (answer : Answer) :
    (c.answerSend purpose size rest answer).state.Awake limit := by
  obtain ⟨hone, hcovered, hpurpose⟩ := hc.sending purpose size rest hphase
  have hnonneg : 0 ≤ c.credit - size := sub_nonneg.mpr hcovered
  have hle := hc.le
  have hlt : c.credit - size < limit := by omega
  have hup : (∀ ref, purpose ≠ .handshake ref) → c.mode = .up := by
    intro hne
    cases hmode : c.mode with
    | handshake =>
      obtain ⟨ref, href⟩ := hpurpose.mp hmode
      exact absurd href (hne ref)
    | up => rfl
  cases purpose with
  | handshake ref =>
    obtain ⟨hpending, hready⟩ := hc.handshake (hpurpose.mpr ⟨ref, rfl⟩)
    cases answer with
    | ok =>
      refine ⟨hnonneg, hlt.le, hc.handshake, ?_, by simp [answerSend], by simp [answerSend]⟩
      intro _ h
      simp [answerSend, hpending, hready] at h
    | error _ | failed =>
      refine ⟨hc.nonneg, hc.le, hc.handshake, ?_, by simp [answerSend, looping],
        by simp [answerSend, looping]⟩
      intro _ h
      simp [answerSend, looping, hpending, hready] at h
  | pending | tick =>
    have hmode := hup (by simp)
    have hhandshake : c.mode ≠ .handshake := by rw [hmode]; simp
    cases answer with
    | ok =>
      simp only [answerSend]
      split
      · exact awake_flushOutput hlimit hnonneg hlt.le fun h ↦ absurd h hhandshake
      · dsimp only
        refine awake_keepRest (c := { c with credit := c.credit - size }) ?_ hnonneg hlt hmode rest
        simp
    | error _ | failed => exact hc.exited

theorem awake_pull (hlimit : 0 < limit) (hc : c.Awake limit) (hphase : c.phase = .pulling)
    (data : Option (ℕ × List UInt8)) : (c.pull data).state.Awake limit := by
  obtain ⟨hmode, hpending⟩ := hc.pulling hphase
  have hhandshake : c.mode ≠ .handshake := by rw [hmode]; simp
  cases data with
  | none =>
    refine ⟨hc.nonneg, hc.le, fun h ↦ absurd h hhandshake, ?_, by simp [pull], by simp [pull]⟩
    intro _ h
    simp [pull, hpending] at h
  | some data =>
    exact awake_flushOutput hlimit hc.nonneg hc.le fun h ↦ absurd h hhandshake

theorem consumeInput_distReady (data : List UInt8) (c : Controller) :
    (c.consumeInput data).1.distReady = c.distReady := by
  rw [consumeInput]
  split
  · rw [satisfyWaiter]
    split <;> rfl
  · rfl

theorem awake_sendBytes (hc : c.Awake limit) (hphase : c.phase = .loop)
    (hmode : c.mode = .handshake) (ref : ℕ) {data : List UInt8} (hne : data ≠ []) :
    (c.sendBytes ref data).state.Awake limit := by
  rw [sendBytes]
  by_cases hle : (data.length : ℤ) ≤ c.credit
  · rw [if_pos hle]
    refine ⟨hc.nonneg, hc.le, hc.handshake, by simp [callSend], by simp [callSend], ?_⟩
    rintro purpose size rest ⟨⟩
    exact ⟨List.length_pos_iff.mpr hne, hle, fun _ ↦ ⟨ref, rfl⟩, fun _ ↦ hmode⟩
  · rw [if_neg hle]
    exact hc.rest (Or.inl hphase) (Or.inl rfl) rfl id rfl rfl

theorem awake_handleCall (hlimit : 0 < limit) (hc : c.Awake limit) (hphase : c.phase = .loop)
    (ref : ℕ) (call : ControllerCall) : (c.handleCall ref call).state.Awake limit := by
  unfold handleCall
  split
  · exact hc
  · next packet hmode =>
    split
    · next hframe => exact awake_sendBytes hc hphase hmode ref (frame_ne_nil hframe)
    · exact hc.exited
  · split <;> exact hc.rest (Or.inl hphase) (Or.inl hphase) rfl id rfl rfl
  · exact hc.rest (Or.inl hphase) (Or.inl hphase) rfl (by rintro ⟨⟩) rfl rfl
  · exact awake_flushOutput hlimit hc.nonneg hc.le hc.handshake
  · exact hc
  · exact hc.exited
  · exact hc

theorem awake_receive (hlimit : 0 < limit) (hc : c.Awake limit) (hphase : c.phase = .loop)
    (input : ControllerInput) (hle : (c.receive input).state.credit ≤ limit)
    (hready : input = .distData → c.mode = .up) : (c.receive input).state.Awake limit := by
  cases input with
  | call ref call => exact awake_handleCall hlimit hc hphase ref call
  | cancelRecv ref =>
    simp only [receive]
    split
    · exact hc.rest (Or.inl hphase) (Or.inl hphase) rfl id rfl rfl
    · exact hc
  | recvTimeout ref =>
    simp only [receive]
    split
    · exact hc.rest (Or.inl hphase) (Or.inl hphase) rfl id rfl rfl
    · exact hc
  | event event =>
    cases event with
    | data bytes =>
      obtain ⟨hmode, hpending, -⟩ := consumeInput_output bytes c
      exact hc.rest (Or.inl hphase) (Or.inr (Or.inl rfl)) (consumeInput_credit bytes c)
        hmode.symm.trans hpending (consumeInput_distReady bytes c)
    | credit bytes =>
      have hcredit : (c.receive (.event (.credit bytes))).state.credit = c.credit + bytes :=
        (sound_flushOutput { c with credit := c.credit + bytes }).1
      have hnonneg := hc.nonneg
      exact awake_flushOutput (c := { c with credit := c.credit + bytes }) hlimit
        (by simp only; omega) (hcredit ▸ hle) hc.handshake
    | closed _ => exact hc.exited
    | incoming _ _ | connected _ => exact hc
  | distData =>
    have hhandshake : c.mode ≠ .handshake := by rw [hready rfl]; simp
    exact awake_flushOutput hlimit hc.nonneg hc.le fun h ↦ absurd h hhandshake
  | portDown => exact hc.exited
  | supervisorExit => exact hc.exited
  | other => exact hc

/-- **The step lemma.** -/
theorem Turns.awake {cause : Cause} {reaction : Reaction} (h : c.Turns cause reaction)
    (hlimit : 0 < limit) (hc : c.Awake limit) (hle : reaction.state.credit ≤ limit)
    (hready : cause.announces = true → c.mode = .up) : reaction.state.Awake limit := by
  cases h with
  | received input hphase =>
    refine awake_receive hlimit hc hphase input hle ?_
    rintro rfl
    exact hready rfl
  | pulled data hphase => exact awake_pull hlimit hc hphase data
  | sent answer hphase => exact awake_answerSend hlimit hc hphase answer
  | credited answer hphase =>
    cases answer with
    | ok => exact hc.rest (Or.inr hphase) (Or.inl rfl) rfl id rfl rfl
    | error _ | failed => exact hc.exited

/-! ## Runs

The invariant goes over to runs with the two conditions. That a controller which rests with output
has less credit than it began with, and that the next credit makes it go on, are then the two halves
of the result. -/

theorem awake_init (hlimit : 0 < limit) : (init limit).Awake limit where
  nonneg := hlimit.le
  le := le_rfl
  handshake := fun _ ↦ ⟨rfl, rfl⟩
  resting := by simp [init, start]
  pulling := by simp [init, start]
  sending := by simp [init, start]

theorem Turns.up {cause : Cause} {reaction : Reaction} (h : c.Turns cause reaction)
    (hc : c.Awake limit) (hasks : cause.asks = true) : reaction.state.mode = .up := by
  cases h with
  | received input hphase =>
    cases input with
    | call ref call =>
      cases call with
      | handshakeComplete => rfl
      | _ => cases hasks
    | _ => cases hasks
  | pulled data hphase =>
    cases data with
    | none => exact (hc.pulling hphase).1
    | some _ => cases hasks
  | sent answer hphase => cases hasks
  | credited answer hphase => cases hasks

/-- **The run lemma.** -/
theorem Run.awake {trace : List Turn} (h : (init limit).Run trace c) (hlimit : 0 < limit)
    (hcredit : CreditCovered trace) (hnotified : Notified trace) :
    c.Awake limit ∧ (0 < trace.countP (·.cause.asks) → c.mode = .up) := by
  induction h with
  | start => exact ⟨awake_init hlimit, fun h ↦ absurd h (lt_irrefl 0)⟩
  | @step trace c cause reaction h hturn ih =>
    obtain ⟨hc, hup⟩ := ih hcredit.of_append hnotified.of_append
    have hcovered := hcredit _ (List.prefix_refl _)
    have hasks := hnotified _ (List.prefix_refl _)
    rw [List.countP_append, List.countP_append, List.countP_singleton,
      List.countP_singleton] at hasks
    refine ⟨hturn.awake hlimit hc ?_ ?_, ?_⟩
    · rw [(h.step hturn).credit]
      omega
    · intro hannounces
      rw [if_pos hannounces, if_neg (by simp [Cause.asks_of_announces hannounces])] at hasks
      exact hup (by omega)
    · intro hasked
      by_cases hlast : cause.asks = true
      · exact hturn.up hc hlast
      · rw [List.countP_append, List.countP_singleton, if_neg hlast] at hasked
        exact ((hturn.handles h.accounted.served).up (hup hasked)).2

end Controller

/-- The turn sends something, or goes on to ask the runtime for data. -/
def Reaction.Resumes (reaction : Reaction) : Prop :=
  (∃ chunk, chunk ≠ [] ∧ reaction.request = some (.send chunk)) ∨ reaction.state.phase = .pulling

namespace Controller

variable {c : Controller} {limit : ℤ}

theorem resumes_sendAvailable (hpos : 0 < c.credit) {purpose : Purpose} {data : List UInt8}
    (hne : data ≠ []) : (c.sendAvailable purpose data).Resumes := by
  rw [sendAvailable, if_pos hpos]
  refine Or.inl ⟨_, ?_, rfl⟩
  exact List.length_pos_iff.mp (length_chunk hne hpos).1

/-- Credit wakes up a controller that has output to send. -/
theorem resumes_credit (hnonneg : 0 ≤ c.credit) (hmode : c.mode = .up)
    (houtput : c.pendingOut ≠ [] ∨ c.distReady = true) {bytes : ℕ} (hbytes : 0 < bytes) :
    (c.receive (.event (.credit bytes))).Resumes := by
  have hpos : 0 < c.credit + bytes := by omega
  show ({ c with credit := c.credit + bytes } : Controller).flushOutput.Resumes
  rw [flushOutput, if_neg (by simp [hmode])]
  by_cases hpending : c.pendingOut ≠ []
  · rw [if_pos hpending]
    exact resumes_sendAvailable hpos hpending
  rw [if_neg hpending]
  by_cases htick : c.tickPending = true
  · rw [if_pos htick]
    exact resumes_sendAvailable hpos (by decide)
  · rw [if_neg htick, if_pos (houtput.resolve_left hpending)]
    exact Or.inr rfl

/-- **Output never stalls.** A controller that is up and rests with output to send has less credit
than it began with: a byte that it has sent is still to be credited, so if every send is credited by
one event, the event of a send that was accepted is still to come. The next credit makes the
controller go on. -/
theorem no_lost_wakeup (hlimit : 0 < limit) {trace : List Turn} (h : (init limit).Run trace c)
    (hcredit : CreditCovered trace) (hnotified : Notified trace) (hphase : c.phase = .loop)
    (hmode : c.mode = .up) (houtput : c.pendingOut ≠ [] ∨ c.distReady = true) :
    c.credit < limit
      ∧ (creditedSizes trace).sum < (acceptedSizes trace).sum
      ∧ (creditedSizes trace <+: acceptedSizes trace →
        (creditedSizes trace).length < (acceptedSizes trace).length)
      ∧ ∀ bytes, 0 < bytes → (c.receive (.event (.credit bytes))).Resumes := by
  obtain ⟨hc, -⟩ := h.awake hlimit hcredit hnotified
  have hlt := hc.resting (Or.inl hphase) houtput
  have hsum : (creditedSizes trace).sum < (acceptedSizes trace).sum := by
    have := h.credit
    omega
  refine ⟨hlt, hsum, ?_, fun bytes ↦ resumes_credit hc.nonneg hmode houtput⟩
  intro hpre
  refine lt_of_le_of_ne hpre.length_le fun hlength ↦ ?_
  rw [hpre.eq_of_length hlength] at hsum
  exact lt_irrefl _ hsum

/-- With three bytes of credit, the rest of a packet waits for the credit of its first bytes. -/
theorem no_lost_wakeup_sample : ∃ trace c, (init 3).Run trace c ∧ c.pendingOut = [1, 7]
    ∧ c.credit < 3 ∧ (creditedSizes trace).sum < (acceptedSizes trace).sum := by
  have hrun := (Run.start : (init 3).Run _ _)
    |>.step (.received (.call 0 .handshakeComplete) rfl)
    |>.step (.received .distData rfl)
    |>.step (.pulled (some (1, [7])) rfl)
    |>.step (.sent .ok rfl)
  obtain ⟨hlt, hsum, -, -⟩ := no_lost_wakeup (by decide) hrun (by decide) (by decide) rfl rfl
    (by decide)
  exact ⟨_, _, hrun, by decide, hlt, hsum⟩

end Controller

end NervesP2P
