import NervesP2P.Dist.Turns

/-!
# What a controller puts out

After the switch a controller sends ticks and the data of the runtime, in chunks that are cut by the
credit and not by packets. What is cut off is pending output and goes before anything else, so that
a tick never ends up inside a packet. It is the only thing that keeps the order: `flush_output`
sends pending output first, then a tick, and asks the runtime for data last.

`Emits` says of one turn which whole packets join the output, and that the chunk it sends and what
it leaves are together what was left before and these packets. A chunk counts as sent when the port
is asked for it; while the answer is on its way, what is left is what the turn will leave behind.
-/

namespace NervesP2P

/-- A packet of the output: a tick, or data of the runtime with the length it reports. -/
inductive OutFrame where
  | tick
  | data (length : ℕ) (bytes : List UInt8)

namespace OutFrame

def bytes : OutFrame → List UInt8
  | .tick => beBytes 4 0
  | .data length bytes => beBytes 4 length ++ bytes

/-- The result of `dist_ctrl_get_data` that it carries. -/
def result : OutFrame → Option (ℕ × List UInt8)
  | .tick => none
  | .data length bytes => some (length, bytes)

def payload : OutFrame → List UInt8
  | .tick => []
  | .data _ bytes => bytes

def isTick : OutFrame → Bool
  | .tick => true
  | .data _ _ => false

end OutFrame

/-! ## What others see

The output is compared with three histories: the chunks that were sent, the results of the runtime
and the ticks that were asked for. Between two turns there is a rest of the packets that have begun,
and perhaps a tick that has not. If there is a rest, nothing else has joined the output behind it,
and this is what `Orderly` keeps. -/

/-- The chunk sent in a turn, when the connection is up. -/
def Reaction.chunk (reaction : Reaction) : List UInt8 :=
  match reaction.request, reaction.state.mode with
  | some (.send chunk), .up => chunk
  | _, _ => []

theorem Reaction.chunk_of_request {reaction : Reaction}
    (h : ∀ chunk, reaction.request ≠ some (.send chunk)) : reaction.chunk = [] := by
  unfold Reaction.chunk
  split
  · next chunk hrequest _ => exact absurd hrequest (h chunk)
  · rfl

namespace Cause

def results : Cause → List (ℕ × List UInt8)
  | .pulled (some result) => [result]
  | _ => []

def ticks : Cause → ℕ
  | .received (.call _ .tick) => 1
  | _ => 0

end Cause

/-- The chunks sent over a connection that is up, one behind the other. -/
def sentUp (trace : List Turn) : List UInt8 := trace.flatMap (·.reaction.chunk)

/-- The successive results of `dist_ctrl_get_data`. -/
def pulled (trace : List Turn) : List (ℕ × List UInt8) := trace.flatMap (·.cause.results)

def tickCalls (trace : List Turn) : ℕ := (trace.map (·.cause.ticks)).sum

/-- Every send was accepted. -/
def SendsAccepted (trace : List Turn) : Prop :=
  ∀ turn ∈ trace, ∀ purpose size rest answer, turn.before.phase = .sending purpose size rest →
    turn.cause = .answered answer → answer = .ok

namespace Controller

/-- What is left to be sent of the packets that have joined the output. -/
def unsent (c : Controller) : List UInt8 :=
  match c.phase with
  | .sending .pending _ rest | .sending .tick _ rest => rest
  | _ => c.pendingOut

/-- A tick that was asked for and has not joined the output. -/
def pendingTick (c : Controller) : ℕ :=
  match c.phase with
  | .sending .tick _ _ => 0
  | _ => c.tickPending.toNat

/-- What is true between two turns. -/
structure Orderly (c : Controller) : Prop where
  credit : 0 ≤ c.credit
  handshake : c.mode = .handshake → c.pendingOut = []
  /-- A chunk on its way is covered by the credit; a tick is begun only with nothing pending. -/
  sending : ∀ purpose size rest, c.phase = .sending purpose size rest → (size : ℤ) ≤ c.credit
    ∧ (c.mode = .handshake → ∃ ref, purpose = .handshake ref)
    ∧ (purpose = .tick → c.pendingOut = [])
  /-- Data is asked for only with nothing pending. -/
  pulling : c.phase = .pulling → c.mode = .up ∧ c.pendingOut = [] ∧ c.tickPending = false

end Controller

/-- What a turn puts out: given what was left to be sent, the results handed out and the ticks that
were waiting. -/
structure Reaction.Emits (left : List UInt8) (results : List (ℕ × List UInt8)) (ticks : ℕ)
    (reaction : Reaction) : Prop where
  orderly : reaction.state.Orderly
  joins : ∃ joined : List OutFrame,
    reaction.chunk ++ reaction.state.unsent = left ++ joined.flatMap OutFrame.bytes
      ∧ joined.filterMap OutFrame.result = results
      ∧ joined.countP OutFrame.isTick + reaction.state.pendingTick ≤ ticks
  chunk : ∀ chunk, reaction.request = some (.send chunk) → reaction.state.mode = .up →
    1 ≤ chunk.length ∧ chunk.length ≤ maxPortChunk ∧ (chunk.length : ℤ) ≤ reaction.state.credit

namespace Controller

variable {c : Controller}

/-- The phases in which nothing is on its way. -/
def Resting (phase : Phase) : Prop := phase = .loop ∨ phase = .crediting ∨ phase = .exited

theorem unsent_of_resting (h : Resting c.phase) : c.unsent = c.pendingOut := by
  rcases h with h | h | h <;> rw [unsent, h]

theorem pendingTick_of_resting (h : Resting c.phase) : c.pendingTick = c.tickPending.toNat := by
  rcases h with h | h | h <;> rw [pendingTick, h]

theorem orderly_of_resting (h : Resting c.phase) (hcredit : 0 ≤ c.credit)
    (hmode : c.mode = .handshake → c.pendingOut = []) : c.Orderly := by
  refine ⟨hcredit, hmode, ?_, ?_⟩
  · intro purpose size rest hphase
    rcases h with h | h | h <;> exact absurd (h.symm.trans hphase) (by simp)
  · intro hphase
    rcases h with h | h | h <;> exact absurd (h.symm.trans hphase) (by simp)

theorem emits_of_resting {left : List UInt8} {ticks : ℕ} {reaction : Reaction}
    (hrequest : ∀ chunk, reaction.request ≠ some (.send chunk))
    (hphase : Resting reaction.state.phase)
    (hcredit : 0 ≤ reaction.state.credit)
    (hmode : reaction.state.mode = .handshake → reaction.state.pendingOut = [])
    (hleft : reaction.state.pendingOut = left) (hticks : reaction.state.tickPending.toNat ≤ ticks) :
    reaction.Emits left [] ticks where
  orderly := orderly_of_resting hphase hcredit hmode
  joins := by
    refine ⟨[], ?_, rfl, ?_⟩
    · rw [Reaction.chunk_of_request hrequest, unsent_of_resting hphase, hleft]
      simp
    · rw [pendingTick_of_resting hphase]
      simpa using hticks
  chunk := fun chunk h ↦ absurd h (hrequest chunk)

/-! ## Flushing

A chunk is the beginning of what is pending, as long as the credit and the limit allow. If something
is pending it goes first and the tick waits; otherwise a tick is begun, and may be cut in turn. -/

theorem length_chunk {data : List UInt8} (hne : data ≠ []) (hcredit : 0 < c.credit) :
    1 ≤ (data.take (min maxPortChunk (min c.credit.toNat data.length))).length
      ∧ (data.take (min maxPortChunk (min c.credit.toNat data.length))).length ≤ maxPortChunk
      ∧ ((data.take (min maxPortChunk (min c.credit.toNat data.length))).length : ℤ)
        ≤ c.credit := by
  have hdata := List.length_pos_iff.mpr hne
  have hmax : 0 < maxPortChunk := by decide
  rw [List.length_take]
  omega

theorem emits_sendAvailable_pending (hcredit : 0 ≤ c.credit) (hmode : c.mode = .up)
    (hne : c.pendingOut ≠ []) :
    (c.sendAvailable .pending c.pendingOut).Emits c.pendingOut [] c.tickPending.toNat := by
  have hup : c.mode ≠ .handshake := by rw [hmode]; simp
  rw [sendAvailable]
  by_cases hpos : 0 < c.credit
  · rw [if_pos hpos]
    have hlength := length_chunk hne hpos
    refine ⟨⟨hcredit, fun h ↦ absurd h hup, ?_, by rintro ⟨⟩⟩, ⟨[], ?_, rfl, ?_⟩, ?_⟩
    · rintro purpose size rest ⟨⟩
      exact ⟨hlength.2.2, fun h ↦ absurd h hup, by simp⟩
    · simp only [Reaction.chunk, callSend, hmode, unsent]
      rw [List.take_append_drop]
      exact (List.append_nil _).symm
    · exact (Nat.zero_add _).le
    · rintro chunk ⟨⟩ _
      exact hlength
  · rw [if_neg hpos]
    exact emits_of_resting (by simp) (Or.inl rfl) hcredit (fun h ↦ absurd h hup) rfl le_rfl

/-- Beginning a tick. -/
theorem emits_sendAvailable_tick (hcredit : 0 ≤ c.credit) (hmode : c.mode = .up)
    (hpending : c.pendingOut = []) : (c.sendAvailable .tick (beBytes 4 0)).Emits [] [] 1 := by
  have hup : c.mode ≠ .handshake := by rw [hmode]; simp
  have hne : beBytes 4 0 ≠ [] := by decide
  rw [sendAvailable]
  by_cases hpos : 0 < c.credit
  · rw [if_pos hpos]
    have hlength := length_chunk hne hpos
    refine ⟨⟨hcredit, fun h ↦ absurd h hup, ?_, by rintro ⟨⟩⟩, ⟨[.tick], ?_, rfl, le_rfl⟩, ?_⟩
    · rintro purpose size rest ⟨⟩
      exact ⟨hlength.2.2, fun h ↦ absurd h hup, fun _ ↦ hpending⟩
    · simp only [Reaction.chunk, callSend, hmode, unsent]
      rw [List.take_append_drop]
      rfl
    · rintro chunk ⟨⟩ _
      exact hlength
  · rw [if_neg hpos]
    -- without credit the whole tick becomes pending output
    refine ⟨orderly_of_resting (Or.inl rfl) hcredit fun h ↦ absurd h hup,
      ⟨[.tick], rfl, rfl, le_rfl⟩,
      (by simp)⟩

/-- **Flushing sends what is pending, then a tick.** -/
theorem emits_flushOutput (hcredit : 0 ≤ c.credit)
    (hmode : c.mode = .handshake → c.pendingOut = []) :
    c.flushOutput.Emits c.pendingOut [] c.tickPending.toNat := by
  rw [flushOutput]
  by_cases hhandshake : c.mode = .handshake
  · rw [if_pos hhandshake]
    exact emits_of_resting (by simp) (Or.inl rfl) hcredit hmode rfl le_rfl
  rw [if_neg hhandshake]
  have hup : c.mode = .up := by
    cases h : c.mode with
    | handshake => exact absurd h hhandshake
    | up => rfl
  by_cases hpending : c.pendingOut ≠ []
  · rw [if_pos hpending]
    exact emits_sendAvailable_pending hcredit hup hpending
  rw [if_neg hpending]
  rw [not_not] at hpending
  by_cases htick : c.tickPending = true
  · rw [if_pos htick, hpending, htick]
    exact emits_sendAvailable_tick hcredit hup hpending
  rw [if_neg htick]
  rw [Bool.not_eq_true] at htick
  by_cases hready : c.distReady = true
  · rw [if_pos hready]
    refine ⟨⟨hcredit, hmode, by simp, fun _ ↦ ⟨hup, hpending, htick⟩⟩, ⟨[], ?_, rfl, ?_⟩,
      (by simp)⟩
    · exact (List.append_nil _).symm
    · exact (Nat.zero_add _).le
  · rw [if_neg hready]
    exact emits_of_resting (by simp) (Or.inl rfl) hcredit hmode rfl le_rfl

/-! ## The other turns

Each turn is one of a few kinds for the output. A message is not about it, or flushes it, or makes
the controller leave. A call to send has ended, and the rest stays or what is next is begun. Or the
runtime has answered, and its data joins the output, of which nothing is left at that moment, since
the runtime is asked last. -/

/-- The end of a call to send: the rest stays, or what is next is begun. -/
theorem emits_answerSend {purpose : Purpose} {size : ℕ} {rest : List UInt8} (hc : c.Orderly)
    (hphase : c.phase = .sending purpose size rest) :
    (c.answerSend purpose size rest .ok).Emits c.unsent [] c.pendingTick := by
  obtain ⟨hsize, hhandshake, htick⟩ := hc.sending purpose size rest hphase
  have hcredit : 0 ≤ c.credit - size := sub_nonneg.mpr hsize
  cases purpose with
  | handshake ref =>
    rw [unsent, pendingTick, hphase]
    exact emits_of_resting (by rintro _ ⟨⟩) (Or.inl rfl) hcredit hc.handshake rfl le_rfl
  | pending =>
    simp only [answerSend, unsent, pendingTick, hphase]
    by_cases hrest : rest = []
    · rw [if_pos hrest, hrest]
      exact emits_flushOutput (c := { c with credit := c.credit - size, pendingOut := [] })
        hcredit fun _ ↦ rfl
    · rw [if_neg hrest]
      refine emits_of_resting (by simp) (Or.inl rfl) hcredit ?_ rfl le_rfl
      intro hmode
      obtain ⟨ref, hpurpose⟩ := hhandshake hmode
      cases hpurpose
  | tick =>
    simp only [answerSend, unsent, pendingTick, hphase]
    by_cases hrest : rest = []
    · rw [if_pos hrest, hrest, ← htick rfl]
      exact emits_flushOutput (c := { c with
        credit := c.credit - size, tickPending := false, sendCount := c.sendCount + 1 })
        hcredit hc.handshake
    · rw [if_neg hrest]
      refine emits_of_resting (by simp) (Or.inl rfl) hcredit ?_ rfl le_rfl
      intro hmode
      obtain ⟨ref, hpurpose⟩ := hhandshake hmode
      cases hpurpose

/-- The answer of the runtime: its data joins the output, of which nothing is left. -/
theorem emits_pull (hc : c.Orderly) (hphase : c.phase = .pulling)
    (data : Option (ℕ × List UInt8)) :
    (c.pull data).Emits c.unsent (Cause.pulled data).results c.pendingTick := by
  obtain ⟨hmode, hpending, htick⟩ := hc.pulling hphase
  rw [unsent, pendingTick, hphase]
  cases data with
  | none => exact emits_of_resting (by rintro _ ⟨⟩) (Or.inl rfl) hc.credit hc.handshake rfl le_rfl
  | some result =>
    obtain ⟨length, bytes⟩ := result
    have hflush := emits_flushOutput
      (c := { c with pendingOut := beBytes 4 length ++ bytes, sendCount := c.sendCount + 1 })
      hc.credit fun h ↦ absurd (hmode.symm.trans h) (by simp)
    obtain ⟨joined, hjoined, hresults, hticks⟩ := hflush.joins
    refine ⟨hflush.orderly, ⟨.data length bytes :: joined, ?_, ?_, hticks⟩, hflush.chunk⟩
    · simp only [hpending, List.nil_append]
      exact hjoined
    · exact congrArg ((length, bytes) :: ·) hresults

theorem emits_of_same (hc : c.Orderly) (hphase : c.phase = .loop) (ticks : ℕ) {reaction : Reaction}
    (hrequest : ∀ chunk, reaction.request ≠ some (.send chunk))
    (hresting : Resting reaction.state.phase) (hcredit : reaction.state.credit = c.credit)
    (hmode : reaction.state.mode = .handshake → c.mode = .handshake)
    (hpending : reaction.state.pendingOut = c.pendingOut)
    (htick : reaction.state.tickPending = c.tickPending) :
    reaction.Emits c.unsent [] (c.pendingTick + ticks) := by
  rw [unsent_of_resting (Or.inl hphase), pendingTick_of_resting (Or.inl hphase)]
  refine emits_of_resting hrequest hresting ?_ ?_ hpending ?_
  · rw [hcredit]
    exact hc.credit
  · intro h
    rw [hpending]
    exact hc.handshake (hmode h)
  · rw [htick]
    exact Nat.le_add_right _ _

theorem emits_exited (hc : c.Orderly) (hphase : c.phase = .loop) (ticks : ℕ)
    {request : Option PortRequest} (hrequest : ∀ chunk, request ≠ some (.send chunk))
    (outputs : List Output) : (Reaction.mk { c with phase := .exited } request outputs).Emits
      c.unsent [] (c.pendingTick + ticks) :=
  emits_of_same hc hphase ticks hrequest (Or.inr (Or.inr rfl)) rfl id rfl rfl

theorem emits_flush (hc : c.Orderly) (hphase : c.phase = .loop) {d : Controller} (ticks : ℕ)
    (hcredit : c.credit ≤ d.credit) (hmode : d.mode = c.mode)
    (hpending : d.pendingOut = c.pendingOut)
    (htick : d.tickPending.toNat ≤ c.tickPending.toNat + ticks) :
    d.flushOutput.Emits c.unsent [] (c.pendingTick + ticks) := by
  rw [unsent_of_resting (Or.inl hphase), pendingTick_of_resting (Or.inl hphase), ← hpending]
  have hflush := emits_flushOutput (c := d) (hc.credit.trans hcredit) (by
    rw [hmode, hpending]
    exact hc.handshake)
  obtain ⟨joined, hjoined, hresults, hticks⟩ := hflush.joins
  exact ⟨hflush.orderly, ⟨joined, hjoined, hresults, hticks.trans htick⟩, hflush.chunk⟩

theorem emits_sendBytes (hc : c.Orderly) (hphase : c.phase = .loop) (hmode : c.mode = .handshake)
    (ref : ℕ) (data : List UInt8) (ticks : ℕ) :
    (c.sendBytes ref data).Emits c.unsent [] (c.pendingTick + ticks) := by
  rw [sendBytes]
  by_cases hle : (data.length : ℤ) ≤ c.credit
  · rw [if_pos hle, unsent_of_resting (Or.inl hphase), pendingTick_of_resting (Or.inl hphase)]
    refine ⟨⟨hc.credit, hc.handshake, ?_, by rintro ⟨⟩⟩, ⟨[], ?_, rfl, ?_⟩, ?_⟩
    · rintro purpose size rest ⟨⟩
      exact ⟨hle, fun _ ↦ ⟨ref, rfl⟩, by simp⟩
    · simp only [Reaction.chunk, callSend, hmode, unsent]
      exact (List.append_nil _).symm
    · exact (Nat.zero_add _).le.trans (Nat.le_add_right _ _)
    · intro chunk _ hup
      exact absurd (hmode.symm.trans hup) (by simp)
  · rw [if_neg hle]
    exact emits_of_same hc hphase ticks (by simp) (Or.inl rfl) rfl id rfl rfl

theorem emits_handleCall (hc : c.Orderly) (hphase : c.phase = .loop) (ref : ℕ)
    (call : ControllerCall) : (c.handleCall ref call).Emits c.unsent []
      (c.pendingTick + (Cause.received (.call ref call)).ticks) := by
  have hsame : ∀ outputs, (Reaction.mk c none outputs).Emits c.unsent []
      (c.pendingTick + (Cause.received (.call ref call)).ticks) := fun outputs ↦
    emits_of_same hc hphase _ (by simp) (Or.inl hphase) rfl id rfl rfl
  unfold handleCall
  split
  · exact hsame _
  · next packet hmode =>
    split
    · exact emits_sendBytes hc hphase hmode ref _ _
    · exact emits_exited hc hphase _ (by simp) _
  · split <;> exact emits_of_same hc hphase _ (by simp) (Or.inl hphase) rfl id rfl rfl
  · exact emits_of_same hc hphase _ (by simp) (Or.inl hphase) rfl (by rintro ⟨⟩) rfl rfl
  · -- the reply goes out first and is no part of the output
    have hflush := emits_flush hc hphase (d := { c with tickPending := true }) 1 le_rfl rfl rfl
      (Nat.le_add_left _ _)
    exact ⟨hflush.orderly, hflush.joins, hflush.chunk⟩
  · exact hsame _
  · exact emits_exited hc hphase _ (by rintro _ ⟨⟩) _
  · exact hsame _

theorem consumeInput_output (data : List UInt8) (c : Controller) :
    (c.consumeInput data).1.mode = c.mode ∧ (c.consumeInput data).1.pendingOut = c.pendingOut
      ∧ (c.consumeInput data).1.tickPending = c.tickPending := by
  rw [consumeInput]
  split
  · next hmode =>
    rw [satisfyWaiter]
    split <;> exact ⟨rfl, rfl, rfl⟩
  · exact ⟨rfl, rfl, rfl⟩

theorem emits_receive (hc : c.Orderly) (hphase : c.phase = .loop) (input : ControllerInput) :
    (c.receive input).Emits c.unsent [] (c.pendingTick + (Cause.received input).ticks) := by
  have hsame : ∀ outputs, (Reaction.mk c none outputs).Emits c.unsent []
      (c.pendingTick + (Cause.received input).ticks) := fun outputs ↦
    emits_of_same hc hphase _ (by simp) (Or.inl hphase) rfl id rfl rfl
  cases input with
  | call ref call => exact emits_handleCall hc hphase ref call
  | cancelRecv ref =>
    simp only [receive]
    by_cases hwaiter : c.waiter = some ref
    · rw [if_pos hwaiter]
      exact emits_of_same hc hphase _ (by simp) (Or.inl hphase) rfl id rfl rfl
    · rw [if_neg hwaiter]
      exact hsame _
  | recvTimeout ref =>
    simp only [receive]
    split
    · exact emits_of_same hc hphase _ (by simp) (Or.inl hphase) rfl id rfl rfl
    · exact hsame _
  | event event =>
    cases event with
    | data bytes =>
      obtain ⟨hmode, hpending, htick⟩ := consumeInput_output bytes c
      refine emits_of_same hc hphase _ (by rintro _ ⟨⟩) (Or.inr (Or.inl rfl))
        (consumeInput_credit bytes c) ?_ hpending htick
      intro h
      exact hmode ▸ h
    | credit bytes =>
      exact emits_flush hc hphase (d := { c with credit := c.credit + bytes }) 0
        (Int.le_add_of_nonneg_right (Int.natCast_nonneg bytes)) rfl rfl le_rfl
    | closed _ => exact emits_exited hc hphase _ (by simp) _
    | incoming _ _ | connected _ => exact hsame _
  | distData =>
    exact emits_flush hc hphase (d := { c with distReady := true }) 0 le_rfl rfl rfl le_rfl
  | portDown => exact emits_exited hc hphase _ (by simp) _
  | supervisorExit => exact emits_exited hc hphase _ (by simp) _
  | other => exact hsame _

/-- **The step lemma**: what any turn puts out, as long as sends are accepted. -/
theorem Turns.emits {cause : Cause} {reaction : Reaction} (h : c.Turns cause reaction)
    (hc : c.Orderly)
    (hok : ∀ purpose size rest answer, c.phase = .sending purpose size rest →
      cause = .answered answer → answer = .ok) :
    reaction.Emits c.unsent cause.results (c.pendingTick + cause.ticks) := by
  cases h with
  | received input hphase => exact emits_receive hc hphase input
  | pulled data hphase => exact emits_pull hc hphase data
  | sent answer hphase =>
    obtain rfl := hok _ _ _ answer hphase rfl
    exact emits_answerSend hc hphase
  | credited answer hphase =>
    rw [unsent_of_resting (Or.inr (Or.inl hphase)), pendingTick_of_resting (Or.inr (Or.inl hphase))]
    cases answer with
    | ok => exact emits_of_resting (by rintro _ ⟨⟩) (Or.inl rfl) hc.credit hc.handshake rfl le_rfl
    | error _ | failed =>
      exact emits_of_resting (by rintro _ ⟨⟩) (Or.inr (Or.inr rfl)) hc.credit hc.handshake rfl
        le_rfl

/-! ## Runs

As long as sends are accepted, the packets that have joined the output are the chunks that were sent
and the rest. After a send that is refused the controller leaves, unless it was one of the
handshake, where the caller is told of it. So for a connection that is up the condition concerns the
last turn at most. -/

/-- The output over a run. -/
structure Framed (trace : List Turn) (c : Controller) : Prop where
  orderly : c.Orderly
  joined : ∃ joined : List OutFrame,
    sentUp trace ++ c.unsent = joined.flatMap OutFrame.bytes
      ∧ joined.filterMap OutFrame.result = pulled trace
      ∧ joined.countP OutFrame.isTick + c.pendingTick ≤ tickCalls trace
  chunks : ∀ turn ∈ trace, ∀ chunk, turn.reaction.request = some (.send chunk) →
    turn.reaction.state.mode = .up → 1 ≤ chunk.length ∧ chunk.length ≤ maxPortChunk
      ∧ (chunk.length : ℤ) ≤ turn.reaction.state.credit

theorem Framed.step {trace : List Turn} {cause : Cause} {reaction : Reaction} (h : Framed trace c)
    (hturn : c.Turns cause reaction)
    (hok : ∀ purpose size rest answer, c.phase = .sending purpose size rest →
      cause = .answered answer → answer = .ok) :
    Framed (trace ++ [⟨c, cause, reaction⟩]) reaction.state := by
  obtain ⟨horderly, ⟨joined', hjoined', hresults', hticks'⟩, hchunk⟩ := hturn.emits h.orderly hok
  obtain ⟨joined, hjoined, hresults, hticks⟩ := h.joined
  refine ⟨horderly, ⟨joined ++ joined', ?_, ?_, ?_⟩, ?_⟩
  · rw [sentUp, List.flatMap_append, List.flatMap_singleton, ← sentUp, List.append_assoc, hjoined',
      ← List.append_assoc, hjoined, List.flatMap_append]
  · rw [List.filterMap_append, hresults, hresults', pulled, pulled, List.flatMap_append,
      List.flatMap_singleton]
  · have hcalls : tickCalls (trace ++ [⟨c, cause, reaction⟩]) = tickCalls trace + cause.ticks := by
      simp [tickCalls]
    rw [List.countP_append, hcalls]
    omega
  · intro turn hmem
    rcases List.mem_append.mp hmem with hmem | hmem
    · exact h.chunks turn hmem
    · rw [List.mem_singleton.mp hmem]
      exact hchunk

/-- **The run lemma.** -/
theorem Run.framed {credit : ℤ} (hcredit : 0 ≤ credit) {trace : List Turn}
    (h : (init credit).Run trace c) (hok : SendsAccepted trace) : Framed trace c := by
  induction h with
  | start =>
    exact ⟨orderly_of_resting (Or.inl rfl) hcredit fun _ ↦ rfl, ⟨[], rfl, rfl, le_rfl⟩,
      fun _ hmem ↦ absurd hmem List.not_mem_nil⟩
  | step h hturn ih =>
    refine (ih fun turn hmem ↦ hok turn (List.mem_append_left _ hmem)).step hturn ?_
    exact hok _ (List.mem_append_right _ (List.mem_singleton_self _))

theorem frame_bytes {outFrame : OutFrame}
    (h : ∀ length bytes, outFrame.result = some (length, bytes) →
      length = bytes.length ∧ length < 2 ^ 32) :
    frame .four outFrame.payload = some outFrame.bytes := by
  cases outFrame with
  | tick => rfl
  | data length bytes =>
    obtain ⟨hlength, hlt⟩ := h length bytes rfl
    subst hlength
    exact if_pos hlt

theorem frames_flatMap {joined : List OutFrame}
    (h : ∀ result ∈ joined.filterMap OutFrame.result,
      result.1 = result.2.length ∧ result.1 < 2 ^ 32) :
    frames .four (joined.map OutFrame.payload) = some (joined.flatMap OutFrame.bytes) := by
  induction joined with
  | nil => rfl
  | cons outFrame joined ih =>
    rw [List.map_cons, List.flatMap_cons]
    apply frames_cons
    · apply frame_bytes
      intro length bytes hresult
      exact h (length, bytes) (List.mem_filterMap.mpr ⟨outFrame, List.mem_cons_self, hresult⟩)
    · apply ih
      intro result hmem
      obtain ⟨found, hfound, hresult⟩ := List.mem_filterMap.mp hmem
      exact h result (List.mem_filterMap.mpr ⟨found, List.mem_cons_of_mem _ hfound, hresult⟩)

/-- **Whole packets in order.** As long as sends are accepted, the chunks sent over a connection
that is up and what is left to be sent are whole packets one behind the other: the successive
results of the runtime, and ticks, of which there are at most as many as were asked for. With the
lengths that the runtime is to report they are packets of the wire format. A chunk has from 1 to
16384 bytes and is covered by the credit, which is never negative. -/
theorem output_framed {credit : ℤ} (hcredit : 0 ≤ credit) {trace : List Turn}
    (h : (init credit).Run trace c) (hok : SendsAccepted trace) :
    (∃ joined : List OutFrame, sentUp trace ++ c.unsent = joined.flatMap OutFrame.bytes
      ∧ joined.filterMap OutFrame.result = pulled trace
      ∧ joined.countP OutFrame.isTick ≤ tickCalls trace
      ∧ ((∀ result ∈ pulled trace, result.1 = result.2.length ∧ result.1 < 2 ^ 32) →
        frames .four (joined.map OutFrame.payload) = some (sentUp trace ++ c.unsent)))
      ∧ (∀ turn ∈ trace, ∀ chunk, turn.reaction.request = some (.send chunk) →
        turn.reaction.state.mode = .up → 1 ≤ chunk.length ∧ chunk.length ≤ 16384
          ∧ (chunk.length : ℤ) ≤ turn.reaction.state.credit)
      ∧ 0 ≤ c.credit := by
  have hframed := h.framed hcredit hok
  obtain ⟨joined, hjoined, hresults, hticks⟩ := hframed.joined
  refine ⟨⟨joined, hjoined, hresults, by omega, ?_⟩, hframed.chunks, hframed.orderly.credit⟩
  intro hlength
  rw [hjoined]
  rw [← hresults] at hlength
  exact frames_flatMap hlength

theorem sendsAccepted_of_all {trace : List Turn} (h : (trace.all fun turn ↦
    match turn.cause with
    | .answered answer => decide (answer = .ok)
    | _ => true) = true) : SendsAccepted trace := by
  intro turn hmem purpose size rest answer _ hcause
  have hturn := List.all_eq_true.mp h turn hmem
  rw [hcause] at hturn
  exact of_decide_eq_true hturn

/-- With three bytes of credit a tick is cut in two, and data of the runtime goes behind it. -/
theorem output_framed_sample : ∃ trace c, (init 3).Run trace c
    ∧ sentUp trace ++ c.unsent = [0, 0, 0, 0, 0, 0, 0, 1, 7] ∧ 0 ≤ c.credit := by
  have hrun := (Run.start : (init 3).Run _ _)
    |>.step (.received (.call 0 .handshakeComplete) rfl)
    |>.step (.received (.call 1 .tick) rfl)
    |>.step (.sent .ok rfl)
    |>.step (.received .distData rfl)
    |>.step (.received (.event (.credit 2)) rfl)
    |>.step (.sent .ok rfl)
    |>.step (.pulled (some (1, [7])) rfl)
    |>.step (.sent .ok rfl)
  obtain ⟨-, -, hcredit⟩ := output_framed (by decide) hrun (sendsAccepted_of_all (by decide))
  exact ⟨_, _, hrun, by decide, hcredit⟩

end Controller

end NervesP2P
