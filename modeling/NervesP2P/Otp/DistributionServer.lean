import NervesP2P.Lib.Maps
import NervesP2P.Lib.Server
import NervesP2P.Otp.Distribution

/-!
# The server of remote calls

One process of a node handles the requests of other peers, and routes the responses to its own. A
caller waits until it is replied to. Its entry is kept under the identifier that the network layer
has chosen for the request, with a timer and a token that is made for this call.

Identifiers may be used again, once they are not pending. A timer that fires late then finds the
entry of another call, and the token tells them apart. Callers and tokens are references, so a new
one is different from all before it. A caller is in one of two places: its entry is pending, or it
has been replied to. This is the invariant `Waiting`, and a turn of the server moves at most one
caller from the first place to the second.
-/

open Std (ExtTreeMap)

namespace NervesP2P

namespace Distribution

/-! ## The process

A call is handled in two turns that may lie far apart: its request is sent and its entry filed, and
later a response or the timer comes in and the caller is replied to. A request of another peer is
handled in one turn, in which the server itself delivers the message and may wait for the answer of
a process. -/

abbrev Ref := ℕ

/-- A caller that waits for its reply. -/
structure Entry where
  caller : Ref
  timer : Ref
  token : Ref

structure State where
  pending : ExtTreeMap String Entry

abbrev Reply := Except CallError (List UInt8)

inductive Message where
  /-- With the identifier that the request is sent under, if it is sent; the token that is made; and
  the timer that is started, unless the timeout is refused. -/
  | call (caller : Ref) (peer : String) (payload : List UInt8) (sent : Option String) (token : Ref)
      (timer : Option Ref)
  | inboundRequest (rt : Runtime) (channelId : String) (data : List UInt8)
  | outboundResponse (requestId : String) (data : List UInt8)
  | callTimeout (requestId : String) (token : Ref)
  | cast (message : Value)
  | other

inductive Effect where
  | sendRequest (peer : String) (payload : List UInt8)
  /-- The message `callTimeout` is going to be sent. -/
  | sendAfter (timer : Ref) (requestId : String) (token : Ref)
  | cancelTimer (timer : Ref)
  | reply (caller : Ref) (reply : Reply)
  | deliver (delivered : Delivered)
  | sendResponse (channelId : String) (response : List UInt8)

/-- The message that a request delivers. -/
def delivered? (rt : Runtime) (data : List UInt8) : Option Delivered :=
  match decode rt data with
  | .ok request => (handleRemoteRequest rt request).1
  | .error _ => none

/-- What becomes of the node because of a message to another process. What the server sends to
itself waits in its mailbox. -/
def fate (rt : Runtime) (delivered : Delivered) : Aftermath :=
  if delivered.target = .pid rt.self then .harmless else rt.aftermath delivered

/-- The response is sent after the message was delivered. That the node is gone is an exit, which
`safe_call` catches, and then nothing is sent. -/
def respond (rt : Runtime) (channelId : String) (delivered : Option Delivered)
    (response : List UInt8) : Option (List Effect) :=
  match delivered.map (fate rt) with
  | some .killed => none
  | some .nodeDown => some (delivered.toList.map .deliver)
  | _ => some (delivered.toList.map .deliver ++ [.sendResponse channelId response])

/-- A request of another peer. There is no clause for a payload that is too large. -/
def inbound (rt : Runtime) (channelId : String) (data : List UInt8) : Option (List Effect) :=
  match decode rt data with
  | .ok request =>
    (handleRemoteRequest rt request).2.bind
      (respond rt channelId (handleRemoteRequest rt request).1)
  | .error .invalidMessage =>
    some [.sendResponse channelId (encode rt (.tuple [.atom "error", .atom "invalid_message"]))]
  | .error .payloadTooLarge => none

def handle : Message → State → Option (List Effect × State)
  | .call caller peer payload sent token timer, s =>
    match sent with
    | some requestId =>
      timer.map fun timer ↦
        ([.sendRequest peer payload, .sendAfter timer requestId token],
          { s with pending := s.pending.insert requestId ⟨caller, timer, token⟩ })
    | none => some ([.sendRequest peer payload, .reply caller (.error .unreachable)], s)
  | .inboundRequest rt channelId data, s =>
    (inbound rt channelId data).map fun done ↦ (done, s)
  | .outboundResponse requestId data, s =>
    match s.pending[requestId]? with
    | some entry =>
      some ([.cancelTimer entry.timer, .reply entry.caller (.ok data)],
        { s with pending := s.pending.erase requestId })
    | none => some ([], s)
  | .callTimeout requestId token, s =>
    match s.pending[requestId]? with
    | some entry =>
      if entry.token = token then
        some ([.reply entry.caller (.error .timeout)],
          { s with pending := s.pending.erase requestId })
      else some ([], s)
    | none => some ([], s)
  -- the `handle_cast` that the module does not define
  | .cast _, _ => none
  | .other, s => some ([], s)

def server : Server State Message Effect where
  init := ⟨∅⟩
  handle := handle

abbrev Turn := Server.Turn Message Effect

open Server (effects messages)

/-! ## Turns

`Turned` lists what a turn can do to callers, and there are four cases: nothing, a reply that the
request was not sent, a new entry, and a reply to a pending caller with its entry removed.
Everything about callers is proved from these, and requests of other peers are among the first. -/

def Message.caller? : Message → Option Ref
  | .call caller _ _ _ _ _ => some caller
  | _ => none

def Message.token? : Message → Option Ref
  | .call _ _ _ _ token _ => some token
  | _ => none

def Message.requestId? : Message → Option String
  | .call _ _ _ sent _ _ => sent
  | _ => none

def Effect.reply? : Effect → Option (Ref × Reply)
  | .reply caller answer => some (caller, answer)
  | _ => none

def called (turns : List Turn) : List Ref :=
  (messages turns).filterMap Message.caller?

def tokens (turns : List Turn) : List Ref :=
  (messages turns).filterMap Message.token?

/-- Callers and tokens are new references, and a request is not sent under a pending identifier. -/
structure Allowed (turns : List Turn) (s : State) (m : Message) : Prop where
  caller : ∀ caller, m.caller? = some caller → caller ∉ called turns
  token : ∀ token, m.token? = some token → token ∉ tokens turns
  requestId : ∀ requestId, m.requestId? = some requestId → s.pending[requestId]? = none

abbrev History (turns : List Turn) (s : State) : Prop :=
  server.History Allowed turns s

def repliesOf (done : List Effect) : List (Ref × Reply) := done.filterMap Effect.reply?

/-- The call of a caller whose request is sent and whose timer is started. -/
abbrev Entry.call (entry : Entry) (requestId peer : String) (payload : List UInt8) : Message :=
  .call entry.caller peer payload (some requestId) entry.token (some entry.timer)

/-- The message with which a caller is told a reply: the response to its own request, or its own
timer. -/
inductive Answers (requestId : String) (entry : Entry) : Message → Reply → Prop
  | response (data : List UInt8) :
      Answers requestId entry (.outboundResponse requestId data) (.ok data)
  | timeout : Answers requestId entry (.callTimeout requestId entry.token) (.error .timeout)

/-- What a turn can do: nothing to any caller; reply to a caller whose request is not sent; file the
entry of a caller whose request is sent; or reply to a pending caller. -/
inductive Turned (s : State) : Message → List Effect → State → Prop
  | quiet {m : Message} {done : List Effect} (hcaller : m.caller? = none)
      (hreplies : repliesOf done = []) : Turned s m done s
  | unreachable {caller token : Ref} {peer : String} {payload : List UInt8} {timer : Option Ref} :
      Turned s (.call caller peer payload none token timer)
        [.sendRequest peer payload, .reply caller (.error .unreachable)] s
  | filed (entry : Entry) {requestId peer : String} {payload : List UInt8} :
      Turned s (entry.call requestId peer payload)
        [.sendRequest peer payload, .sendAfter entry.timer requestId entry.token]
        { s with pending := s.pending.insert requestId entry }
  | answered {requestId : String} {entry : Entry} {m : Message} {done : List Effect} {reply : Reply}
      (hpending : s.pending[requestId]? = some entry) (hanswers : Answers requestId entry m reply)
      (hreplies : repliesOf done = [(entry.caller, reply)]) :
      Turned s m done { s with pending := s.pending.erase requestId }

variable {channelId requestId : String} {entry : Entry} {rt : Runtime} {data : List UInt8}

theorem eq_of_respond {delivered : Option Delivered} {response : List UInt8} {done : List Effect}
    (h : respond rt channelId delivered response = some done) :
    ∃ sent : Option (List UInt8), done = delivered.toList.map .deliver
      ++ sent.toList.map (.sendResponse channelId) := by
  rw [respond] at h
  split at h
  · cases h
  · cases h
    exact ⟨none, (List.append_nil _).symm⟩
  · cases h
    exact ⟨some response, rfl⟩

/-- A request is delivered or not, and then the response is sent unless the node is gone. -/
theorem eq_of_inbound {done : List Effect} (h : inbound rt channelId data = some done) :
    ∃ sent : Option (List UInt8), done = (delivered? rt data).toList.map .deliver
      ++ sent.toList.map (.sendResponse channelId) := by
  rw [inbound] at h
  rw [delivered?]
  cases hdecode : decode rt data with
  | ok request =>
    rw [hdecode] at h
    obtain ⟨response, -, h⟩ := Option.bind_eq_some_iff.mp h
    exact eq_of_respond h
  | error error =>
    rw [hdecode] at h
    cases error with
    | invalidMessage =>
      cases h
      exact ⟨some _, rfl⟩
    | payloadTooLarge => cases h

theorem repliesOf_inbound {done : List Effect} (h : inbound rt channelId data = some done) :
    repliesOf done = [] := by
  obtain ⟨sent, rfl⟩ := eq_of_inbound h
  cases delivered? rt data <;> cases sent <;> rfl

theorem turned_of_handle {m : Message} {s s' : State} {done : List Effect}
    (h : handle m s = some (done, s')) : Turned s m done s' := by
  cases m with
  | call caller peer payload sent token timer =>
    cases sent with
    | none =>
      cases h
      exact .unreachable
    | some requestId =>
      cases timer with
      | none => cases h
      | some timer =>
        cases h
        exact .filed ⟨caller, timer, token⟩
  | inboundRequest rt channelId data =>
    obtain ⟨done, hdone, heq⟩ := Option.map_eq_some_iff.mp h
    cases heq
    exact .quiet rfl (repliesOf_inbound hdone)
  | outboundResponse requestId data =>
    cases hget : s.pending[requestId]? with
    | none =>
      simp only [handle, hget] at h
      cases h
      exact .quiet rfl rfl
    | some entry =>
      simp only [handle, hget] at h
      cases h
      exact .answered hget (.response data) rfl
  | callTimeout requestId token =>
    cases hget : s.pending[requestId]? with
    | none =>
      simp only [handle, hget] at h
      cases h
      exact .quiet rfl rfl
    | some entry =>
      simp only [handle, hget] at h
      split at h
      · next htoken =>
        cases h
        subst htoken
        exact .answered hget .timeout rfl
      · cases h
        exact .quiet rfl rfl
  | cast message => cases h
  | other =>
    cases h
    exact .quiet rfl rfl

/-! ## Callers

Since callers are new references, a caller calls once, and a filed entry is the only one of its
caller. A turn then moves at most one caller from waiting to having been replied to, and never
back. -/

/-- Those who were replied to. -/
def replied (turns : List Turn) : List Ref :=
  (repliesOf (effects turns)).map Prod.fst

/-- The request of a caller was sent under an identifier, and its timer started. -/
def Sent (requestId : String) (entry : Entry) (turns : List Turn) : Prop :=
  ∃ peer payload, entry.call requestId peer payload ∈ messages turns

/-- A caller whose request was sent is pending, or it has been replied to. -/
structure Waiting (turns : List Turn) (s : State) : Prop where
  nodup_called : (called turns).Nodup
  nodup_tokens : (tokens turns).Nodup
  nodup_replied : (replied turns).Nodup
  called_of_replied : ∀ caller ∈ replied turns, caller ∈ called turns
  pending : ∀ requestId entry, s.pending[requestId]? = some entry →
    Sent requestId entry turns ∧ entry.caller ∉ replied turns
  sent : ∀ requestId entry, Sent requestId entry turns →
    s.pending[requestId]? = some entry ∨ entry.caller ∈ replied turns

section Turns

variable {turns : List Turn} {s s' : State} {m : Message} {done : List Effect}

theorem replied_snoc :
    replied (turns ++ [(m, done)]) = replied turns ++ (repliesOf done).map Prod.fst := by
  simp [replied, repliesOf]

theorem sent_snoc :
    Sent requestId entry (turns ++ [(m, done)])
      ↔ Sent requestId entry turns ∨ ∃ peer payload, m = entry.call requestId peer payload := by
  simp only [Sent, Server.messages_append, Server.messages_cons, Server.messages_nil,
    List.mem_append, List.mem_singleton, exists_or]
  simp only [eq_comm]

theorem Sent.mem_called (h : Sent requestId entry turns) :
    entry.caller ∈ called turns := by
  obtain ⟨peer, payload, hmem⟩ := h
  exact List.mem_filterMap.mpr ⟨_, hmem, rfl⟩

/-- A caller calls once. -/
theorem Sent.unique {requestId' : String} {entry' : Entry} (hcalled : (called turns).Nodup)
    (h : Sent requestId entry turns) (h' : Sent requestId' entry' turns)
    (hcaller : entry.caller = entry'.caller) :
    requestId = requestId' ∧ entry = entry' := by
  obtain ⟨peer, payload, hmem⟩ := h
  obtain ⟨peer', payload', hmem'⟩ := h'
  have heq := Server.eq_of_nodup_filterMap hcalled hmem hmem' rfl (by rw [hcaller]; rfl)
  cases entry
  cases entry'
  simp_all

theorem called_subset_snoc : called turns ⊆ called (turns ++ [(m, done)]) := by
  rw [called, called, Server.messages_append, List.filterMap_append]
  exact List.subset_append_left _ _

theorem Waiting.snoc (h : Waiting turns s) (hallowed : Allowed turns s m) (now : List Ref)
    (hnow : (repliesOf done).map Prod.fst = now) (hnodup : now.Nodup)
    (hnew : ∀ caller ∈ now, caller ∉ replied turns ∧ caller ∈ called (turns ++ [(m, done)]))
    (hpending : ∀ requestId entry, s'.pending[requestId]? = some entry →
      Sent requestId entry (turns ++ [(m, done)]) ∧ entry.caller ∉ replied turns
        ∧ entry.caller ∉ now)
    (hsent : ∀ requestId entry, Sent requestId entry (turns ++ [(m, done)]) →
      s'.pending[requestId]? = some entry ∨ entry.caller ∈ replied turns ∨ entry.caller ∈ now) :
    Waiting (turns ++ [(m, done)]) s' := by
  have hreplied : replied (turns ++ [(m, done)]) = replied turns ++ now := by
    rw [replied_snoc, hnow]
  constructor
  · rw [called, Server.messages_append]
    exact Server.nodup_filterMap_concat h.nodup_called hallowed.caller
  · rw [tokens, Server.messages_append]
    exact Server.nodup_filterMap_concat h.nodup_tokens hallowed.token
  · rw [hreplied]
    exact h.nodup_replied.append hnodup fun caller hbefore hmem ↦ (hnew caller hmem).1 hbefore
  · intro caller hmem
    rw [hreplied, List.mem_append] at hmem
    rcases hmem with hbefore | hmem
    · exact called_subset_snoc (h.called_of_replied caller hbefore)
    · exact (hnew caller hmem).2
  · intro requestId entry hget
    rw [hreplied, List.mem_append, not_or]
    exact hpending requestId entry hget
  · intro requestId entry h
    rw [hreplied, List.mem_append]
    exact hsent requestId entry h

theorem sent_snoc_of_caller_eq_none (hcaller : m.caller? = none) :
    Sent requestId entry (turns ++ [(m, done)]) ↔ Sent requestId entry turns := by
  rw [sent_snoc, or_iff_left]
  rintro ⟨peer, payload, rfl⟩
  cases hcaller

theorem Waiting.quiet (h : Waiting turns s) (hallowed : Allowed turns s m)
    (hcaller : m.caller? = none) (hreplies : repliesOf done = []) :
    Waiting (turns ++ [(m, done)]) s := by
  have hnow : (repliesOf done).map Prod.fst = [] := by rw [hreplies, List.map_nil]
  refine h.snoc hallowed _ hnow List.nodup_nil (fun _ hmem ↦ absurd hmem List.not_mem_nil) ?_ ?_
  · intro requestId entry hget
    rw [sent_snoc_of_caller_eq_none hcaller]
    obtain ⟨hsent, hreplied⟩ := h.pending requestId entry hget
    exact ⟨hsent, hreplied, List.not_mem_nil⟩
  · intro requestId entry hsent
    rw [sent_snoc_of_caller_eq_none hcaller] at hsent
    exact (h.sent requestId entry hsent).imp_right .inl

theorem Waiting.unreachable {caller token : Ref} {peer : String} {payload : List UInt8}
    {timer : Option Ref} (h : Waiting turns s)
    (hallowed : Allowed turns s (.call caller peer payload none token timer)) :
    Waiting (turns ++ [(.call caller peer payload none token timer,
      [.sendRequest peer payload, .reply caller (.error .unreachable)])]) s := by
  have hnew : caller ∉ called turns := hallowed.caller caller rfl
  refine h.snoc hallowed [caller] rfl (List.nodup_singleton caller) ?_ ?_ ?_
  · intro caller' hmem
    rw [List.mem_singleton] at hmem
    subst hmem
    refine ⟨fun hreplied ↦ hnew (h.called_of_replied caller' hreplied), ?_⟩
    simp [called, Message.caller?]
  · intro requestId entry hget
    obtain ⟨hsent, hreplied⟩ := h.pending requestId entry hget
    refine ⟨sent_snoc.mpr (.inl hsent), hreplied, ?_⟩
    rw [List.mem_singleton]
    intro heq
    exact hnew (heq ▸ hsent.mem_called)
  · intro requestId entry hsent
    rcases sent_snoc.mp hsent with hsent | ⟨_, _, heq⟩
    · exact (h.sent requestId entry hsent).imp_right .inl
    · cases heq

theorem Waiting.filed {peer : String} {payload : List UInt8} (h : Waiting turns s)
    (hallowed : Allowed turns s (entry.call requestId peer payload)) :
    Waiting (turns ++ [(entry.call requestId peer payload,
        [.sendRequest peer payload, .sendAfter entry.timer requestId entry.token])])
      { s with pending := s.pending.insert requestId entry } := by
  have hnew : entry.caller ∉ called turns := hallowed.caller entry.caller rfl
  have hfree : s.pending[requestId]? = none := hallowed.requestId requestId rfl
  refine h.snoc hallowed [] rfl List.nodup_nil
    (fun _ hmem ↦ absurd hmem List.not_mem_nil) ?_ ?_
  · intro requestId' entry' hget
    rw [getElem?_insert_eq] at hget
    split at hget
    · next heq =>
      cases hget
      subst heq
      refine ⟨sent_snoc.mpr (.inr ⟨peer, payload, rfl⟩), ?_, List.not_mem_nil⟩
      exact fun hreplied ↦ hnew (h.called_of_replied _ hreplied)
    · obtain ⟨hsent, hreplied⟩ := h.pending requestId' entry' hget
      exact ⟨sent_snoc.mpr (.inl hsent), hreplied, List.not_mem_nil⟩
  · intro requestId' entry' hsent
    rw [getElem?_insert_eq]
    rcases sent_snoc.mp hsent with hsent | ⟨_, _, heq⟩
    · refine (h.sent requestId' entry' hsent).imp (fun hget ↦ ?_) .inl
      rw [if_neg, hget]
      rintro rfl
      rw [hfree] at hget
      cases hget
    · have hentry : entry = entry' := by
        cases entry
        cases entry'
        simp_all
      simp_all

/-- The caller of a pending entry is replied to. Its entry is the only one it has. -/
theorem Waiting.answered {reply : Reply} (h : Waiting turns s) (hallowed : Allowed turns s m)
    (hget : s.pending[requestId]? = some entry) (hcaller : m.caller? = none)
    (hreplies : repliesOf done = [(entry.caller, reply)]) :
    Waiting (turns ++ [(m, done)]) { s with pending := s.pending.erase requestId } := by
  obtain ⟨hsent, hreplied⟩ := h.pending requestId entry hget
  have hnow : (repliesOf done).map Prod.fst = [entry.caller] := by rw [hreplies]; rfl
  refine h.snoc hallowed _ hnow (List.nodup_singleton _) ?_ ?_ ?_
  · intro caller hmem
    rw [List.mem_singleton] at hmem
    subst hmem
    exact ⟨hreplied, called_subset_snoc hsent.mem_called⟩
  · intro requestId' entry' hget'
    rw [getElem?_erase_eq] at hget'
    split at hget'
    · cases hget'
    · next hne =>
      obtain ⟨hsent', hreplied'⟩ := h.pending requestId' entry' hget'
      refine ⟨sent_snoc.mpr (.inl hsent'), hreplied', ?_⟩
      rw [List.mem_singleton]
      exact fun heq ↦ hne (hsent.unique h.nodup_called hsent' heq.symm).1
  · intro requestId' entry' hsent'
    rw [sent_snoc_of_caller_eq_none hcaller] at hsent'
    rw [getElem?_erase_eq]
    rcases h.sent requestId' entry' hsent' with hget' | hreplied'
    · split
      · next heq =>
        subst heq
        rw [hget, Option.some_inj] at hget'
        subst hget'
        exact .inr (.inr (List.mem_singleton_self _))
      · exact .inl hget'
    · exact .inr (.inl hreplied')

theorem Answers.caller_eq_none {reply : Reply} (h : Answers requestId entry m reply) :
    m.caller? = none := by
  cases h <;> rfl

theorem Waiting.turn (h : Waiting turns s) (hallowed : Allowed turns s m)
    (hturned : Turned s m done s') : Waiting (turns ++ [(m, done)]) s' := by
  cases hturned with
  | quiet hcaller hreplies => exact h.quiet hallowed hcaller hreplies
  | unreachable => exact h.unreachable hallowed
  | filed entry => exact h.filed hallowed
  | answered hget hanswers hreplies =>
    exact h.answered hallowed hget hanswers.caller_eq_none hreplies

end Turns

theorem waiting_init : Waiting [] server.init where
  nodup_called := List.nodup_nil
  nodup_tokens := List.nodup_nil
  nodup_replied := List.nodup_nil
  called_of_replied _ h := absurd h List.not_mem_nil
  pending requestId entry h := absurd h (getElem?_empty_ne_some requestId entry)
  sent _ _ h := by
    obtain ⟨_, _, hmem⟩ := h
    cases hmem

theorem waiting_of_history {turns : List Turn} {s : State} (h : History turns s) :
    Waiting turns s := by
  induction h with
  | init => exact waiting_init
  | step _ hallowed hhandle ih => exact ih.turn hallowed (turned_of_handle hhandle)

/-! ## Runs

Whoever is replied to is told the response to its own request, or that its own timer has fired. Once
the timer of a caller has been handled, it has been replied to, by this turn or by an earlier one,
as its entry cannot be gone for any other reason. -/

theorem Sent.append {turns : List Turn} (h : Sent requestId entry turns) (more : List Turn) :
    Sent requestId entry (turns ++ more) := by
  obtain ⟨peer, payload, hmem⟩ := h
  refine ⟨peer, payload, ?_⟩
  rw [Server.messages_append]
  exact List.mem_append_left _ hmem

theorem mem_repliesOf {done : List Effect} {caller : Ref} {reply : Reply} :
    (caller, reply) ∈ repliesOf done ↔ Effect.reply caller reply ∈ done := by
  rw [repliesOf, List.mem_filterMap]
  constructor
  · rintro ⟨effect, hmem, heq⟩
    cases effect <;> cases heq
    exact hmem
  · intro hmem
    exact ⟨_, hmem, rfl⟩

theorem Turned.reply {m : Message} {s s' : State} {done : List Effect} {caller : Ref}
    {reply : Reply} (h : Turned s m done s') (hreply : Effect.reply caller reply ∈ done) :
    (∃ peer payload token timer, m = .call caller peer payload none token timer)
      ∨ ∃ requestId entry, s.pending[requestId]? = some entry ∧ entry.caller = caller
        ∧ Answers requestId entry m reply := by
  rw [← mem_repliesOf] at hreply
  cases h with
  | quiet _ hreplies =>
    rw [hreplies] at hreply
    cases hreply
  | @unreachable caller' token peer payload timer =>
    obtain ⟨rfl, -⟩ : caller' = caller ∧ .error .unreachable = reply := by
      simpa [repliesOf, Effect.reply?] using hreply
    exact .inl ⟨peer, payload, token, timer, rfl⟩
  | filed entry => cases hreply
  | @answered requestId entry _ _ reply' hget hanswers hreplies =>
    rw [hreplies, List.mem_singleton, Prod.mk.injEq] at hreply
    obtain ⟨rfl, rfl⟩ := hreply
    exact .inr ⟨requestId, entry, hget, rfl, hanswers⟩

/-- Whoever is replied to is told the response to its own request, or that its own timer has
fired. -/
theorem answers_of_reply {turns first last : List Turn} {s : State} {m : Message}
    {done : List Effect} {reply : Reply} (h : History turns s)
    (hturns : turns = first ++ (m, done) :: last) (hsent : Sent requestId entry turns)
    (hreply : Effect.reply entry.caller reply ∈ done) :
    Answers requestId entry m reply := by
  have hcalled := (waiting_of_history h).nodup_called
  subst hturns
  obtain ⟨s₁, s₂, hfirst, -, hhandle, -⟩ := h.split
  rcases (turned_of_handle hhandle).reply hreply with
    ⟨peer, payload, token, timer, rfl⟩ | ⟨requestId', entry', hget, hcaller, hanswers⟩
  · -- the caller has called only once, and then its request was sent
    obtain ⟨peer', payload', hmem⟩ := hsent
    have hmem' : Message.call entry.caller peer payload none token timer
        ∈ messages (first ++ (.call entry.caller peer payload none token timer, done) :: last) := by
      simp
    cases Server.eq_of_nodup_filterMap hcalled hmem hmem' rfl rfl
  · have hsent' := ((waiting_of_history hfirst).pending requestId' entry' hget).1
    obtain ⟨rfl, rfl⟩ := (hsent'.append _).unique hcalled hsent hcaller
    exact hanswers

/-- When the timer of a caller has been handled, the caller has been replied to. -/
theorem mem_replied_of_callTimeout {turns : List Turn} {s s' : State} {done : List Effect}
    (h : Waiting turns s) (hsent : Sent requestId entry turns)
    (hhandle : handle (.callTimeout requestId entry.token) s = some (done, s')) :
    entry.caller ∈ replied (turns ++ [(.callTimeout requestId entry.token, done)]) := by
  rw [replied_snoc, List.mem_append]
  rcases h.sent requestId entry hsent with hget | hreplied
  · simp only [handle, hget, if_pos] at hhandle
    cases hhandle
    exact .inr (List.mem_singleton_self _)
  · exact .inl hreplied

/-- **Remote calls.** In every run nobody is replied to twice. A caller whose request is sent is
told the data of a response to that request, or that its own timer has fired, and in no other turn
anything. After the turn of its timer it has been replied to; and from its reply on, no entry is
kept for it. The timers of other callers have other tokens. -/
theorem calls_complete_once {turns : List Turn} {s : State} (h : History turns s) :
    (replied turns).Nodup
      ∧ ∀ before after requestId entry peer payload done,
        turns = before ++ (Entry.call entry requestId peer payload, done) :: after →
          (∀ first m done' last, turns = first ++ (m, done') :: last →
            ∀ reply, Effect.reply entry.caller reply ∈ done' → Answers requestId entry m reply)
          ∧ (∀ middle done' last,
            after = middle ++ (.callTimeout requestId entry.token, done') :: last →
              entry.caller ∈ replied (before ++ (entry.call requestId peer payload, done) :: middle
                ++ [(.callTimeout requestId entry.token, done')]))
          ∧ (entry.caller ∈ replied turns → ∀ (requestId' : String) (entry' : Entry),
            s.pending[requestId']? = some entry' → entry'.caller ≠ entry.caller)
          ∧ ∀ requestId' entry', Sent requestId' entry' turns → entry'.token = entry.token →
            requestId' = requestId ∧ entry' = entry := by
  have hwaiting := waiting_of_history h
  refine ⟨hwaiting.nodup_replied, ?_⟩
  intro before after requestId entry peer payload done hturns
  have hmem : entry.call requestId peer payload ∈ messages turns := by
    rw [hturns]
    simp
  have hsent : Sent requestId entry turns := ⟨peer, payload, hmem⟩
  refine ⟨?_, ?_, ?_, ?_⟩
  · intro first m done' last hturns' reply hreply
    exact answers_of_reply h hturns' hsent hreply
  · intro middle done' last hafter
    have hsplit : turns = (before ++ (entry.call requestId peer payload, done) :: middle)
        ++ (.callTimeout requestId entry.token, done') :: last := by
      rw [hturns, hafter]
      simp
    rw [hsplit] at h
    obtain ⟨s₁, s₂, hfirst, -, hhandle, -⟩ := h.split
    refine mem_replied_of_callTimeout (waiting_of_history hfirst) ⟨peer, payload, ?_⟩ hhandle
    simp
  · intro hreplied requestId' entry' hget heq
    exact (hwaiting.pending requestId' entry' hget).2 (heq ▸ hreplied)
  · rintro requestId' entry' ⟨peer', payload', hmem'⟩ htoken
    have heq := Server.eq_of_nodup_filterMap hwaiting.nodup_tokens hmem' hmem rfl
      (by rw [htoken]; rfl)
    cases entry
    cases entry'
    simp_all

theorem allowed_of_no_call {turns : List Turn} {s : State} {m : Message}
    (hcaller : m.caller? = none) (htoken : m.token? = none) (hrequestId : m.requestId? = none) :
    Allowed turns s m where
  caller caller h := by rw [hcaller] at h; cases h
  token token h := by rw [htoken] at h; cases h
  requestId requestId h := by rw [hrequestId] at h; cases h

/-- An identifier is used again, and the timer of the first call fires late. -/
theorem calls_complete_once_reused :
    ∃ turns s, History turns s
      ∧ messages turns = [Entry.call ⟨10, 30, 20⟩ "1" "peer" [1], .outboundResponse "1" [7],
        Entry.call ⟨11, 31, 21⟩ "1" "peer" [2], .callTimeout "1" 20, .callTimeout "1" 21]
      ∧ repliesOf (effects turns) = [(10, .ok [7]), (11, .error .timeout)]
      ∧ (replied turns).Nodup := by
  have hcall : History [(Entry.call ⟨10, 30, 20⟩ "1" "peer" [1],
      [.sendRequest "peer" [1], .sendAfter 30 "1" 20])] _ :=
    Server.History.init.step ⟨fun _ _ ↦ List.not_mem_nil, fun _ _ ↦ List.not_mem_nil,
      fun _ _ ↦ ExtTreeMap.getElem?_empty⟩ rfl
  have hresponse := hcall.step (m := .outboundResponse "1" [7]) (allowed_of_no_call rfl rfl rfl) rfl
  have hagain := hresponse.step (m := Entry.call ⟨11, 31, 21⟩ "1" "peer" [2])
    ⟨fun caller h ↦ by cases h; decide, fun token h ↦ by cases h; decide,
      fun requestId h ↦ by cases h; rfl⟩ rfl
  have hlate := hagain.step (m := .callTimeout "1" 20) (allowed_of_no_call rfl rfl rfl) rfl
  have htimeout := hlate.step (m := .callTimeout "1" 21) (allowed_of_no_call rfl rfl rfl) rfl
  exact ⟨_, _, htimeout, rfl, rfl, (calls_complete_once htimeout).1⟩

/-! ## Requests of other peers

A request is dealt with when it has its response and the server is as before. That is not all: what
it delivers to the server itself is still to come. The server finds it in its mailbox like anything
else, and the process around it has messages of its own. -/

def Effect.response? : Effect → Option (String × List UInt8)
  | .sendResponse channelId response => some (channelId, response)
  | _ => none

/-- The first elements of the tuples that a `GenServer` takes for messages to its callbacks and to
the process itself, and this one for an event or a timer. -/
def reservedAtoms : List String :=
  ["$gen_call", "$gen_cast", "system", "EXIT", "libp2p", "call_timeout"]

/-- What the process takes a term for that it is sent: a cast, or something that it logs. Of a term
that looks like another of its messages nothing is said. -/
def Message.ofTerm : Value → Option Message
  | .tuple [.atom "$gen_cast", message] => some (.cast message)
  | .tuple (.atom name :: _) => if reservedAtoms.contains name then none else some .other
  | _ => some .other

/-- What comes to the mailbox of the server itself. A process cannot call itself. -/
def Delivered.own? (rt : Runtime) (delivered : Delivered) : Option Value :=
  if delivered.target = .pid rt.self then
    match delivered.delivery with
    | .call => none
    | .cast => some (.tuple [.atom "$gen_cast", delivered.message])
    | .send => some delivered.message
  else none

/-- One response is sent, on the channel of the request, and nothing changes for the callers; nor
does it when the server handles what it was made to send to itself. That must be a message of which
this is known. -/
def Answered (rt : Runtime) (channelId : String) (data : List UInt8) (s : State) : Prop :=
  ∃ done response, handle (.inboundRequest rt channelId data) s = some (done, s)
    ∧ done.filterMap Effect.response? = [(channelId, response)]
    ∧ ∀ delivered term, .deliver delivered ∈ done → delivered.own? rt = some term →
      ∃ m, Message.ofTerm term = some m ∧ handle m s = some ([], s)

/-- The server and its node outlive the message: other processes do not end them, and what comes to
the server itself is something that it logs. -/
def Endured (rt : Runtime) (delivered : Delivered) : Prop :=
  fate rt delivered ≠ .killed ∧ fate rt delivered ≠ .nodeDown
    ∧ ∀ term, delivered.own? rt = some term → Message.ofTerm term = some .other

/-- A payload of the permitted size that is no term at all, or one that can be delivered and is
endured. -/
def Answerable (rt : Runtime) (data : List UInt8) : Prop :=
  data.length ≤ maxPayloadBytes
    ∧ (∀ term, rt.binaryToTerm data = some term → Deliverable rt term)
    ∧ ∀ delivered, delivered? rt data = some delivered → Endured rt delivered

theorem responses_done (delivered : Option Delivered) (channelId : String)
    (sent : Option (List UInt8)) :
    (delivered.toList.map Effect.deliver
        ++ sent.toList.map (Effect.sendResponse channelId)).filterMap Effect.response?
      = sent.toList.map fun response ↦ (channelId, response) := by
  cases delivered <;> cases sent <;> rfl

theorem mem_deliver_done {delivered : Option Delivered} {sent : Option (List UInt8)}
    {d : Delivered} :
    Effect.deliver d ∈ delivered.toList.map .deliver ++ sent.toList.map (.sendResponse channelId)
      ↔ delivered = some d := by
  cases delivered <;> cases sent <;> simp [eq_comm]

theorem respond_eq_iff {delivered : Option Delivered} {response response' : List UInt8} :
    respond rt channelId delivered response
        = some (delivered.toList.map .deliver ++ [.sendResponse channelId response'])
      ↔ response = response'
        ∧ ∀ d, delivered = some d → fate rt d ≠ .killed ∧ fate rt d ≠ .nodeDown := by
  rw [respond]
  cases delivered with
  | none => simp
  | some d => cases hfate : fate rt d <;> simp [hfate]

/-- The response is sent if the request can be delivered and nothing ends the server or the node. -/
theorem inbound_eq_iff :
    (∃ response, inbound rt channelId data
        = some ((delivered? rt data).toList.map .deliver ++ [.sendResponse channelId response]))
      ↔ data.length ≤ maxPayloadBytes
        ∧ (∀ term, rt.binaryToTerm data = some term → Deliverable rt term)
        ∧ ∀ d, delivered? rt data = some d → fate rt d ≠ .killed ∧ fate rt d ≠ .nodeDown := by
  rw [inbound, delivered?, decode]
  by_cases hlarge : maxPayloadBytes < data.length
  · simp [hlarge]
  · rw [if_neg hlarge]
    cases hterm : rt.binaryToTerm data with
    | none => simp [not_lt.mp hlarge]
    | some term =>
      simp only [not_lt.mp hlarge, true_and, Option.some.injEq, forall_eq',
        ← isSome_handleRemoteRequest_iff]
      cases (handleRemoteRequest rt term).2 with
      | none => simp
      | some response => simp [respond_eq_iff]

theorem answered_of_answerable (h : Answerable rt data) (channelId : String) (s : State) :
    Answered rt channelId data s := by
  obtain ⟨hsize, hdeliverable, hendured⟩ := h
  obtain ⟨response, hinbound⟩ := inbound_eq_iff.mpr
    ⟨hsize, hdeliverable, fun d hd ↦ ⟨(hendured d hd).1, (hendured d hd).2.1⟩⟩
  refine ⟨_, response, by rw [handle, hinbound]; rfl,
    responses_done (delivered? rt data) channelId (some response), ?_⟩
  intro d term hmem hterm
  have hd := (@mem_deliver_done channelId _ (some response) _).mp hmem
  exact ⟨.other, (hendured d hd).2.2 term hterm, rfl⟩

theorem handle_ofTerm {term : Value} {m : Message} {s : State} (h : Message.ofTerm term = some m)
    (hhandle : handle m s = some ([], s)) : Message.ofTerm term = some .other := by
  fun_cases Message.ofTerm term with
  | case1 message =>
    cases h
    cases hhandle
  | case2 name rest hcast hreserved =>
    rw [Message.ofTerm, if_pos hreserved] at h
    · cases h
    · exact hcast
  | case3 name rest hcast hreserved => rfl
  | case4 term hcast hname => rfl

theorem Answered.answerable {s : State} (h : Answered rt channelId data s) :
    Answerable rt data := by
  obtain ⟨done, response, hhandle, hresponses, hown⟩ := h
  obtain ⟨done', hinbound, heq⟩ := Option.map_eq_some_iff.mp hhandle
  obtain ⟨rfl, -⟩ := Prod.mk.inj heq
  obtain ⟨sent, rfl⟩ := eq_of_inbound hinbound
  rw [responses_done] at hresponses
  obtain ⟨response', rfl⟩ : ∃ response', sent = some response' := by
    cases sent with
    | none => cases hresponses
    | some response' => exact ⟨response', rfl⟩
  obtain ⟨hsize, hdeliverable, hfate⟩ := inbound_eq_iff.mp ⟨response', hinbound⟩
  refine ⟨hsize, hdeliverable, fun d hd ↦ ⟨(hfate d hd).1, (hfate d hd).2, fun term hterm ↦ ?_⟩⟩
  obtain ⟨m, hm, hquiet⟩ := hown d term (mem_deliver_done.mpr hd) hterm
  exact handle_ofTerm hm hquiet

theorem answered_iff {s : State} :
    Answered rt channelId data s ↔ Answerable rt data :=
  ⟨fun h ↦ h.answerable, fun h ↦ answered_of_answerable h channelId s⟩

end Distribution

end NervesP2P
