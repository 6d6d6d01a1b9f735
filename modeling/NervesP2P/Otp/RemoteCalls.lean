import NervesP2P.Node.Responses
import NervesP2P.Otp.DistributionServer

/-!
# A remote call from node to node

A call goes through three processes. The server of the asking node hands the request to the network
and remembers the caller. On the other node the loop of the network layer keeps the channel of the
request under a name, the server there handles the request and names the channel in its response,
and the loop sends the response on that channel. The asking server finds the caller by the
identifier of the request.

Here the three run together. Messages between them may be delayed, reordered and lost; the network
repeats none, and brings the response on a channel back under the identifier of the request that
opened it. Anybody else may send requests to the answering node as well, and its server may fail and
start again.

## Strangers

A request names any process, and so a stranger can have a message delivered to the process of the
node, which then sends a response that it is told, on whatever channel; or to a server itself, which
takes it for an event. From then on anything may be sent and received in a run. `Undisturbed` says
that it has not happened, and the theorems ask for it. What happens without it is in `reply_forged`:
the reply to a caller is what a stranger has put there, and its request was never handled.

A channel is tagged with the place of its call among the calls to the peer. All that the theorems
say about a call and its reply is read off the two tables by which the tag is lost and found again:
the pending responses of the loop, and the pending entries of the asking server.
-/

namespace NervesP2P

namespace RemoteCall

open NervesP2P.Distribution (Runtime Value Delivery Registered Ref)
open Server (effects messages)

/-! ## The nodes

The three processes are the servers of their own modules, each with its history. What the answering
server has taken from its mailbox is kept as well, since it may fail on a message and then has no
turn for it. A channel is a value of the network library; here it says to which request it
belongs. -/

/-- The request that a channel belongs to: the one at a place among the calls to the peer, or the
request of anybody else. -/
inductive Exchange where
  | asked (k : ℕ)
  | foreign (k : ℕ)

def Exchange.asked? : Exchange → Option ℕ
  | .asked k => some k
  | .foreign _ => none

/-- The three processes, each with what it has done. -/
structure Nodes where
  asker : List Distribution.Turn
  askerState : Distribution.State
  loop : List (Swarm.Turn Exchange)
  loopState : Swarm.State Exchange
  answerer : List Distribution.Turn
  answererState : Distribution.State
  /-- What the answering server has taken from its mailbox, also if it has failed on it. -/
  taken : List Distribution.Message

/-- One more turn of the loop. -/
def Nodes.loops (n : Nodes) (input : Swarm.Input Exchange) : Nodes :=
  { n with
    loop := n.loop ++ [(input, (Swarm.handle input n.loopState).1)]
    loopState := (Swarm.handle input n.loopState).2 }

/-- The request of a call to a peer that is sent. -/
def request? (peer : String) : Distribution.Message → Option (String × List UInt8)
  | .call _ peer' payload (some requestId) _ _ =>
    if peer' = peer then some (requestId, payload) else none
  | _ => none

/-- The requests to a peer that were sent, in order. -/
def requests (peer : String) (turns : List Distribution.Turn) : List (String × List UInt8) :=
  (messages turns).filterMap (request? peer)

/-- The identifiers of all requests that were sent. -/
def requestIds (turns : List Distribution.Turn) : List String :=
  (messages turns).filterMap Distribution.Message.requestId?

def arrival? : Swarm.Input Exchange → Option ℕ
  | .inboundRequest inbound _ => inbound.channel.asked?
  | _ => none

/-- The calls whose requests have arrived. -/
def arrivals (turns : List (Swarm.Turn Exchange)) : List ℕ := (messages turns).filterMap arrival?

def handled? : Distribution.Message → Option String
  | .inboundRequest _ channelId _ => some channelId
  | _ => none

/-- The names of the channels whose requests were handled. -/
def handled (taken : List Distribution.Message) : List String := taken.filterMap handled?

/-- The request is delivered to the server itself, or to a process that sends responses or events
because of it. -/
def Disturbs (m : Distribution.Message) : Prop :=
  ∃ rt channelId data delivered, m = .inboundRequest rt channelId data
    ∧ Distribution.delivered? rt data = some delivered
    ∧ (delivered.target = .pid rt.self ∨ rt.aftermath delivered = .interferes)

/-- No request was delivered to where it could send responses or events. -/
def Undisturbed (taken : List Distribution.Message) : Prop := ∀ m ∈ taken, ¬Disturbs m

/-! ## Runs -/

/-- What the asking server may find in its mailbox. Identifiers are new, and under one of them comes
the response that was sent on the channel of its request. -/
structure Asks (peer : String) (n : Nodes) (m : Distribution.Message) : Prop where
  allowed : Distribution.Allowed n.asker n.askerState m
  fresh : ∀ requestId, m.requestId? = some requestId → requestId ∉ requestIds n.asker
    ∧ ∀ data, .outboundResponse requestId data ∉ messages n.asker
  response : Undisturbed (messages n.asker) → ∀ requestId data,
    m = .outboundResponse requestId data →
      ∀ (k : ℕ) payload, (requests peer n.asker)[k]? = some (requestId, payload) →
        ∃ channelId, Swarm.Effect.sendResponse channelId (.asked k) data ∈ effects n.loop

/-- What the loop may be given: requests of anybody, those of the asking server unchanged and each
once, and the responses of its own server. -/
structure Loops (peer : String) (n : Nodes) (input : Swarm.Input Exchange) : Prop where
  request : ∀ inbound now k, input = .inboundRequest inbound now → inbound.channel = .asked k →
    (∃ requestId, (requests peer n.asker)[k]? = some (requestId, inbound.request))
      ∧ k ∉ arrivals n.loop
  command : Undisturbed n.taken → ∀ channelId data, input = .rpcSendResponse channelId data →
    Distribution.Effect.sendResponse channelId data ∈ effects n.answerer

/-- What the answering server may find in its mailbox: each request that the loop has announced,
once. -/
def Answers (n : Nodes) (m : Distribution.Message) : Prop :=
  Undisturbed n.taken → ∀ rt channelId data, m = .inboundRequest rt channelId data →
    (∃ inbound pid, Swarm.Effect.filed channelId inbound (some pid) ∈ effects n.loop
      ∧ inbound.request = data)
    ∧ channelId ∉ handled n.taken

inductive Run (peer : String) : Nodes → Prop
  | start : Run peer
      ⟨[], Distribution.server.init, [], (Swarm.server Exchange).init, [],
        Distribution.server.init, []⟩
  | ask {n : Nodes} {m : Distribution.Message} {done : List Distribution.Effect}
      {s : Distribution.State} (h : Run peer n) (hasks : Asks peer n m)
      (hhandle : Distribution.handle m n.askerState = some (done, s)) :
      Run peer { n with asker := n.asker ++ [(m, done)], askerState := s }
  | loop {n : Nodes} {input : Swarm.Input Exchange} (h : Run peer n) (hloops : Loops peer n input) :
      Run peer (n.loops input)
  | answer {n : Nodes} {m : Distribution.Message} {done : List Distribution.Effect}
      {s : Distribution.State} (h : Run peer n) (hanswers : Answers n m)
      (hhandle : Distribution.handle m n.answererState = some (done, s)) :
      Run peer { n with
        answerer := n.answerer ++ [(m, done)], answererState := s, taken := n.taken ++ [m] }
  /-- The answering server fails on a message and starts again. -/
  | fail {n : Nodes} {m : Distribution.Message} (h : Run peer n) (hanswers : Answers n m)
      (hhandle : Distribution.handle m n.answererState = none) :
      Run peer { n with answererState := Distribution.server.init, taken := n.taken ++ [m] }
  /-- The answering server has been ended and starts again. -/
  | restart {n : Nodes} (h : Run peer n) :
      Run peer { n with answererState := Distribution.server.init }

/-! ## What links the processes

`Linked` goes along the way of a call. What has arrived was sent, each once; what was announced was
filed under its name; what was handled was announced; what was sent on a channel was made by the
turn that handled its request; and what the asking server got was sent. Each process makes its steps
in one lemma, and only the clauses about this process have to be looked at. -/

def filedExchange? : Swarm.Effect Exchange → Option ℕ
  | .filed _ inbound _ => inbound.channel.asked?
  | _ => none

/-- What each process has done goes back to what another did before. This is the invariant of the
runs that are not disturbed. -/
structure Linked (peer : String) (n : Nodes) : Prop where
  asker : Distribution.History n.asker n.askerState
  loop : Swarm.History n.loop n.loopState
  arrived_once : (arrivals n.loop).Nodup
  arrived : ∀ inbound now k, .inboundRequest inbound now ∈ messages n.loop →
    inbound.channel = .asked k →
      ∃ requestId, (requests peer n.asker)[k]? = some (requestId, inbound.request)
  filed_once : ((effects n.loop).filterMap filedExchange?).Sublist (arrivals n.loop)
  filed : ∀ channelId inbound handler, .filed channelId inbound handler ∈ effects n.loop →
    ∃ now, .inboundRequest inbound now ∈ messages n.loop
  commands : ∀ channelId data, .rpcSendResponse channelId data ∈ messages n.loop →
    .sendResponse channelId data ∈ effects n.answerer
  taken : (messages n.answerer).Sublist n.taken
  handled_once : (handled n.taken).Nodup
  handled : ∀ rt channelId data, .inboundRequest rt channelId data ∈ n.taken →
    ∃ inbound pid, Swarm.Effect.filed channelId inbound (some pid) ∈ effects n.loop
      ∧ inbound.request = data
  answered : ∀ m done, (m, done) ∈ n.answerer → ∀ channelId data,
    Distribution.Effect.sendResponse channelId data ∈ done →
      ∃ rt payload, m = .inboundRequest rt channelId payload
        ∧ Distribution.inbound rt channelId payload = some done
  ids_once : (requestIds n.asker).Nodup
  responses : ∀ requestId data, .outboundResponse requestId data ∈ messages n.asker →
    ∀ (k : ℕ) payload, (requests peer n.asker)[k]? = some (requestId, payload) →
      ∃ channelId, Swarm.Effect.sendResponse channelId (.asked k) data ∈ effects n.loop

variable {data : List UInt8} {m : Distribution.Message} {channelId : String}
  {done : List Distribution.Effect} {n : Nodes}

theorem request?_requestId {peer requestId : String} {payload : List UInt8}
    (h : request? peer m = some (requestId, payload)) :
    m.requestId? = some requestId := by
  cases m with
  | call caller peer' payload' sent token timer =>
    cases sent with
    | none => cases h
    | some requestId' =>
      rw [request?] at h
      split at h
      · cases h
        rfl
      · cases h
  | _ => cases h

section Steps

variable {peer : String}

theorem requests_append (peer : String) (turns : List Distribution.Turn)
    (m : Distribution.Message) (done : List Distribution.Effect) :
    requests peer (turns ++ [(m, done)]) = requests peer turns ++ (request? peer m).toList := by
  rw [requests, Server.messages_append, List.filterMap_append]
  cases h : request? peer m <;> simp [requests, h]

theorem getElem?_requests_append {k : ℕ} {x : String × List UInt8}
    {turns : List Distribution.Turn} (h : (requests peer turns)[k]? = some x) :
    (requests peer (turns ++ [(m, done)]))[k]? = some x := by
  obtain ⟨hlt, -⟩ := List.getElem?_eq_some_iff.mp h
  rw [requests_append, List.getElem?_append_left hlt, h]

theorem Linked.ask (h : Linked peer n) {s : Distribution.State} (hasks : Asks peer n m)
    (hasker : Undisturbed (messages n.asker))
    (hhandle : Distribution.handle m n.askerState = some (done, s)) :
    Linked peer { n with asker := n.asker ++ [(m, done)], askerState := s } := by
  refine ⟨h.asker.step hasks.allowed hhandle, h.loop, h.arrived_once, ?_, h.filed_once, h.filed,
    h.commands, h.taken, h.handled_once, h.handled, h.answered, ?_, ?_⟩
  · intro inbound now k hmem hchannel
    obtain ⟨requestId, hget⟩ := h.arrived inbound now k hmem hchannel
    exact ⟨requestId, getElem?_requests_append hget⟩
  · rw [requestIds, Server.messages_append]
    exact Server.nodup_filterMap_concat h.ids_once fun requestId hid ↦
      (hasks.fresh requestId hid).1
  · intro requestId data hmem k payload hget
    rw [Server.messages_append, List.mem_append] at hmem
    rw [requests_append] at hget
    by_cases hnew : (requests peer n.asker)[k]? = some (requestId, payload)
    · rcases hmem with hmem | hmem
      · exact h.responses requestId data hmem k payload hnew
      · exact hasks.response hasker requestId data (List.mem_singleton.mp hmem).symm k payload hnew
    · -- the request is the new one, and nothing was known of its identifier
      have hm : request? peer m = some (requestId, payload) := by
        rw [List.getElem?_append] at hget
        split at hget
        · exact absurd hget hnew
        · exact Option.mem_toList.mp (List.mem_of_getElem? hget)
      rcases hmem with hmem | hmem
      · exact absurd hmem ((hasks.fresh requestId (request?_requestId hm)).2 data)
      · obtain rfl := List.mem_singleton.mp hmem
        cases hm

theorem filedExchange?_handle (input : Swarm.Input Exchange) (s : Swarm.State Exchange) :
    ((Swarm.handle input s).1.filterMap filedExchange?).Sublist ([input].filterMap arrival?) := by
  cases input with
  | evictionTick now =>
    have hnone : (Swarm.handle (.evictionTick now) s).1.filterMap filedExchange? = [] := by
      rw [Swarm.handle, List.filterMap_map, List.filterMap_eq_nil_iff]
      exact fun _ _ ↦ rfl
    rw [hnone]
    exact List.nil_sublist _
  | registerEventHandler pid | other => exact List.nil_sublist _
  | rpcSendResponse channelId data =>
    rw [Swarm.handle]
    split <;> exact List.nil_sublist _
  | inboundRequest inbound now =>
    rw [Swarm.handle]
    split
    · exact List.nil_sublist _
    · rw [List.filterMap_cons, List.filterMap_cons]
      exact List.Sublist.refl _

theorem filed_handle {input : Swarm.Input Exchange} {s : Swarm.State Exchange}
    {inbound : Swarm.Inbound Exchange} {handler : Option Swarm.LocalPid}
    (h : Swarm.Effect.filed channelId inbound handler ∈ (Swarm.handle input s).1) :
    ∃ now, input = .inboundRequest inbound now := by
  cases input with
  | evictionTick now => simp [Swarm.handle] at h
  | registerEventHandler pid | other => cases h
  | rpcSendResponse channelId' data =>
    rw [Swarm.handle] at h
    split at h <;> simp at h
  | inboundRequest inbound' now =>
    rw [Swarm.handle] at h
    split at h
    · simp at h
    · rw [List.mem_singleton, Swarm.Effect.filed.injEq] at h
      rw [h.2.1]
      exact ⟨now, rfl⟩

theorem Linked.loops (h : Linked peer n) {input : Swarm.Input Exchange}
    (hloops : Loops peer n input) (htaken : Undisturbed n.taken) :
    Linked peer (n.loops input) := by
  have hmessages : messages (n.loops input).loop = messages n.loop ++ [input] := by
    simp [Nodes.loops]
  have heffects : effects (n.loops input).loop
      = effects n.loop ++ (Swarm.handle input n.loopState).1 := by
    simp [Nodes.loops]
  refine ⟨h.asker, h.loop.step trivial rfl, ?_, ?_, ?_, ?_, ?_, h.taken, h.handled_once, ?_,
    h.answered, h.ids_once, ?_⟩
  · rw [arrivals, hmessages]
    refine Server.nodup_filterMap_concat h.arrived_once fun k hk ↦ ?_
    cases input with
    | inboundRequest inbound now =>
      have hchannel : inbound.channel = .asked k := by
        cases hchannel : inbound.channel with
        | asked k' =>
          rw [arrival?, hchannel] at hk
          exact congrArg _ (Option.some.inj hk)
        | foreign k' =>
          rw [arrival?, hchannel] at hk
          cases hk
      exact (hloops.request inbound now k rfl hchannel).2
    | _ => cases hk
  · intro inbound now k hmem hchannel
    rw [hmessages, List.mem_append] at hmem
    rcases hmem with hmem | hmem
    · exact h.arrived inbound now k hmem hchannel
    · exact (hloops.request inbound now k (List.mem_singleton.mp hmem).symm hchannel).1
  · rw [heffects, arrivals, hmessages, List.filterMap_append, List.filterMap_append]
    exact h.filed_once.append (filedExchange?_handle input n.loopState)
  · intro channelId inbound handler hmem
    rw [heffects, List.mem_append] at hmem
    rw [hmessages]
    rcases hmem with hmem | hmem
    · obtain ⟨now, hnow⟩ := h.filed channelId inbound handler hmem
      exact ⟨now, List.mem_append_left _ hnow⟩
    · obtain ⟨now, rfl⟩ := filed_handle hmem
      exact ⟨now, List.mem_append_right _ (List.mem_singleton_self _)⟩
  · intro channelId data hmem
    rw [hmessages, List.mem_append] at hmem
    rcases hmem with hmem | hmem
    · exact h.commands channelId data hmem
    · exact hloops.command htaken channelId data (List.mem_singleton.mp hmem).symm
  · intro rt channelId data hmem
    obtain ⟨inbound, pid, hfiled, hrequest⟩ := h.handled rt channelId data hmem
    rw [heffects]
    exact ⟨inbound, pid, List.mem_append_left _ hfiled, hrequest⟩
  · intro requestId data hmem k payload hget
    obtain ⟨channelId, hsend⟩ := h.responses requestId data hmem k payload hget
    rw [heffects]
    exact ⟨channelId, List.mem_append_left _ hsend⟩

theorem inbound_of_sendResponse {s s' : Distribution.State}
    (h : Distribution.handle m s = some (done, s'))
    (hmem : Distribution.Effect.sendResponse channelId data ∈ done) :
    ∃ rt payload, m = .inboundRequest rt channelId payload
      ∧ Distribution.inbound rt channelId payload = some done := by
  cases m with
  | inboundRequest rt channelId' payload =>
    obtain ⟨done', hinbound, heq⟩ := Option.map_eq_some_iff.mp h
    obtain ⟨rfl, -⟩ := Prod.mk.inj heq
    obtain ⟨sent, rfl⟩ := Distribution.eq_of_inbound hinbound
    rw [List.mem_append, List.mem_map, List.mem_map] at hmem
    rcases hmem with ⟨_, _, heq⟩ | ⟨_, _, heq⟩
    · cases heq
    · obtain ⟨rfl, rfl⟩ := Distribution.Effect.sendResponse.inj heq
      exact ⟨rt, payload, rfl, hinbound⟩
  | call caller peer payload sent token timer =>
    cases sent with
    | none =>
      cases h
      simp at hmem
    | some requestId =>
      obtain ⟨timer', -, heq⟩ := Option.map_eq_some_iff.mp h
      obtain ⟨rfl, -⟩ := Prod.mk.inj heq
      simp at hmem
  | outboundResponse requestId data' =>
    rw [Distribution.handle] at h
    split at h <;> (cases h; simp at hmem)
  | callTimeout requestId token =>
    rw [Distribution.handle] at h
    split at h
    · split at h <;> (cases h; simp at hmem)
    · cases h
      simp at hmem
  | cast message => cases h
  | other =>
    cases h
    simp at hmem

theorem Linked.take (h : Linked peer n) (hanswers : Answers n m) (htaken : Undisturbed n.taken) :
    (RemoteCall.handled (n.taken ++ [m])).Nodup ∧ ∀ rt channelId data,
      .inboundRequest rt channelId data ∈ n.taken ++ [m] →
        ∃ inbound pid, Swarm.Effect.filed channelId inbound (some pid) ∈ effects n.loop
          ∧ inbound.request = data := by
  have hnew := hanswers htaken
  constructor
  · rw [RemoteCall.handled]
    refine Server.nodup_filterMap_concat h.handled_once fun channelId hid ↦ ?_
    cases m with
    | inboundRequest rt channelId' data =>
      obtain rfl := Option.some.inj hid
      exact (hnew rt channelId' data rfl).2
    | _ => cases hid
  · intro rt channelId data hmem
    rcases List.mem_append.mp hmem with hmem | hmem
    · exact h.handled rt channelId data hmem
    · exact (hnew rt channelId data (List.mem_singleton.mp hmem).symm).1

theorem Linked.answer (h : Linked peer n) {s : Distribution.State} (hanswers : Answers n m)
    (htaken : Undisturbed n.taken)
    (hhandle : Distribution.handle m n.answererState = some (done, s)) :
    Linked peer { n with
      answerer := n.answerer ++ [(m, done)], answererState := s, taken := n.taken ++ [m] } := by
  have hmessages : messages (n.answerer ++ [(m, done)]) = messages n.answerer ++ [m] := by simp
  have heffects : effects (n.answerer ++ [(m, done)]) = effects n.answerer ++ done := by simp
  obtain ⟨honce, hhandled⟩ := h.take hanswers htaken
  refine ⟨h.asker, h.loop, h.arrived_once, h.arrived, h.filed_once, h.filed, ?_, ?_, honce,
    hhandled, ?_, h.ids_once, h.responses⟩
  · intro channelId data hmem
    rw [heffects]
    exact List.mem_append_left _ (h.commands channelId data hmem)
  · rw [hmessages]
    exact h.taken.append (List.Sublist.refl _)
  · intro m' done' hmem channelId data hsend
    rcases List.mem_append.mp hmem with hmem | hmem
    · exact h.answered m' done' hmem channelId data hsend
    · obtain ⟨rfl, rfl⟩ := Prod.mk.inj (List.mem_singleton.mp hmem)
      exact inbound_of_sendResponse hhandle hsend

theorem Linked.fail (h : Linked peer n) (hanswers : Answers n m) (htaken : Undisturbed n.taken)
    (s : Distribution.State) :
    Linked peer { n with answererState := s, taken := n.taken ++ [m] } := by
  obtain ⟨honce, hhandled⟩ := h.take hanswers htaken
  exact ⟨h.asker, h.loop, h.arrived_once, h.arrived, h.filed_once, h.filed, h.commands,
    h.taken.trans (List.sublist_append_left _ _), honce, hhandled, h.answered, h.ids_once,
    h.responses⟩

theorem Linked.restart (h : Linked peer n) (s : Distribution.State) :
    Linked peer { n with answererState := s } :=
  ⟨h.asker, h.loop, h.arrived_once, h.arrived, h.filed_once, h.filed, h.commands, h.taken,
    h.handled_once, h.handled, h.answered, h.ids_once, h.responses⟩

end Steps

theorem Undisturbed.of_append {taken : List Distribution.Message} (h : Undisturbed (taken ++ [m])) :
    Undisturbed taken :=
  fun m' hmem ↦ h m' (List.mem_append_left _ hmem)

/-- **The run lemma.** -/
theorem Run.linked {peer : String} (h : Run peer n) (hasker : Undisturbed (messages n.asker))
    (htaken : Undisturbed n.taken) : Linked peer n := by
  induction h with
  | start =>
    exact ⟨.init, .init, List.nodup_nil, fun _ _ _ hmem ↦ absurd hmem List.not_mem_nil,
      List.Sublist.refl _, fun _ _ _ hmem ↦ absurd hmem List.not_mem_nil,
      fun _ _ hmem ↦ absurd hmem List.not_mem_nil, List.Sublist.refl _, List.nodup_nil,
      fun _ _ _ hmem ↦ absurd hmem List.not_mem_nil, fun _ _ hmem ↦ absurd hmem List.not_mem_nil,
      List.nodup_nil, fun _ _ hmem ↦ absurd hmem List.not_mem_nil⟩
  | ask _ hasks hhandle ih =>
    rw [Server.messages_append] at hasker
    exact (ih hasker.of_append htaken).ask hasks hasker.of_append hhandle
  | loop _ hloops ih => exact (ih hasker htaken).loops hloops htaken
  | answer _ hanswers hhandle ih =>
    exact (ih hasker htaken.of_append).answer hanswers htaken.of_append hhandle
  | fail _ hanswers _ ih => exact (ih hasker htaken.of_append).fail hanswers htaken.of_append _
  | restart _ ih => exact (ih hasker htaken).restart _

/-! ## From a reply back to its call

The links are followed backwards. A reply with data goes back to a request that was sent and to the
response under its identifier, that to the channel, and the channel to the turn that has handled the
request. As requests arrive once and are announced once, no other turn has handled it. -/

/-- A message that the answering server has taken is the request of a call. -/
def Nodes.Serves (n : Nodes) (i k : ℕ) : Prop :=
  ∃ rt channelId inbound pid, n.taken[i]? = some (.inboundRequest rt channelId inbound.request)
    ∧ Swarm.Effect.filed channelId inbound (some pid) ∈ effects n.loop
    ∧ inbound.channel = .asked k

section Replies

variable {peer : String}

/-- The request of a call is handled at most once. -/
theorem Linked.serves_once (h : Linked peer n) {i j k : ℕ} (hi : n.Serves i k)
    (hj : n.Serves j k) : i = j := by
  obtain ⟨rt, channelId, inbound, pid, hget, hfiled, hchannel⟩ := hi
  obtain ⟨rt', channelId', inbound', pid', hget', hfiled', hchannel'⟩ := hj
  have hsame := Server.eq_of_nodup_filterMap (h.arrived_once.sublist h.filed_once) hfiled hfiled'
    (show filedExchange? _ = some k by rw [filedExchange?, hchannel]; rfl)
    (show filedExchange? _ = some k by rw [filedExchange?, hchannel']; rfl)
  obtain ⟨rfl, -, -⟩ := Swarm.Effect.filed.inj hsame
  exact Server.index_of_nodup_filterMap h.handled_once hget hget' rfl rfl

theorem Linked.served (h : Linked peer n) (hfew : Swarm.inbounds n.loop < 2 ^ 64) {k : ℕ}
    (hsend : Swarm.Effect.sendResponse channelId (.asked k) data ∈ effects n.loop) :
    ∃ i rt done requestId payload, n.Serves i k
      ∧ (requests peer n.asker)[k]? = some (requestId, payload)
      ∧ n.taken[i]? = some (.inboundRequest rt channelId payload)
      ∧ (.inboundRequest rt channelId payload, done) ∈ n.answerer
      ∧ Distribution.Effect.sendResponse channelId data ∈ done
      ∧ Distribution.inbound rt channelId payload = some done := by
  -- the loop has sent it on a command, on the channel that it had filed
  obtain ⟨turn, hturn, hmem⟩ := List.mem_flatMap.mp hsend
  obtain ⟨before, after, hsplit⟩ := List.append_of_mem hturn
  have hloop := h.loop
  rw [hsplit] at hloop
  obtain ⟨s₁, s₂, hbefore, -, hhandle, -⟩ := hloop.split
  have hdone : (Swarm.handle turn.1 s₁).1 = turn.2 := by
    rw [Option.some.inj hhandle]
  rw [← hdone] at hmem
  obtain ⟨hinput, -, created, hpending⟩ := Swarm.sends_of_handle hmem
  have hfewer : Swarm.inbounds before < 2 ^ 64 := by
    refine lt_of_le_of_lt ?_ hfew
    rw [hsplit, Swarm.inbounds, Swarm.inbounds, Server.messages_append, List.countP_append]
    exact Nat.le_add_right _ _
  obtain ⟨⟨inbound, handler, hfiled, hchannel⟩, -⟩ :=
    (Swarm.kept_of_history hbefore hfewer).pending channelId (.asked k) created hpending
  have hfiled : Swarm.Effect.filed channelId inbound handler ∈ effects n.loop := by
    rw [hsplit, Server.effects_append]
    exact List.mem_append_left _ hfiled
  -- the command comes from a turn of the server
  have hcommand : Swarm.Input.rpcSendResponse channelId data ∈ messages n.loop := by
    rw [← hinput]
    exact List.mem_map_of_mem hturn
  obtain ⟨⟨m, done⟩, hturn', hresponse⟩ := List.mem_flatMap.mp (h.commands channelId data hcommand)
  obtain ⟨rt, payload, rfl, hinbound⟩ := h.answered m done hturn' channelId data hresponse
  have htaken : .inboundRequest rt channelId payload ∈ n.taken :=
    h.taken.subset (List.mem_map_of_mem hturn')
  obtain ⟨inbound', pid, hfiled', rfl⟩ := h.handled rt channelId payload htaken
  -- there is one request under this name
  have hnodup : ((effects n.loop).filterMap Swarm.Effect.filed?).Nodup := by
    rw [(Swarm.kept_of_history h.loop hfew).filed]
    exact nodup_names _ _
  have hsame := Server.eq_of_nodup_filterMap hnodup hfiled' hfiled rfl rfl
  obtain ⟨-, rfl, -⟩ := Swarm.Effect.filed.inj hsame
  obtain ⟨now, harrived⟩ := h.filed channelId inbound' handler hfiled
  obtain ⟨requestId, hrequest⟩ := h.arrived inbound' now k harrived hchannel
  obtain ⟨i, hi⟩ := List.getElem?_of_mem htaken
  exact ⟨i, rt, done, requestId, inbound'.request, ⟨rt, channelId, inbound', pid, hi, hfiled',
    hchannel⟩, hrequest, hi, hturn', hresponse, hinbound⟩

/-- A reply with data goes back to a request that was sent, and to the response under its
identifier. -/
theorem Linked.sent_of_reply (h : Linked peer n) {caller : Ref}
    (hreply : Distribution.Effect.reply caller (.ok data) ∈ effects n.asker) :
    ∃ requestId entry, entry.caller = caller ∧ Distribution.Sent requestId entry n.asker
      ∧ .outboundResponse requestId data ∈ messages n.asker := by
  obtain ⟨⟨m, done⟩, hturn, hmem⟩ := List.mem_flatMap.mp hreply
  obtain ⟨before, after, hsplit⟩ := List.append_of_mem hturn
  have hasker := h.asker
  rw [hsplit] at hasker
  obtain ⟨s₁, s₂, hbefore, -, hhandle, -⟩ := hasker.split
  rcases (Distribution.turned_of_handle hhandle).reply hmem with
    ⟨peer', payload, token, timer, rfl⟩ | ⟨requestId, entry, hpending, hcaller, hanswers⟩
  · -- a request that is not sent is replied to with an error
    cases hhandle
    simp at hmem
  · have hsent := ((Distribution.waiting_of_history hbefore).pending requestId entry hpending).1
    cases hanswers
    refine ⟨requestId, entry, hcaller, ?_, List.mem_map_of_mem hturn⟩
    rw [hsplit]
    exact hsent.append _

theorem Linked.served_of_reply (h : Linked peer n) (hfew : Swarm.inbounds n.loop < 2 ^ 64)
    {caller : Ref} {payload : List UInt8} {requestId : String} {token : Ref} {timer : Option Ref}
    (hcall : .call caller peer payload (some requestId) token timer ∈ messages n.asker)
    (hreply : Distribution.Effect.reply caller (.ok data) ∈ effects n.asker) :
    ∃ i k rt channelId done, (requests peer n.asker)[k]? = some (requestId, payload)
      ∧ n.Serves i k ∧ n.taken[i]? = some (.inboundRequest rt channelId payload)
      ∧ (.inboundRequest rt channelId payload, done) ∈ n.answerer
      ∧ Distribution.Effect.sendResponse channelId data ∈ done
      ∧ Distribution.inbound rt channelId payload = some done := by
  obtain ⟨requestId', entry, hcaller, ⟨peer', payload', hsent⟩, hresponse⟩ :=
    h.sent_of_reply hreply
  -- the caller has called once
  have hsame := Server.eq_of_nodup_filterMap
    (Distribution.waiting_of_history h.asker).nodup_called hsent hcall rfl (by rw [hcaller]; rfl)
  obtain ⟨-, rfl, rfl, hid, -, -⟩ := Distribution.Message.call.inj hsame
  obtain rfl := Option.some.inj hid
  have hrequest : (requestId', payload') ∈ requests peer' n.asker :=
    List.mem_filterMap.mpr ⟨_, hsent, if_pos rfl⟩
  obtain ⟨k, hk⟩ := List.getElem?_of_mem hrequest
  obtain ⟨channelId, hsend⟩ := h.responses requestId' data hresponse k payload' hk
  obtain ⟨i, rt, done, requestId'', payload'', hserves, hk', hi, hturn, hdone, hinbound⟩ :=
    h.served hfew hsend
  rw [hk, Option.some_inj, Prod.mk.injEq] at hk'
  obtain ⟨rfl, rfl⟩ := hk'
  exact ⟨i, k, rt, channelId, done, hk, hserves, hi, hturn, hdone, hinbound⟩

end Replies

/-- What one runtime has written, another one reads as the same term or refuses. -/
def Reads (reader writer : Runtime) : Prop :=
  ∀ term read, reader.binaryToTerm (writer.termToBinary term) = some read → read = term

/-- What becomes of a call to the process of a name, on its own node. -/
def outcome (rt : Runtime) (name : String) (message : Value) : Option (Except Value Value) :=
  match rt.whereis name with
  | none => some (.error (.atom "noproc"))
  | some target => Distribution.safeCall rt message target

/-- What becomes of the request for it. -/
def answerTo (rt : Runtime) (payload : List UInt8) (name : String) (message : Value) :
    Option (Except Value Value) :=
  match rt.binaryToTerm payload with
  | some _ => outcome rt name message
  | none => some (.error (.atom "invalid_message"))

/-- A result as the term of a response. -/
def resultTerm : Except Value Value → Value
  | .ok reply => .tuple [.atom "reply", reply]
  | .error reason => .tuple [.atom "error", reason]

theorem call_eq_of_decode {rt : Runtime} {result : Except Value Value}
    (h : Distribution.decode rt data = .ok (resultTerm result)) :
    Distribution.call rt (.ok data) = some result := by
  rw [Distribution.call, h]
  cases result <;> rfl

theorem handleRemoteRequest_call (rt : Runtime) (name : String) (message : Value) :
    (Distribution.handleRemoteRequest rt (Distribution.request .call name message)).2
      = (outcome rt name message).map fun result ↦ Distribution.encode rt (resultTerm result) := by
  simp only [Distribution.request, Delivery.atom, Distribution.handleRemoteRequest,
    Distribution.whereis, outcome]
  cases rt.whereis name with
  | none => rfl
  | some target =>
    simp only
    congr 1
    funext result
    cases result <;> rfl

theorem response_of_respond {rt : Runtime} {delivered : Option Distribution.Delivered}
    {response : List UInt8} (h : Distribution.respond rt channelId delivered response = some done)
    (hdata : Distribution.Effect.sendResponse channelId data ∈ done) : data = response := by
  rw [Distribution.respond] at h
  split at h
  · cases h
  · cases h
    simp at hdata
  · cases h
    simpa using hdata

/-- The response to a call says what became of it. -/
theorem response_of_inbound {rt : Runtime} {name : String} {message : Value}
    {payload : List UInt8} (hinbound : Distribution.inbound rt channelId payload = some done)
    (hread : ∀ read, rt.binaryToTerm payload = some read →
      read = Distribution.request .call name message)
    (hdata : Distribution.Effect.sendResponse channelId data ∈ done) :
    ∃ result, answerTo rt payload name message = some result
      ∧ data = Distribution.encode rt (resultTerm result)
      ∧ (rt.binaryToTerm payload ≠ none → ∀ target, rt.whereis name = some target →
        Distribution.Effect.deliver ⟨.call, target, message⟩ ∈ done) := by
  have hdelivered : ∀ d, Distribution.delivered? rt payload = some d →
      Distribution.Effect.deliver d ∈ done := by
    intro d hd
    obtain ⟨sent, rfl⟩ := Distribution.eq_of_inbound hinbound
    exact Distribution.mem_deliver_done.mpr hd
  rw [Distribution.inbound] at hinbound
  cases hdecode : Distribution.decode rt payload with
  | ok request =>
    rw [hdecode] at hinbound
    have hterm := (Distribution.decode_eq_ok_iff.mp hdecode).2
    obtain rfl := hread request hterm
    obtain ⟨response, hresponse, hrespond⟩ := Option.bind_eq_some_iff.mp hinbound
    obtain rfl := response_of_respond hrespond hdata
    rw [handleRemoteRequest_call, Option.map_eq_some_iff] at hresponse
    obtain ⟨result, hresult, rfl⟩ := hresponse
    refine ⟨result, by rw [answerTo, hterm]; exact hresult, rfl, fun _ target htarget ↦ ?_⟩
    cases target with
    | pid pid =>
      refine hdelivered _ ?_
      rw [Distribution.delivered?, hdecode]
      exact Distribution.handleRemoteRequest_request htarget .call message
    | port port =>
      rw [outcome, htarget] at hresult
      cases hresult
  | error error =>
    rw [hdecode] at hinbound
    cases error with
    | payloadTooLarge => cases hinbound
    | invalidMessage =>
      have hterm := Distribution.binaryToTerm_of_invalidMessage hdecode
      cases hinbound
      refine ⟨.error (.atom "invalid_message"), by rw [answerTo, hterm], ?_, fun h ↦ absurd hterm h⟩
      simpa [resultTerm] using hdata

/-- The message that makes the process of the node send a response. -/
def forgedResponse : Value :=
  .tuple [.atom "rpc_send_response", .binary (utf8 "ch-1"), .binary [9]]

def sampleRuntime : Runtime where
  self := 6
  termToBinary
    | .tuple [.atom "call", .atom "server", .other 1] => [1]
    | .tuple [.atom "reply", .other 2] => [2]
    | _ => [0]
  binaryToTerm
    | [1] => some (Distribution.request .call "server" (.other 1))
    | [2] => some (.tuple [.atom "reply", .other 2])
    | [3] => some (Distribution.request .call "Elixir.ElixirRpc.Node" forgedResponse)
    | _ => none
  whereis name := if name = "server" then some (.pid 5) else some (.pid 8)
  whereisName _ _ := .undefined
  genServerCall _ _ := .reply (.other 2)
  aftermath delivered := if delivered.target = .pid 8 then .interferes else .harmless
  inspect _ := []

theorem reads_sampleRuntime : Reads sampleRuntime sampleRuntime := by
  intro term read h
  simp only [sampleRuntime] at h
  split at h
  · next heq =>
    split at heq <;> cases heq
    cases h
    rfl
  · next heq =>
    split at heq <;> cases heq
    cases h
    rfl
  · next heq => split at heq <;> cases heq
  · cases h

theorem not_disturbs_sample :
    ¬Disturbs (.inboundRequest sampleRuntime channelId [1]) := by
  rintro ⟨rt, channelId', data, delivered, ⟨⟩, hdelivered, hdisturbs⟩
  cases hdelivered
  rcases hdisturbs with htarget | haftermath
  · cases htarget
  · cases haftermath

def asked : Nodes :=
  ⟨[(.call 10 "peer" [1] (some "1") 20 (some 30), [.sendRequest "peer" [1], .sendAfter 30 "1" 20])],
    ⟨(∅ : Std.ExtTreeMap String Distribution.Entry).insert "1" ⟨10, 30, 20⟩⟩, [],
    (Swarm.server Exchange).init, [], Distribution.server.init, []⟩

/-- Its request has arrived, and one of a stranger after it. -/
def arrived (request : List UInt8) : Nodes :=
  ((asked.loops (.registerEventHandler 7)).loops
    (.inboundRequest ⟨"asker", "1", [1], .asked 0⟩ 0)).loops
    (.inboundRequest ⟨"stranger", "5", request, .foreign 0⟩ 0)

theorem run_arrived (request : List UInt8) : Run "peer" (arrived request) := by
  have hasked : Run "peer" asked := @Run.ask "peer" _ _ _ _ .start
    ⟨⟨by simp [Distribution.called], by simp [Distribution.tokens],
      fun _ _ ↦ Std.ExtTreeMap.getElem?_empty⟩, by simp [requestIds], by simp⟩ rfl
  have hregistered := @Run.loop _ _ (.registerEventHandler 7) hasked ⟨by simp, by simp⟩
  have harrived := @Run.loop _ _ (.inboundRequest ⟨"asker", "1", [1], .asked 0⟩ 0) hregistered (by
    refine ⟨?_, by simp⟩
    rintro inbound now k ⟨⟩ ⟨⟩
    exact ⟨⟨"1", rfl⟩, List.not_mem_nil⟩)
  exact @Run.loop _ _ (.inboundRequest ⟨"stranger", "5", request, .foreign 0⟩ 0) harrived
    ⟨by rintro inbound now k ⟨⟩ ⟨⟩, by simp⟩

theorem answers_filed {inbound : Swarm.Inbound Exchange}
    (hfiled : Swarm.Effect.filed channelId inbound (some 7) ∈ effects n.loop)
    (hdata : inbound.request = data) (hnew : channelId ∉ handled n.taken) :
    Answers n (.inboundRequest sampleRuntime channelId data) := by
  rintro - rt channelId data ⟨⟩
  exact ⟨⟨inbound, 7, hfiled, hdata⟩, hnew⟩

theorem asks_response (hrequests : requests "peer" n.asker = [("1", [1])])
    (hsent : Swarm.Effect.sendResponse "ch-1" (.asked 0) data ∈ effects n.loop) :
    Asks "peer" n (.outboundResponse "1" data) := by
  refine ⟨Distribution.allowed_of_no_call rfl rfl rfl, by rintro _ ⟨⟩, ?_⟩
  rintro - requestId data ⟨⟩ k payload hk
  rw [hrequests] at hk
  cases k with
  | zero => exact ⟨"ch-1", hsent⟩
  | succ k => cases hk

/-- The stranger calls the same process, and is answered first. -/
theorem run_sample : ∃ n, Run "peer" n ∧ Swarm.inbounds n.loop < 2 ^ 64
    ∧ messages n.asker = [.call 10 "peer" [1] (some "1") 20 (some 30), .outboundResponse "1" [2]]
    ∧ n.taken = [.inboundRequest sampleRuntime "ch-2" [1], .inboundRequest sampleRuntime "ch-1" [1]]
    ∧ Distribution.Effect.reply 10 (.ok [2]) ∈ effects n.asker := by
  have hstranger := @Run.answer _ _ (.inboundRequest sampleRuntime "ch-2" [1]) _ _
    (run_arrived [1]) (answers_filed (List.mem_of_getElem? (i := 1) rfl) rfl List.not_mem_nil) rfl
  have hanswered := @Run.answer _ _ (.inboundRequest sampleRuntime "ch-1" [1]) _ _ hstranger
    (answers_filed (List.mem_of_getElem? (i := 0) rfl) rfl (by decide)) rfl
  have hresponded := @Run.loop _ _ (.rpcSendResponse "ch-1" [2]) hanswered (by
    refine ⟨by simp, ?_⟩
    rintro - channelId data ⟨⟩
    exact List.mem_of_getElem? (i := 3) rfl)
  have hreplied := @Run.ask _ _ (.outboundResponse "1" [2]) _ _ hresponded
    (asks_response rfl (List.mem_of_getElem? (i := 2) rfl)) rfl
  exact ⟨_, hreplied, by decide, rfl, rfl, by simp⟩

theorem undisturbed_taken (h : n.taken = [.inboundRequest sampleRuntime "ch-2" [1],
      .inboundRequest sampleRuntime "ch-1" [1]]) : Undisturbed n.taken := by
  intro m hmem
  rw [h] at hmem
  rcases List.mem_pair.mp hmem with rfl | rfl <;> exact not_disturbs_sample

theorem undisturbed_asker (h : messages n.asker
      = [.call 10 "peer" [1] (some "1") 20 (some 30), .outboundResponse "1" [2]]) :
    Undisturbed (messages n.asker) := by
  intro m hmem
  rw [h] at hmem
  rcases List.mem_pair.mp hmem with rfl | rfl <;> rintro ⟨_, _, _, _, ⟨⟩, _⟩

/-- **What strangers can do.** The stranger has the process of the node send a response on the
channel of the call, before the request of the call is handled. The caller gets what the stranger
has put there. -/
theorem reply_forged : ∃ n, Run "peer" n ∧ Swarm.inbounds n.loop < 2 ^ 64
    ∧ .call 10 "peer" [1] (some "1") 20 (some 30) ∈ messages n.asker
    ∧ Distribution.Effect.reply 10 (.ok [9]) ∈ effects n.asker
    ∧ ∀ i, ¬n.Serves i 0 := by
  have hdisturbs : Disturbs (.inboundRequest sampleRuntime "ch-2" [3]) :=
    ⟨_, _, _, ⟨.call, .pid 8, forgedResponse⟩, rfl, rfl, Or.inr rfl⟩
  have hstranger := @Run.answer _ _ (.inboundRequest sampleRuntime "ch-2" [3]) _ _
    (run_arrived [3]) (answers_filed (List.mem_of_getElem? (i := 1) rfl) rfl List.not_mem_nil) rfl
  have hforged := @Run.loop _ _ (.rpcSendResponse "ch-1" [9]) hstranger
    ⟨by simp, fun htaken ↦ absurd hdisturbs (htaken _ (List.mem_singleton_self _))⟩
  have hreplied := @Run.ask _ _ (.outboundResponse "1" [9]) _ _ hforged
    (asks_response rfl (List.mem_of_getElem? (i := 2) rfl)) rfl
  refine ⟨_, hreplied, by decide, List.mem_of_getElem? (i := 0) rfl, by simp, ?_⟩
  rintro i ⟨rt, channelId, inbound, pid, htaken, hfiled, hchannel⟩
  -- only the request of the stranger was taken
  cases i with
  | zero =>
    obtain ⟨-, rfl, -⟩ := Distribution.Message.inboundRequest.inj (Option.some.inj htaken)
    have hmem : Swarm.Effect.filed "ch-2" inbound (some pid)
        ∈ [.filed "ch-1" ⟨"asker", "1", [1], .asked 0⟩ (some 7),
          .filed "ch-2" ⟨"stranger", "5", [3], .foreign 0⟩ (some 7),
          .sendResponse "ch-1" (.asked 0) [9]] := hfiled
    obtain ⟨rfl, -⟩ : inbound = ⟨"stranger", "5", [3], .foreign 0⟩ ∧ pid = 7 := by
      simpa using hmem
    cases hchannel
  | succ i => cases htaken

end RemoteCall

end NervesP2P
