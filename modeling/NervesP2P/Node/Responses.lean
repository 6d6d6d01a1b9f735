import NervesP2P.Lib.Maps
import NervesP2P.Lib.Numbered
import NervesP2P.Lib.Server

/-!
# Pending responses

The loop of a node receives requests of other peers, each with a channel on which its response has
to be sent. It keeps the channel under a name of its own and announces the request with that name;
the answer comes back as a command that carries the name. A channel that nobody answers is dropped
after a minute, and no more than a fixed number of channels is kept.

Names are numbered by a 64-bit counter. As long as it has not gone around, the names that were given
out are the first ones in order, so a name stands for one request in the whole run. What is kept
under a name is the channel of that request, as long as it has been neither answered nor dropped.
-/

open Std (ExtTreeMap)

namespace NervesP2P

namespace Swarm

/-! ## The loop

Of the loop only what touches the table of pending responses is modelled; all other commands and
events leave its variables alone. A request is filed under the next name unless the table is full, a
tick drops the channels that have been kept for too long, and a command for a name takes its channel
out and sends the response on it. -/

/-- A process of the runtime that the events go to. -/
abbrev LocalPid := ℕ

/-- A point in time, in nanoseconds. -/
abbrev Instant := ℕ

/-- A request of a peer. A channel is a value of the network library. -/
structure Inbound (C : Type) where
  peer : String
  requestId : String
  request : List UInt8
  channel : C

/-- What the loop waits for. Other commands and events touch none of its variables. -/
inductive Input (C : Type) where
  | evictionTick (now : Instant)
  | registerEventHandler (pid : LocalPid)
  | rpcSendResponse (channelId : String) (data : List UInt8)
  | inboundRequest (inbound : Inbound C) (now : Instant)
  | other

inductive Effect (C : Type) where
  | evicting (channelId : String)
  | sendResponse (channelId : String) (channel : C) (data : List UInt8)
  | unknownChannel (channelId : String)
  | capReached (peer : String)
  /-- The channel of a request is kept under a name, and the request is announced to the handler
  with that name if there is one. -/
  | filed (channelId : String) (inbound : Inbound C) (handler : Option LocalPid)

structure State (C : Type) where
  eventHandler : Option LocalPid
  pendingResponses : ExtTreeMap String (C × Instant)
  channelCounter : UInt64

def maxPendingResponses : ℕ := 1024

/-- How long a channel is kept: a minute. -/
def responseTtl : ℕ := 60 * 10 ^ 9

/-- The name under which a channel is kept. -/
def channelId (counter : UInt64) : String := numbered "ch-" counter.toNat

variable {C : Type}

/-- A difference of times is never negative. -/
def keep (now : Instant) (_ : String) (entry : C × Instant) : Bool :=
  decide (now - entry.2 < responseTtl)

def handle : Input C → State C → List (Effect C) × State C
  | .evictionTick now, s =>
    ((s.pendingResponses.filter fun id entry ↦ !keep now id entry).keys.map .evicting,
      { s with pendingResponses := s.pendingResponses.filter (keep now) })
  | .registerEventHandler pid, s => ([], { s with eventHandler := some pid })
  | .rpcSendResponse id data, s =>
    match s.pendingResponses[id]? with
    | some (channel, _) =>
      ([.sendResponse id channel data],
        { s with pendingResponses := s.pendingResponses.erase id })
    | none => ([.unknownChannel id], s)
  | .inboundRequest inbound now, s =>
    if maxPendingResponses ≤ s.pendingResponses.size then ([.capReached inbound.peer], s)
    else
      let counter := s.channelCounter + 1
      ([.filed (channelId counter) inbound s.eventHandler],
        { s with
          channelCounter := counter
          pendingResponses :=
            s.pendingResponses.insert (channelId counter) (inbound.channel, now) })
  | .other, s => ([], s)

def server (C : Type) : Server (State C) (Input C) (Effect C) where
  init := ⟨none, ∅, 0⟩
  handle input s := some (handle input s)

abbrev Turn (C : Type) := Server.Turn (Input C) (Effect C)

abbrev History (turns : List (Turn C)) (s : State C) : Prop :=
  (server C).History (fun _ _ _ ↦ True) turns s

open Server (effects messages)

/-! ## Names

The counter gives names in order, and the history shows which were given out. `Kept` compares the
table with the history: what is kept under a name is what was filed under it, as long as nothing has
been done with it since. -/

def Input.isInbound : Input C → Bool
  | .inboundRequest _ _ => true
  | _ => false

def inbounds (turns : List (Turn C)) : ℕ :=
  (messages turns).countP Input.isInbound

/-- The name that was given out. -/
def Effect.filed? : Effect C → Option String
  | .filed id _ _ => some id
  | _ => none

/-- The name with which a request was announced. -/
def Effect.announced? : Effect C → Option String
  | .filed id _ (some _) => some id
  | _ => none

/-- Nothing has been done yet with the channel under a name. -/
structure Untouched (id : String) (done : List (Effect C)) : Prop where
  evicting : Effect.evicting id ∉ done
  sendResponse : ∀ channel data, Effect.sendResponse id channel data ∉ done

/-- What was filed under a name is what is kept under it, until something is done with it. -/
structure Kept (turns : List (Turn C)) (s : State C) : Prop where
  bounded : s.pendingResponses.size ≤ maxPendingResponses
  counter : s.channelCounter.toNat ≤ inbounds turns
  filed : (effects turns).filterMap Effect.filed? = names "ch-" s.channelCounter.toNat
  pending : ∀ id channel created, s.pendingResponses[id]? = some (channel, created) →
    (∃ inbound handler, Effect.filed id inbound handler ∈ effects turns
      ∧ inbound.channel = channel) ∧ Untouched id (effects turns)
  used : ∀ id, id ∉ (effects turns).filterMap Effect.filed? → Untouched id (effects turns)

theorem Untouched.append {id : String} {done more : List (Effect C)} (h : Untouched id done)
    (hmore : Untouched id more) : Untouched id (done ++ more) where
  evicting hmem := (List.mem_append.mp hmem).elim h.evicting hmore.evicting
  sendResponse channel data hmem :=
    (List.mem_append.mp hmem).elim (h.sendResponse channel data) (hmore.sendResponse channel data)

theorem Untouched.left {id : String} {done more : List (Effect C)}
    (h : Untouched id (done ++ more)) : Untouched id done where
  evicting hmem := h.evicting (List.mem_append_left _ hmem)
  sendResponse channel data hmem := h.sendResponse channel data (List.mem_append_left _ hmem)

theorem Untouched.right {id : String} {done more : List (Effect C)}
    (h : Untouched id (done ++ more)) : Untouched id more where
  evicting hmem := h.evicting (List.mem_append_right _ hmem)
  sendResponse channel data hmem := h.sendResponse channel data (List.mem_append_right _ hmem)

theorem kept_init : Kept [] (server C).init where
  bounded := Nat.zero_le _
  counter := le_rfl
  filed := rfl
  pending id channel created h := absurd h (getElem?_empty_ne_some id (channel, created))
  used _ _ := ⟨List.not_mem_nil, fun _ _ ↦ List.not_mem_nil⟩

/-- The name of the channel that an effect ends. -/
def Effect.ended? : Effect C → Option String
  | .evicting id => some id
  | .sendResponse id _ _ => some id
  | _ => none

theorem untouched_of_notMem {id : String} {done : List (Effect C)}
    (h : id ∉ done.filterMap Effect.ended?) : Untouched id done where
  evicting hmem := h (List.mem_filterMap.mpr ⟨_, hmem, rfl⟩)
  sendResponse _ _ hmem := h (List.mem_filterMap.mpr ⟨_, hmem, rfl⟩)

/-! ## Turns

A turn drops channels, files one, or answers one. As long as the counter has not wrapped, the next
name was not given out before, so a new channel never takes the place of another. -/

section Turns

variable {turns : List (Turn C)} {s s' : State C} {input : Input C}
  {done : List (Effect C)}

theorem inbounds_append (turns : List (Turn C)) (input : Input C)
    (done : List (Effect C)) :
    inbounds (turns ++ [(input, done)]) = inbounds turns + if input.isInbound then 1 else 0 := by
  rw [inbounds, inbounds, Server.messages_append, List.countP_append]
  congr 1
  cases hinbound : input.isInbound <;> simp [hinbound]

theorem Kept.drop (h : Kept turns s) (hcounter : s'.channelCounter = s.channelCounter)
    (hsize : s'.pendingResponses.size ≤ s.pendingResponses.size)
    (hfiled : done.filterMap Effect.filed? = [])
    (hpending : ∀ id entry, s'.pendingResponses[id]? = some entry →
      s.pendingResponses[id]? = some entry ∧ Untouched id done)
    (htouched : ∀ id, s.pendingResponses[id]? = none → Untouched id done) :
    Kept (turns ++ [(input, done)]) s' := by
  have hdone : effects (turns ++ [(input, done)]) = effects turns ++ done := by simp
  constructor
  · exact hsize.trans h.bounded
  · have hle := h.counter
    rw [inbounds_append, hcounter]
    omega
  · rw [hdone, List.filterMap_append, hfiled, List.append_nil, hcounter]
    exact h.filed
  · intro id channel created hget
    obtain ⟨hbefore, huntouched⟩ := hpending id (channel, created) hget
    obtain ⟨⟨inbound, handler, hmem, hchannel⟩, huntouched'⟩ := h.pending id channel created hbefore
    rw [hdone]
    exact ⟨⟨inbound, handler, List.mem_append_left _ hmem, hchannel⟩,
      huntouched'.append huntouched⟩
  · intro id hid
    rw [hdone, List.filterMap_append, hfiled, List.append_nil] at hid
    rw [hdone]
    refine (h.used id hid).append (htouched id ?_)
    -- what is kept was filed
    cases hget : s.pendingResponses[id]? with
    | none => rfl
    | some entry =>
      obtain ⟨⟨inbound, handler, hmem, -⟩, -⟩ := h.pending id entry.1 entry.2 hget
      have hnamed : id ∈ (effects turns).filterMap Effect.filed? :=
        List.mem_filterMap.mpr ⟨.filed id inbound handler, hmem, rfl⟩
      exact absurd hnamed hid

theorem Kept.same (h : Kept turns s) (hcounter : s'.channelCounter = s.channelCounter)
    (hpending : s'.pendingResponses = s.pendingResponses)
    (hfiled : done.filterMap Effect.filed? = []) (hdone : ∀ id, Untouched id done) :
    Kept (turns ++ [(input, done)]) s' := by
  refine h.drop hcounter ?_ hfiled ?_ fun id _ ↦ hdone id
  · rw [hpending]
  · intro id entry hget
    rw [hpending] at hget
    exact ⟨hget, hdone id⟩

theorem Kept.evict (h : Kept turns s) (now : Instant) :
    Kept (turns ++ [(.evictionTick now, (handle (.evictionTick now) s).1)])
      (handle (.evictionTick now) s).2 := by
  have hstale : ∀ id, Effect.evicting id ∈ (handle (.evictionTick now) s).1 →
      ∃ entry, s.pendingResponses[id]? = some entry ∧ keep now id entry = false := by
    intro id hmem
    rw [handle, List.mem_map] at hmem
    obtain ⟨id', hid', heq⟩ := hmem
    cases heq
    rw [ExtTreeMap.mem_keys, ExtTreeMap.mem_iff_isSome_getElem?, ExtTreeMap.getElem?_filter',
      Option.isSome_iff_exists] at hid'
    obtain ⟨entry, hentry⟩ := hid'
    rw [Option.filter_eq_some_iff, Bool.not_eq_true'] at hentry
    exact ⟨entry, hentry⟩
  have hsend : ∀ id channel data,
      Effect.sendResponse id channel data ∉ (handle (.evictionTick now) s).1 := by
    intro id channel data hmem
    rw [handle, List.mem_map] at hmem
    obtain ⟨_, _, heq⟩ := hmem
    cases heq
  refine h.drop rfl ExtTreeMap.size_filter_le_size ?_ ?_ ?_
  · rw [handle, List.filterMap_map, List.filterMap_eq_nil_iff]
    exact fun _ _ ↦ rfl
  · intro id entry hget
    change (s.pendingResponses.filter (keep now))[id]? = some entry at hget
    rw [ExtTreeMap.getElem?_filter', Option.filter_eq_some_iff] at hget
    refine ⟨hget.1, fun hmem ↦ ?_, hsend id⟩
    obtain ⟨entry', hget', hkeep⟩ := hstale id hmem
    rw [hget.1, Option.some_inj] at hget'
    rw [← hget', hget.2] at hkeep
    cases hkeep
  · intro id hnone
    refine ⟨fun hmem ↦ ?_, hsend id⟩
    obtain ⟨entry, hget, -⟩ := hstale id hmem
    rw [hnone] at hget
    cases hget

theorem Kept.respond (h : Kept turns s) (id : String) (data : List UInt8) :
    Kept (turns ++ [(.rpcSendResponse id data, (handle (.rpcSendResponse id data) s).1)])
      (handle (.rpcSendResponse id data) s).2 := by
  cases hget : s.pendingResponses[id]? with
  | none =>
    simp only [handle, hget]
    exact h.same rfl rfl rfl fun _ ↦ untouched_of_notMem List.not_mem_nil
  | some entry =>
    have hother : ∀ id', id ≠ id' → Untouched id' [Effect.sendResponse id entry.1 data] := by
      intro id' hne
      refine untouched_of_notMem fun hmem ↦ hne ?_
      exact (List.mem_singleton.mp hmem).symm
    simp only [handle, hget]
    refine h.drop rfl ExtTreeMap.size_erase_le rfl ?_ ?_
    · intro id' entry' hget'
      rw [getElem?_erase_eq] at hget'
      split at hget'
      · cases hget'
      · next hne => exact ⟨hget', hother id' hne⟩
    · intro id' hnone
      refine hother id' ?_
      rintro rfl
      rw [hnone] at hget
      cases hget

theorem toNat_succ {counter : UInt64} (h : counter.toNat + 1 < 2 ^ 64) :
    (counter + 1).toNat = counter.toNat + 1 := by
  rw [UInt64.toNat_add]
  exact Nat.mod_eq_of_lt h

theorem Kept.channelId_notMem (h : Kept turns s) (hfew : inbounds turns + 1 < 2 ^ 64) :
    channelId (s.channelCounter + 1) ∉ (effects turns).filterMap Effect.filed? := by
  have hcount : (s.channelCounter + 1).toNat = s.channelCounter.toNat + 1 :=
    toNat_succ (by have hle := h.counter; omega)
  rw [h.filed, channelId, hcount]
  exact numbered_notMem_names "ch-" _

theorem Kept.file (h : Kept turns s) (inbound : Inbound C) (now : Instant)
    (hfew : inbounds turns + 1 < 2 ^ 64) :
    Kept (turns ++ [(.inboundRequest inbound now, (handle (.inboundRequest inbound now) s).1)])
      (handle (.inboundRequest inbound now) s).2 := by
  by_cases hfull : maxPendingResponses ≤ s.pendingResponses.size
  · simp only [handle, if_pos hfull]
    exact h.same rfl rfl rfl fun _ ↦ untouched_of_notMem List.not_mem_nil
  · simp only [handle, if_neg hfull]
    have hcount : (s.channelCounter + 1).toNat = s.channelCounter.toNat + 1 :=
      toNat_succ (by have hle := h.counter; omega)
    have hname := h.channelId_notMem hfew
    generalize hdone : [Effect.filed (channelId (s.channelCounter + 1)) inbound s.eventHandler]
      = done
    have huntouched : ∀ id, Untouched id done := by
      subst hdone
      exact fun _ ↦ untouched_of_notMem List.not_mem_nil
    have hfiled : done.filterMap Effect.filed? = [channelId (s.channelCounter + 1)] := by
      subst hdone
      rfl
    have happend : effects (turns ++ [(.inboundRequest inbound now, done)])
        = effects turns ++ done := by simp
    constructor
    · have hle := ExtTreeMap.size_insert_le (t := s.pendingResponses)
        (k := channelId (s.channelCounter + 1)) (v := (inbound.channel, now))
      exact hle.trans (not_le.mp hfull)
    · have hle := h.counter
      rw [inbounds_append]
      simp only [Input.isInbound, if_true]
      omega
    · rw [happend, List.filterMap_append, h.filed, hfiled, hcount, names_succ, channelId, hcount]
    · intro id channel created hget
      rw [happend]
      rw [getElem?_insert_eq] at hget
      split at hget
      · next heq =>
        cases hget
        subst heq hdone
        exact ⟨⟨inbound, s.eventHandler, by simp, rfl⟩, (h.used _ hname).append (huntouched _)⟩
      · obtain ⟨⟨inbound', handler, hmem, hchannel⟩, hbefore⟩ := h.pending id channel created hget
        exact ⟨⟨inbound', handler, List.mem_append_left _ hmem, hchannel⟩,
          hbefore.append (huntouched id)⟩
    · intro id hid
      rw [happend, List.filterMap_append] at hid
      rw [happend]
      exact (h.used id fun hmem ↦ hid (List.mem_append_left _ hmem)).append (huntouched id)

end Turns

/-! ## Runs

The invariant holds in every run with fewer requests than the counter can count. From it come both
directions for a response: it is sent on the channel of the only request that was filed under its
name; and if a name was filed and nothing has been done with it since, a command for it does
send. -/

/-- In every run with fewer requests than the counter can count, channels are kept as they were
filed. -/
theorem kept_of_history {turns : List (Turn C)} {s : State C}
    (h : History turns s) (hfew : inbounds turns < 2 ^ 64) : Kept turns s := by
  induction h with
  | init => exact kept_init
  | @step turns s s' input done hist _ hhandle ih =>
    obtain ⟨rfl, rfl⟩ : (handle input s).1 = done ∧ (handle input s).2 = s' := by
      have heq : handle input s = (done, s') := Option.some.inj hhandle
      rw [heq]
      exact ⟨rfl, rfl⟩
    rw [inbounds_append] at hfew
    have hkept := ih (by omega)
    cases input with
    | evictionTick now => exact hkept.evict now
    | registerEventHandler pid =>
      exact hkept.same rfl rfl rfl fun _ ↦ untouched_of_notMem List.not_mem_nil
    | rpcSendResponse id data => exact hkept.respond id data
    | inboundRequest inbound now => exact hkept.file inbound now hfew
    | other => exact hkept.same rfl rfl rfl fun _ ↦ untouched_of_notMem List.not_mem_nil

theorem pending_handle {turns : List (Turn C)} {s : State C} (h : Kept turns s)
    {input : Input C} (hfew : inbounds (turns ++ [(input, (handle input s).1)]) < 2 ^ 64)
    {id : String} {entry : C × Instant} (hget : s.pendingResponses[id]? = some entry)
    (huntouched : Untouched id (handle input s).1) :
    (handle input s).2.pendingResponses[id]? = some entry := by
  cases input with
  | evictionTick now =>
    have hkeep : keep now id entry = true := by
      by_contra hstale
      refine huntouched.evicting (List.mem_map.mpr ⟨id, ?_, rfl⟩)
      rw [ExtTreeMap.mem_keys, ExtTreeMap.mem_iff_isSome_getElem?, ExtTreeMap.getElem?_filter',
        hget]
      simpa using hstale
    change (s.pendingResponses.filter (keep now))[id]? = some entry
    rw [ExtTreeMap.getElem?_filter', Option.filter_eq_some_iff]
    exact ⟨hget, hkeep⟩
  | registerEventHandler pid => exact hget
  | other => exact hget
  | rpcSendResponse id' data =>
    cases hget' : s.pendingResponses[id']? with
    | none =>
      simp only [handle, hget']
      exact hget
    | some entry' =>
      simp only [handle, hget'] at huntouched ⊢
      have hne : id' ≠ id := by
        rintro rfl
        exact huntouched.sendResponse _ _ (List.mem_singleton_self _)
      rw [getElem?_erase_eq, if_neg hne]
      exact hget
  | inboundRequest inbound now =>
    by_cases hfull : maxPendingResponses ≤ s.pendingResponses.size
    · simp only [handle, if_pos hfull]
      exact hget
    · simp only [handle, if_neg hfull]
      have hne : channelId (s.channelCounter + 1) ≠ id := by
        rintro rfl
        obtain ⟨⟨inbound', handler, hmem, -⟩, -⟩ := h.pending _ entry.1 entry.2 hget
        rw [inbounds_append] at hfew
        exact h.channelId_notMem hfew (List.mem_filterMap.mpr ⟨_, hmem, rfl⟩)
      rw [getElem?_insert_eq, if_neg hne]
      exact hget

/-- What was filed under a name is kept under it until something is done with it. -/
theorem pending_of_filed {turns : List (Turn C)} {s : State C} (h : History turns s)
    (hfew : inbounds turns < 2 ^ 64) {id : String} {inbound : Inbound C}
    {handler : Option LocalPid} (hfiled : Effect.filed id inbound handler ∈ effects turns)
    (huntouched : Untouched id (effects turns)) :
    ∃ created, s.pendingResponses[id]? = some (inbound.channel, created) := by
  induction h with
  | init => cases hfiled
  | @step turns s s' input done hist _ hhandle ih =>
    obtain ⟨rfl, rfl⟩ : (handle input s).1 = done ∧ (handle input s).2 = s' := by
      have heq : handle input s = (done, s') := Option.some.inj hhandle
      rw [heq]
      exact ⟨rfl, rfl⟩
    have hbefore : inbounds turns < 2 ^ 64 := by
      rw [inbounds_append] at hfew
      omega
    have heffects : effects (turns ++ [(input, (handle input s).1)])
        = effects turns ++ (handle input s).1 := by simp
    rw [heffects] at hfiled huntouched
    rcases List.mem_append.mp hfiled with hearlier | hnow
    · obtain ⟨created, hget⟩ := ih hbefore hearlier huntouched.left
      exact ⟨created, pending_handle (kept_of_history hist hbefore) hfew hget huntouched.right⟩
    · cases input with
      | inboundRequest inbound' now =>
        rw [handle] at hnow ⊢
        split at hnow
        · simp at hnow
        · next hroom =>
          rw [if_neg hroom]
          obtain ⟨rfl, rfl, -⟩ : id = channelId (s.channelCounter + 1) ∧ inbound = inbound'
              ∧ handler = s.eventHandler := by simpa using hnow
          exact ⟨now, by rw [getElem?_insert_eq, if_pos rfl]⟩
      | evictionTick now => simp [handle] at hnow
      | rpcSendResponse id' data =>
        rw [handle] at hnow
        split at hnow <;> simp at hnow
      | registerEventHandler pid => cases hnow
      | other => cases hnow

theorem announced_sublist (done : List (Effect C)) :
    (done.filterMap Effect.announced?).Sublist (done.filterMap Effect.filed?) := by
  induction done with
  | nil => exact List.Sublist.slnil
  | cons effect done ih =>
    rcases effect with _ | _ | _ | _ | ⟨id, inbound, _ | pid⟩
    case filed.none => exact ih.cons id
    case filed.some => exact ih.cons_cons id
    all_goals exact ih

/-- A response is sent by the command that asks for it, on the channel that is kept. -/
theorem sends_of_handle {input : Input C} {s : State C} {id : String} {channel : C}
    {data : List UInt8} (h : Effect.sendResponse id channel data ∈ (handle input s).1) :
    input = .rpcSendResponse id data ∧ (handle input s).1 = [.sendResponse id channel data]
      ∧ ∃ created, s.pendingResponses[id]? = some (channel, created) := by
  cases input with
  | evictionTick now => simp [handle] at h
  | registerEventHandler pid => cases h
  | other => cases h
  | inboundRequest inbound now =>
    rw [handle] at h
    split at h <;> simp at h
  | rpcSendResponse id' data' =>
    cases hget : s.pendingResponses[id']? with
    | none => simp [handle, hget] at h
    | some entry =>
      simp only [handle, hget, List.mem_singleton, Effect.sendResponse.injEq] at h ⊢
      obtain ⟨rfl, rfl, rfl⟩ := h
      exact ⟨rfl, rfl, entry.2, hget⟩

/-- **Pending responses.** In every run with fewer than 2⁶⁴ requests no more than the maximum is
kept; no name is announced twice; and a response is sent by a command for its name, on the channel
of the only request of the run that was filed under it, which was neither answered nor dropped
before. A command for a name that was filed and with which nothing has been done since does send
the response, and a request that comes when the maximum is kept changes nothing. -/
theorem responses_sent_once {turns : List (Turn C)} {s : State C}
    (h : History turns s) (hfew : inbounds turns < 2 ^ 64) :
    s.pendingResponses.size ≤ maxPendingResponses
      ∧ ((effects turns).filterMap Effect.announced?).Nodup
      ∧ (∀ before input done after, turns = before ++ (input, done) :: after →
        ∀ id channel data, Effect.sendResponse id channel data ∈ done →
          input = .rpcSendResponse id data ∧ done = [.sendResponse id channel data]
          ∧ (∃ inbound handler, Effect.filed id inbound handler ∈ effects before
            ∧ inbound.channel = channel
            ∧ ∀ inbound' handler', Effect.filed id inbound' handler' ∈ effects turns →
              inbound' = inbound ∧ handler' = handler)
          ∧ Untouched id (effects before))
      ∧ (∀ id inbound handler data, Effect.filed id inbound handler ∈ effects turns →
        Untouched id (effects turns) →
          (handle (.rpcSendResponse id data) s).1 = [.sendResponse id inbound.channel data])
      ∧ ∀ inbound now, maxPendingResponses ≤ s.pendingResponses.size →
        (handle (.inboundRequest inbound now) s).2 = s := by
  have hkept := kept_of_history h hfew
  have hnodup : ((effects turns).filterMap Effect.filed?).Nodup := by
    rw [hkept.filed]
    exact nodup_names _ _
  refine ⟨hkept.bounded, hnodup.sublist (announced_sublist _), ?_, ?_, ?_⟩
  · intro before input done after hturns id channel data hsend
    subst hturns
    obtain ⟨s₁, s₂, hbefore, -, hhandle, -⟩ := h.split
    have heq : handle input s₁ = (done, s₂) := Option.some.inj hhandle
    have hdone : (handle input s₁).1 = done := by rw [heq]
    have hfewer : inbounds before < 2 ^ 64 := by
      refine lt_of_le_of_lt ?_ hfew
      rw [inbounds, inbounds, Server.messages_append, List.countP_append]
      exact Nat.le_add_right _ _
    rw [← hdone] at hsend
    obtain ⟨hinput, hsent, created, hget⟩ := sends_of_handle hsend
    obtain ⟨⟨inbound, handler, hmem, hchannel⟩, huntouched⟩ :=
      (kept_of_history hbefore hfewer).pending id channel created hget
    refine ⟨hinput, hdone.symm.trans hsent, ⟨inbound, handler, hmem, hchannel, ?_⟩, huntouched⟩
    intro inbound' handler' hmem'
    have hmem : Effect.filed id inbound handler ∈ effects (before ++ (input, done) :: after) := by
      rw [Server.effects_append]
      exact List.mem_append_left _ hmem
    have hsame := Server.eq_of_nodup_filterMap hnodup hmem' hmem rfl rfl
    cases hsame
    exact ⟨rfl, rfl⟩
  · intro id inbound handler data hfiled huntouched
    obtain ⟨created, hget⟩ := pending_of_filed h hfew hfiled huntouched
    simp only [handle, hget]
  · intro inbound now hfull
    rw [handle, if_pos hfull]

/-- A request, its response, and the same command again. -/
theorem responses_sent_once_run :
    ∃ turns s, (server ℕ).run [.inboundRequest ⟨"peer", "1", [], 7⟩ 0,
        .rpcSendResponse "ch-1" [9], .rpcSendResponse "ch-1" [9]] = some (turns, s)
      ∧ effects turns = [.filed "ch-1" ⟨"peer", "1", [], 7⟩ none, .sendResponse "ch-1" 7 [9],
        .unknownChannel "ch-1"]
      ∧ s.pendingResponses.size ≤ maxPendingResponses := by
  obtain ⟨turns, s, hrun, heffects, hfew⟩ : ∃ turns s, (server ℕ).run
      [.inboundRequest ⟨"peer", "1", [], 7⟩ 0, .rpcSendResponse "ch-1" [9],
        .rpcSendResponse "ch-1" [9]] = some (turns, s)
      ∧ effects turns = [.filed "ch-1" ⟨"peer", "1", [], 7⟩ none, .sendResponse "ch-1" 7 [9],
        .unknownChannel "ch-1"]
      ∧ inbounds turns = 1 := ⟨_, _, rfl, rfl, rfl⟩
  have hhistory := Server.history_run hrun
  exact ⟨turns, s, hrun, heffects, (responses_sent_once hhistory (by omega)).1⟩

end Swarm

end NervesP2P
