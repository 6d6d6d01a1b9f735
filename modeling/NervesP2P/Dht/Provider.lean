import NervesP2P.Lib.Maps

/-!
# Capability lookups in the distributed hash table

To find the peers with a capability, the provider asks the hash table for the providers of a key and
remembers the capability in a list. The answer is an event, and it carries the identifier of the
query, but the provider never learns that identifier when it asks. So it takes every
`found_providers` event for the answer to the oldest query in the list.

The hash table promises nothing of the kind. Queries run next to each other, one query may report
providers several times, and one that finds nobody ends without such an event. `served` counts the
events that were taken for an answer, and `History.waits` says that the list is what is left of
the queries after as many: the n-th of these events is filed under the capability of the n-th query,
whatever query it comes from.

## What has to match

So an event is filed right when its own query asks for the same capability as the query that it is
taken for (`Matched`), and then it does not matter who has been reported before. An event of a query
for something else is filed wrong, unless it brings nobody new: only if all its peers have been
reported for the capability before (`Repeated`), nothing wrong is stored.

The clock is read once for each peer of an answer. Here one reading stands for all of them, so the
time that handling one call or event takes is left out.
-/

open Std (ExtTreeMap)

namespace NervesP2P

namespace Dht

/-- An atom, by its name. -/
abbrev Capability := String

abbrev PeerId := String

/-- What the hash table names a query. -/
abbrev QueryId := ℕ

/-! ## The provider -/

/-- The whole seconds of a time in microseconds. `DateTime.diff` takes the difference of these. -/
def seconds (time : ℤ) : ℤ := time / 1000000

/-- What is known of a peer. The time is in microseconds. -/
structure PeerInfo where
  peerId : PeerId
  capabilities : List Capability
  lastSeen : Option ℤ

def PeerInfo.stale (info : PeerInfo) (ttlSeconds : ℤ) (now : ℤ) : Bool :=
  match info.lastSeen with
  | none => true
  | some time => seconds now - seconds time > ttlSeconds

structure State where
  cachedPeers : ExtTreeMap PeerId PeerInfo
  cachedCapabilities : ExtTreeMap Capability (List PeerId)
  pendingCapabilities : List Capability

def State.init : State := ⟨∅, ∅, []⟩

inductive QueryResult where
  | foundProviders (peerIds : List PeerId)
  /-- A record, the end of a query, or anything else. -/
  | other

structure QueryEvent where
  queryId : QueryId
  result : QueryResult

/-- The key under which a capability is provided. -/
def capabilityKey (capability : Capability) : String := "cap:" ++ capability

/-- The peers in the cache that are not stale. -/
def State.freshCached (state : State) (capability : Capability) (now : ℤ) : List PeerInfo :=
  ((state.cachedCapabilities[capability]?.getD []).filterMap (state.cachedPeers[·]?)).filter
    fun info ↦ !info.stale 600 now

/-- What is returned, the key that is looked up if one is, and the state. Whether the node takes the
lookup is up to it. -/
def findCapability (capability : Capability) (now : ℤ) (accepted : Bool) (state : State) :
    Option (List PeerInfo) × Option String × State :=
  let fresh := state.freshCached capability now
  if fresh ≠ [] then (some fresh, none, state)
  else if accepted = true then
    (some fresh, some (capabilityKey capability),
      { state with pendingCapabilities := state.pendingCapabilities ++ [capability] })
  else (none, none, state)

def handleEvent (event : QueryEvent) (now : ℤ) (state : State) : State :=
  match state.pendingCapabilities, event.result with
  | capability :: pending, .foundProviders peerIds =>
    { cachedPeers := state.cachedPeers.insertMany
        (peerIds.map fun peerId ↦ (peerId, ⟨peerId, [capability], some now⟩))
      cachedCapabilities := state.cachedCapabilities.insert capability peerIds
      pendingCapabilities := pending }
  | _, _ => state

/-! ## Runs

A query is named by its place among the queries that were made; the provider never compares the
names with anything, so any choice would do. An event is possible once its query was made, and from
then on in any number. -/

inductive Input where
  | find (capability : Capability) (now : ℤ) (accepted : Bool)
  | result (event : QueryEvent) (now : ℤ)

def Input.run (input : Input) (state : State) : State :=
  match input with
  | .find capability now accepted => (findCapability capability now accepted state).2.2
  | .result event now => handleEvent event now state

/-- The capability that is looked up in the hash table, if one is. -/
def Input.query (input : Input) (state : State) : Option Capability :=
  match input with
  | .find capability now accepted =>
    (findCapability capability now accepted state).2.1.map fun _ ↦ capability
  | .result _ _ => none

abbrev Turn := Input × Option Capability

/-- The capabilities of the queries so far. A query is named by its place. -/
def issued (turns : List Turn) : List Capability := turns.filterMap Prod.snd

/-- The hash table can send this: a call of the provider, or an event of a query that was made. -/
def Input.Possible (turns : List Turn) : Input → Prop
  | .find _ _ _ => True
  | .result event _ => event.queryId < (issued turns).length

/-- What can happen to a provider. Calls and events come in any order, and events of a query in any
number. -/
inductive History : List Turn → State → Prop
  | init : History [] .init
  | step {turns : List Turn} {state : State} (h : History turns state) (input : Input)
      (hpossible : input.Possible turns) :
      History (turns ++ [(input, input.query state)]) (input.run state)

/-- A query for the capability has reported the peer. -/
def Reported (turns : List Turn) (capability : Capability) (peerId : PeerId) : Prop :=
  ∃ queryId peerIds now turn, turn ∈ turns
    ∧ turn.1 = .result ⟨queryId, .foundProviders peerIds⟩ now
    ∧ (issued turns)[queryId]? = some capability ∧ peerId ∈ peerIds

/-- What is filed under a capability was reported for it. -/
def Attributed (turns : List Turn) (state : State) : Prop :=
  ∀ (capability : Capability) (peerIds : List PeerId),
    state.cachedCapabilities[capability]? = some peerIds →
      ∀ peerId ∈ peerIds, Reported turns capability peerId

variable {turns : List Turn} {state : State} {capability : Capability}

theorem issued_append (turns turns' : List Turn) :
    issued (turns ++ turns') = issued turns ++ issued turns' := List.filterMap_append ..

theorem issued_concat (turns : List Turn) (input : Input) (query : Option Capability) :
    issued (turns ++ [(input, query)]) = issued turns ++ query.toList := by
  rw [issued_append]
  cases query <;> rfl

theorem Reported.append {peerId : PeerId} (h : Reported turns capability peerId)
    (turns' : List Turn) :
    Reported (turns ++ turns') capability peerId := by
  obtain ⟨queryId, peerIds, now, turn, hturn, hresult, hissued, hpeer⟩ := h
  refine ⟨queryId, peerIds, now, turn, List.mem_append_left _ hturn, hresult, ?_, hpeer⟩
  rw [issued_append, List.getElem?_append_left (List.getElem?_eq_some_iff.mp hissued).1]
  exact hissued

/-! ## Attribution by position

A call is answered from the cache or refused, or it leads to a query and waits (`find_cases`), and
providers are filed under the first capability of the list, if there is one (`handleEvent_cases`).
Hence `Waits`, the invariant of the list: a query that is made comes last, an event takes the first
one away, and what is left are the queries without an event, in their order.

An event that matches reports its peers for the capability under which they are filed. In the other
direction, the peers of an event are what is filed right after it was taken (`History.filed`), so if
that is right, each of them was reported for the capability, by this event or by an earlier one. -/

/-- The number of queries made and of events taken for an answer, after one more turn. Every
`found_providers` event is taken for one, as long as there are queries left. -/
def tally (counts : ℕ × ℕ) : Turn → ℕ × ℕ
  | (.find _ _ _, query) => (counts.1 + query.toList.length, counts.2)
  | (.result ⟨_, .foundProviders _⟩ _, _) => (counts.1, min counts.1 (counts.2 + 1))
  | (.result ⟨_, .other⟩ _, _) => counts

def served (turns : List Turn) : ℕ := (turns.foldl tally (0, 0)).2

theorem find_cases (capability : Capability) (now : ℤ) (accepted : Bool) (state : State) :
    ((Input.find capability now accepted).query state = none
        ∧ (Input.find capability now accepted).run state = state)
      ∨ ((Input.find capability now accepted).query state = some capability
        ∧ (Input.find capability now accepted).run state
          = { state with pendingCapabilities := state.pendingCapabilities ++ [capability] }) := by
  simp only [Input.query, Input.run, findCapability]
  split
  · exact Or.inl ⟨rfl, rfl⟩
  · split
    · exact Or.inr ⟨rfl, rfl⟩
    · exact Or.inl ⟨rfl, rfl⟩

theorem handleEvent_cases (queryId : QueryId) (peerIds : List PeerId) (now : ℤ) (state : State) :
    (state.pendingCapabilities = []
        ∧ handleEvent ⟨queryId, .foundProviders peerIds⟩ now state = state)
      ∨ ∃ capability pending, state.pendingCapabilities = capability :: pending
        ∧ (handleEvent ⟨queryId, .foundProviders peerIds⟩ now state).pendingCapabilities = pending
        ∧ (handleEvent ⟨queryId, .foundProviders peerIds⟩ now state).cachedCapabilities
          = state.cachedCapabilities.insert capability peerIds := by
  cases hpending : state.pendingCapabilities with
  | nil => exact Or.inl ⟨rfl, by simp [handleEvent, hpending]⟩
  | cons capability pending =>
    refine Or.inr ⟨capability, pending, rfl, ?_, ?_⟩ <;> simp [handleEvent, hpending]

theorem handleEvent_other (queryId : QueryId) (now : ℤ) (state : State) :
    handleEvent ⟨queryId, .other⟩ now state = state := by
  simp [handleEvent]

/-- The provider waits for the queries that no event was taken for, in their order. -/
structure Waits (turns : List Turn) (state : State) : Prop where
  pending : state.pendingCapabilities = (issued turns).drop (served turns)
  tally : turns.foldl tally (0, 0) = ((issued turns).length, served turns)
  served_le : served turns ≤ (issued turns).length

theorem Waits.foldl_concat (h : Waits turns state) (turn : Turn) :
    (turns ++ [turn]).foldl Dht.tally (0, 0)
      = Dht.tally ((issued turns).length, served turns) turn := by
  rw [List.foldl_append, h.tally]
  rfl

theorem Waits.served_concat (h : Waits turns state) (turn : Turn) :
    served (turns ++ [turn]) = (Dht.tally ((issued turns).length, served turns) turn).2 := by
  rw [served, h.foldl_concat]

theorem Waits.find (h : Waits turns state) (capability : Capability) (now : ℤ) (accepted : Bool) :
    let input := Input.find capability now accepted
    Waits (turns ++ [(input, input.query state)]) (input.run state) := by
  intro input
  have hserved : served (turns ++ [(input, input.query state)]) = served turns :=
    h.served_concat _
  have hle := h.served_le
  refine ⟨?_, ?_, ?_⟩ <;> rw [issued_concat, hserved]
  · rcases find_cases capability now accepted state with ⟨hquery, hrun⟩ | ⟨hquery, hrun⟩
    · rw [hquery, hrun, Option.toList_none, List.append_nil]
      exact h.pending
    · rw [hquery, hrun, Option.toList_some, List.drop_append_of_le_length hle, ← h.pending]
  · rw [h.foldl_concat, List.length_append]
    rfl
  · rw [List.length_append]
    omega

theorem Waits.foundProviders (h : Waits turns state) (queryId : QueryId) (peerIds : List PeerId)
    (now : ℤ) :
    Waits (turns ++ [(.result ⟨queryId, .foundProviders peerIds⟩ now, none)])
      (handleEvent ⟨queryId, .foundProviders peerIds⟩ now state) := by
  have hserved := h.served_concat (.result ⟨queryId, .foundProviders peerIds⟩ now, none)
  refine ⟨?_, ?_, ?_⟩ <;> rw [issued_concat, Option.toList_none, List.append_nil, hserved]
  · simp only [Dht.tally]
    rcases handleEvent_cases queryId peerIds now state with
      ⟨hnil, hsame⟩ | ⟨capability, pending, hcons, hrest, -⟩
    · have hall : (issued turns).length ≤ served turns := by
        rwa [h.pending, List.drop_eq_nil_iff] at hnil
      rw [hsame, hnil, List.drop_eq_nil_of_le (by omega)]
    · have hlt : served turns < (issued turns).length := by
        by_contra hge
        rw [h.pending, List.drop_eq_nil_of_le (by omega)] at hcons
        cases hcons
      rw [hrest, Nat.min_eq_right hlt, ← List.tail_drop, ← h.pending, hcons, List.tail_cons]
  · exact h.foldl_concat _
  · exact Nat.min_le_left _ _

theorem History.waits (h : History turns state) :
    Waits turns state := by
  induction h with
  | init => exact ⟨rfl, rfl, le_refl _⟩
  | @step turns state _ input hpossible ih =>
    cases input with
    | find capability now accepted => exact ih.find capability now accepted
    | result event now =>
      obtain ⟨queryId, result⟩ := event
      cases result with
      | foundProviders peerIds => exact ih.foundProviders queryId peerIds now
      | other =>
        rw [Input.run, handleEvent_other]
        have hserved := ih.served_concat (.result ⟨queryId, .other⟩ now, none)
        refine ⟨?_, ?_, ?_⟩ <;>
          rw [Input.query, issued_concat, Option.toList_none, List.append_nil, hserved]
        · exact ih.pending
        · exact ih.foldl_concat _
        · exact ih.served_le

theorem History.split (h : History turns state) {before after : List Turn} {turn : Turn}
    (hturns : turns = before ++ turn :: after) :
    ∃ s, History before s ∧ turn = (turn.1, turn.1.query s) ∧ turn.1.Possible before := by
  induction h generalizing after with
  | init => simp at hturns
  | @step turns s hrun input hpossible ih =>
    rcases List.eq_nil_or_concat after with rfl | ⟨after, last, rfl⟩
    · obtain ⟨rfl, hturn⟩ := List.append_inj' hturns rfl
      obtain rfl := (List.cons.inj hturn).1
      exact ⟨s, hrun, rfl, hpossible⟩
    · rw [List.concat_eq_append, ← List.cons_append, ← List.append_assoc] at hturns
      exact ih (List.append_inj' hturns rfl).1

/-- The event comes from a query for the capability that it is taken for: `served` queries have had
their event, and it is taken for the answer to the next. -/
def Matched (before : List Turn) (turn : Turn) : Prop :=
  ∀ queryId peerIds now, turn.1 = .result ⟨queryId, .foundProviders peerIds⟩ now →
    served before < (issued before).length →
      (issued before)[queryId]? = (issued before)[served before]?

/-- The peers of the event have all been reported before for the capability that it is taken for. -/
def Repeated (before : List Turn) (turn : Turn) : Prop :=
  ∀ queryId peerIds now, turn.1 = .result ⟨queryId, .foundProviders peerIds⟩ now →
    ∀ capability, (issued before)[served before]? = some capability →
      ∀ peerId ∈ peerIds, Reported before capability peerId

/-- Events that come in the order of the queries match. -/
theorem matched_of_inOrder {before : List Turn} {turn : Turn}
    (h : ∀ queryId peerIds now, turn.1 = .result ⟨queryId, .foundProviders peerIds⟩ now →
      queryId = served before) : Matched before turn := by
  intro queryId peerIds now hresult _
  rw [h queryId peerIds now hresult]

theorem reported_concat_iff {queryId : QueryId} {peerIds : List PeerId} {now : ℤ}
    {peerId : PeerId} :
    Reported (turns ++ [(.result ⟨queryId, .foundProviders peerIds⟩ now, none)]) capability peerId ↔
      Reported turns capability peerId
        ∨ ((issued turns)[queryId]? = some capability ∧ peerId ∈ peerIds) := by
  have hissued : issued (turns ++ [(.result ⟨queryId, .foundProviders peerIds⟩ now, none)])
      = issued turns := by
    rw [issued_concat, Option.toList_none, List.append_nil]
  constructor
  · rintro ⟨queryId', peerIds', now', turn, hturn, hresult, hquery, hpeer⟩
    rw [hissued] at hquery
    rcases List.mem_append.mp hturn with hturn | hturn
    · exact Or.inl ⟨queryId', peerIds', now', turn, hturn, hresult, hquery, hpeer⟩
    · obtain rfl := List.mem_singleton.mp hturn
      cases hresult
      exact Or.inr ⟨hquery, hpeer⟩
  · rintro (h | ⟨hquery, hpeer⟩)
    · exact h.append _
    · exact ⟨queryId, peerIds, now, _, List.mem_append_right _ (List.mem_singleton_self _), rfl,
        by rwa [hissued], hpeer⟩

theorem reported_of_matched {queryId : QueryId} {peerIds : List PeerId} {now : ℤ}
    {peerId : PeerId} (h : Matched turns (.result ⟨queryId, .foundProviders peerIds⟩ now, none)
      ∨ Repeated turns (.result ⟨queryId, .foundProviders peerIds⟩ now, none))
    (hnext : (issued turns)[served turns]? = some capability) (hpeer : peerId ∈ peerIds) :
    Reported (turns ++ [(.result ⟨queryId, .foundProviders peerIds⟩ now, none)]) capability
      peerId := by
  rw [reported_concat_iff]
  rcases h with hmatched | hrepeated
  · have hlt := (List.getElem?_eq_some_iff.mp hnext).1
    exact Or.inr ⟨(hmatched queryId peerIds now rfl hlt).trans hnext, hpeer⟩
  · exact Or.inl (hrepeated queryId peerIds now rfl capability hnext peerId hpeer)

/-- One input keeps what is filed right if it matches or repeats what is known. -/
theorem Attributed.step (h : Attributed turns state) (hhistory : History turns state)
    (input : Input) (hmatched : Matched turns (input, input.query state)
      ∨ Repeated turns (input, input.query state)) :
    Attributed (turns ++ [(input, input.query state)]) (input.run state) := by
  intro capability peerIds hcached peerId hpeer
  cases input with
  | find capability' now accepted =>
    refine (h capability peerIds ?_ peerId hpeer).append _
    rcases find_cases capability' now accepted state with ⟨-, hrun⟩ | ⟨-, hrun⟩ <;>
      rwa [hrun] at hcached
  | result event now =>
    obtain ⟨queryId, result⟩ := event
    rw [Input.run] at hcached
    cases result with
    | other =>
      rw [handleEvent_other] at hcached
      exact (h capability peerIds hcached peerId hpeer).append _
    | foundProviders found =>
      rcases handleEvent_cases queryId found now state with
        ⟨-, hsame⟩ | ⟨first, pending, hcons, -, hfiled⟩
      · rw [hsame] at hcached
        exact (h capability peerIds hcached peerId hpeer).append _
      · rw [hfiled, getElem?_insert_eq] at hcached
        split at hcached
        · next hfirst =>
          obtain rfl := Option.some.inj hcached
          refine reported_of_matched hmatched ?_ hpeer
          rw [← List.head?_drop, ← hhistory.waits.pending, hcons, hfirst]
          rfl
        · exact (h capability peerIds hcached peerId hpeer).append _

theorem History.filed (h : History turns state)
    (hnext : (issued turns)[served turns]? = some capability) (queryId : QueryId)
    (peerIds : List PeerId) (now : ℤ) :
    (handleEvent ⟨queryId, .foundProviders peerIds⟩ now state).cachedCapabilities[capability]?
      = some peerIds := by
  rw [← List.head?_drop, ← h.waits.pending] at hnext
  rcases handleEvent_cases queryId peerIds now state with
    ⟨hnil, -⟩ | ⟨first, pending, hcons, -, hfiled⟩
  · rw [hnil] at hnext
    cases hnext
  · rw [hcons, List.head?_cons] at hnext
    rw [hfiled, getElem?_insert_eq, if_pos (Option.some.inj hnext)]

/-- If what is filed is right after an event, the event matches or it brings nobody new. -/
theorem History.matched_or_repeated (h : History turns state) {input : Input}
    (hattributed : Attributed (turns ++ [(input, input.query state)]) (input.run state)) :
    Matched turns (input, input.query state) ∨ Repeated turns (input, input.query state) := by
  rw [or_iff_not_imp_left]
  intro hmismatch queryId peerIds now hresult capability hnext peerId hpeer
  dsimp only at hresult
  subst hresult
  rcases reported_concat_iff.mp
    (hattributed capability peerIds (h.filed hnext queryId peerIds now) peerId hpeer) with
    hreported | ⟨hquery, -⟩
  · exact hreported
  · refine absurd (fun queryId' peerIds' now' hresult _ ↦ ?_) hmismatch
    cases hresult
    exact hquery.trans hnext.symm

/-- What is filed is right at all times. -/
def AttributedThroughout (turns : List Turn) : Prop :=
  ∀ before after s, turns = before ++ after → History before s → Attributed before s

theorem attributedThroughout_of_matched (h : ∀ before turn after, turns = before ++ turn :: after →
      Matched before turn ∨ Repeated before turn) : AttributedThroughout turns := by
  intro before after s hturns hbefore
  induction hbefore generalizing after with
  | init =>
    intro capability peerIds hcached
    simp [State.init] at hcached
  | @step before s hbefore input hpossible ih =>
    rw [List.append_assoc] at hturns
    exact (ih _ hturns).step hbefore input (h before _ after hturns)

/-- **Capabilities get what was reported for them if every event matches.** If the query of each
event asks for the capability that the event is taken for, then what is filed is right at all times,
whatever else happens. And it is right at all times exactly if every event matches or brings nobody
who was not reported for this capability before. -/
theorem attribution_iff {turns : List Turn} {state : State} (h : History turns state) :
    ((∀ before turn after, turns = before ++ turn :: after → Matched before turn) →
        AttributedThroughout turns)
      ∧ (AttributedThroughout turns ↔ ∀ before turn after, turns = before ++ turn :: after →
        Matched before turn ∨ Repeated before turn) := by
  refine ⟨fun hmatched ↦ attributedThroughout_of_matched fun before turn after hturns ↦
    Or.inl (hmatched before turn after hturns), fun hattributed before turn after hturns ↦ ?_,
    attributedThroughout_of_matched⟩
  obtain ⟨s, hbefore, hturn, hpossible⟩ := h.split hturns
  have hlater : turns = (before ++ [(turn.1, turn.1.query s)]) ++ after := by
    rw [hturns, List.append_assoc, ← hturn]
    rfl
  rw [hturn]
  exact hbefore.matched_or_repeated
    (hattributed _ after _ hlater (hbefore.step turn.1 hpossible))

/-! ### Two lookups -/

/-- The providers of the second capability are found first. -/
def crossed : List Turn :=
  [(.find "camera" 0 true, some "camera"), (.find "gpu" 0 true, some "gpu"),
    (.result ⟨1, .foundProviders ["p"]⟩ 0, none)]

/-- They are filed under the first, for which no query has reported anybody. -/
theorem crossed_results_misattributed :
    ∃ state, History crossed state
      ∧ state.cachedCapabilities[("camera" : Capability)]? = some ["p"]
      ∧ ¬Reported crossed "camera" "p" := by
  refine ⟨_, ((History.init.step (.find "camera" 0 true) trivial).step (.find "gpu" 0 true)
    trivial).step (.result ⟨1, .foundProviders ["p"]⟩ 0) (show 1 < 2 by decide), by decide, ?_⟩
  rintro ⟨queryId, peerIds, now, turn, hturn, hresult, hissued, -⟩
  simp only [crossed, List.mem_cons, List.not_mem_nil, or_false] at hturn
  rcases hturn with rfl | rfl | rfl
  · cases hresult
  · cases hresult
  · cases hresult
    exact absurd hissued (by decide)

/-- The same two lookups with their answers in order, the first of them in two events. -/
def ordered : List Turn :=
  [(.find "camera" 0 true, some "camera"), (.find "gpu" 0 true, some "gpu"),
    (.result ⟨0, .foundProviders ["p"]⟩ 0, none), (.result ⟨0, .other⟩ 0, none),
    (.result ⟨1, .foundProviders ["q", "p"]⟩ 0, none)]

theorem matched_ordered {before : List Turn} {turn : Turn} {after : List Turn}
    (h : ordered = before ++ turn :: after) : Matched before turn := by
  have hturn : ordered[before.length]? = some turn := by
    rw [h, List.getElem?_append_right (le_refl _), Nat.sub_self]
    rfl
  have hbefore : before = ordered.take before.length := by
    rw [h, List.take_left]
  have hlt : before.length < 5 := (List.getElem?_eq_some_iff.mp hturn).1
  refine matched_of_inOrder fun queryId peerIds now hresult ↦ ?_
  rw [hbefore]
  interval_cases before.length <;> cases hturn <;> cases hresult <;> rfl

/-- Both capabilities get their own peers. -/
theorem attribution_sample :
    ∃ state, History ordered state
      ∧ state.cachedCapabilities[("camera" : Capability)]? = some ["p"]
      ∧ state.cachedCapabilities[("gpu" : Capability)]? = some ["q", "p"]
      ∧ AttributedThroughout ordered := by
  have h := ((((History.init.step (.find "camera" 0 true) trivial).step (.find "gpu" 0 true)
    trivial).step (.result ⟨0, .foundProviders ["p"]⟩ 0) (show 0 < 2 by decide)).step
    (.result ⟨0, .other⟩ 0) (show 0 < 2 by decide)).step
    (.result ⟨1, .foundProviders ["q", "p"]⟩ 0) (show 1 < 2 by decide)
  exact ⟨_, h, by decide, by decide, (attribution_iff h).1 fun _ _ _ ↦ matched_ordered⟩

end Dht

end NervesP2P
