import NervesP2P.Dht.Coordinator
import NervesP2P.Lib.Convert
import NervesP2P.Node.Events

/-!
# Calls by capability

A call can name a capability instead of a peer. The discovery process is asked for the peers with
the capability, and one of them is taken: the first, the first that meets some constraints, or any.

## What a call can reach

`Capable` says of a peer, in terms of what has been heard and without any caches, that a call may
go to it: the hash table was last said to have found it for the capability, and not too long ago.
The theorems say for each kind of call which of these peers it goes to, after any history of the
discovery process.

Constraints are about the metadata of a peer. A peer has a capability only when it was found in the
hash table, and of such peers no metadata is known. So a constraint holds of all of them, when it
asks for `nil`, or of none.
-/

namespace NervesP2P

namespace Routing

open Coordinator (PeerInfo Meta Knowledge Module History known Fresh Lists)

/-! ## Selection

The kinds of calls differ in what they ask of a peer and in how one is taken. The identifier is
checked after a peer was taken, so one that is not valid is an error of the call and not a reason to
take another peer. -/

/-- What a constraint is about. Terms of which Elixir makes no string, such as tuples, are not
among them: looking for their string raises. -/
inductive Name where
  | atom (name : String)
  | binary (text : String)
  /-- A number or another term, with the string that Elixir makes of it. -/
  | shown (term : ℕ) (text : String)

namespace Name

def key : Name → Key
  | .atom name => .atom name
  | .binary text => .binary text
  | .shown term _ => .other term

/-- The name as a string; that of `nil` is empty. -/
def toText : Name → String
  | .atom name => if name = "nil" then "" else name
  | .binary text => text
  | .shown _ text => text

end Name

/-- The constraints of a call, with `none` for the value `nil`. -/
abbrev Constraints := List (Name × Option Meta)

inductive Target where
  | capability (capability : Dht.Capability)
  | constrained (capability : Dht.Capability) (constraints : Constraints)
  /-- The peer is taken by a number that depends on the time. -/
  | loadBalanced (capability : Dht.Capability) (entropy : ℕ)

def Target.wanted : Target → Dht.Capability
  | .capability c | .constrained c _ | .loadBalanced c _ => c

inductive Refusal where
  | noCapablePeer
  | invalidPeerId
  deriving DecidableEq

/-- `Map.get` on the metadata of a peer. -/
def metadataGet (info : PeerInfo) (key : Key) : Option Meta :=
  (info.metadata.find? (·.1 = key)).map Prod.snd

def filterConstraints (peers : List PeerInfo) (constraints : Constraints) : List PeerInfo :=
  if constraints.isEmpty = true then peers
  else peers.filter fun peer ↦ constraints.all fun constraint ↦
    metadataGet peer constraint.1.key = constraint.2
      || metadataGet peer (.binary constraint.1.toText) = constraint.2

/-- The identifier is checked before a call is made. -/
def newPeerId (id : Coordinator.PeerId) : Except Refusal Events.PeerId :=
  match Events.PeerId.new? (utf8 id) with
  | some peer => .ok peer
  | none => .error .invalidPeerId

theorem newPeerId_eq_ok_iff {id : Coordinator.PeerId} {peer : Events.PeerId} :
    newPeerId id = .ok peer ↔ Events.PeerId.new? (utf8 id) = some peer := by
  rw [newPeerId]
  cases Events.PeerId.new? (utf8 id) <;> simp

def peerIdFromInfo (info : PeerInfo) : Except Refusal Events.PeerId :=
  match info.peerId with
  | some id => newPeerId id
  | none => .error .noCapablePeer

def pickFirst (peers : List PeerInfo) (constraints : Constraints) :
    Except Refusal Events.PeerId :=
  match filterConstraints peers constraints with
  | [] => .error .noCapablePeer
  | peer :: _ => peerIdFromInfo peer

def pickLoadBalanced (peers : List PeerInfo) (entropy : ℕ) : Except Refusal Events.PeerId :=
  match peers[entropy % peers.length]? with
  | some peer => peerIdFromInfo peer
  | none => .error .noCapablePeer

/-- Every peer of the list can be drawn. -/
theorem exists_pickLoadBalanced_iff {peers : List PeerInfo}
    {result : Except Refusal Events.PeerId} :
    (∃ entropy, pickLoadBalanced peers entropy = result)
      ↔ (∃ info ∈ peers, peerIdFromInfo info = result)
        ∨ peers = [] ∧ result = .error .noCapablePeer := by
  constructor
  · rintro ⟨entropy, rfl⟩
    rw [pickLoadBalanced]
    cases hpeer : peers[entropy % peers.length]? with
    | some info => exact Or.inl ⟨info, List.mem_of_getElem? hpeer, rfl⟩
    | none =>
      -- only in an empty list is there nothing at a remainder
      refine Or.inr ⟨List.length_eq_zero_iff.mp ?_, rfl⟩
      have hle := List.getElem?_eq_none_iff.mp hpeer
      by_contra hne
      exact hle.not_gt (Nat.mod_lt entropy (Nat.pos_of_ne_zero hne))
  · rintro (⟨info, hinfo, rfl⟩ | ⟨rfl, rfl⟩)
    · obtain ⟨i, hi⟩ := List.mem_iff_getElem?.mp hinfo
      refine ⟨i, ?_⟩
      rw [pickLoadBalanced, Nat.mod_eq_of_lt (List.getElem?_eq_some_iff.mp hi).1, hi]
    · exact ⟨0, rfl⟩

def selectPeer : Target → List PeerInfo → Except Refusal Events.PeerId
  | .capability _, peers => pickFirst peers []
  | .constrained _ constraints, peers => pickFirst peers constraints
  | .loadBalanced _ entropy, peers => pickLoadBalanced peers entropy

/-- The peers in a reply of the discovery process. -/
def answered (done : List Coordinator.Effect) : Option (List PeerInfo) :=
  done.findSome? fun effect ↦
    match effect with
    | .reply (.peers peers) => some peers
    | _ => none

/-- The discovery process is asked. There is no answer when it crashes instead. -/
def findCapability (capability : Dht.Capability) (now : ℤ) (accepted : Bool)
    (s : Coordinator.State) : Option (List PeerInfo) :=
  (Coordinator.handle (.findCapability capability now accepted) s).bind fun turn ↦ answered turn.1

/-- A peer is taken from the answer. -/
def route (target : Target) (now : ℤ) (accepted : Bool) (s : Coordinator.State) :
    Option (Except Refusal Events.PeerId) :=
  (findCapability target.wanted now accepted s).map (selectPeer target)

/-- All peers with a capability; an identifier that is not valid raises. -/
def peersWith (capability : Dht.Capability) (now : ℤ) (accepted : Bool) (s : Coordinator.State) :
    Option (List Events.PeerId) :=
  (findCapability capability now accepted s).bind fun peers ↦
    (peers.filterMap PeerInfo.peerId).mapM fun id ↦ Events.PeerId.new? (utf8 id)

/-! ## Answers

The list that the process answers with is compared with `Capable`: it is empty when there is no such
peer, its identifiers are theirs, and its first entry is the one that was heard of last. None of the
entries has metadata, so filtering keeps all of them or none. -/

/-- A call for the capability may go to the peer, which was last heard of at this time. -/
structure Capable (k : Knowledge) (modules : List Module) (now : ℤ) (capability : Dht.Capability)
    (p : Coordinator.PeerId) (time : ℤ) : Prop where
  enabled : .dht ∈ modules
  filed : p ∈ k.filed capability
  fresh : Fresh k now .dht p time

section Answers

variable {k : Knowledge} {modules : List Module} {now : ℤ} {capability : Dht.Capability}
  {peers : List PeerInfo}

theorem exists_capable (h : Lists k modules now capability peers) {info : PeerInfo}
    (hinfo : info ∈ peers) :
    ∃ p time, Capable k modules now capability p time ∧ info.lastSeen = some time
      ∧ peerIdFromInfo info = newPeerId p := by
  obtain ⟨p, time, hp, htime, -, hm, hfiled, hfresh⟩ := h.entry info hinfo
  refine ⟨p, time, ⟨hm, hfiled, hfresh⟩, htime, ?_⟩
  rw [peerIdFromInfo, hp]

theorem exists_listed (h : Lists k modules now capability peers) {p : Coordinator.PeerId}
    {time : ℤ} (hp : Capable k modules now capability p time) :
    ∃ info ∈ peers, info.lastSeen = some time ∧ peerIdFromInfo info = newPeerId p := by
  obtain ⟨info, hinfo, hid, htime⟩ := h.listed p hp.filed hp.enabled time hp.fresh
  refine ⟨info, hinfo, htime, ?_⟩
  rw [peerIdFromInfo, hid]

theorem eq_nil_iff (h : Lists k modules now capability peers) :
    peers = [] ↔ ∀ p time, ¬Capable k modules now capability p time := by
  constructor
  · rintro rfl p time hp
    obtain ⟨info, hinfo, -⟩ := exists_listed h hp
    cases hinfo
  · intro hnone
    refine List.eq_nil_iff_forall_not_mem.mpr fun info hinfo ↦ ?_
    obtain ⟨p, time, hp, -⟩ := exists_capable h hinfo
    exact hnone p time hp

theorem mem_ids_iff (h : Lists k modules now capability peers) {p : Coordinator.PeerId} :
    p ∈ peers.filterMap PeerInfo.peerId ↔ ∃ time, Capable k modules now capability p time := by
  rw [List.mem_filterMap]
  constructor
  · rintro ⟨info, hinfo, hp⟩
    obtain ⟨p', time, hp', -, -, hm, hfiled, hfresh⟩ := h.entry info hinfo
    obtain rfl := Option.some.inj (hp.symm.trans hp')
    exact ⟨time, hm, hfiled, hfresh⟩
  · rintro ⟨time, hp⟩
    obtain ⟨info, hinfo, hid, -⟩ := h.listed p hp.filed hp.enabled time hp.fresh
    exact ⟨info, hinfo, hid⟩

/-- What is listed has no metadata, so a constraint holds of all peers or of none. -/
theorem filterConstraints_eq (h : Lists k modules now capability peers)
    (constraints : Constraints) :
    filterConstraints peers constraints
      = if constraints.all (·.2.isNone) = true then peers else [] := by
  have hmeets : ∀ info ∈ peers, (constraints.all fun constraint ↦
      metadataGet info constraint.1.key = constraint.2
        || metadataGet info (.binary constraint.1.toText) = constraint.2)
      = constraints.all (·.2.isNone) := by
    intro info hinfo
    obtain ⟨p, time, -, -, hmetadata, -⟩ := h.entry info hinfo
    have hget : ∀ key, metadataGet info key = none := by
      intro key
      rw [metadataGet, hmetadata]
      rfl
    congr 1
    funext constraint
    rw [hget, hget, Bool.or_self]
    cases constraint.2 <;> rfl
  rw [filterConstraints]
  cases constraints with
  | nil => rfl
  | cons constraint rest =>
    rw [if_neg (by simp), List.filter_congr hmeets]
    cases (constraint :: rest).all (·.2.isNone) <;> simp

theorem pickFirst_eq (h : Lists k modules now capability peers) (constraints : Constraints) :
    pickFirst peers constraints
      = if constraints.all (·.2.isNone) = true then pickFirst peers []
        else .error .noCapablePeer := by
  rw [pickFirst, filterConstraints_eq h]
  by_cases hnil : constraints.all (·.2.isNone) = true
  · rw [if_pos hnil, if_pos hnil]
    rfl
  · rw [if_neg hnil, if_neg hnil]

end Answers

/-! ## Where calls go

All calls for a capability choose from the same list, which depends on the history alone. What is
left is to say what each of them does with it. -/

section Routes

variable {modules : List Module} {turns : List Coordinator.Turn} {s : Coordinator.State}

theorem exists_answered (h : History modules turns s) (capability : Dht.Capability) (now : ℤ)
    (accepted : Bool) :
    ∃ peers, Lists (known turns) modules now capability peers
      ∧ findCapability capability now accepted s = some peers := by
  obtain ⟨lookups, peers, s', hreply, hlists, hlookups⟩ :=
    Coordinator.exists_lists h capability now accepted
  refine ⟨peers, hlists, ?_⟩
  rw [findCapability, hreply]
  rcases hlookups with rfl | ⟨-, rfl⟩ <;> rfl

/-- All calls for a capability choose from the same list. -/
theorem exists_route (h : History modules turns s) (capability : Dht.Capability) (now : ℤ)
    (accepted : Bool) :
    ∃ peers, Lists (known turns) modules now capability peers
      ∧ ∀ target, target.wanted = capability →
        route target now accepted s = some (selectPeer target peers) := by
  obtain ⟨peers, hlists, hanswered⟩ := exists_answered h capability now accepted
  refine ⟨peers, hlists, ?_⟩
  rintro target rfl
  rw [route, hanswered]
  rfl

/-- **A call goes to the peer that was heard of last.** After any history, a call for a capability
is refused for want of a peer exactly when there is none it may go to. Otherwise it depends on the
one that was heard of last alone: the call goes there, or it is refused because the identifier of
that one is not valid. -/
theorem routed_to_newest (h : History modules turns s) (capability : Dht.Capability) (now : ℤ)
    (accepted : Bool) :
    (route (.capability capability) now accepted s = some (.error .noCapablePeer)
      ∧ ∀ p time, ¬Capable (known turns) modules now capability p time)
    ∨ ∃ p time, route (.capability capability) now accepted s = some (newPeerId p)
      ∧ Capable (known turns) modules now capability p time
      ∧ ∀ q time', Capable (known turns) modules now capability q time' → time' ≤ time := by
  obtain ⟨peers, hlists, hroute⟩ := exists_route h capability now accepted
  rw [hroute _ rfl]
  cases peers with
  | nil => exact Or.inl ⟨rfl, (eq_nil_iff hlists).mp rfl⟩
  | cons info rest =>
    obtain ⟨p, time, hp, htime, hid⟩ := exists_capable hlists List.mem_cons_self
    refine Or.inr ⟨p, time, congrArg some hid, hp, fun q time' hq ↦ ?_⟩
    obtain ⟨info', hinfo', htime', -⟩ := exists_listed hlists hq
    -- the list is in order, so nobody in it was heard of after its head
    rcases List.mem_cons.mp hinfo' with rfl | hrest
    · exact (Option.some.inj (htime'.symm.trans htime)).le
    · have hle := (List.pairwise_cons.mp hlists.newest).1 info' hrest
      rwa [htime, htime'] at hle

def firstId : Coordinator.PeerId := "12D3KooWDpJ7As7BWAwRMfu1VU2WCqNjvq387JEYKDBj4kx6nXTN"

def secondId : Coordinator.PeerId := "12D3KooWDpJ7As7BWAwRMfu1VU2WCqNjvq387JEYKDBj4kx6nXTM"

/-- Two peers with a camera were found, and the second was found again for another capability. -/
def metTurns : List Coordinator.Turn :=
  [(.findCapability "camera" 0 true, [.findProviders (Dht.capabilityKey "camera"),
      .reply (.peers [])]),
    (.event (.query ⟨0, .foundProviders [firstId, secondId]⟩) 1, []),
    (.findCapability "audio" 1 true, [.findProviders (Dht.capabilityKey "audio"),
      .reply (.peers [])]),
    (.event (.query ⟨1, .foundProviders [secondId]⟩) 2, [])]

theorem exists_met : ∃ s, History [.dht] metTurns s :=
  ⟨_, (((Server.History.init.step trivial rfl).step trivial rfl).step trivial rfl).step trivial rfl⟩

theorem capable_first : Capable (known metTurns) [.dht] 3 "camera" firstId 1 :=
  ⟨List.mem_cons_self, List.mem_cons_self, by decide, by decide⟩

theorem capable_second : Capable (known metTurns) [.dht] 3 "camera" secondId 2 :=
  ⟨List.mem_cons_self, List.mem_cons_of_mem _ List.mem_cons_self, by decide, by decide⟩

theorem routed_to_newest_sample :
    ∃ s, History [.dht] metTurns s
      ∧ route (.capability "camera") 3 true s = some (newPeerId secondId) := by
  obtain ⟨s, h⟩ := exists_met
  refine ⟨s, h, ?_⟩
  rcases routed_to_newest h "camera" 3 true with ⟨-, hnone⟩ | ⟨p, time, hroute, hp, hnewest⟩
  · exact absurd capable_second (hnone secondId 2)
  · have hfiled : p ∈ [firstId, secondId] := hp.filed
    rcases List.mem_cons.mp hfiled with rfl | hsecond
    · have htime : time = 1 :=
        Option.some.inj (hp.fresh.1.symm.trans capable_first.fresh.1)
      have hle := hnewest secondId 2 capable_second
      omega
    · rwa [List.mem_singleton.mp hsecond] at hroute

/-- **Constraints do not choose.** After any history, a call with constraints goes where it goes
without them when all of them ask for `nil`, and is refused otherwise. -/
theorem constraints_all_or_none (h : History modules turns s) (capability : Dht.Capability)
    (constraints : Constraints) (now : ℤ) (accepted : Bool) :
    route (.constrained capability constraints) now accepted s
      = if constraints.all (·.2.isNone) = true then route (.capability capability) now accepted s
        else some (.error .noCapablePeer) := by
  obtain ⟨peers, hlists, hroute⟩ := exists_route h capability now accepted
  rw [hroute _ rfl, hroute _ rfl]
  have hpick : selectPeer (.constrained capability constraints) peers = _ :=
    pickFirst_eq hlists constraints
  rw [hpick]
  split <;> rfl

theorem constraints_all_or_none_sample :
    ∃ s, History [.dht] metTurns s
      ∧ route (.constrained "camera" [(.atom "zone", some (.text "a"))]) 3 true s
        = some (.error .noCapablePeer) := by
  obtain ⟨s, h⟩ := exists_met
  exact ⟨s, h, constraints_all_or_none h "camera" _ 3 true⟩

/-- **Load is spread over all peers there are.** After any history, the peers that a call for a
capability can go to, depending on the number that is drawn, are all those it may go to. -/
theorem load_balanced_reaches (h : History modules turns s) (capability : Dht.Capability) (now : ℤ)
    (accepted : Bool) (result : Except Refusal Events.PeerId) :
    (∃ entropy, route (.loadBalanced capability entropy) now accepted s = some result)
      ↔ (∃ p time, Capable (known turns) modules now capability p time ∧ result = newPeerId p)
        ∨ (∀ p time, ¬Capable (known turns) modules now capability p time)
          ∧ result = .error .noCapablePeer := by
  obtain ⟨peers, hlists, hroute⟩ := exists_route h capability now accepted
  have hpicks : (∃ entropy, route (.loadBalanced capability entropy) now accepted s = some result)
      ↔ ∃ entropy, pickLoadBalanced peers entropy = result :=
    exists_congr fun entropy ↦ by rw [hroute _ rfl, Option.some.injEq, selectPeer]
  rw [hpicks, exists_pickLoadBalanced_iff, eq_nil_iff hlists]
  refine or_congr_left ⟨?_, ?_⟩
  · rintro ⟨info, hinfo, rfl⟩
    obtain ⟨p, time, hp, -, hid⟩ := exists_capable hlists hinfo
    exact ⟨p, time, hp, hid⟩
  · rintro ⟨p, time, hp, rfl⟩
    obtain ⟨info, hinfo, -, hid⟩ := exists_listed hlists hp
    exact ⟨info, hinfo, hid⟩

theorem load_balanced_reaches_sample :
    ∃ s, History [.dht] metTurns s
      ∧ (∃ entropy, route (.loadBalanced "camera" entropy) 3 true s = some (newPeerId firstId))
      ∧ ∃ entropy, route (.loadBalanced "camera" entropy) 3 true s = some (newPeerId secondId) := by
  obtain ⟨s, h⟩ := exists_met
  exact ⟨s, h,
    (load_balanced_reaches h "camera" 3 true _).mpr (.inl ⟨_, _, capable_first, rfl⟩),
    (load_balanced_reaches h "camera" 3 true _).mpr (.inl ⟨_, _, capable_second, rfl⟩)⟩

/-- **One invalid identifier hides all peers.** After any history, the peers with a capability are
listed, and they are those a call may go to; but if the identifier of one of these is not valid,
the list is not made at all. -/
theorem peers_with_all_or_none (h : History modules turns s) (capability : Dht.Capability) (now : ℤ)
    (accepted : Bool) :
    (∃ ids, peersWith capability now accepted s = some ids
      ∧ (∀ id ∈ ids, ∃ p time, Capable (known turns) modules now capability p time
        ∧ newPeerId p = .ok id)
      ∧ ∀ p time, Capable (known turns) modules now capability p time →
        ∃ id ∈ ids, newPeerId p = .ok id)
    ∨ peersWith capability now accepted s = none
      ∧ ∃ p time, Capable (known turns) modules now capability p time
        ∧ newPeerId p = .error .invalidPeerId := by
  obtain ⟨peers, hlists, hanswered⟩ := exists_answered h capability now accepted
  have hpeers : peersWith capability now accepted s = (peers.filterMap PeerInfo.peerId).mapM
      fun id ↦ Events.PeerId.new? (utf8 id) := by
    rw [peersWith, hanswered]
    rfl
  rw [hpeers]
  by_cases hvalid : ∀ p ∈ peers.filterMap PeerInfo.peerId,
      (Events.PeerId.new? (utf8 p)).isSome = true
  · refine Or.inl ⟨_, mapM_eq_some_filterMap hvalid, fun id hid ↦ ?_, fun p time hp ↦ ?_⟩
    · obtain ⟨p, hp, hnew⟩ := List.mem_filterMap.mp hid
      obtain ⟨time, hcapable⟩ := (mem_ids_iff hlists).mp hp
      exact ⟨p, time, hcapable, newPeerId_eq_ok_iff.mpr hnew⟩
    · have hmem := (mem_ids_iff hlists).mpr ⟨time, hp⟩
      obtain ⟨id, hnew⟩ := Option.isSome_iff_exists.mp (hvalid p hmem)
      exact ⟨id, List.mem_filterMap.mpr ⟨p, hmem, hnew⟩, newPeerId_eq_ok_iff.mpr hnew⟩
  · push Not at hvalid
    obtain ⟨p, hp, hinvalid⟩ := hvalid
    obtain ⟨time, hcapable⟩ := (mem_ids_iff hlists).mp hp
    have hnone : Events.PeerId.new? (utf8 p) = none := by simpa using hinvalid
    refine Or.inr ⟨mapM_eq_none hp hnone, p, time, hcapable, ?_⟩
    rw [newPeerId, hnone]

theorem peers_with_all_or_none_sample :
    ∃ s ids, History [.dht] metTurns s ∧ peersWith "camera" 3 true s = some ids
      ∧ ∃ id ∈ ids, newPeerId firstId = .ok id := by
  obtain ⟨s, h⟩ := exists_met
  rcases peers_with_all_or_none h "camera" 3 true with
    ⟨ids, hids, -, hall⟩ | ⟨-, p, time, hp, herror⟩
  · exact ⟨s, ids, h, hids, hall firstId 1 capable_first⟩
  · have hvalid : ∀ q ∈ [firstId, secondId],
        (Events.PeerId.new? (utf8 q)).isSome = true := by decide +kernel
    obtain ⟨id, hnew⟩ := Option.isSome_iff_exists.mp (hvalid p hp.filed)
    rw [newPeerId_eq_ok_iff.mpr hnew] at herror
    cases herror

end Routes

end Routing

end NervesP2P
