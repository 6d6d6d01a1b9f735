import NervesP2P.Lib.Term
import NervesP2P.Network.Answers

/-!
# Placing a child on a peer

`Network.start_child` asks the daemon for a peer by requirements, takes the first one, looks up the
node it may be, joins it over Partisan unless it is a member already, and hands the child to Horde
with that node as the target. `Handoff` waits until Horde knows a supervisor on the target, and the
distribution strategy of Horde then chooses a member for the child.

What happens outside is a record of answers (`Outside`), and what the program asks of it is a trace
of calls. The trace is there also when a later step fails, so safety is a statement about every
call of every run: whatever is joined or started is the authorized node of the first peer that the
daemon has found for the requirements (`placed_where_required`), a child is started only after the
last look at the cluster has seen this node, and the strategy never places such a child elsewhere.
-/

namespace NervesP2P

open Port (Json Jason Failure Pid)

namespace Placement

/-! ## Children

A specification is a map, and what Horde and the strategy read of it are a few keys. `putTarget`
sets the target in the metadata and wraps the start in the handoff, over whatever was there. -/

/-- The name of a node, an atom. -/
abbrev Node := String

/-- A value of the metadata of a child. -/
inductive MetaValue where
  | atom (name : String)
  | atoms (names : List String)
  /-- A set or another collection, which is no list, with its elements. -/
  | enumerable (term : ℕ) (names : List String)
  | other (term : ℕ)
  deriving DecidableEq

/-- A specification of a child, with `start` of any kind. -/
structure ChildSpec (σ : Type) where
  id : Term
  start : σ
  metadata : List (String × MetaValue)

/-- `Map.put` on entries. -/
def putEntry (entries : List (String × MetaValue)) (key : String) (value : MetaValue) :
    List (String × MetaValue) :=
  (key, value) :: entries.filter fun entry ↦ entry.1 ≠ key

/-- `Map.new`: the last entry of a key counts. -/
def newMap (entries : List (String × MetaValue)) : List (String × MetaValue) :=
  entries.foldl (fun map entry ↦ putEntry map entry.1 entry.2) []

/-- The child with the handoff around it, and with its target. -/
def putTarget {σ : Type} (childSpec : ChildSpec σ) (target : Node) : ChildSpec (ChildSpec σ) where
  id := childSpec.id
  start := childSpec
  metadata := putEntry (newMap childSpec.metadata) "cdp_target_node" (.atom target)

/-! ## The distribution strategy

The strategy sees the members of the cluster and decides by the metadata of the child. A target
comes first, then required modules, and with neither the ring of hashes alone chooses. What is
required may be any value that can be enumerated; on any other the strategy raises. -/

/-- A member of the supervisor's cluster, as the strategy sees it. -/
structure Member where
  supervisor : String
  node : Node
  alive : Bool
  deriving DecidableEq

def Member.name (member : Member) : String × Node := (member.supervisor, member.node)

/-- What the strategy uses: the modules that are registered for a node, and a ring that puts a key
on one of the given names. -/
structure Ring (σ : Type) where
  modulesFor : Node → List String
  hash : σ × List (String × MetaValue) → ℕ
  keyToNode : List (String × Node) → ℕ → String × Node
  keyToNode_mem : ∀ names key, names ≠ [] → keyToNode names key ∈ names
  inspect : MetaValue → String

section Strategy

variable {σ : Type} (ring : Ring σ)

def targetUnavailable : String := "target node is not an alive Horde member: "

def chooseTarget (target : MetaValue) (alive : List Member) : Except String Member :=
  match alive.find? fun member ↦ .atom member.node = target with
  | none => .error (targetUnavailable ++ ring.inspect target)
  | some member => .ok member

/-- What a child requires. An absent value is an empty list. -/
def requires (metadata : List (String × MetaValue)) : MetaValue :=
  match metadata.lookup "requires" with
  | none => .atoms []
  | some (.atom name) => if name = "nil" ∨ name = "false" then .atoms [] else .atom name
  | some value => value

/-- The elements of a value. One that cannot be enumerated raises. -/
def MetaValue.elements? : MetaValue → Option (List String)
  | .atoms names | .enumerable _ names => some names
  | .atom _ | .other _ => none

/-- The modules that a child requires. -/
def requiredModules (metadata : List (String × MetaValue)) : Option (List String) :=
  (requires metadata).elements?

/-- The members with all required modules. -/
def candidates (required : List String) (alive : List Member) : List Member :=
  alive.filter fun member ↦ required.all fun name ↦ (ring.modulesFor member.node).contains name

def chooseByRequirements (childSpec : ChildSpec σ) (alive : List Member) :
    Option (Except String (Option Member)) :=
  if alive = [] then some (.error "no alive nodes")
  else (requiredModules childSpec.metadata).map fun required ↦
    let candidates := candidates ring required alive
    if candidates = [] then
      .error ("no node has required modules: " ++ ring.inspect (requires childSpec.metadata))
    else
      let identifier := ring.hash (childSpec.start, childSpec.metadata)
      let chosen := ring.keyToNode (candidates.map Member.name) identifier
      .ok (candidates.find? fun member ↦ member.name = chosen)

/-- The target of a child. An absent value is as good as none. -/
def target? (metadata : List (String × MetaValue)) : Option MetaValue :=
  (metadata.lookup "cdp_target_node").filter fun target ↦ target ≠ .atom "nil"

/-- The member that Horde is to start a child on; `none` if the strategy raises. -/
def chooseNode (childSpec : ChildSpec σ) (members : List Member) :
    Option (Except String (Option Member)) :=
  let alive := members.filter Member.alive
  match target? childSpec.metadata with
  | none => chooseByRequirements ring childSpec alive
  | some target => some ((chooseTarget ring target alive).map some)

end Strategy

/-! ## Handoff

`await_membership` looks at the cluster until a supervisor on the target is there or the deadline
has passed, with a sleep after each look. The clock is read after a look, so each look has a delay,
and a slow one may use the deadline up by itself. -/

/-- A member that `Horde.Cluster.members` lists. -/
inductive HordeMember where
  | on (supervisor : String) (node : Node)
  | other (term : ℕ)
  deriving DecidableEq

def memberOn (target : Node) : HordeMember → Bool
  | .on _ node => node = target
  | .other _ => false

inductive HandoffError where
  | peerUnavailable
  | childSpecRequiresId
  | error (reason : Term)
  /-- A result of another form. -/
  | result (term : Term)

/-- What Horde returns for a child that is to be started. -/
inductive StartResult where
  | ok (pid : Pid)
  | alreadyStarted (pid : Pid)
  | error (reason : Term)
  | other (term : Term)

/-- What a child may be handed to: Partisan's view of a peer. -/
structure PeerSpec where
  name : Node
  ip : List.Vector UInt8 4
  port : ℕ
  deriving DecidableEq

inductive JoinResult where
  | ok
  | error (reason : Term)
  | other (term : Term)

/-- The answers of everything outside. The cluster is looked at again and again, and the `i`-th look
takes `delay i` milliseconds until the clock is read. -/
structure Outside (J : Jason) (σ : Type) where
  find : List WirePredicate → Except (Failure J) (List (String × Json))
  /-- The address of a text, if it is one of four bytes. -/
  parseAddress : String → Option (List.Vector UInt8 4)
  /-- The members that Partisan lists, if it answers with a list. -/
  members : Option (List Node)
  join : PeerSpec → JoinResult
  cluster : ℕ → List HordeMember
  /-- No node is named `nil`. -/
  not_on_nil : ∀ i supervisor, .on supervisor "nil" ∉ cluster i
  delay : ℕ → ℕ
  start : ChildSpec (ChildSpec σ) → StartResult

/-- What is asked of those outside that can change something there. -/
inductive Call (σ : Type) where
  | join (peerSpec : PeerSpec)
  | start (childSpec : ChildSpec (ChildSpec σ))

/-- What waiting for a member came to, after how many looks, and when. -/
structure Awaited where
  result : Except HandoffError Unit
  looks : ℕ
  time : ℤ

section Handoff

variable {J : Jason} {σ : Type} (outside : Outside J σ)

def pollInterval : ℤ := 10

/-- The loop of `await_membership` with its `wait_or_timeout`, from the look `i` on, which starts at
the time `now`. A sleep takes at least as long as it is told to; what it takes longer is part of the
next look. -/
def awaitMembershipUntil (target : Node) (deadline : ℤ) (i : ℕ) (now : ℤ) : Awaited :=
  if (outside.cluster i).any (memberOn target) then ⟨.ok (), i + 1, now⟩
  else
    let time := now + outside.delay i
    let remaining := deadline - time
    if remaining ≤ 0 then ⟨.error .peerUnavailable, i + 1, time⟩
    else awaitMembershipUntil target deadline (i + 1) (time + min pollInterval remaining)
termination_by (deadline - now).toNat
decreasing_by
  simp only [pollInterval]
  omega

def awaitMembership (target : Node) (timeout : ℕ) (now : ℤ) : Awaited :=
  awaitMembershipUntil outside target (now + timeout) 0 now

def fetchId (childSpec : ChildSpec σ) : Except HandoffError Term :=
  if childSpec.id.isNil then .error .childSpecRequiresId else .ok childSpec.id

/-- An error that is a text which starts with the strategy's means that the target is gone. -/
def normalizeStart : StartResult → Except HandoffError Pid
  | .ok pid => .ok pid
  | .alreadyStarted pid => .ok pid
  | .error (.binary bytes) =>
    if (utf8 targetUnavailable).isPrefixOf bytes then .error .peerUnavailable
    else .error (.error (.binary bytes))
  | .error reason => .error (.error reason)
  | .other term => .error (.result term)

/-- `Handoff.start_child`. -/
def handoff (target : Node) (childSpec : ChildSpec σ) (timeout : ℕ) (now : ℤ) :
    Method (List (Call σ)) HandoffError Pid := do
  liftM (awaitMembership outside target timeout now).result
  let _ ← liftM (fetchId childSpec)
  let targetSpec := putTarget childSpec target
  modify (· ++ [.start targetSpec])
  liftM (normalizeStart (outside.start targetSpec))

end Handoff

/-! ## Waiting

The loop is defined by recursion on the time that is left, which a sleep makes smaller. `Ended` is
what can be said of its end from any look on. How many looks there are is bounded by the timeout:
each look but the last one is followed by a sleep of ten milliseconds, or by one up to the
deadline. -/

section Waiting

variable {J : Jason} {σ : Type} (outside : Outside J σ)

/-- The target is seen at a look. -/
def Seen (target : Node) (i : ℕ) : Prop := (outside.cluster i).any (memberOn target) = true

/-- Waiting from some look on came to its end: the target was seen at the last look and not before,
or it was never seen and the deadline has passed. -/
def Ended (target : Node) (deadline : ℤ) (i : ℕ) (awaited : Awaited) : Prop :=
  (awaited.result = .ok () ∧ Seen outside target (awaited.looks - 1)
      ∧ ∀ j, i ≤ j → j < awaited.looks - 1 → ¬Seen outside target j)
    ∨ (awaited.result = .error .peerUnavailable
      ∧ (∀ j, i ≤ j → j < awaited.looks → ¬Seen outside target j) ∧ deadline ≤ awaited.time)

theorem ended_awaitMembershipUntil (target : Node) (deadline : ℤ) (i : ℕ) (now : ℤ) :
    i < (awaitMembershipUntil outside target deadline i now).looks
      ∧ Ended outside target deadline i (awaitMembershipUntil outside target deadline i now) := by
  fun_induction awaitMembershipUntil outside target deadline i now with
  | case1 i now hseen =>
    refine ⟨Nat.lt_succ_self i, Or.inl ⟨rfl, hseen, fun j hij hj ↦ ?_⟩⟩
    exact absurd hj (by simp only [Nat.add_sub_cancel]; omega)
  | case2 i now hseen time remaining hremaining =>
    refine ⟨Nat.lt_succ_self i, Or.inr ⟨rfl, fun j hij hj ↦ ?_, sub_nonpos.mp hremaining⟩⟩
    obtain rfl : j = i := Nat.le_antisymm (Nat.lt_succ_iff.mp hj) hij
    exact hseen
  | case3 i now hseen time remaining hremaining ih =>
    obtain ⟨hlooks, hended⟩ := ih
    refine ⟨by omega, ?_⟩
    -- The look `i` is one more at which the target was not seen.
    have hmore : ∀ {n : ℕ}, (∀ j, i + 1 ≤ j → j < n → ¬Seen outside target j) →
        ∀ j, i ≤ j → j < n → ¬Seen outside target j := by
      intro n hno j hij hj
      rcases Nat.eq_or_lt_of_le hij with rfl | hlt
      · exact hseen
      · exact hno j hlt hj
    rcases hended with ⟨hresult, hlast, hno⟩ | ⟨hresult, hno, htime⟩
    · exact Or.inl ⟨hresult, hlast, hmore hno⟩
    · exact Or.inr ⟨hresult, hmore hno, htime⟩

theorem looks_awaitMembershipUntil_le (target : Node) (deadline : ℤ) (i : ℕ) (now : ℤ) :
    10 * ((awaitMembershipUntil outside target deadline i now).looks : ℤ)
      ≤ 10 * (i + 1) + max 0 (deadline - now) + 9 := by
  fun_induction awaitMembershipUntil outside target deadline i now with
  | case1 i now hseen => push_cast; omega
  | case2 i now hseen time remaining hremaining => push_cast; omega
  | case3 i now hseen time remaining hremaining ih =>
    simp only [pollInterval] at ih ⊢
    push_cast at ih
    omega

/-- **Waiting ends.** However slow the looks are, the cluster is looked at no more than once for
each ten milliseconds of the timeout, and twice on top. Waiting succeeds just when the target is
seen, at once; it fails only after the deadline, when no look has seen the target. -/
theorem awaitMembership_ends (target : Node) (timeout : ℕ) (now : ℤ) :
    10 * (awaitMembership outside target timeout now).looks ≤ timeout + 19
      ∧ 0 < (awaitMembership outside target timeout now).looks
      ∧ Ended outside target (now + timeout) 0 (awaitMembership outside target timeout now) := by
  obtain ⟨hlooks, hended⟩ := ended_awaitMembershipUntil outside target (now + timeout) 0 now
  have hle := looks_awaitMembershipUntil_le outside target (now + timeout) 0 now
  exact ⟨by rw [awaitMembership]; omega, hlooks, hended⟩

end Waiting

/-! ## Starting a child

`plan` is the part that asks and changes nothing; it was cut off from the source's function so that
what is decided can be told from what is done. -/

inductive PlaceError (J : Jason) where
  | requirement (error : RequirementError)
  | noMatchingPeer
  | invalidResult (result : List (String × Json))
  | discoveryFailed (reason : Failure J)
  | unauthorizedNodeName (name : String)
  | invalidPartisanEndpoint
  | joinFailed (reason : Term)
  | handoffFailed (reason : HandoffError)

section Start

variable {J : Jason} {σ : Type} (outside : Outside J σ)

def findFirst : Except (Failure J) (List (String × Json)) → Except (PlaceError J) Json
  | .ok result =>
    match result.lookup "peers" with
    | some (.array (.object peer :: _)) => .ok (.object peer)
    | some (.array []) => .error .noMatchingPeer
    | _ => .error (.invalidResult result)
  | .error (.daemon error) =>
    if error = "no_matching_peer" then .error .noMatchingPeer
    else .error (.discoveryFailed (.daemon error))
  | .error reason => .error (.discoveryFailed reason)

/-- The node that a peer may be, with the name that it advertises. -/
def authorize (peer : Json) (authorizedNodes : List (String × Term)) :
    Except (PlaceError J) (Node × String) :=
  match peer.get? "node_name" with
  | some (.string name) =>
    match authorizedNodes.lookup name with
    | some (.atom node) => .ok (node, name)
    | _ => .error (.unauthorizedNodeName name)
  | _ => .error .invalidPartisanEndpoint

def peerSpec (peer : Json) (node : Node) : Except (PlaceError J) PeerSpec :=
  match peer.get? "partisan_ip", peer.get? "partisan_port" with
  | some (.string ip), some (.integer port) =>
    if 1 ≤ port ∧ port ≤ 65535 then
      match outside.parseAddress ip with
      | some address => .ok ⟨node, address, port.toNat⟩
      | none => .error .invalidPartisanEndpoint
    else .error .invalidPartisanEndpoint
  | _, _ => .error .invalidPartisanEndpoint

def connected (node : Node) (advertised : String) : Bool :=
  match outside.members with
  | some members => members.any fun member ↦ member = node ∨ member = advertised
  | none => false

def normalizeJoin : JoinResult → Except (PlaceError J) Unit
  | .ok => .ok ()
  | .error reason => .error (.joinFailed reason)
  | .other term => .error (.joinFailed term)

def join (spec : PeerSpec) (advertised : String) : Method (List (Call σ)) (PlaceError J) Unit :=
  if connected outside spec.name advertised then pure ()
  else do
    modify (· ++ [.join spec])
    liftM (normalizeJoin (outside.join spec) : Except (PlaceError J) Unit)

/-- The part of `startChild` that asks and changes nothing: the node that it hands to, the peer that
it joins, and the name that the peer advertises. -/
def plan (requirements : List Requirement) (authorizedNodes : List (String × Term)) :
    Except (PlaceError J) (Node × PeerSpec × String) := do
  let predicates ← (predicates requirements).mapError PlaceError.requirement
  let peer ← findFirst (outside.find predicates)
  let (node, advertised) ← authorize peer authorizedNodes
  let spec ← peerSpec outside peer node
  pure (node, spec, advertised)

/-- `Network.start_child`. -/
def startChild (requirements : List Requirement) (childSpec : ChildSpec σ)
    (authorizedNodes : List (String × Term)) (timeout : ℕ) (now : ℤ) :
    Method (List (Call σ)) (PlaceError J) Pid := do
  let (node, spec, advertised) ← liftM (plan outside requirements authorizedNodes)
  join outside spec advertised
  (handoff outside node childSpec timeout now).mapError .handoffFailed

end Start

/-! ## Where a child is placed

`Fits` is what the strategy is for, and both halves of the result are about it: what is chosen fits,
and where nothing is chosen nothing would have fitted. -/

section Strategy

variable {σ : Type} {ring : Ring σ} {childSpec : ChildSpec σ}

/-- A member has all modules that a child requires. -/
def HasModules (ring : Ring σ) (childSpec : ChildSpec σ) (member : Member) : Prop :=
  ∃ required, requiredModules childSpec.metadata = some required
    ∧ ∀ name ∈ required, name ∈ ring.modulesFor member.node

/-- A child may be placed on a member: on its target if it has one, and otherwise where the modules
are that it requires. -/
def Fits (ring : Ring σ) (childSpec : ChildSpec σ) (member : Member) : Prop :=
  match target? childSpec.metadata with
  | none => HasModules ring childSpec member
  | some target => .atom member.node = target

theorem chooseTarget_eq_ok {target : MetaValue} {alive : List Member} {member : Member}
    (h : chooseTarget ring target alive = .ok member) :
    member ∈ alive ∧ .atom member.node = target := by
  rw [chooseTarget] at h
  split at h
  · cases h
  · next found hfound =>
    obtain rfl := Except.ok.inj h
    exact ⟨List.mem_of_find?_eq_some hfound, by simpa using List.find?_some hfound⟩

theorem chooseTarget_eq_error {target : MetaValue} {alive : List Member} {text : String}
    (h : chooseTarget ring target alive = .error text) :
    text = targetUnavailable ++ ring.inspect target
      ∧ ∀ member ∈ alive, .atom member.node ≠ target := by
  rw [chooseTarget] at h
  split at h
  · next hnone =>
    refine ⟨(Except.error.inj h).symm, fun member hmem ↦ ?_⟩
    simpa using List.find?_eq_none.mp hnone member hmem
  · cases h

/-- What is chosen among the members with the required modules. -/
theorem chooseByRequirements_spec {alive : List Member} {choice : Except String (Option Member)}
    (h : chooseByRequirements ring childSpec alive = some choice) :
    (∃ member ∈ alive, choice = .ok (some member) ∧ HasModules ring childSpec member)
      ∨ ((∃ text, choice = .error text) ∧ ∀ member ∈ alive, ¬HasModules ring childSpec member) := by
  rw [chooseByRequirements] at h
  split at h
  · next hnone =>
    obtain rfl := Option.some.inj h
    exact Or.inr ⟨⟨_, rfl⟩, by simp [hnone]⟩
  · obtain ⟨required, hrequired, h⟩ := Option.map_eq_some_iff.mp h
    have hcandidate : ∀ member, member ∈ candidates ring required alive ↔
        member ∈ alive ∧ HasModules ring childSpec member := by
      intro member
      simp [candidates, HasModules, hrequired]
    dsimp only at h
    split at h
    · next hempty =>
      subst h
      refine Or.inr ⟨⟨_, rfl⟩, fun member hmem hmodules ↦ ?_⟩
      have hmem' := (hcandidate member).mpr ⟨hmem, hmodules⟩
      rw [hempty] at hmem'
      exact absurd hmem' List.not_mem_nil
    · next hne =>
      subst h
      -- The ring picks the name of a candidate, so the search for the name finds one.
      have hnames : (candidates ring required alive).map Member.name ≠ [] :=
        mt List.map_eq_nil_iff.mp hne
      have hchosen := ring.keyToNode_mem _ (ring.hash (childSpec.start, childSpec.metadata)) hnames
      obtain ⟨member, hmember, hname⟩ := List.mem_map.mp hchosen
      have hsome : ((candidates ring required alive).find? fun member ↦ member.name =
          ring.keyToNode _ (ring.hash (childSpec.start, childSpec.metadata))).isSome = true :=
        List.find?_isSome.mpr ⟨member, hmember, decide_eq_true hname⟩
      obtain ⟨found, hfound⟩ := Option.isSome_iff_exists.mp hsome
      obtain ⟨hmem, hmodules⟩ := (hcandidate found).mp (List.mem_of_find?_eq_some hfound)
      exact Or.inl ⟨found, hmem, by rw [hfound], hmodules⟩

/-- **The strategy is sound and complete.** Whenever it chooses, it chooses an alive member that the
child may be placed on, and it gives an error only if there is no such member. -/
theorem chosen_fits {members : List Member} {choice : Except String (Option Member)}
    (h : chooseNode ring childSpec members = some choice) :
    (∃ member ∈ members, choice = .ok (some member) ∧ member.alive = true
        ∧ Fits ring childSpec member)
      ∨ ((∃ text, choice = .error text)
        ∧ ∀ member ∈ members, member.alive = true → ¬Fits ring childSpec member) := by
  simp only [chooseNode] at h
  simp only [Fits]
  cases htarget : target? childSpec.metadata with
  | none =>
    rw [htarget] at h
    rcases chooseByRequirements_spec h with ⟨member, hmem, hchoice, hfits⟩ | ⟨herror, hnone⟩
    · obtain ⟨hmem, halive⟩ := List.mem_filter.mp hmem
      exact Or.inl ⟨member, hmem, hchoice, halive, hfits⟩
    · exact Or.inr ⟨herror, fun member hmem halive ↦
        hnone member (List.mem_filter.mpr ⟨hmem, halive⟩)⟩
  | some target =>
    rw [htarget] at h
    obtain rfl := Option.some.inj h
    cases hchoice : chooseTarget ring target (members.filter Member.alive) with
    | ok member =>
      obtain ⟨hmem, htarget⟩ := chooseTarget_eq_ok hchoice
      obtain ⟨hmem, halive⟩ := List.mem_filter.mp hmem
      exact Or.inl ⟨member, hmem, rfl, halive, htarget⟩
    | error text =>
      obtain ⟨-, hnone⟩ := chooseTarget_eq_error hchoice
      exact Or.inr ⟨⟨text, rfl⟩, fun member hmem halive ↦
        hnone member (List.mem_filter.mpr ⟨hmem, halive⟩)⟩

/-- A ring that takes the first name. -/
def firstRing : Ring Unit where
  modulesFor node := if node = "a@b" then ["Worker"] else []
  hash _ := 0
  keyToNode names _ := names.headD ("", "")
  keyToNode_mem names _ h := by
    obtain ⟨name, names, rfl⟩ := List.exists_cons_of_ne_nil h
    exact List.mem_cons_self
  inspect _ := ""

theorem chosen_fits_sample :
    ∃ member ∈ [⟨"s", "c@d", true⟩, ⟨"s", "a@b", false⟩, ⟨"s", "a@b", true⟩],
      member.alive = true
        ∧ Fits firstRing ⟨.atom "child", (), [("requires", .atoms ["Worker"])]⟩ member := by
  have hchoice : chooseNode firstRing ⟨.atom "child", (), [("requires", .atoms ["Worker"])]⟩
      [⟨"s", "c@d", true⟩, ⟨"s", "a@b", false⟩, ⟨"s", "a@b", true⟩]
        = some (.ok (some ⟨"s", "a@b", true⟩)) := rfl
  rcases chosen_fits hchoice with ⟨member, hmem, -, halive, hfits⟩ | ⟨⟨text, htext⟩, -⟩
  · exact ⟨member, hmem, halive, hfits⟩
  · cases htext

end Strategy

/-! ## The calls of a run

Without a plan a run calls nothing. With one it joins the peer, unless it is connected already, and
then hands over the child; and the child is started only if waiting for the target has succeeded,
which means that the last look that was made has seen it and none before. So the calls of a run are
known from its plan (`after_startChild`), and the plan from the answer of the daemon
(`AsksDaemon.of_plan`). -/

section Calls

variable {J : Jason} {σ : Type} {outside : Outside J σ}

theorem target?_putTarget (childSpec : ChildSpec σ) {node : Node} (h : node ≠ "nil") :
    target? (putTarget childSpec node).metadata = some (.atom node) := by
  simp [target?, putTarget, putEntry, h]

theorem chooseNode_putTarget (ring : Ring (ChildSpec σ)) (childSpec : ChildSpec σ) {node : Node}
    (h : node ≠ "nil") (members : List Member) :
    (∃ member ∈ members, member.alive = true ∧ member.node = node
        ∧ chooseNode ring (putTarget childSpec node) members = some (.ok (some member)))
      ∨ ∃ text, chooseNode ring (putTarget childSpec node) members = some (.error text)
        ∧ normalizeStart (.error (.string text)) = .error .peerUnavailable := by
  have htarget := target?_putTarget childSpec h
  cases hchoice : chooseTarget ring (.atom node) (members.filter Member.alive) with
  | ok member =>
    obtain ⟨hmem, hnode⟩ := chooseTarget_eq_ok hchoice
    obtain ⟨hmem, halive⟩ := List.mem_filter.mp hmem
    refine Or.inl ⟨member, hmem, halive, MetaValue.atom.inj hnode, ?_⟩
    simp only [chooseNode, htarget, hchoice]
    rfl
  | error text =>
    obtain ⟨rfl, -⟩ := chooseTarget_eq_error hchoice
    refine Or.inr ⟨_, by simp only [chooseNode, htarget, hchoice]; rfl, ?_⟩
    have hprefix : (utf8 targetUnavailable).isPrefixOf
        (utf8 (targetUnavailable ++ ring.inspect (.atom node))) = true := by
      rw [utf8_append, List.isPrefixOf_iff_prefix]
      exact List.prefix_append _ _
    simp only [Term.string, normalizeStart, hprefix, if_true]

theorem after_join (outside : Outside J σ) (spec : PeerSpec) (advertised : String)
    (s : List (Call σ)) :
    ∃ calls : List (Call σ), calls.Sublist [.join spec]
      ∧ (join outside spec advertised).after s = s ++ calls := by
  rw [join]
  split
  · exact ⟨[], List.nil_sublist _, (List.append_nil s).symm⟩
  · refine ⟨[.join spec], List.Sublist.refl _, ?_⟩
    cases normalizeJoin (J := J) (outside.join spec) <;> rfl

theorem after_handoff (outside : Outside J σ) (target : Node) (childSpec : ChildSpec σ)
    (timeout : ℕ) (now : ℤ) (s : List (Call σ)) :
    ∃ calls : List (Call σ), calls.Sublist [.start (putTarget childSpec target)]
      ∧ (handoff outside target childSpec timeout now).after s = s ++ calls
      ∧ (calls ≠ [] → (awaitMembership outside target timeout now).result = .ok ()) := by
  have hnone : ∀ {P : Prop}, (handoff outside target childSpec timeout now).after s = s →
      ∃ calls : List (Call σ), calls.Sublist [.start (putTarget childSpec target)]
        ∧ (handoff outside target childSpec timeout now).after s = s ++ calls ∧ (calls ≠ [] → P) :=
    fun h ↦ ⟨[], List.nil_sublist _, h.trans (List.append_nil s).symm, fun hne ↦ absurd rfl hne⟩
  cases hresult : (awaitMembership outside target timeout now).result with
  | error error => exact hnone (by rw [handoff, hresult]; rfl)
  | ok u =>
    cases hid : fetchId childSpec with
    | error error => exact hnone (by rw [handoff, hresult, hid]; rfl)
    | ok id =>
      refine ⟨[.start (putTarget childSpec target)], List.Sublist.refl _, ?_, fun _ ↦ rfl⟩
      rw [handoff, hresult, hid]
      cases hstart : normalizeStart (outside.start (putTarget childSpec target)) <;>
        simp only [hstart] <;> rfl

theorem seen_of_awaitMembership {target : Node} {timeout : ℕ} {now : ℤ}
    (h : (awaitMembership outside target timeout now).result = .ok ()) :
    ∃ last, (awaitMembership outside target timeout now).looks = last + 1
      ∧ Seen outside target last ∧ ∀ j < last, ¬Seen outside target j := by
  obtain ⟨hlooks, hended⟩ := ended_awaitMembershipUntil outside target (now + timeout) 0 now
  rcases hended with ⟨-, hseen, hno⟩ | ⟨hresult, -, -⟩
  · exact ⟨_, (Nat.sub_add_cancel hlooks).symm, hseen, fun j hj ↦ hno j (Nat.zero_le j) hj⟩
  · rw [awaitMembership, hresult] at h
    cases h

theorem not_seen_nil (outside : Outside J σ) (i : ℕ) : ¬Seen outside "nil" i := by
  intro h
  obtain ⟨member, hmem, hon⟩ := List.any_eq_true.mp h
  cases member with
  | on supervisor node =>
    obtain rfl : node = "nil" := of_decide_eq_true hon
    exact outside.not_on_nil i supervisor hmem
  | other term => cases hon

theorem after_startChild_of_plan {requirements : List Requirement}
    {authorizedNodes : List (String × Term)} {node : Node} {spec : PeerSpec} {advertised : String}
    (h : plan outside requirements authorizedNodes = .ok (node, spec, advertised))
    (childSpec : ChildSpec σ) (timeout : ℕ) (now : ℤ) (s : List (Call σ)) :
    (startChild outside requirements childSpec authorizedNodes timeout now).after s
      = (join outside spec advertised >>= fun _ ↦
        (handoff outside node childSpec timeout now).mapError .handoffFailed).after s := by
  rw [startChild, h]
  rfl

/-- The calls of a run, whatever comes of it: none without a plan, and with one at most a join of
its peer and then a start on its node. -/
theorem after_startChild (outside : Outside J σ) (requirements : List Requirement)
    (childSpec : ChildSpec σ) (authorizedNodes : List (String × Term)) (timeout : ℕ) (now : ℤ) :
    (startChild outside requirements childSpec authorizedNodes timeout now).after [] = []
      ∨ ∃ node spec advertised,
        plan outside requirements authorizedNodes = .ok (node, spec, advertised)
          ∧ ∃ joins starts : List (Call σ), joins.Sublist [.join spec]
            ∧ starts.Sublist [.start (putTarget childSpec node)]
            ∧ (startChild outside requirements childSpec authorizedNodes timeout now).after []
              = joins ++ starts
            ∧ (starts ≠ [] → (awaitMembership outside node timeout now).result = .ok ()) := by
  cases hplan : plan outside requirements authorizedNodes with
  | error error => exact Or.inl (by rw [startChild, hplan]; rfl)
  | ok found =>
    obtain ⟨node, spec, advertised⟩ := found
    refine Or.inr ⟨node, spec, advertised, rfl, ?_⟩
    obtain ⟨joins, hjoins, hjoin⟩ := after_join outside spec advertised []
    rw [List.nil_append] at hjoin
    rw [after_startChild_of_plan hplan]
    rcases Method.after_bind (join outside spec advertised) _ [] with ⟨u, -, hrest⟩ | hrest
    · obtain ⟨starts, hstarts, hhandoff, hseen⟩ :=
        after_handoff outside node childSpec timeout now joins
      exact ⟨joins, starts, hjoins, hstarts, by rw [hrest, hjoin]; exact hhandoff, hseen⟩
    · exact ⟨joins, [], hjoins, List.nil_sublist _, by rw [hrest, hjoin, List.append_nil],
        fun hne ↦ absurd rfl hne⟩

theorem findFirst_eq_ok {answer : Except (Failure J) (List (String × Json))} {peer : Json}
    (h : findFirst answer = .ok peer) :
    ∃ result rest, answer = .ok result ∧ result.lookup "peers" = some (.array (peer :: rest)) := by
  rw [findFirst.eq_def] at h
  split at h
  · split at h
    · next hpeers =>
      obtain rfl := Except.ok.inj h
      exact ⟨_, _, rfl, hpeers⟩
    all_goals cases h
  · split at h <;> cases h
  · cases h

theorem authorize_eq_ok {peer : Json} {authorizedNodes : List (String × Term)}
    {found : Node × String} (h : authorize (J := J) peer authorizedNodes = .ok found) :
    peer.get? "node_name" = some (.string found.2)
      ∧ authorizedNodes.lookup found.2 = some (.atom found.1) := by
  rw [authorize] at h
  split at h
  · next name hname =>
    split at h
    · next node hnode =>
      obtain rfl := Except.ok.inj h
      exact ⟨hname, hnode⟩
    · cases h
  · cases h

theorem peerSpec_eq_ok {peer : Json} {node : Node} {spec : PeerSpec}
    (h : peerSpec outside peer node = .ok spec) :
    ∃ ip port address, peer.get? "partisan_ip" = some (.string ip)
      ∧ peer.get? "partisan_port" = some (.integer port)
      ∧ outside.parseAddress ip = some address ∧ spec = ⟨node, address, port.toNat⟩ := by
  rw [peerSpec] at h
  split at h
  · next ip port hip hport =>
    split at h
    · split at h
      · next address haddress =>
        exact ⟨ip, port, address, hip, hport, haddress, (Except.ok.inj h).symm⟩
      · cases h
    · cases h
  · cases h

section Daemon

variable {I : Iroh} {S : Type} {shows : Shows I} {order : HashOrder (ActiveRecord I)}
  {time : UInt64} {r : Registry I S}

/-- Whatever is found outside is what the daemon answers from its registry. -/
def AsksDaemon (outside : Outside J σ) (shows : Shows I) (order : HashOrder (ActiveRecord I))
    (time : UInt64) (r : Registry I S) : Prop :=
  ∀ wire result, outside.find wire = .ok result →
    ∃ jsons id, wire.mapM WirePredicate.json? = some jsons ∧ id < 2 ^ 64
      ∧ answerFind shows order time id r jsons = some (.ok result)

theorem AsksDaemon.offers (h : AsksDaemon outside shows order time r)
    {requirements : List Requirement} {wire : List WirePredicate} {result : List (String × Json)}
    (hwire : predicates requirements = .ok wire) (hresult : outside.find wire = .ok result) :
    ∃ peers, peers ≠ [] ∧ result = peersJson shows.endpoint peers
      ∧ ∀ peer ∈ peers, Offers time r requirements peer := by
  obtain ⟨jsons, id, hjsons, hid, hanswer⟩ := h wire result hresult
  obtain ⟨parsed, hparse, hparsed⟩ := Option.map_eq_some_iff.mp hanswer
  cases parsed with
  | error error => cases writeAnswer_eq_ok hparsed
  | ok ps =>
    have hmeans := parsePredicates_iff.mp ⟨wire, jsons, hwire, hjsons, hparse⟩
    rcases answerFind_of_means order time hid r hmeans hparse with
      ⟨peers, -, hne, hoffers, hpeers⟩ | ⟨hnone, -⟩
    · have hwritten := writeAnswer_eq_ok (Option.some.inj (hpeers.symm.trans hanswer))
      exact ⟨peers, hne, (Except.ok.inj hwritten).symm, fun peer ↦ (hoffers peer).mp⟩
    · rw [hanswer] at hnone
      cases hnone

/-- The peer that a run uses: the first one that it was answered for its requirements. -/
def FirstFound (outside : Outside J σ) (shows : Shows I) (requirements : List Requirement)
    (peer : Peer I) : Prop :=
  ∃ wire peers, predicates requirements = .ok wire
    ∧ outside.find wire = .ok (peersJson shows.endpoint (peer :: peers))

/-- A plan is for the authorized node of the first peer found, which offers what is required. -/
theorem AsksDaemon.of_plan (h : AsksDaemon outside shows order time r)
    (haddress : ∀ ip, outside.parseAddress (ipv4Text ip) = some ip)
    {requirements : List Requirement} {authorizedNodes : List (String × Term)} {node : Node}
    {spec : PeerSpec} {advertised : String}
    (hplan : plan outside requirements authorizedNodes = .ok (node, spec, advertised)) :
    ∃ peer, FirstFound outside shows requirements peer ∧ Offers time r requirements peer
      ∧ authorizedNodes.lookup peer.nodeName.str = some (.atom node)
      ∧ spec = ⟨node, peer.partisanIp, peer.partisanPort.val.toNat⟩ := by
  obtain ⟨wire, hwire, hplan⟩ := bind_eq_ok_iff.mp hplan
  obtain ⟨json, hjson, hplan⟩ := bind_eq_ok_iff.mp hplan
  obtain ⟨found, hfound, hplan⟩ := bind_eq_ok_iff.mp hplan
  obtain ⟨spec', hspec, hplan⟩ := bind_eq_ok_iff.mp hplan
  obtain ⟨rfl, rfl, rfl⟩ : found.1 = node ∧ spec' = spec ∧ found.2 = advertised := by
    simpa using Except.ok.inj hplan
  obtain ⟨result, rest, hresult, hfirst⟩ := findFirst_eq_ok hjson
  have hwire := mapError_eq_ok_iff.mp hwire
  obtain ⟨peers, hne, rfl, hoffers⟩ := h.offers hwire hresult
  obtain ⟨peer, peers, rfl⟩ := List.exists_cons_of_ne_nil hne
  obtain rfl : peerJson shows.endpoint peer = json := by
    injection hfirst with hfirst
    injection hfirst with hfirst
    injection hfirst
  obtain ⟨hname, hnode⟩ := authorize_eq_ok hfound
  obtain ⟨ip, port, address, hip, hport, hparse, rfl⟩ := peerSpec_eq_ok hspec
  have hstr : peer.nodeName.str = found.2 := by
    injection hname with hname
    injection hname
  have htext : ipv4Text peer.partisanIp = ip := by
    injection hip with hip
    injection hip
  have hnat : (peer.partisanPort.val.toNat : ℤ) = port := by
    injection hport with hport
    injection hport
  rw [← htext, haddress] at hparse
  obtain rfl := Option.some.inj hparse
  refine ⟨peer, ⟨wire, peers, hwire, hresult⟩, hoffers peer List.mem_cons_self, hstr ▸ hnode, ?_⟩
  rw [← hnat, Int.toNat_natCast]

/-- **A child is placed where its requirements ask for.** Whatever the network answers and however a
run ends, it calls nothing, or it uses the first peer that the daemon has answered for the
requirements. This peer satisfies all of them, has room and has not expired, and there is a node
authorized under its name. The run joins at most this peer, at its announced address, and it then
starts at most the child with this node as its target. It does so only if waiting has succeeded,
which is when the last look that was made at the cluster has seen the node, and then the strategy
chooses an alive member on the node or gives an error that is reported as unavailable. -/
theorem placed_where_required (h : AsksDaemon outside shows order time r)
    (haddress : ∀ ip, outside.parseAddress (ipv4Text ip) = some ip)
    (requirements : List Requirement) (childSpec : ChildSpec σ)
    (authorizedNodes : List (String × Term)) (timeout : ℕ) (now : ℤ) :
    (startChild outside requirements childSpec authorizedNodes timeout now).after [] = []
      ∨ ∃ peer node, FirstFound outside shows requirements peer ∧ Offers time r requirements peer
        ∧ authorizedNodes.lookup peer.nodeName.str = some (.atom node)
        ∧ ∃ joins starts : List (Call σ),
          joins.Sublist [.join ⟨node, peer.partisanIp, peer.partisanPort.val.toNat⟩]
          ∧ starts.Sublist [.start (putTarget childSpec node)]
          ∧ (startChild outside requirements childSpec authorizedNodes timeout now).after []
            = joins ++ starts
          ∧ (starts ≠ [] →
            (∃ last, (awaitMembership outside node timeout now).result = .ok ()
              ∧ (awaitMembership outside node timeout now).looks = last + 1
              ∧ Seen outside node last ∧ ∀ j < last, ¬Seen outside node j)
            ∧ ∀ ring members,
              (∃ member ∈ members, member.alive = true ∧ member.node = node
                ∧ chooseNode ring (putTarget childSpec node) members = some (.ok (some member)))
              ∨ ∃ text, chooseNode ring (putTarget childSpec node) members = some (.error text)
                ∧ normalizeStart (.error (.string text)) = .error .peerUnavailable) := by
  rcases after_startChild outside requirements childSpec authorizedNodes timeout now with
    hnone | ⟨node, spec, advertised, hplan, joins, starts, hjoins, hstarts, hcalls, hawaited⟩
  · exact Or.inl hnone
  · obtain ⟨peer, hfirst, hoffers, hnode, rfl⟩ := h.of_plan haddress hplan
    refine Or.inr ⟨peer, node, hfirst, hoffers, hnode, joins, starts, hjoins, hstarts, hcalls,
      fun hne ↦ ?_⟩
    obtain ⟨last, hlooks, hseen, hbefore⟩ := seen_of_awaitMembership (hawaited hne)
    refine ⟨⟨last, hawaited hne, hlooks, hseen, hbefore⟩, fun ring members ↦
      chooseNode_putTarget ring childSpec ?_ members⟩
    rintro rfl
    exact not_seen_nil outside last hseen

end Daemon

end Calls

/-! ### Two members

The daemon has heard of two members. The second one has what the child requires; it is no neighbour
yet, and its supervisor is in the cluster from the third look on. -/

def sampleOutside : Outside ⟨Unit, Unit, fun _ ↦ .error (), fun _ ↦ none⟩ Unit where
  find wire :=
    match (wire.mapM WirePredicate.json?).bind
      (answerFind memberShows ⟨id, List.Perm.refl⟩ 0 1 Registry.bothHeard) with
    | some (.ok result) => .ok result
    | _ => .error .timeout
  parseAddress := parseIpv4
  members := some ["a@b"]
  join _ := .ok
  cluster i := if i < 2 then [.on "supervisor" "a@b"]
    else [.on "supervisor" "a@b", .on "supervisor" "c@d"]
  not_on_nil i supervisor := by split <;> simp
  delay _ := 1
  start _ := .ok 0

theorem asksDaemon_sampleOutside :
    AsksDaemon sampleOutside memberShows ⟨id, List.Perm.refl⟩ 0 Registry.bothHeard := by
  intro wire result hresult
  simp only [sampleOutside] at hresult
  split at hresult
  · next result' hanswer =>
    obtain rfl := Except.ok.inj hresult
    obtain ⟨jsons, hjsons, hanswer⟩ := Option.bind_eq_some_iff.mp hanswer
    exact ⟨jsons, 1, hjsons, by decide, hanswer⟩
  · cases hresult

def sampleChild : ChildSpec Unit := ⟨.atom "child", (), []⟩

def sampleNodes : List (String × Term) := [("a@b", .atom "a@b"), ("c@d", .atom "c@d")]

theorem plan_sample :
    plan sampleOutside [gpuWanted] sampleNodes
      = .ok ("c@d", ⟨"c@d", (Registry.member true).partisanIp, 1⟩, "c@d") := by
  have hmeans : List.Forall₂ Means [gpuWanted] [Registry.gpuRequired].reverse :=
    .cons (means_gpuWanted_iff.mpr rfl) .nil
  obtain ⟨wire, jsons, hwire, hjsons, hparse⟩ := parsePredicates_iff.mpr hmeans
  have hfind : sampleOutside.find wire
      = .ok (peersJson memberShows.endpoint [(Registry.member true).peer]) := by
    simp only [sampleOutside, hjsons, Option.bind_some, answerFind_bothHeard hparse]
  have hfirst : findFirst (sampleOutside.find wire)
      = .ok (peerJson memberShows.endpoint (Registry.member true).peer) := by
    rw [hfind]
    rfl
  exact bind_eq_ok_iff.mpr ⟨wire, mapError_eq_ok_iff.mpr hwire,
    bind_eq_ok_iff.mpr ⟨_, hfirst, rfl⟩⟩

theorem awaitMembership_sample :
    awaitMembership sampleOutside "c@d" 5000 0 = ⟨.ok (), 3, 22⟩ := by
  rw [awaitMembership, awaitMembershipUntil, if_neg (by decide), if_neg (by decide),
    awaitMembershipUntil, if_neg (by decide), if_neg (by decide), awaitMembershipUntil,
    if_pos (by decide)]
  rfl

theorem after_startChild_sample :
    (startChild sampleOutside [gpuWanted] sampleChild sampleNodes 5000 0).after []
      = [.join ⟨"c@d", (Registry.member true).partisanIp, 1⟩,
        .start (putTarget sampleChild "c@d")] := by
  rw [after_startChild_of_plan plan_sample, handoff, awaitMembership_sample]
  rfl

theorem placed_where_required_sample :
    ∃ peer : Peer Iroh.pair, FirstFound sampleOutside memberShows [gpuWanted] peer
      ∧ Offers 0 Registry.bothHeard [gpuWanted] peer
      ∧ (startChild sampleOutside [gpuWanted] sampleChild sampleNodes 5000 0).after []
        = [.join ⟨"c@d", peer.partisanIp, peer.partisanPort.val.toNat⟩,
          .start (putTarget sampleChild "c@d")]
      ∧ Seen sampleOutside "c@d" 2 ∧ ∀ j < 2, ¬Seen sampleOutside "c@d" j := by
  rcases placed_where_required asksDaemon_sampleOutside (fun ip ↦ parseIpv4_eq_some_iff.mpr rfl)
    [gpuWanted] sampleChild sampleNodes 5000 0 with
    hnone | ⟨peer, node, hfirst, hoffers, -, joins, starts, hjoins, hstarts, hcalls, hstarted⟩
  · rw [after_startChild_sample] at hnone
    cases hnone
  · rw [after_startChild_sample] at hcalls
    -- There are two calls, so the run has joined the peer and started the child.
    rcases List.sublist_singleton.mp hjoins with rfl | rfl <;>
      rcases List.sublist_singleton.mp hstarts with rfl | rfl
    · exact absurd (congrArg List.length hcalls) (by simp)
    · exact absurd (congrArg List.length hcalls) (by simp)
    · exact absurd (congrArg List.length hcalls) (by simp)
    · have hspec := Call.join.inj (List.cons.inj hcalls).1
      obtain rfl : "c@d" = node := congrArg PeerSpec.name hspec
      obtain ⟨⟨last, -, hlooks, hseen, hbefore⟩, -⟩ := hstarted (List.cons_ne_nil _ _)
      obtain rfl : 2 = last := by
        rw [awaitMembership_sample] at hlooks
        exact Nat.succ.inj hlooks
      refine ⟨peer, hfirst, hoffers, ?_, hseen, hbefore⟩
      rw [after_startChild_sample, hspec]

end Placement

end NervesP2P
