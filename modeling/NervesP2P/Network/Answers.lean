import NervesP2P.Daemon.Framing
import NervesP2P.Network.Requirements

/-!
# The daemon's answer to a query

The daemon answers a `find` with the peers whose announcements match, as its registry ranks them, or
with the error that no peer matches. The answer is one frame, and no frame of the daemon is longer
than 64 KiB. An answer that would be is replaced by the error that it is too large (`writeAnswer`),
however many peers there are: some hundred peers are enough, and then none of them is found.

So what a client gets for requirements that can be read is one of three things, and which one
depends on the registry and on the length of the text alone (`requirements_found`).
-/

namespace NervesP2P

open Port (Json)

/-! ## The text of an answer

Whether an answer fits is a matter of its text, so the text is computed as the daemon prints it:
without blanks, with the fields of an object in the order of their names. How an endpoint and a
float are shown is left to the libraries (`Shows`). An answer carries the number of its request,
which is a word of 64 bits; for errors, whose texts are fixed, this is enough to see that they
always fit. -/

def integerText (value : ℤ) : List UInt8 :=
  if value < 0 then utf8 "-" ++ jsonNumber value.natAbs else jsonNumber value.toNat

@[simp] theorem integerText_natCast (n : ℕ) : integerText n = jsonNumber n := by
  rw [integerText, if_neg (by omega), Int.toNat_natCast]

section Text

variable (floatText : UInt64 → List UInt8)

mutual

/-- The text of a value, given how floats are shown. -/
def Port.Json.text : Json → List UInt8
  | .null => utf8 "null"
  | .bool true => utf8 "true"
  | .bool false => utf8 "false"
  | .integer value => integerText value
  | .float bits => floatText bits
  | .string value => jsonString value
  | .array items => utf8 "[" ++ (utf8 ",").intercalate (itemTexts items) ++ utf8 "]"
  | .object fields => objectText (fieldTexts fields)

def itemTexts : List Json → List (List UInt8)
  | [] => []
  | item :: items => item.text :: itemTexts items

def fieldTexts : List (String × Json) → List (String × List UInt8)
  | [] => []
  | (name, value) :: fields => (name, value.text) :: fieldTexts fields

end

end Text

/-- How the daemon shows an endpoint, and a float. -/
structure Shows (I : Iroh) where
  endpoint : I.EndpointId → String
  float : UInt64 → List UInt8

namespace Placement

/-- What a client is answered. -/
abbrev Answer := Except String (List (String × Json))

/-- The frame of an answer, under the number of its request. -/
def responseFrame (id : ℕ) : Answer → Json
  | .ok result => .object [("id", .integer id), ("ok", .bool true), ("result", .object result)]
  | .error error => .object [("id", .integer id), ("ok", .bool false), ("error", .string error)]

section Answers

variable {I : Iroh} {S : Type} (shows : Shows I) (order : HashOrder (ActiveRecord I)) (now : UInt64)

/-- The answer as it is written: one that is too long for a frame is replaced. -/
def writeAnswer (id : ℕ) (answer : Answer) : Answer :=
  if maxFrameSize < ((responseFrame id answer).text shows.float).length then
    .error "frame_too_large"
  else answer

/-- The daemon's answer to a `find` from its registry. There is none for a frame that it does not
read as a command. -/
def answerFind (id : ℕ) (r : Registry I S) (predicates : List Json) : Option Answer :=
  (parsePredicates predicates).map fun predicates ↦
    writeAnswer shows id (match predicates with
      | .error error => .error error.toString
      | .ok predicates =>
        match ((Registry.find order predicates now).call r).1 with
        | .ok peers => .ok (peersJson shows.endpoint peers)
        | .error error => .error error.toString)

/-- A peer whose announcement has not expired, leaves room and satisfies the requirements. -/
def Offers (r : Registry I S) (requirements : List Requirement) (peer : Peer I) : Prop :=
  ∃ (e : I.EndpointId) (record : ActiveRecord I), r.records[e]? = some record
    ∧ now < Registry.deadline record
    ∧ record.announcement.load.running < record.announcement.load.capacity
    ∧ (∀ requirement ∈ requirements, requirement.Satisfied record.announcement)
    ∧ record.announcement.peer = peer

variable {order now}

theorem mem_foundPeers_iff_offers {r : Registry I S} {requirements : List Requirement}
    {ps : List Predicate} (h : List.Forall₂ Means requirements ps.reverse) {peer : Peer I} :
    peer ∈ (r.expire now).foundPeers order ps ↔ Offers now r requirements peer := by
  have hmatches : ∀ a : Announcement I, (∀ p ∈ ps, matchesPredicate a p = true) ↔
      ∀ requirement ∈ requirements, requirement.Satisfied a := by
    intro a
    rw [forall_mem_iff_of_forall₂ h fun _ _ hmeans ↦ (hmeans.matches_iff (a := a)).symm]
    simp only [List.mem_reverse]
  simp only [Registry.mem_foundPeers, Registry.getElem?_expire, hmatches, Offers, and_assoc]
  rfl

variable {shows}

theorem length_errorFrame (floatText : UInt64 → List UInt8) (id : ℕ) (error : String) :
    ((responseFrame id (.error error)).text floatText).length
      = digits id + (jsonString error).length + 27 := by
  have hnames : (jsonString "id").length = 4 ∧ (jsonString "ok").length = 4
      ∧ (jsonString "error").length = 7 := by decide
  obtain ⟨hid, hok, herror⟩ := hnames
  have htext : (responseFrame id (.error error)).text floatText
      = objectText [("id", jsonNumber id), ("ok", utf8 "false"), ("error", jsonString error)] := by
    simp [responseFrame, Json.text, fieldTexts]
  rw [htext, length_objectText (List.cons_ne_nil _ _)]
  simp only [List.map_cons, List.map_nil, List.sum_cons, List.sum_nil, length_jsonNumber, hid, hok,
    herror]
  show 4 + digits id + 2 + (4 + 5 + 2 + (7 + (jsonString error).length + 2 + 0)) + 1 = _
  omega

/-- An error that the daemon gives for a registry is never too long. -/
theorem writeAnswer_noMatchingPeer {id : ℕ} (hid : id < 2 ^ 64) :
    writeAnswer shows id (.error "no_matching_peer") = .error "no_matching_peer" := by
  have hdigits := digits_le hid
  have herror : (jsonString "no_matching_peer").length = 18 := by decide
  rw [writeAnswer, if_neg]
  rw [length_errorFrame, herror, maxFrameSize]
  omega

theorem writeAnswer_eq_ok {id : ℕ} {answer : Answer} {result : List (String × Json)}
    (h : writeAnswer shows id answer = .ok result) : answer = .ok result := by
  rw [writeAnswer] at h
  split at h
  · cases h
  · exact h

/-- Requirements that the daemon reads are answered with the peers that offer what they ask for, as
long as these fit into a frame. -/
theorem answerFind_of_means (order : HashOrder (ActiveRecord I)) (now : UInt64) {id : ℕ}
    (hid : id < 2 ^ 64) (r : Registry I S) {requirements : List Requirement} {ps : List Predicate}
    (h : List.Forall₂ Means requirements ps.reverse) {jsons : List Json}
    (hparse : parsePredicates jsons = some (.ok ps)) :
    (∃ peers, (Registry.find order ps now).Returns r peers (r.expire now) ∧ peers ≠ []
        ∧ (∀ peer, peer ∈ peers ↔ Offers now r requirements peer)
        ∧ answerFind shows order now id r jsons
          = some (writeAnswer shows id (.ok (peersJson shows.endpoint peers))))
      ∨ (answerFind shows order now id r jsons = some (.error "no_matching_peer")
        ∧ ∀ peer, ¬Offers now r requirements peer) := by
  simp only [answerFind, hparse, Option.map_some]
  rcases Method.returns_or_fails (Registry.find order ps now) r with ⟨peers, hfind⟩ | ⟨err, hfind⟩
  · obtain ⟨rfl, hne, hexpire⟩ := Registry.returns_find.mp hfind
    rw [hfind]
    exact Or.inl ⟨_, Registry.returns_find.mpr ⟨rfl, hne, rfl⟩, hne,
      fun peer ↦ mem_foundPeers_iff_offers h, rfl⟩
  · obtain ⟨hempty, rfl, -⟩ := Registry.fails_find.mp hfind
    rw [hfind]
    refine Or.inr ⟨congrArg some (writeAnswer_noMatchingPeer hid), fun peer hoffers ↦ ?_⟩
    have hmem : peer ∈ (r.expire now).foundPeers order ps :=
      (mem_foundPeers_iff_offers h).mpr hoffers
    rw [hempty] at hmem
    exact absurd hmem List.not_mem_nil

theorem exists_forall₂_means {requirements : List Requirement}
    (h : ∀ requirement ∈ requirements, ∃ p, Means requirement p) :
    ∃ ps : List Predicate, List.Forall₂ Means requirements ps.reverse := by
  suffices hforall : ∃ ps : List Predicate, List.Forall₂ Means requirements ps by
    obtain ⟨ps, hps⟩ := hforall
    exact ⟨ps.reverse, by rwa [List.reverse_reverse]⟩
  induction requirements with
  | nil => exact ⟨[], .nil⟩
  | cons requirement requirements ih =>
    obtain ⟨p, hp⟩ := h requirement List.mem_cons_self
    obtain ⟨ps, hps⟩ := ih fun requirement' hmem ↦ h requirement' (List.mem_cons_of_mem _ hmem)
    exact ⟨p :: ps, .cons hp hps⟩

variable (shows)

end Answers

/-! ### Two members

Of the two members that have announced themselves, the second one alone has what is asked for. -/

def gpuWanted : Requirement := (.atom "gpu", .bool true)

theorem means_gpuWanted_iff {p : Predicate} : Means gpuWanted p ↔ p = Registry.gpuRequired := by
  constructor
  · rintro ⟨value, hname⟩
    rename_i text
    obtain rfl : text = ⟨"gpu", by decide⟩ :=
      Text.bytes_inj.mp (Option.some.inj (hname.symm.trans rfl))
    rfl
  · rintro rfl
    exact .bool true rfl

theorem foundPeers_bothHeard :
    (Registry.bothHeard.expire 0).foundPeers ⟨id, List.Perm.refl⟩ [Registry.gpuRequired]
      = [(Registry.member true).peer] := by
  have hlength : ((Registry.bothHeard.expire 0).foundPeers ⟨id, List.Perm.refl⟩
      [Registry.gpuRequired]).length = 1 := by decide +kernel
  obtain ⟨peer, hpeer⟩ := List.length_eq_one_iff.mp hlength
  have hmem : peer ∈ (Registry.bothHeard.expire 0).foundPeers ⟨id, List.Perm.refl⟩
      [Registry.gpuRequired] := by
    rw [hpeer]
    exact List.mem_singleton_self peer
  obtain ⟨e, record, he, -, hmatches, rfl⟩ := Registry.mem_foundPeers.mp hmem
  obtain rfl := Option.some.inj
    ((Registry.getElem?_bothHeard e).symm.trans (Registry.getElem?_expire.mp he).1)
  have hsecond : e = true := (Registry.matchesPredicate_member e).symm.trans
    (hmatches Registry.gpuRequired (List.mem_singleton_self _))
  rw [hpeer]
  exact congrArg (fun e ↦ [(Registry.member e).peer]) hsecond

/-- How the two endpoints are shown. -/
def memberShows : Shows Iroh.pair where
  endpoint e := cond e "second" "first"
  float _ := []

theorem writeAnswer_bothHeard :
    writeAnswer memberShows 1 (.ok (peersJson memberShows.endpoint [(Registry.member true).peer]))
      = .ok (peersJson memberShows.endpoint [(Registry.member true).peer]) := by
  rw [writeAnswer, if_neg (by decide +kernel)]

theorem answerFind_bothHeard {jsons : List Json}
    (h : parsePredicates jsons = some (.ok [Registry.gpuRequired])) :
    answerFind memberShows ⟨id, List.Perm.refl⟩ 0 1 Registry.bothHeard jsons
      = some (.ok (peersJson memberShows.endpoint [(Registry.member true).peer])) := by
  have hfind : (Registry.find ⟨id, List.Perm.refl⟩ [Registry.gpuRequired] 0).Returns
      Registry.bothHeard [(Registry.member true).peer] (Registry.bothHeard.expire 0) :=
    Registry.returns_find.mpr ⟨foundPeers_bothHeard.symm, List.cons_ne_nil _ _, rfl⟩
  simp only [answerFind, h, Option.map_some]
  rw [hfind]
  exact congrArg some writeAnswer_bothHeard

end Placement

end NervesP2P
