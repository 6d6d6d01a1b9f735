import NervesP2P.Network.Interface

/-!
# Requirements as queries

A caller asks for a peer by requirements: a map from names to values that the peer has to have, to
least values or to texts that a list has to contain. Each requirement becomes a predicate of the
request to the daemon, which goes through JSON twice: the client encodes it and the daemon parses
it. `Requirement.Satisfied` says what a requirement asks of an announcement without any of that, and
`matchesPredicate_iff_satisfied` that the daemon checks just this.

The client refuses requirements of another form before it asks. It does not refuse a least value
that is no unsigned number of 64 bits; there the daemon finds no command in the frame, so nothing
answers the request.
-/

namespace NervesP2P

open Port (Json Jason Failure)

namespace Placement

/-! ## Requirements

The client goes through the requirements in the order of the map and puts each predicate in front of
those before, so that the request has them in the reverse order. The first one that has no form that
it knows ends the loop. -/

/-- The name of a requirement, any term at all. -/
inductive Name where
  | atom (name : String)
  | binary (bytes : List UInt8)
  | other (term : ℕ)
  deriving DecidableEq

/-- What a requirement wants under its name. -/
inductive Wanted where
  | bool (value : Bool)
  | binary (bytes : List UInt8)
  | atLeast (value : ℤ)
  | contains (bytes : List UInt8)
  | other (term : ℕ)
  deriving DecidableEq

abbrev Requirement := Name × Wanted

inductive WireValue where
  | bool (value : Bool)
  | integer (value : ℤ)
  | binary (bytes : List UInt8)
  deriving DecidableEq

structure WirePredicate where
  op : String
  name : List UInt8
  value : WireValue
  deriving DecidableEq

inductive RequirementError where
  | invalidRequirement (requirement : Requirement)
  | invalidRequirementName (name : Name)
  deriving DecidableEq

/-- `to_string`, which shows the absent value as nothing at all. -/
def Name.toBinary? : Name → Option (List UInt8)
  | .atom name => some (if name = "nil" then [] else utf8 name)
  | .binary bytes => some bytes
  | .other _ => none

def namedPredicate (name : Name) (operation : String) (value : WireValue) :
    Except RequirementError WirePredicate :=
  match name.toBinary? with
  | some bytes => .ok ⟨operation, bytes, value⟩
  | none => .error (.invalidRequirementName name)

def predicate : Requirement → Except RequirementError WirePredicate
  | (name, .bool value) => namedPredicate name "equals" (.bool value)
  | (name, .binary bytes) => namedPredicate name "equals" (.binary bytes)
  | (name, .atLeast value) =>
    if 0 ≤ value then namedPredicate name "at_least" (.integer value)
    else .error (.invalidRequirement (name, .atLeast value))
  | (name, .contains bytes) => namedPredicate name "contains" (.binary bytes)
  | (name, .other term) => .error (.invalidRequirement (name, .other term))

/-- The loop of `predicates` over the entries that are left, up to the first that is refused. -/
def predicatesFrom (predicates : List WirePredicate) :
    List Requirement → Except RequirementError (List WirePredicate)
  | [] => .ok predicates
  | requirement :: requirements =>
    match predicate requirement with
    | .ok predicate => predicatesFrom (predicate :: predicates) requirements
    | .error error => .error error

/-- The predicates of a map of requirements, given its entries in the order of the map. -/
def predicates (requirements : List Requirement) : Except RequirementError (List WirePredicate) :=
  predicatesFrom [] requirements

theorem predicatesFrom_eq_ok_iff {acc wire : List WirePredicate}
    {requirements : List Requirement} : predicatesFrom acc requirements = .ok wire ↔
      ∃ translated, wire = translated.reverse ++ acc
        ∧ List.Forall₂ (fun requirement p ↦ predicate requirement = .ok p) requirements
          translated := by
  induction requirements generalizing acc with
  | nil => simp [predicatesFrom, eq_comm]
  | cons requirement requirements ih =>
    rw [predicatesFrom]
    split
    · next p hp =>
      rw [ih]
      constructor
      · rintro ⟨translated, rfl, hforall⟩
        exact ⟨p :: translated, by simp, .cons hp hforall⟩
      · rintro ⟨_, rfl, hforall⟩
        cases hforall with
        | @cons _ p' _ translated hp' hforall =>
          obtain rfl := Except.ok.inj (hp.symm.trans hp')
          exact ⟨translated, by simp, hforall⟩
    · next error herror =>
      simp only [reduceCtorEq, List.forall₂_cons_left_iff, herror, false_and, exists_false,
        and_false]

/-- The predicates are those of the requirements, the last one first. -/
theorem predicates_eq_ok_iff {wire : List WirePredicate} {requirements : List Requirement} :
    predicates requirements = .ok wire ↔
      List.Forall₂ (fun requirement p ↦ predicate requirement = .ok p) requirements
        wire.reverse := by
  rw [predicates, predicatesFrom_eq_ok_iff]
  constructor
  · rintro ⟨translated, rfl, hforall⟩
    simpa using hforall
  · exact fun hforall ↦ ⟨wire.reverse, by simp, hforall⟩

/-! ## Encoding -/

/-- Strings are encoded only if they are UTF-8. -/
def WireValue.json? : WireValue → Option Json
  | .bool value => some (.bool value)
  | .integer value => some (.integer value)
  | .binary bytes => (fromUtf8 bytes).map .string

def WirePredicate.json? (predicate : WirePredicate) : Option Json := do
  let name ← fromUtf8 predicate.name
  let value ← predicate.value.json?
  pure (.object [("op", .string predicate.op), ("name", .string name), ("value", value)])

/-! ## Meaning

Three forms of a requirement, three forms of a predicate. A requirement without a readable form
means nothing, and there is no predicate for it. -/

section Meaning

variable {I : Iroh} {a : Announcement I}

/-- The capability under a name is as wanted. -/
def Wanted.Satisfied (a : Announcement I) (name : Text) : Wanted → Prop
  | .bool value => a.capabilities[name]? = some (.bool value)
  | .binary bytes => ∃ text, a.capabilities[name]? = some (.text text) ∧ text.bytes = bytes
  | .atLeast value => ∃ n, a.capabilities[name]? = some (.uint n) ∧ value ≤ n.toNat
  | .contains bytes => ∃ texts, a.capabilities[name]? = some (.textList texts)
      ∧ ∃ text ∈ texts, text.bytes = bytes
  | .other _ => False

/-- An announcement satisfies a requirement. -/
def Requirement.Satisfied (a : Announcement I) (requirement : Requirement) : Prop :=
  ∃ name : Text, requirement.1.toBinary? = some name.bytes ∧ requirement.2.Satisfied a name

/-- The predicate that the daemon is to check for a requirement. -/
inductive Means : Requirement → Predicate → Prop
  | bool {name : Name} {text : Text} (value : Bool) (hname : name.toBinary? = some text.bytes) :
      Means (name, .bool value) (.equals text (.bool value))
  | binary {name : Name} {text : Text} (value : Text) (hname : name.toBinary? = some text.bytes) :
      Means (name, .binary value.bytes) (.equals text (.text value))
  | atLeast {name : Name} {text : Text} (value : UInt64)
      (hname : name.toBinary? = some text.bytes) :
      Means (name, .atLeast value.toNat) (.atLeast text value)
  | contains {name : Name} {text : Text} (value : Text) (hname : name.toBinary? = some text.bytes) :
      Means (name, .contains value.bytes) (.contains text value)

/-- The daemon's check of a predicate decides the requirement. -/
theorem Means.matches_iff {requirement : Requirement} {p : Predicate} (h : Means requirement p) :
    matchesPredicate a p = true ↔ requirement.Satisfied a := by
  have hsatisfied : ∀ {name : Name} {text : Text} {wanted : Wanted},
      name.toBinary? = some text.bytes →
        (Requirement.Satisfied a (name, wanted) ↔ wanted.Satisfied a text) := by
    intro name text wanted hname
    constructor
    · rintro ⟨text', hname', hwanted⟩
      obtain rfl := Text.bytes_inj.mp (Option.some.inj (hname.symm.trans hname'))
      exact hwanted
    · exact fun hwanted ↦ ⟨text, hname, hwanted⟩
  cases h with
  | bool value hname =>
    rw [hsatisfied hname]
    simp [matchesPredicate, Wanted.Satisfied]
  | binary value hname =>
    rw [hsatisfied hname]
    simp [matchesPredicate, Wanted.Satisfied, Text.bytes_inj]
  | @atLeast _ text value hname =>
    rw [hsatisfied hname]
    rw [matchesPredicate, Wanted.Satisfied]
    split
    · next n hn => simp [hn, UInt64.le_iff_toNat_le]
    · next hn =>
      simp only [Bool.false_eq_true, false_iff, not_exists, not_and]
      exact fun n hcapability ↦ absurd hcapability (hn n)
  | @contains _ text value hname =>
    rw [hsatisfied hname]
    rw [matchesPredicate, Wanted.Satisfied]
    split
    · next texts htexts => simp [htexts, Text.bytes_inj]
    · next htexts =>
      simp only [Bool.false_eq_true, false_iff, not_exists, not_and]
      exact fun texts hcapability ↦ absurd hcapability (htexts texts)

end Meaning

/-! ## The way through JSON

A predicate of a request is encoded by the client and parsed by the daemon. Both ends are taken
together, so that only the names and values on either side of JSON are left: a string of a request
arrives as the text with its bytes, if these are UTF-8, and a number if it is one of the daemon's.
`Arrives` says that a requirement is sent as a predicate which the daemon reads as the given one,
and there is one lemma about it for each form. -/

/-- What the daemon makes of a predicate of a request, if it parses the frame. -/
def WirePredicate.parse (wire : WirePredicate) : Option (Except HandleError Predicate) :=
  (wire.json?.bind parsePredicate).map jsonPredicate

theorem namedPredicate_eq_ok_iff {name : Name} {operation : String} {value : WireValue}
    {wire : WirePredicate} : namedPredicate name operation value = .ok wire ↔
      ∃ bytes, name.toBinary? = some bytes ∧ wire = ⟨operation, bytes, value⟩ := by
  rw [namedPredicate]
  cases name.toBinary? <;> simp [eq_comm]

theorem json?_bind_parsePredicate {op : String} {bytes : List UInt8} {value : WireValue} :
    (WirePredicate.json? ⟨op, bytes, value⟩).bind parsePredicate =
      (fromUtf8 bytes).bind fun s ↦ value.json?.bind fun value ↦
        (Text.ofBytes? (utf8 s)).bind fun name ↦
          if op = "equals" then some (.equals name value)
          else if op = "at_least" then
            (value.unsigned? 64).map fun n ↦ .atLeast name (UInt64.ofNat n)
          else if op = "contains" then value.text?.map fun needle ↦ .contains name needle
          else none := by
  cases h : fromUtf8 bytes with
  | none => simp [WirePredicate.json?, h]
  | some s =>
    cases hvalue : value.json? with
    | none => simp [WirePredicate.json?, h, hvalue]
    | some json => simp only [WirePredicate.json?, h, hvalue]; rfl

theorem fromUtf8_bind_ofBytes?_eq_some_iff {bytes : List UInt8} {text : Text} :
    ((fromUtf8 bytes).bind fun s ↦ Text.ofBytes? (utf8 s)) = some text ↔ bytes = text.bytes := by
  simp only [Option.bind_eq_some_iff, Text.ofBytes?_eq_some_iff]
  constructor
  · rintro ⟨s, hs, hutf8⟩
    exact (utf8_of_fromUtf8 hs).symm.trans hutf8
  · rintro rfl
    exact ⟨text.str, fromUtf8_utf8 text.str, rfl⟩

theorem text?_of_json? {bytes : List UInt8} {text : Text} :
    ((WireValue.binary bytes).json?.bind Json.text?) = some text ↔ bytes = text.bytes := by
  rw [← fromUtf8_bind_ofBytes?_eq_some_iff, WireValue.json?, Option.bind_map]
  rfl

theorem parse_eq_some_iff {op : String} {bytes : List UInt8} {value : WireValue}
    {result : Except HandleError Predicate} :
    WirePredicate.parse ⟨op, bytes, value⟩ = some result ↔
      ∃ name : Text, bytes = name.bytes ∧ ∃ json, value.json? = some json
        ∧ ∃ parsed, jsonPredicate parsed = result
          ∧ (if op = "equals" then some (.equals name json)
            else if op = "at_least" then
              (json.unsigned? 64).map fun n ↦ .atLeast name (UInt64.ofNat n)
            else if op = "contains" then json.text?.map fun needle ↦ .contains name needle
            else none) = some parsed := by
  simp only [WirePredicate.parse, json?_bind_parsePredicate, Option.map_eq_some_iff,
    Option.bind_eq_some_iff]
  constructor
  · rintro ⟨parsed, ⟨s, hs, json, hjson, name, hname, hparsed⟩, hp⟩
    have hbytes := fromUtf8_bind_ofBytes?_eq_some_iff.mp
      (Option.bind_eq_some_iff.mpr ⟨s, hs, hname⟩)
    exact ⟨name, hbytes, json, hjson, parsed, hp, hparsed⟩
  · rintro ⟨name, hbytes, json, hjson, parsed, hp, hparsed⟩
    obtain ⟨s, hs, hname⟩ := Option.bind_eq_some_iff.mp
      (fromUtf8_bind_ofBytes?_eq_some_iff.mpr hbytes)
    exact ⟨parsed, ⟨s, hs, json, hjson, name, hname, hparsed⟩, hp⟩

/-- A requirement is sent as a predicate that the daemon reads as the given one. -/
def Arrives (requirement : Requirement) (p : Predicate) : Prop :=
  ∃ wire, predicate requirement = .ok wire ∧ wire.parse = some (.ok p)

section Arrival

variable {name : Name} {p : Predicate}

theorem arrives_bool_iff {value : Bool} :
    Arrives (name, .bool value) p ↔ Means (name, .bool value) p := by
  constructor
  · rintro ⟨wire, hwire, hparse⟩
    obtain ⟨bytes, hname, rfl⟩ := namedPredicate_eq_ok_iff.mp hwire
    obtain ⟨text, rfl, json, hjson, parsed, hp, hparsed⟩ := parse_eq_some_iff.mp hparse
    obtain rfl := Option.some.inj hjson
    obtain rfl := Option.some.inj hparsed
    obtain rfl := Except.ok.inj hp
    exact .bool value hname
  · rintro ⟨⟩
    next text hname =>
    exact ⟨_, namedPredicate_eq_ok_iff.mpr ⟨_, hname, rfl⟩,
      parse_eq_some_iff.mpr ⟨text, rfl, _, rfl, _, rfl, rfl⟩⟩

theorem arrives_binary_iff {bytes : List UInt8} :
    Arrives (name, .binary bytes) p ↔ Means (name, .binary bytes) p := by
  constructor
  · rintro ⟨wire, hwire, hparse⟩
    obtain ⟨nameBytes, hname, rfl⟩ := namedPredicate_eq_ok_iff.mp hwire
    obtain ⟨text, rfl, json, hjson, parsed, hp, hparsed⟩ := parse_eq_some_iff.mp hparse
    obtain ⟨s, hs, rfl⟩ := Option.map_eq_some_iff.mp hjson
    obtain rfl := Option.some.inj hparsed
    obtain ⟨value, hvalue, rfl⟩ := map_eq_ok_iff.mp hp
    obtain ⟨t, ht, rfl⟩ := map_eq_ok_iff.mp hvalue
    obtain rfl := jsonText?_eq_ok_iff.mp ht
    rw [← utf8_of_fromUtf8 hs]
    exact .binary t hname
  · rintro ⟨⟩
    next text value hname =>
    refine ⟨_, namedPredicate_eq_ok_iff.mpr ⟨_, hname, rfl⟩,
      parse_eq_some_iff.mpr ⟨text, rfl, .string value.str, ?_, .equals text _, ?_, rfl⟩⟩
    · rw [WireValue.json?, Text.bytes, fromUtf8_utf8]
      rfl
    · have hvalue := jsonText?_eq_ok_iff.mpr (rfl : value.str = value.str)
      exact map_eq_ok_iff.mpr ⟨_, map_eq_ok_iff.mpr ⟨value, hvalue, rfl⟩, rfl⟩

theorem arrives_atLeast_iff {value : ℤ} :
    Arrives (name, .atLeast value) p ↔ Means (name, .atLeast value) p := by
  constructor
  · rintro ⟨wire, hwire, hparse⟩
    rw [predicate] at hwire
    split at hwire
    · obtain ⟨bytes, hname, rfl⟩ := namedPredicate_eq_ok_iff.mp hwire
      obtain ⟨text, rfl, json, hjson, parsed, hp, hparsed⟩ := parse_eq_some_iff.mp hparse
      obtain rfl := Option.some.inj hjson
      obtain ⟨n, hn, rfl⟩ := Option.map_eq_some_iff.mp hparsed
      obtain rfl := Except.ok.inj hp
      obtain ⟨hinteger, hlt⟩ := Port.Json.unsigned?_eq_some_iff.mp hn
      obtain rfl := Json.integer.inj hinteger
      have hmeans := Means.atLeast (UInt64.ofNat n) hname
      rwa [UInt64.toNat_ofNat_of_lt' hlt] at hmeans
    · cases hwire
  · rintro ⟨⟩
    next text value hname =>
    refine ⟨⟨"at_least", text.bytes, .integer value.toNat⟩, ?_,
      parse_eq_some_iff.mpr ⟨text, rfl, _, rfl, .atLeast text value, rfl, ?_⟩⟩
    · rw [predicate, if_pos (Int.natCast_nonneg _)]
      exact namedPredicate_eq_ok_iff.mpr ⟨_, hname, rfl⟩
    · have hvalue : (Json.integer value.toNat).unsigned? 64 = some value.toNat :=
        Port.Json.unsigned?_eq_some_iff.mpr ⟨rfl, value.toNat_lt⟩
      simp [hvalue]

theorem arrives_contains_iff {bytes : List UInt8} :
    Arrives (name, .contains bytes) p ↔ Means (name, .contains bytes) p := by
  constructor
  · rintro ⟨wire, hwire, hparse⟩
    obtain ⟨nameBytes, hname, rfl⟩ := namedPredicate_eq_ok_iff.mp hwire
    obtain ⟨text, rfl, json, hjson, parsed, hp, hparsed⟩ := parse_eq_some_iff.mp hparse
    obtain ⟨needle, hneedle, rfl⟩ := Option.map_eq_some_iff.mp hparsed
    obtain rfl := Except.ok.inj hp
    obtain rfl := text?_of_json?.mp (Option.bind_eq_some_iff.mpr ⟨json, hjson, hneedle⟩)
    exact .contains needle hname
  · rintro ⟨⟩
    next text value hname =>
    obtain ⟨json, hjson, hneedle⟩ := Option.bind_eq_some_iff.mp
      (text?_of_json?.mpr (rfl : value.bytes = value.bytes))
    refine ⟨_, namedPredicate_eq_ok_iff.mpr ⟨_, hname, rfl⟩,
      parse_eq_some_iff.mpr ⟨text, rfl, json, hjson, .contains text value, rfl, ?_⟩⟩
    simp [hneedle]

end Arrival

/-- **A requirement arrives as what it means.** -/
theorem parse_predicate_iff {requirement : Requirement} {p : Predicate} :
    (∃ wire, predicate requirement = .ok wire ∧ wire.parse = some (.ok p)) ↔
      Means requirement p := by
  obtain ⟨name, wanted⟩ := requirement
  cases wanted with
  | bool value => exact arrives_bool_iff
  | binary bytes => exact arrives_binary_iff
  | atLeast value => exact arrives_atLeast_iff
  | contains bytes => exact arrives_contains_iff
  | other term =>
    constructor
    · rintro ⟨wire, hwire, -⟩
      cases hwire
    · rintro ⟨⟩

/-- **Requirements arrive as what they mean**, the last one first. -/
theorem parsePredicates_iff {requirements : List Requirement} {ps : List Predicate} :
    (∃ wire jsons, predicates requirements = .ok wire ∧ wire.mapM WirePredicate.json? = some jsons
        ∧ parsePredicates jsons = some (.ok ps)) ↔
      List.Forall₂ Means requirements ps.reverse := by
  have hparse : ∀ {wire : WirePredicate} {p : Predicate}, wire.parse = some (.ok p) ↔
      ∃ json, wire.json? = some json ∧ ∃ parsed, parsePredicate json = some parsed
        ∧ jsonPredicate parsed = .ok p := by
    intro wire p
    simp only [WirePredicate.parse, Option.map_eq_some_iff, Option.bind_eq_some_iff]
    constructor
    · rintro ⟨parsed, ⟨json, hjson, hparsed⟩, hp⟩
      exact ⟨json, hjson, parsed, hparsed, hp⟩
    · rintro ⟨json, hjson, parsed, hparsed, hp⟩
      exact ⟨parsed, ⟨json, hjson, hparsed⟩, hp⟩
  -- Element by element, each stage is a relation, and the last one is `Means`.
  have hstages : List.Forall₂ Means requirements ps.reverse ↔
      ∃ wire : List WirePredicate,
        List.Forall₂ (fun requirement p ↦ predicate requirement = .ok p) requirements wire
          ∧ ∃ jsons : List Json, List.Forall₂ (fun p json ↦ WirePredicate.json? p = some json) wire
              jsons
            ∧ ∃ parsed, List.Forall₂ (fun json p ↦ parsePredicate json = some p) jsons parsed
              ∧ List.Forall₂ (fun parsed p ↦ jsonPredicate parsed = .ok p) parsed ps.reverse := by
    simp only [exists_forall₂_iff, ← hparse, parse_predicate_iff]
  rw [hstages]
  simp only [predicates_eq_ok_iff, mapM_eq_some_iff, parsePredicates, Option.map_eq_some_iff,
    mapM_eq_ok_iff]
  constructor
  · rintro ⟨wire, jsons, hwire, hjsons, parsed, hparsed, hps⟩
    exact ⟨wire.reverse, hwire, jsons.reverse, List.forall₂_reverse_iff.mpr hjsons, parsed.reverse,
      List.forall₂_reverse_iff.mpr hparsed, List.forall₂_reverse_iff.mpr hps⟩
  · rintro ⟨wire, hwire, jsons, hjsons, parsed, hparsed, hps⟩
    refine ⟨wire.reverse, jsons.reverse, by rwa [List.reverse_reverse],
      List.forall₂_reverse_iff.mpr hjsons, parsed.reverse, List.forall₂_reverse_iff.mpr hparsed, ?_⟩
    exact List.forall₂_reverse_iff.mp (by rwa [List.reverse_reverse])

end Placement

end NervesP2P
