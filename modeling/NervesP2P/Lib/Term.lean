import NervesP2P.Lib.Text

/-!
# Terms of the Erlang runtime

Values pass from Elixir to native code as terms. A native decoder accepts the terms of one shape and
refuses all others. Options are often read with a decoder and a default, and then nothing tells a
missing key or a term of another shape from an option that was left out: `readOr` gives the default
in all these cases.
-/

namespace NervesP2P

/-- The key of a map. A binary is a UTF-8 text, or it counts among the others. -/
inductive Key where
  | atom (name : String)
  | binary (text : String)
  | other (term : ℕ)
  deriving DecidableEq

inductive Term where
  | atom (name : String)
  | integer (value : ℤ)
  /-- A finite double, as the number it is. -/
  | float (value : ℚ)
  | binary (bytes : List UInt8)
  | list (items : List Term)
  | map (entries : List (Key × Term))
  /-- A tuple, a function, a process and so on. -/
  | other (term : ℕ)

namespace Term

/-- The absent value. -/
def nil : Term := .atom "nil"

def bool : Bool → Term
  | true => .atom "true"
  | false => .atom "false"

/-- A string is a binary. -/
def string (text : String) : Term := .binary (utf8 text)

def isNil : Term → Bool
  | .atom name => name == "nil"
  | _ => false

/-- The operator `||` of Elixir. -/
def or (term default : Term) : Term :=
  match term with
  | .atom name => if name = "nil" ∨ name = "false" then default else term
  | _ => term

/-- The comparison `term <= 0`. In the order of terms, numbers come before everything else. -/
def nonpos : Term → Bool
  | .integer value => value ≤ 0
  | .float value => value ≤ 0
  | _ => false

/-! ## Decoding -/

def decodeBool : Term → Option Bool
  | .atom name => if name = "true" then some true else if name = "false" then some false else none
  | _ => none

/-- An unsigned integer of so many bits. -/
def decodeUnsigned (bits : ℕ) : Term → Option ℕ
  | .integer value => if 0 ≤ value ∧ value < 2 ^ bits then some value.toNat else none
  | _ => none

def decodeFloat : Term → Option ℚ
  | .float value => some value
  | _ => none

def decodeBinary : Term → Option (List UInt8)
  | .binary bytes => some bytes
  | _ => none

def decodeString : Term → Option String
  | .binary bytes => fromUtf8 bytes
  | _ => none

def decodeStrings : Term → Option (List String)
  | .list items => items.mapM decodeString
  | _ => none

/-- A map all of whose keys are strings. -/
def decodeMap : Term → Option (List (String × Term))
  | .map entries => entries.mapM fun entry ↦
    match entry.1 with
    | .binary text => some (text, entry.2)
    | _ => none
  | _ => none

@[simp] theorem decodeBool_bool (value : Bool) : decodeBool (bool value) = some value := by
  cases value <;> decide

theorem decodeBool_eq_some {term : Term} {value : Bool} (h : decodeBool term = some value) :
    term = bool value := by
  cases term with
  | atom name =>
    simp only [decodeBool] at h
    split at h
    · next hname => rw [hname, ← Option.some.inj h]; rfl
    · split at h
      · next hname => rw [hname, ← Option.some.inj h]; rfl
      · cases h
  | _ => cases h

@[simp] theorem decodeString_string (text : String) : decodeString (string text) = some text :=
  fromUtf8_utf8 text

theorem decodeUnsigned_eq_some {bits value : ℕ} {term : Term}
    (h : decodeUnsigned bits term = some value) : term = .integer value ∧ value < 2 ^ bits := by
  cases term with
  | integer n =>
    simp only [decodeUnsigned] at h
    split at h
    · next hrange =>
      obtain rfl := Option.some.inj h
      have hcast : (n.toNat : ℤ) = n := Int.toNat_of_nonneg hrange.1
      refine ⟨by rw [hcast], ?_⟩
      have hlt := hrange.2
      rw [← hcast] at hlt
      exact_mod_cast hlt
    · cases h
  | _ => cases h

theorem decodeUnsigned_integer {bits value : ℕ} (h : value < 2 ^ bits) :
    decodeUnsigned bits (.integer value) = some value := by
  have hlt : (value : ℤ) < 2 ^ bits := by exact_mod_cast h
  simp [decodeUnsigned, hlt]

/-- A key that is no string keeps a map from being decoded. -/
theorem decodeMap_of_atom {entries : List (Key × Term)} {name : String} {value : Term}
    (h : entries.lookup (.atom name) = some value) : decodeMap (.map entries) = none := by
  rw [decodeMap]
  induction entries with
  | nil => cases h
  | cons entry entries ih =>
    obtain ⟨key, term⟩ := entry
    rw [List.mapM_cons]
    cases key with
    | binary text =>
      rw [List.lookup_cons, show (Key.atom name == Key.binary text) = false from rfl] at h
      rw [ih h]
      rfl
    | atom _ => rfl
    | other _ => rfl

/-! ## Options with a default -/

/-- What is decoded under a key, and otherwise a default. -/
def readOr {α : Type} (decode : Term → Option α) (map : List (String × Term)) (key : String)
    (default : α) : α :=
  ((map.lookup key).bind decode).getD default

section ReadOr

variable {α : Type} {decode : Term → Option α} {map : List (String × Term)} {key : String}
  {default : α}

theorem readOr_of_decode {term : Term} {value : α} (h : map.lookup key = some term)
    (hvalue : decode term = some value) : readOr decode map key default = value := by
  rw [readOr, h, Option.bind_some, hvalue, Option.getD_some]

theorem readOr_of_missing (h : map.lookup key = none) :
    readOr decode map key default = default := by
  rw [readOr, h, Option.bind_none, Option.getD_none]

end ReadOr

end Term

end NervesP2P
