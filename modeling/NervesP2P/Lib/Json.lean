import NervesP2P.Lib.SortBy
import NervesP2P.Lib.Text

/-!
# The text of JSON objects

Objects as programs write them to each other: without blanks, and with the fields in the order of
their names. Byte strings travel as hexadecimal digits. An object is put together from the texts of
its fields (`objectText`), so that values of any kind can be printed with it; most messages have
fields that are numbers, strings and flags only (`jsonText`).

The order of the fields is of no importance for the length of the text (`length_objectText`), which
is the sum over the fields. That is what limits on the size of a message need to know.
-/

namespace NervesP2P

/-- The value of a field. -/
inductive JsonValue where
  | null
  | bool (value : Bool)
  | number (value : ℕ)
  | string (value : String)

/-! ## Text -/

/-- A character inside a string. Quotes, backslashes and control characters are escaped. -/
def jsonChar (c : Char) : List UInt8 :=
  match c.toNat with
  | 8 => utf8 "\\b"
  | 9 => utf8 "\\t"
  | 10 => utf8 "\\n"
  | 12 => utf8 "\\f"
  | 13 => utf8 "\\r"
  | 34 => utf8 "\\\""
  | 92 => utf8 "\\\\"
  | n =>
    if n < 32 then utf8 "\\u00" ++ [n / 16, n % 16].flatMap (String.utf8EncodeChar ·.digitChar)
    else String.utf8EncodeChar c

def jsonString (s : String) : List UInt8 := utf8 "\"" ++ s.toList.flatMap jsonChar ++ utf8 "\""

def jsonNumber (n : ℕ) : List UInt8 := (Nat.toDigits 10 n).flatMap String.utf8EncodeChar

def JsonValue.text : JsonValue → List UInt8
  | .null => utf8 "null"
  | .bool true => utf8 "true"
  | .bool false => utf8 "false"
  | .number n => jsonNumber n
  | .string s => jsonString s

def jsonField (field : String × List UInt8) : List UInt8 :=
  jsonString field.1 ++ utf8 ":" ++ field.2

/-- The text of an object, from the names and the texts of its fields. -/
def objectText (fields : List (String × List UInt8)) : List UInt8 :=
  utf8 "\x7b"
    ++ (utf8 ",").intercalate ((sortBy (fun a b ↦ compare a.1 b.1) fields).map jsonField)
    ++ utf8 "\x7d"

/-- The text of an object whose fields are simple. -/
def jsonText (fields : List (String × JsonValue)) : List UInt8 :=
  objectText (fields.map fun field ↦ (field.1, field.2.text))

/-- The two digits of a byte. -/
def hexPair (byte : UInt8) : List Char := [(byte.toNat / 16).digitChar, (byte.toNat % 16).digitChar]

def hexEncode (bytes : List UInt8) : String := String.ofList (bytes.flatMap hexPair)

/-! ## Length -/

/-- The number of decimal digits. -/
def digits (n : ℕ) : ℕ := (Nat.toDigits 10 n).length

theorem digits_le {n : ℕ} (h : n < 2 ^ 64) : digits n ≤ 20 := by
  rw [digits, Nat.length_toDigits_le_iff (by decide) (by decide)]
  exact h.trans (by decide)

/-- A text in which no character needs more than its own byte. -/
theorem length_flatMap_of_single {f : Char → List UInt8} {l : List Char}
    (h : ∀ c ∈ l, (f c).length = 1) : (l.flatMap f).length = l.length := by
  rw [List.length_flatMap, List.map_congr_left h]
  simp

theorem length_jsonNumber (n : ℕ) : (jsonNumber n).length = digits n := by
  refine length_flatMap_of_single fun c hc ↦ ?_
  have hdigit := Nat.isDigit_of_mem_toDigits (by decide) (by decide) hc
  rw [Char.isDigit_iff_toNat] at hdigit
  rw [String.length_utf8EncodeChar, Char.utf8Size_eq_one_iff, UInt32.le_iff_toNat_le]
  exact hdigit.2.trans (by decide)

theorem length_jsonString_hexEncode (bytes : List UInt8) :
    (jsonString (hexEncode bytes)).length = 2 * bytes.length + 2 := by
  have hplain : ∀ n < 16, (jsonChar n.digitChar).length = 1 := by decide
  have hchars : ∀ c ∈ bytes.flatMap hexPair, (jsonChar c).length = 1 := by
    intro c hc
    obtain ⟨byte, -, hc⟩ := List.mem_flatMap.mp hc
    have hlt : byte.toNat < 256 := byte.toNat_lt
    rcases List.mem_pair.mp hc with rfl | rfl
    · exact hplain _ (by omega)
    · exact hplain _ (by omega)
  have hpairs : (bytes.flatMap hexPair).length = 2 * bytes.length := by
    simp [List.length_flatMap, hexPair, mul_comm]
  rw [jsonString, hexEncode, String.toList_ofList, List.length_append, List.length_append,
    length_flatMap_of_single hchars, hpairs]
  show 1 + 2 * bytes.length + 1 = 2 * bytes.length + 2
  omega

theorem length_intercalate (separator : List UInt8) {parts : List (List UInt8)} (hne : parts ≠ []) :
    (separator.intercalate parts).length + separator.length
      = (parts.map fun part ↦ part.length + separator.length).sum := by
  induction parts with
  | nil => exact absurd rfl hne
  | cons part parts ih =>
    cases parts with
    | nil => simp
    | cons other parts =>
      have hrest := ih (List.cons_ne_nil _ _)
      rw [List.intercalate_cons_cons, List.length_append, List.length_append, List.map_cons,
        List.sum_cons, ← hrest]
      omega

/-- The text of an object is as long as its fields, with a colon and a comma for each. -/
theorem length_objectText {fields : List (String × List UInt8)} (hne : fields ≠ []) :
    (objectText fields).length
      = (fields.map fun field ↦ (jsonString field.1).length + field.2.length + 2).sum + 1 := by
  have hperm := sortBy_perm (fun a b ↦ compare a.1 b.1) fields
  have hsorted : (sortBy (fun a b ↦ compare a.1 b.1) fields).map jsonField ≠ [] := by
    rw [Ne, List.map_eq_nil_iff, ← List.length_eq_zero_iff, hperm.length_eq,
      List.length_eq_zero_iff]
    exact hne
  have hlength := length_intercalate (utf8 ",") hsorted
  rw [List.map_map, (hperm.map _).sum_eq] at hlength
  have hfield : ∀ field : String × List UInt8,
      ((fun part ↦ part.length + (utf8 ",").length) ∘ jsonField) field
        = (jsonString field.1).length + field.2.length + 2 := by
    intro field
    simp only [Function.comp, jsonField, List.length_append]
    show (jsonString field.1).length + 1 + field.2.length + 1 = _
    omega
  rw [List.map_congr_left fun field _ ↦ hfield field] at hlength
  rw [objectText, List.length_append, List.length_append, ← hlength]
  show 1 + _ + 1 = _ + 1 + 1
  rw [Nat.add_comm 1]

theorem length_jsonText {fields : List (String × JsonValue)} (hne : fields ≠ []) :
    (jsonText fields).length
      = (fields.map fun field ↦ (jsonString field.1).length + field.2.text.length + 2).sum + 1 := by
  rw [jsonText, length_objectText (mt List.map_eq_nil_iff.mp hne), List.map_map]
  rfl

end NervesP2P
