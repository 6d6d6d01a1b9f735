import Mathlib.Tactic

/-!
# Texts and saturating counters

Two notions of a systems language that the standard library does not carry directly.

A `Text` is a string whose UTF-8 length fits a 64-bit word, which is what a string value of a
program running on a 64-bit machine is. The bound is part of the value because formats write the
length as a word: without it the length field of an impossible string would wrap around.

Saturating addition and subtraction of 64-bit counters stop at the ends of the range.
-/

open Std (ExtTreeMap TransCmp TransOrd LawfulEqCmp LawfulEqOrd OrientedCmp)

namespace NervesP2P

/-! ## UTF-8 -/

def utf8 (s : String) : List UInt8 := s.toByteArray.data.toList

/-- The string with the given bytes, when they are valid UTF-8. -/
def fromUtf8 (bs : List UInt8) : Option String := String.fromUTF8? ⟨bs.toArray⟩

theorem length_utf8 (s : String) : (utf8 s).length = s.utf8ByteSize := rfl

@[simp] theorem fromUtf8_utf8 (s : String) : fromUtf8 (utf8 s) = some s := by
  have hvalid : (⟨(utf8 s).toArray⟩ : ByteArray).IsValidUTF8 := s.isValidUTF8
  rw [fromUtf8, String.fromUTF8?, dif_pos hvalid]
  rfl

theorem utf8_of_fromUtf8 {bs : List UInt8} {s : String} (h : fromUtf8 bs = some s) :
    utf8 s = bs := by
  rw [fromUtf8, String.fromUTF8?] at h
  split at h
  · rw [Option.some_inj] at h
    subst h
    rfl
  · cases h

theorem utf8_append (s t : String) : utf8 (s ++ t) = utf8 s ++ utf8 t := by
  simp [utf8]

/-! ## Bounded texts -/

/-- A string whose length in bytes is a 64-bit word. -/
structure Text where
  /-- The string. -/
  str : String
  /-- Its length fits a word. -/
  size_lt : str.utf8ByteSize < 2 ^ 64
  deriving DecidableEq

namespace Text

@[ext] theorem ext {a b : Text} (h : a.str = b.str) : a = b := by
  cases a
  cases b
  simpa using h

def bytes (t : Text) : List UInt8 := utf8 t.str

def len (t : Text) : ℕ := t.str.utf8ByteSize

/-- The text with the given bytes. Only bytes that are not UTF-8 are refused in practice: a slice
is never longer than a word can count. -/
def ofBytes? (bs : List UInt8) : Option Text :=
  match fromUtf8 bs with
  | some s => if h : s.utf8ByteSize < 2 ^ 64 then some ⟨s, h⟩ else none
  | none => none

@[simp] theorem ofBytes?_bytes (t : Text) : ofBytes? t.bytes = some t := by
  rw [ofBytes?, bytes, fromUtf8_utf8]
  exact dif_pos t.size_lt

theorem bytes_of_ofBytes? {bs : List UInt8} {t : Text} (h : ofBytes? bs = some t) :
    t.bytes = bs := by
  rw [ofBytes?] at h
  split at h
  · next s hs =>
    split at h
    · rw [Option.some_inj] at h
      subst h
      exact utf8_of_fromUtf8 hs
    · cases h
  · cases h

theorem ofBytes?_eq_some_iff {bs : List UInt8} {t : Text} : ofBytes? bs = some t ↔ bs = t.bytes :=
  ⟨fun h ↦ (bytes_of_ofBytes? h).symm, fun h ↦ h ▸ ofBytes?_bytes t⟩

theorem bytes_inj {s t : Text} : s.bytes = t.bytes ↔ s = t := by
  rw [← ofBytes?_eq_some_iff, ofBytes?_bytes, Option.some_inj]

/-- Texts are ordered by their bytes, equivalently by their code points. -/
instance : Ord Text := ⟨compareOn Text.str⟩

instance : TransOrd Text := inferInstanceAs (TransCmp (compareOn Text.str))

instance : LawfulEqOrd Text where
  compare_self {a} := Std.compare_self (a := a.str)
  eq_of_compare h := Text.ext (Std.compare_eq_iff_eq.mp h)

end Text

/-! ## Bounded byte vectors -/

/-- A byte vector whose length is a 64-bit word, for the same reason. -/
abbrev ByteVec := {bs : List UInt8 // bs.length < 2 ^ 64}

/-- A slice as an owned vector; the bound holds of every slice. -/
def toVec? (bs : List UInt8) : Option ByteVec :=
  if h : bs.length < 2 ^ 64 then some ⟨bs, h⟩ else none

@[simp] theorem toVec?_val (v : ByteVec) : toVec? v.val = some v := dif_pos v.property

/-- A slice as an array of fixed length. -/
def toArray? (n : ℕ) (bs : List UInt8) : Option (List.Vector UInt8 n) :=
  if h : bs.length = n then some ⟨bs, h⟩ else none

@[simp] theorem toArray?_toList {n : ℕ} (v : List.Vector UInt8 n) :
    toArray? n v.toList = some v := dif_pos v.toList_length

/-! ## Saturating counters -/

/-- `a + b`, or the largest word when the sum does not fit. -/
def saturatingAdd (a b : UInt64) : UInt64 :=
  if a.toNat + b.toNat < 2 ^ 64 then a + b else UInt64.ofNat (2 ^ 64 - 1)

/-- A saturated sum exceeds what the exact sum exceeds, but for the end of the range. -/
theorem lt_saturatingAdd_iff {a b c : UInt64} :
    c < saturatingAdd a b ↔ c.toNat < a.toNat + b.toNat ∧ c.toNat ≠ 2 ^ 64 - 1 := by
  have hc := c.toNat_lt
  rw [UInt64.lt_iff_toNat_lt, saturatingAdd]
  split
  · next hlt =>
    rw [UInt64.toNat_add, Nat.mod_eq_of_lt hlt]
    omega
  · next hge =>
    rw [UInt64.toNat_ofNat_of_lt' (by decide)]
    omega

/-- `a - b`, or zero when `b` is larger. -/
def saturatingSub (a b : UInt64) : UInt64 := if b ≤ a then a - b else 0

end NervesP2P
