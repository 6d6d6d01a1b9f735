import NervesP2P.Discovery.Codec

/-!
# The order of map keys

The protocol asks for deterministic CBOR, in which the keys of a map are in the bytewise order of
their encodings. Encoder and decoder compare the lengths of the encodings first. On arbitrary bytes
these are two orders; on encoded texts they are one, because a longer text has a larger head: its
first byte is larger, or the first bytes agree and the length that follows, in as many bytes, is
larger.

Everything else follows. What the encoder sorts by is the bytewise order, and the key check of the
decoder accepts a sequence of keys exactly when it is strictly increasing in that order.
-/

open Std (OrientedCmp)

namespace NervesP2P

open Reader

/-! ## Heads

Each of the five forms of a head is a first byte and a width, and the width grows with the argument
(`headForms`). For two arguments of different size, the first bytes differ, and the larger argument
has the larger one; or they agree, and then two numbers of the same width are compared in big-endian
form. -/

/-- The low bits of a head's first byte: a small argument itself, or the code of a width. -/
def headCode (value : ℕ) : ℕ :=
  if value ≤ 23 then value
  else if value ≤ 0xff then 24
  else if value ≤ 0xffff then 25
  else if value ≤ 0xffffffff then 26
  else 27

/-- How many bytes of argument follow the first byte of a head. -/
def headWidth (value : ℕ) : ℕ :=
  if value ≤ 23 then 0
  else if value ≤ 0xff then 1
  else if value ≤ 0xffff then 2
  else if value ≤ 0xffffffff then 4
  else 8

theorem encodeHead_eq (major : UInt8) (value : UInt64) :
    encodeHead major value = (major <<< 5 ||| UInt8.ofNat (headCode value.toNat))
      :: beBytes (headWidth value.toNat) value.toNat := by
  rw [encodeHead, headCode, headWidth]
  simp only [UInt64.le_iff_toNat_le]
  split
  · next h =>
    have hsmall : value.toNat ≤ 23 := h
    simp only [if_pos hsmall]
    rfl
  · next h =>
    have h23 : ¬value.toNat ≤ 23 := h
    simp only [if_neg h23]
    split
    · next h =>
      have hbyte : value.toNat ≤ 0xff := h
      simp only [if_pos hbyte]
      rfl
    · next h =>
      have hbyte : ¬value.toNat ≤ 0xff := h
      simp only [if_neg hbyte]
      split
      · next h =>
        have hword : value.toNat ≤ 0xffff := h
        simp only [if_pos hword, UInt64.toNat_toUInt16]
        rw [Nat.mod_eq_of_lt (by omega)]
        rfl
      · next h =>
        have hword : ¬value.toNat ≤ 0xffff := h
        simp only [if_neg hword]
        split
        · next h =>
          have hdword : value.toNat ≤ 0xffffffff := h
          simp only [if_pos hdword, UInt64.toNat_toUInt32]
          rw [Nat.mod_eq_of_lt (by omega)]
          rfl
        · next h =>
          have hdword : ¬value.toNat ≤ 0xffffffff := h
          simp only [if_neg hdword]
          rfl

theorem headForms (n : ℕ) :
    n ≤ 23 ∧ headCode n = n ∧ headWidth n = 0
      ∨ 23 < n ∧ n ≤ 0xff ∧ headCode n = 24 ∧ headWidth n = 1
      ∨ 0xff < n ∧ n ≤ 0xffff ∧ headCode n = 25 ∧ headWidth n = 2
      ∨ 0xffff < n ∧ n ≤ 0xffffffff ∧ headCode n = 26 ∧ headWidth n = 4
      ∨ 0xffffffff < n ∧ headCode n = 27 ∧ headWidth n = 8 := by
  rw [headCode, headWidth]
  split_ifs <;> omega

theorem headCode_lt (value : ℕ) : headCode value < 32 := by
  have hforms := headForms value
  omega

theorem headWidth_mono {m n : ℕ} (h : m ≤ n) : headWidth m ≤ headWidth n := by
  have hm := headForms m
  have hn := headForms n
  omega

theorem lt_of_headWidth {n : ℕ} (hn : n < 2 ^ 64) (h : 23 < n) : n < 256 ^ headWidth n := by
  rw [headWidth, if_neg (not_le.mpr h)]
  split_ifs <;> omega

theorem headCode_of_lt {m n : ℕ} (h : m < n) :
    headCode m < headCode n ∨ headCode m = headCode n ∧ headWidth m = headWidth n ∧ 23 < n := by
  have hm := headForms m
  have hn := headForms n
  omega

theorem toNat_lead {major : UInt8} (hm : major < 8) {code : ℕ} (hcode : code < 32) :
    (major <<< 5 ||| UInt8.ofNat code).toNat = 32 * major.toNat + code := by
  have key : ∀ m : Fin 8, ∀ a : Fin 32,
      (UInt8.ofNat m <<< 5 ||| UInt8.ofNat a).toNat = 32 * m.val + a.val := by decide
  have h := key ⟨major.toNat, UInt8.lt_iff_toNat_lt.mp hm⟩ ⟨code, hcode⟩
  simpa using h

/-- **Heads are ordered as their arguments**, whatever follows them. -/
theorem compare_encodeHead_of_lt {major : UInt8} (hm : major < 8) {m n : UInt64}
    (h : m.toNat < n.toNat) (s t : List UInt8) :
    compare (encodeHead major m ++ s) (encodeHead major n ++ t) = .lt := by
  rw [encodeHead_eq, encodeHead_eq, List.cons_append, List.cons_append, List.compare_cons_cons]
  rcases headCode_of_lt h with hcode | ⟨hcode, hwidth, hlarge⟩
  · have hlead : compare (major <<< 5 ||| UInt8.ofNat (headCode m.toNat))
        (major <<< 5 ||| UInt8.ofNat (headCode n.toNat)) = .lt := by
      rw [Std.compare_eq_lt, UInt8.lt_iff_toNat_lt, toNat_lead hm (headCode_lt _),
        toNat_lead hm (headCode_lt _)]
      omega
    rw [hlead]
    rfl
  · have hword : compare (beBytes (headWidth n.toNat) m.toNat)
        (beBytes (headWidth n.toNat) n.toNat) = .lt :=
      compare_beBytes_of_lt h (lt_of_headWidth n.toNat_lt hlarge)
    rw [hcode, Std.compare_self, hwidth,
      compare_append (by rw [length_beBytes, length_beBytes]), hword]
    rfl

/-! ## Texts

A text is its head and its bytes. If two texts differ in length their heads decide, and the shorter
one is smaller in both orders. If they do not, then the heads are the same, and both orders compare
the bytes. -/

theorem length_encodeText (t : Text) :
    (encodeText t.str).length = 1 + headWidth t.len + t.len := by
  have hsize : (UInt64.ofNat t.str.utf8ByteSize).toNat = t.len :=
    UInt64.toNat_ofNat_of_lt' t.size_lt
  rw [encodeText, encodeHead_eq, hsize, List.length_append, List.length_cons, length_beBytes,
    length_utf8, Text.len]
  omega

theorem encodeText_of_lt {a b : Text} (h : a.len < b.len) :
    compare (encodeText a.str) (encodeText b.str) = .lt
      ∧ (encodeText a.str).length < (encodeText b.str).length := by
  constructor
  · refine compare_encodeHead_of_lt (by decide) ?_ _ _
    rw [UInt64.toNat_ofNat_of_lt' a.size_lt, UInt64.toNat_ofNat_of_lt' b.size_lt]
    exact h
  · have hwidth := headWidth_mono h.le
    rw [length_encodeText, length_encodeText]
    omega

/-- **The two orders agree on encoded texts.** -/
theorem canonicalCmp_encodeText (a b : Text) :
    canonicalCmp (encodeText a.str) (encodeText b.str)
      = compare (encodeText a.str) (encodeText b.str) := by
  rw [canonicalCmp]
  rcases lt_trichotomy a.len b.len with h | h | h
  · obtain ⟨hbytes, hlength⟩ := encodeText_of_lt h
    rw [hbytes, compare_lt_iff_lt.mpr hlength]
    rfl
  · have hlength : (encodeText a.str).length = (encodeText b.str).length := by
      rw [length_encodeText, length_encodeText, h]
    rw [hlength, compare_eq_iff_eq.mpr rfl]
    rfl
  · obtain ⟨hbytes, hlength⟩ := encodeText_of_lt h
    rw [OrientedCmp.gt_of_lt hbytes, compare_gt_iff_gt.mpr hlength]
    rfl

/-! ## Maps

The encoder sorts, so its keys are increasing, strictly because the keys of a map are different. The
decoder checks each key against the one before it. That it accepts increasing keys was shown with
the decoder; here it rejects any others. -/

/-- The encodings of the keys are strictly increasing in the bytewise order. -/
def IncreasingKeys (keys : List Text) : Prop :=
  keys.Pairwise fun a b ↦ compare (encodeText a.str) (encodeText b.str) = .lt

instance (keys : List Text) : Decidable (IncreasingKeys keys) :=
  inferInstanceAs (Decidable (keys.Pairwise _))

theorem canonicalKeys_iff (keys : List Text) : CanonicalKeys keys ↔ IncreasingKeys keys := by
  simp only [CanonicalKeys, IncreasingKeys, canonicalCmp_encodeText]

theorem exists_encodeMap_eq {fields : List (Text × List UInt8)}
    (h : (fields.map Prod.fst).Nodup) :
    ∃ entries : List (Text × List UInt8), entries.Perm fields
      ∧ IncreasingKeys (entries.map Prod.fst)
      ∧ encodeMap (fields.map fun f ↦ field f.1.str f.2)
        = encodeHead 5 (UInt64.ofNat fields.length) ++ entryBytes entries := by
  have hne : fields.Pairwise fun a b ↦
      canonicalCmp (encodeText a.1.str) (encodeText b.1.str) ≠ .eq := by
    rw [List.Nodup, List.pairwise_map] at h
    refine h.imp ?_
    intro a b hab heq
    exact hab (encodeText_injective (Std.LawfulEqCmp.compare_eq_iff_eq.mp heq))
  obtain ⟨entries, hperm, hkeys⟩ : ∃ entries : List (Text × List UInt8), entries.Perm fields
      ∧ CanonicalKeys (entries.map Prod.fst) :=
    ⟨_, sortBy_perm _ fields, List.pairwise_map.mpr (pairwise_lt_sortBy hne)⟩
  have hfields : (entries.map fun e ↦ field e.1.str e.2).Perm
      (fields.map fun f ↦ field f.1.str f.2) := hperm.map _
  refine ⟨entries, hperm, (canonicalKeys_iff _).mp hkeys, ?_⟩
  rw [encodeMap_eq hkeys hfields, hperm.length_eq]

theorem rejects_canonicalKey {previous : Option (List UInt8)} {t : Text}
    (h : ¬∀ last ∈ previous, canonicalCmp last (encodeText t.str) = .lt) :
    Rejects (canonicalKey previous) (encodeText t.str) .malformed := by
  rw [← List.append_nil (encodeText t.str)]
  refine Rejects.of_reads (reads_text t).consumed ?_
  exact (Rejects.check h).bind []

theorem CanonicalKeys.cons {last key : Text} {keys : List Text}
    (hlt : canonicalCmp (encodeText last.str) (encodeText key.str) = .lt)
    (h : CanonicalKeys (key :: keys)) : CanonicalKeys (last :: key :: keys) := by
  refine List.pairwise_cons.mpr ⟨?_, h⟩
  intro next hnext
  rcases List.mem_cons.mp hnext with rfl | hmem
  · exact hlt
  · exact Std.TransCmp.lt_trans hlt ((List.pairwise_cons.mp h).1 next hmem)

theorem rejects_mapEntries {σ : Type} {entry : Text → σ → Reading Error σ}
    {entries : List (Text × List UInt8)} {s t : σ} (hrec : Records entry entries s t) :
    ∀ previous : Option Text, ¬CanonicalKeys (previous.toList ++ entries.map Prod.fst) →
      Rejects (mapEntries entry entries.length (previous.map fun last ↦ encodeText last.str) s)
        (entryBytes entries) .malformed := by
  induction hrec with
  | nil fields =>
    intro previous h
    refine absurd ?_ h
    cases previous with
    | none => exact List.Pairwise.nil
    | some last => exact List.pairwise_singleton _ last
  | @cons key value entries s t u hread hrest ih =>
    intro previous h
    rw [entryBytes, List.flatMap_cons, List.append_assoc]
    by_cases hkey : ∀ last ∈ previous.map fun last ↦ encodeText last.str,
        canonicalCmp last (encodeText key.str) = .lt
    · -- this key is accepted, so a later one is out of order
      have hlater : ¬CanonicalKeys ((some key).toList ++ entries.map Prod.fst) := by
        intro hkeys
        refine h ?_
        cases previous with
        | none => exact hkeys
        | some last => exact CanonicalKeys.cons (hkey _ rfl) hkeys
      exact Rejects.of_reads (reads_canonicalKey hkey) (Rejects.of_reads hread (ih _ hlater))
    · exact (rejects_canonicalKey hkey).bind _

/-- **Deterministic order.** On encoded texts the order of the encoder and the decoder is the
bytewise one. An encoded map lists the fields it is given, in whatever order, by strictly increasing
keys, and the key check lets a sequence of entries pass exactly when its keys are strictly
increasing. -/
theorem keys_bytewise :
    (∀ a b : Text, canonicalCmp (encodeText a.str) (encodeText b.str)
      = compare (encodeText a.str) (encodeText b.str))
    ∧ (∀ fields : List (Text × List UInt8), (fields.map Prod.fst).Nodup →
      ∃ entries : List (Text × List UInt8), entries.Perm fields
        ∧ IncreasingKeys (entries.map Prod.fst)
        ∧ encodeMap (fields.map fun f ↦ field f.1.str f.2)
          = encodeHead 5 (UInt64.ofNat fields.length) ++ entryBytes entries)
    ∧ ∀ (σ : Type) (entry : Text → σ → Reading Error σ) (entries : List (Text × List UInt8))
        (s t : σ), Records entry entries s t →
      (IncreasingKeys (entries.map Prod.fst) ∧
          Reads (mapEntries entry entries.length none s) (entryBytes entries) t)
        ∨ ¬IncreasingKeys (entries.map Prod.fst) ∧
          Rejects (mapEntries entry entries.length none s) (entryBytes entries) .malformed := by
  refine ⟨canonicalCmp_encodeText, fun fields h ↦ exists_encodeMap_eq h, ?_⟩
  intro σ entry entries s t hrec
  by_cases h : IncreasingKeys (entries.map Prod.fst)
  · have hkeys := (canonicalKeys_iff _).mpr h
    exact .inl ⟨h, reads_mapEntries hrec hkeys fun last hlast ↦ by cases hlast⟩
  · have hkeys : ¬CanonicalKeys (entries.map Prod.fst) := fun hc ↦ h ((canonicalKeys_iff _).mp hc)
    exact .inr ⟨h, rejects_mapEntries hrec none hkeys⟩

/-- The two fields of a load the other way round. -/
theorem keys_bytewise_load :
    Rejects (mapEntries loadEntry 2 none {})
      (entryBytes [(key "capacity", encodeUint 4), (key "running", encodeUint 1)]) .malformed := by
  have hrec : Records loadEntry
      [(key "capacity", encodeUint 4), (key "running", encodeUint 1)] {}
      { running := some 1, capacity := some 4 } :=
    .cons (Reads.bind_pure (reads_uint _) (Reads.pure _))
      (.cons (Reads.bind_pure (reads_uint _) (Reads.pure _)) (.nil _))
  rcases keys_bytewise.2.2 _ _ _ _ _ hrec with ⟨hkeys, -⟩ | ⟨-, hrejects⟩
  · exact absurd hkeys (show ¬IncreasingKeys [key "capacity", key "running"] by decide)
  · exact hrejects

end NervesP2P
