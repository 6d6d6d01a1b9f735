import Mathlib.Tactic

/-!
# Big-endian words

Fixed-width unsigned words on the wire, most significant byte first. Every format of the system
writes its lengths and counters this way: message heads, sequence files, stream headers and
distribution packets.

`beBytes w n` is the `w`-byte word holding `n`, with the digits above `256 ^ w` dropped, as a
narrowing cast drops them; `ofBeBytes` reads a word back. The two are inverse to each other in both
directions on words of the right width, which is what the codecs built on them use.
-/

namespace NervesP2P

/-- The `w` low bytes of `n`, most significant first. -/
def beBytes : ℕ → ℕ → List UInt8
  | 0, _ => []
  | w + 1, n => beBytes w (n / 256) ++ [UInt8.ofNat n]

/-- The number a big-endian word denotes. -/
def ofBeBytes (bs : List UInt8) : ℕ := bs.foldl (fun acc b ↦ acc * 256 + b.toNat) 0

@[simp] theorem beBytes_zero (n : ℕ) : beBytes 0 n = [] := rfl

theorem beBytes_succ (w n : ℕ) : beBytes (w + 1) n = beBytes w (n / 256) ++ [UInt8.ofNat n] := rfl

@[simp] theorem ofBeBytes_nil : ofBeBytes [] = 0 := rfl

@[simp] theorem ofBeBytes_append_singleton (bs : List UInt8) (b : UInt8) :
    ofBeBytes (bs ++ [b]) = ofBeBytes bs * 256 + b.toNat := by
  rw [ofBeBytes, List.foldl_append, List.foldl_cons, List.foldl_nil, ofBeBytes]

@[simp] theorem length_beBytes (w n : ℕ) : (beBytes w n).length = w := by
  induction w generalizing n with
  | zero => rfl
  | succ w ih => rw [beBytes_succ, List.length_append, ih, List.length_singleton]

theorem ofBeBytes_lt (bs : List UInt8) : ofBeBytes bs < 256 ^ bs.length := by
  induction bs using List.reverseRecOn with
  | nil => simp
  | append_singleton bs b ih =>
    have hb : b.toNat < 256 := b.toNat_lt
    rw [ofBeBytes_append_singleton, List.length_append, List.length_singleton, pow_succ]
    omega

/-- Reading undoes writing on every number that fits the word. -/
theorem ofBeBytes_beBytes {w n : ℕ} (h : n < 256 ^ w) : ofBeBytes (beBytes w n) = n := by
  induction w generalizing n with
  | zero =>
    rw [pow_zero] at h
    rw [beBytes_zero, ofBeBytes_nil]
    omega
  | succ w ih =>
    rw [pow_succ] at h
    rw [beBytes_succ, ofBeBytes_append_singleton, ih (by omega), UInt8.toNat_ofNat']
    omega

/-- Writing undoes reading: a word is determined by its length and the number it denotes. -/
theorem beBytes_ofBeBytes (bs : List UInt8) : beBytes bs.length (ofBeBytes bs) = bs := by
  induction bs using List.reverseRecOn with
  | nil => rfl
  | append_singleton bs b ih =>
    have hb : b.toNat < 256 := b.toNat_lt
    rw [List.length_append, List.length_singleton, beBytes_succ, ofBeBytes_append_singleton,
      show (ofBeBytes bs * 256 + b.toNat) / 256 = ofBeBytes bs from by omega, ih]
    congr 2
    apply UInt8.toNat_inj.mp
    rw [UInt8.toNat_ofNat']
    omega

/-! ## Order -/

/-- Lists whose first parts have one length are compared part by part. -/
theorem compare_append {α : Type} [Ord α] {u v : List α} (h : u.length = v.length)
    (s t : List α) : compare (u ++ s) (v ++ t) = (compare u v).then (compare s t) := by
  induction u generalizing v with
  | nil =>
    obtain rfl := List.length_eq_zero_iff.mp h.symm
    rfl
  | cons a u ih =>
    cases v with
    | nil => cases h
    | cons b v =>
      rw [List.cons_append, List.cons_append, List.compare_cons_cons, List.compare_cons_cons,
        ih (Nat.succ.inj h), Ordering.then_assoc]

/-- Words of one width are ordered as the numbers they hold. -/
theorem compare_beBytes_of_lt {w m n : ℕ} (hlt : m < n) (hn : n < 256 ^ w) :
    compare (beBytes w m) (beBytes w n) = .lt := by
  induction w generalizing m n with
  | zero =>
    rw [pow_zero] at hn
    omega
  | succ w ih =>
    rw [pow_succ] at hn
    rw [beBytes_succ, beBytes_succ, compare_append (by rw [length_beBytes, length_beBytes])]
    by_cases hhigh : m / 256 < n / 256
    · rw [ih hhigh (by omega)]
      rfl
    · -- the numbers differ in the last byte alone
      have heq : m / 256 = n / 256 := by omega
      have hlast : compare (UInt8.ofNat m) (UInt8.ofNat n) = .lt := by
        rw [Std.compare_eq_lt, UInt8.lt_iff_toNat_lt, UInt8.toNat_ofNat', UInt8.toNat_ofNat']
        omega
      rw [heq, Std.compare_self, List.compare_cons_cons, hlast]
      rfl

end NervesP2P
