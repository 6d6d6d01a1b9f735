import NervesP2P.Discovery.Provenance

/-!
# What a query answers

`find` filters the records that have not expired and sorts them by `compareRecords`, which compares
two loads by cross multiplication. On all announcements that comparison is not transitive: an
empty load of capacity zero makes both products zero, so it would equal every other. The filter
keeps only records with room, and on those `compareRecords` is the lexicographic comparison of the
exact ratio, the spare capacity and the key bytes (`compareRecords_eq`). The keys of two records are
different, so the order is strict, and what the hash map's iteration order contributes is forgotten
by the sort.

One thing is not exact. The end of a lifetime is a saturated sum, so at the last instant of the
clock nothing counts as active, whatever its lifetime.
-/

open Std (ExtTreeMap TransCmp OrientedCmp ReflCmp)

namespace NervesP2P

variable {I : Iroh} {S : Type}

/-! ## The order of the answers

The comparison of the source is shown to be that of a key in a linear order, once and for all
announcements with room. Everything that sorting needs then comes from the order and not from the
comparison. -/

/-- The load as an exact fraction of the capacity. -/
def Load.ratio (load : Load) : ℚ := load.running.toNat / load.capacity.toNat

/-- The capacity that is free. -/
def Load.spare (load : Load) : ℕ := load.capacity.toNat - load.running.toNat

/-- A smaller load comes first, then the larger spare capacity, then the smaller key. -/
def Announcement.Precedes (a b : Announcement I) : Prop :=
  a.load.ratio < b.load.ratio
    ∨ a.load.ratio = b.load.ratio ∧ (b.load.spare < a.load.spare
      ∨ b.load.spare = a.load.spare
        ∧ compare (I.asBytes a.endpointId).toList (I.asBytes b.endpointId).toList = .lt)

/-- The comparison behind `Announcement.Precedes`. -/
def Announcement.compareRank (a b : Announcement I) : Ordering :=
  (compare a.load.ratio b.load.ratio).then <|
    (compare b.load.spare a.load.spare).then <| compare a.endpointId b.endpointId

instance : TransCmp (Announcement.compareRank (I := I)) :=
  inferInstanceAs (TransCmp (compareLex (compareOn fun a : Announcement I ↦ a.load.ratio)
    (compareLex (fun a b ↦ compareOn (fun a : Announcement I ↦ a.load.spare) b a)
      (compareOn fun a : Announcement I ↦ a.endpointId))))

theorem Announcement.compareRank_eq_lt {a b : Announcement I} :
    a.compareRank b = .lt ↔ a.Precedes b := by
  rw [compareRank, Ordering.then_eq_lt, Ordering.then_eq_lt, compare_lt_iff_lt, compare_lt_iff_lt,
    compare_eq_iff_eq, compare_eq_iff_eq]
  rfl

theorem Announcement.endpointId_of_compareRank {a b : Announcement I}
    (h : a.compareRank b = .eq) : a.endpointId = b.endpointId := by
  rw [compareRank, Ordering.then_eq_eq, Ordering.then_eq_eq] at h
  exact Std.LawfulEqOrd.eq_of_compare h.2.2

theorem compare_toNat (a b : UInt64) : compare a b = compare a.toNat b.toNat := by
  simp only [compare, compareOfLessAndEq, UInt64.lt_iff_toNat_lt, ← UInt64.toNat_inj]

/-- **Cross multiplication compares the ratios** of announcements that have room. -/
theorem compareRecords_eq {a b : Announcement I} (ha : a.load.running < a.load.capacity)
    (hb : b.load.running < b.load.capacity) : compareRecords a b = a.compareRank b := by
  rw [UInt64.lt_iff_toNat_lt] at ha hb
  have hcross : ∀ {x y : Load}, 0 < x.capacity.toNat → 0 < y.capacity.toNat →
      (x.running.toNat * y.capacity.toNat < y.running.toNat * x.capacity.toNat
        ↔ x.ratio < y.ratio) := by
    intro x y hx hy
    rw [Load.ratio, Load.ratio, div_lt_div_iff₀ (by exact_mod_cast hx) (by exact_mod_cast hy)]
    norm_cast
  have hspare : ∀ {x : Load}, x.running.toNat < x.capacity.toNat →
      (x.capacity - x.running).toNat = x.spare := fun h ↦
    UInt64.toNat_sub_of_le _ _ (UInt64.le_iff_toNat_le.mpr h.le)
  have hratio := compare_congr (hcross (Nat.zero_lt_of_lt ha) (Nat.zero_lt_of_lt hb))
    (hcross (Nat.zero_lt_of_lt hb) (Nat.zero_lt_of_lt ha))
  rw [compareRecords, Announcement.compareRank, hratio, compare_toNat, hspare ha, hspare hb]

namespace Registry

/-! ## Selected records

`Selected` is what a caller would ask for, and does not speak of lists. That two records have
different endpoints, because each is kept under its own, makes the sorted list unique. -/

/-- The instant is before the saturated end of the record's lifetime. -/
def Unexpired (now : UInt64) (record : ActiveRecord I) : Prop :=
  now.toNat < min (record.receivedAt.toNat + record.announcement.ttlMs.toNat) (2 ^ 64 - 1)

instance (now : UInt64) (record : ActiveRecord I) : Decidable (Unexpired now record) :=
  inferInstanceAs (Decidable (_ < _))

/-- What a query has to return: the active records with room that meet every predicate. -/
structure Selected (r : Registry I S) (predicates : List Predicate) (now : UInt64)
    (record : ActiveRecord I) : Prop where
  held : ∃ e : I.EndpointId, r.records[e]? = some record
  unexpired : Unexpired now record
  room : record.announcement.load.running < record.announcement.load.capacity
  predicates : ∀ predicate ∈ predicates, matchesPredicate record.announcement predicate = true

theorem unexpired_iff {now : UInt64} {record : ActiveRecord I} :
    Unexpired now record ↔ now < saturatingAdd record.receivedAt record.announcement.ttlMs := by
  have hnow := now.toNat_lt
  rw [Unexpired, lt_saturatingAdd_iff]
  omega

/-- The records a query selects, in the order of the answer. -/
def selection (r : Registry I S) (predicates : List Predicate) (now : UInt64) :
    List (ActiveRecord I) :=
  sortBy (fun a b ↦ a.announcement.compareRank b.announcement) <|
    ((r.expire now).records.toList.map Prod.snd).filter fun record ↦
      record.announcement.load.running < record.announcement.load.capacity
        && predicates.all (matchesPredicate record.announcement)

theorem mem_selection {r : Registry I S} {predicates : List Predicate} {now : UInt64}
    {record : ActiveRecord I} :
    record ∈ r.selection predicates now ↔ r.Selected predicates now record := by
  -- the canonical iteration order is one of the orders of the hash map
  have hmem : record ∈ (r.expire now).values ⟨id, List.Perm.refl⟩
      ↔ ∃ e : I.EndpointId, (r.expire now).records[e]? = some record := mem_values
  rw [selection, mem_sortBy, List.mem_filter, Bool.and_eq_true, decide_eq_true_iff,
    List.all_eq_true]
  constructor
  · rintro ⟨hrecord, hroom, hall⟩
    obtain ⟨e, he⟩ := hmem.mp hrecord
    obtain ⟨hheld, hlive⟩ := getElem?_expire.mp he
    exact ⟨⟨e, hheld⟩, unexpired_iff.mpr hlive, hroom, hall⟩
  · rintro ⟨⟨e, hheld⟩, hlive, hroom, hall⟩
    exact ⟨hmem.mpr ⟨e, getElem?_expire.mpr ⟨hheld, unexpired_iff.mp hlive⟩⟩, hroom, hall⟩

/-- The records are kept under their endpoints. -/
def Keyed (r : Registry I S) : Prop :=
  ∀ (e : I.EndpointId) (record : ActiveRecord I), r.records[e]? = some record →
    record.announcement.endpointId = e

theorem Keyed.expire {r : Registry I S} (h : r.Keyed) (now : UInt64) : (r.expire now).Keyed :=
  fun e record hrecord ↦ h e record (getElem?_expire.mp hrecord).1

theorem Keyed.pairwise_endpointId {r : Registry I S} (h : r.Keyed) :
    (r.records.toList.map Prod.snd).Pairwise fun a b ↦
      a.announcement.endpointId ≠ b.announcement.endpointId := by
  rw [List.pairwise_map]
  refine List.Pairwise.imp_of_mem ?_ (ExtTreeMap.distinct_keys_toList (t := r.records))
  intro x y hx hy hne heq
  have hkey : ∀ z ∈ r.records.toList, z.2.announcement.endpointId = z.1 := fun z hz ↦
    h z.1 z.2 (ExtTreeMap.mem_toList_iff_getElem?_eq_some.mp hz)
  rw [hkey x hx, hkey y hy] at heq
  exact hne (heq ▸ ReflCmp.compare_self)

theorem Keyed.pairwise_compareRank {r : Registry I S} (h : r.Keyed) :
    (r.records.toList.map Prod.snd).Pairwise fun a b ↦
      a.announcement.compareRank b.announcement ≠ .eq :=
  h.pairwise_endpointId.imp fun hne heq ↦ hne (Announcement.endpointId_of_compareRank heq)

/-- **The order of the hash map is forgotten.** -/
theorem Keyed.foundPeers_expire {r : Registry I S} (h : r.Keyed)
    (order : HashOrder (ActiveRecord I)) (predicates : List Predicate) (now : UInt64) :
    (r.expire now).foundPeers order predicates
      = (r.selection predicates now).map fun record ↦ record.announcement.peer := by
  have hdistinct := (h.expire now).pairwise_compareRank
  rw [foundPeers, selection]
  refine congrArg (List.map _) ((sortBy_congr ?_).trans
    (sortBy_of_perm ((order.perm _).symm.filter _) (hdistinct.filter _)))
  intro a ha b hb
  rw [List.mem_filter, Bool.and_eq_true, decide_eq_true_iff] at ha hb
  exact compareRecords_eq ha.2.1 hb.2.1

theorem Keyed.pairwise_selection {r : Registry I S} (h : r.Keyed)
    (predicates : List Predicate) (now : UInt64) :
    (r.selection predicates now).Pairwise fun a b ↦ a.announcement.Precedes b.announcement :=
  (pairwise_lt_sortBy ((h.expire now).pairwise_compareRank.filter _)).imp
    Announcement.compareRank_eq_lt.mp

variable [SequenceStore I S]

theorem Invariant.keyed {r : Registry I S} (h : r.Invariant) : r.Keyed :=
  fun e record hrecord ↦ (h.records e record hrecord).keyed

theorem Reachable.keyed {r : Registry I S} (h : r.Reachable) : r.Keyed :=
  fun _ _ hrecord ↦ (h.attested hrecord).keyed

/-! ## The answer -/

/-- The order of the answers is a strict total order on a set of records. -/
structure StrictlyOrdered (selected : ActiveRecord I → Prop) : Prop where
  irrefl : ∀ a, selected a → ¬a.announcement.Precedes a.announcement
  trans : ∀ a b c, selected a → selected b → selected c → a.announcement.Precedes b.announcement →
    b.announcement.Precedes c.announcement → a.announcement.Precedes c.announcement
  total : ∀ a b, selected a → selected b →
    a = b ∨ a.announcement.Precedes b.announcement ∨ b.announcement.Precedes a.announcement

/-- No comparison of two announcements leaves the range of its numbers: the products stay below
`2 ^ 128` and the differences do not wrap. -/
def ComparesInRange (a b : Announcement I) : Prop :=
  a.load.running.toNat * b.load.capacity.toNat < 2 ^ 128
    ∧ b.load.running.toNat * a.load.capacity.toNat < 2 ^ 128
    ∧ a.load.running ≤ a.load.capacity ∧ b.load.running ≤ b.load.capacity

theorem Invariant.strictlyOrdered {r : Registry I S} (h : r.Invariant)
    (predicates : List Predicate) (now : UInt64) :
    StrictlyOrdered (r.Selected predicates now) where
  irrefl a _ hself := by
    have heq : a.announcement.compareRank a.announcement = .eq := ReflCmp.compare_self
    rw [← Announcement.compareRank_eq_lt, heq] at hself
    cases hself
  trans a b c _ _ _ hab hbc := by
    rw [← Announcement.compareRank_eq_lt] at hab hbc ⊢
    exact TransCmp.lt_trans hab hbc
  total a b ha hb := by
    rcases hcmp : a.announcement.compareRank b.announcement with _ | _ | _
    · exact Or.inr (Or.inl (Announcement.compareRank_eq_lt.mp hcmp))
    · obtain ⟨e, hheld⟩ := ha.held
      obtain ⟨e', hheld'⟩ := hb.held
      -- equal rank means equal keys, and a key has one record
      have heq : e = e' := by
        rw [← (h.records e a hheld).keyed, ← (h.records e' b hheld').keyed]
        exact Announcement.endpointId_of_compareRank hcmp
      rw [← heq, hheld] at hheld'
      exact Or.inl (Option.some.inj hheld')
    · exact Or.inr (Or.inr (Announcement.compareRank_eq_lt.mp (OrientedCmp.lt_of_gt hcmp)))

omit [SequenceStore I S] in
theorem Selected.comparesInRange {r : Registry I S} {predicates : List Predicate} {now : UInt64}
    {a b : ActiveRecord I} (ha : r.Selected predicates now a) (hb : r.Selected predicates now b) :
    ComparesInRange a.announcement b.announcement := by
  have hproduct : ∀ x y : UInt64, x.toNat * y.toNat < 2 ^ 128 := fun x y ↦
    calc x.toNat * y.toNat < 2 ^ 64 * 2 ^ 64 := Nat.mul_lt_mul'' x.toNat_lt y.toNat_lt
      _ = 2 ^ 128 := by norm_num
  exact ⟨hproduct _ _, hproduct _ _, UInt64.le_of_lt ha.room, UInt64.le_of_lt hb.room⟩

/-- **A query is exact and canonical.** Whatever the iteration order of the hash map, it answers
with the selected records, each once and in the order of rank, and fails if and only if there are
none. -/
theorem find_exact {r : Registry I S} (h : r.Invariant) (predicates : List Predicate)
    (now : UInt64) :
    (∃ found : List (ActiveRecord I),
      (∀ record, record ∈ found ↔ r.Selected predicates now record)
        ∧ (found.map fun record ↦ record.announcement.endpointId).Nodup
        ∧ (found.Pairwise fun a b ↦ a.announcement.Precedes b.announcement)
        ∧ ∀ order : HashOrder (ActiveRecord I),
          (∀ peers r', (find order predicates now).Returns r peers r' ↔
            found ≠ [] ∧ peers = (found.map fun record ↦ record.announcement.peer)
              ∧ r' = r.expire now)
          ∧ ∀ err r', (find order predicates now).Fails r err r' ↔
            found = [] ∧ err = .noMatchingPeer ∧ r' = r.expire now)
      ∧ StrictlyOrdered (r.Selected predicates now)
      ∧ ∀ a b, r.Selected predicates now a → r.Selected predicates now b →
        ComparesInRange a.announcement b.announcement := by
  refine ⟨⟨r.selection predicates now, fun record ↦ mem_selection, ?_,
    h.keyed.pairwise_selection predicates now, fun order ↦ ⟨fun peers r' ↦ ?_, fun err r' ↦ ?_⟩⟩,
    h.strictlyOrdered predicates now, fun a b ha hb ↦ ha.comparesInRange hb⟩
  · have hsymm : ∀ {a b : ActiveRecord I},
        a.announcement.endpointId ≠ b.announcement.endpointId →
          b.announcement.endpointId ≠ a.announcement.endpointId := Ne.symm
    rw [List.Nodup, List.pairwise_map]
    exact (List.Perm.pairwise_iff hsymm (sortBy_perm _ _)).mpr
      ((h.keyed.expire now).pairwise_endpointId.filter _)
  · rw [returns_find, h.keyed.foundPeers_expire]
    constructor
    · rintro ⟨rfl, hne, rfl⟩
      exact ⟨fun hnil ↦ hne (by rw [hnil]; rfl), rfl, rfl⟩
    · rintro ⟨hne, rfl, rfl⟩
      exact ⟨rfl, fun hnil ↦ hne (List.map_eq_nil_iff.mp hnil), rfl⟩
  · rw [fails_find, h.keyed.foundPeers_expire, List.map_eq_nil_iff]

/-- Only the second of two members has the capability that is asked for, and any order of the hash
map yields it alone. -/
theorem find_exact_sample :
    ∃ peers : List (Peer Iroh.pair),
      (member true).peer ∈ peers ∧ (∀ peer ∈ peers, peer.endpointId = true)
        ∧ ∀ order, (find order [gpuRequired] 0).Returns bothHeard peers (bothHeard.expire 0) := by
  obtain ⟨⟨found, hmem, -, -, hfind⟩, -, -⟩ :=
    find_exact reachable_bothHeard.invariant [gpuRequired] 0
  have hsecond : (⟨member true, 0⟩ : ActiveRecord Iroh.pair) ∈ found :=
    (hmem _).mpr ⟨⟨true, getElem?_bothHeard true⟩, by decide, by decide,
      List.forall_mem_singleton.mpr (matchesPredicate_member true)⟩
  have honly : ∀ record ∈ found, record.announcement.endpointId = true := by
    intro record hrecord
    obtain ⟨⟨e, he⟩, -, -, hmatches⟩ := (hmem record).mp hrecord
    obtain rfl := Option.some.inj ((getElem?_bothHeard e).symm.trans he)
    exact (matchesPredicate_member e).symm.trans (hmatches gpuRequired (List.mem_singleton_self _))
  refine ⟨found.map fun record ↦ record.announcement.peer, List.mem_map_of_mem hsecond, ?_,
    fun order ↦ ((hfind order).1 _ _).mpr ⟨List.ne_nil_of_mem hsecond, rfl, rfl⟩⟩
  intro peer hpeer
  obtain ⟨record, hrecord, rfl⟩ := List.mem_map.mp hpeer
  exact honly record hrecord

/-- At the last instant of the clock no query finds the sample, which has just arrived and has its
whole lifetime before it. -/
theorem find_misses_at_clock_end :
    ∃ (r : Registry Iroh.single (MemorySequenceStore Iroh.single)) (now : UInt64)
      (record : ActiveRecord Iroh.single),
      r.Reachable ∧ r.Invariant ∧ r.records[sample.endpointId]? = some record
        ∧ now.toNat < record.receivedAt.toNat + record.announcement.ttlMs.toNat
        ∧ record.announcement.load.running < record.announcement.load.capacity
        ∧ ∀ order, (find order [] now).Fails r .noMatchingPeer (r.expire now) := by
  obtain ⟨r, hreachable, hrecord⟩ := exists_reachable_sample (UInt64.ofNat (2 ^ 64 - 1))
  refine ⟨r, UInt64.ofNat (2 ^ 64 - 1), _, hreachable, hreachable.invariant, hrecord, by decide,
    by decide, fun order ↦ ?_⟩
  rw [fails_find, hreachable.keyed.foundPeers_expire, List.map_eq_nil_iff]
  refine ⟨List.eq_nil_iff_forall_not_mem.mpr fun record hmem ↦ ?_, rfl, rfl⟩
  have hlive := (mem_selection.mp hmem).unexpired
  rw [Unexpired, UInt64.toNat_ofNat_of_lt' (by decide)] at hlive
  omega

end Registry

end NervesP2P
