import NervesP2P.Node.Config

/-!
# From the keyword list to the map

An option passes through a subgroup on its way into the map, and some change their names twice. In
the map every option is under its own name again (`rows_toNifMap`), with the value that was given or
the default. Where `nil` stands for the default, an option that is given as `nil` has the default.
-/

namespace NervesP2P

namespace Node

variable {key field : String}

/-! ## Through the subgroups

Taking, renaming and overriding keys, each with what becomes of a lookup. A field that one option is
renamed to has the value of that option, because no two options are renamed to the same field. -/

namespace Keywords

theorem lookup_take (opts : Keywords) {keys : List String} (h : key ∈ keys) :
    (opts.take keys).lookup key = opts.lookup key := by
  induction opts with
  | nil => rfl
  | cons entry opts ih =>
    obtain ⟨name, term⟩ := entry
    rw [take, List.filter_cons, ← take]
    by_cases heq : key = name
    · subst heq
      simp [h]
    · have hne : (key == name) = false := beq_eq_false_iff_ne.mpr heq
      split
      · rw [List.lookup_cons, List.lookup_cons, hne, ih]
      · rw [List.lookup_cons, hne, ih]

theorem lookup_renameKey_self (opts : Keywords) {acc : Keywords} (h : acc.lookup field = none) :
    (opts.renameKey acc (key, field)).lookup field = opts.lookup key := by
  rw [renameKey]
  split
  · next value hvalue => rw [List.lookup_cons, beq_self_eq_true, hvalue]
  · next hnone => rw [h, hnone]

theorem lookup_renameKey_of_ne (opts acc : Keywords) {entry : String × String}
    (h : field ≠ entry.2) : (opts.renameKey acc entry).lookup field = acc.lookup field := by
  rw [renameKey]
  split
  · rw [List.lookup_cons, beq_eq_false_iff_ne.mpr h]
  · rfl

/-- A field that one option is renamed to has the value of that option. -/
theorem lookup_renameKeys (opts : Keywords) {renames : List (String × String)}
    (hnodup : (renames.map Prod.snd).Nodup) (h : (key, field) ∈ renames) :
    (opts.renameKeys renames).lookup field = opts.lookup key := by
  -- the fold leaves a field alone that none of the options is renamed to
  have hother : ∀ (renames : List (String × String)) (acc : Keywords),
      field ∉ renames.map Prod.snd →
        (renames.foldl opts.renameKey acc).lookup field = acc.lookup field := by
    intro renames
    induction renames with
    | nil => exact fun acc _ ↦ rfl
    | cons entry renames ih =>
      intro acc hfield
      rw [List.map_cons, List.mem_cons, not_or] at hfield
      rw [List.foldl_cons, ih _ hfield.2, lookup_renameKey_of_ne opts acc hfield.1]
  suffices hfold : ∀ acc : Keywords, acc.lookup field = none →
      (renames.foldl opts.renameKey acc).lookup field = opts.lookup key from hfold [] rfl
  induction renames with
  | nil => cases h
  | cons entry renames ih =>
    intro acc hacc
    rw [List.map_cons, List.nodup_cons] at hnodup
    rw [List.foldl_cons]
    rcases List.mem_cons.mp h with rfl | h
    · rw [hother renames _ hnodup.1, lookup_renameKey_self opts hacc]
    · have hne : field ≠ entry.2 := by
        rintro rfl
        exact hnodup.1 (List.mem_map.mpr ⟨_, h, rfl⟩)
      exact ih hnodup.2 h _ (by rw [lookup_renameKey_of_ne opts acc hne, hacc])

/-- The operator `||` keeps a value that is not `nil`. -/
theorem or_access (opts : Keywords) (h : opts.lookup key ≠ some .nil) :
    (opts.access key).or (.bool false) = opts.get key (.bool false) := by
  rw [access, get, get]
  cases hterm : opts.lookup key with
  | none => rfl
  | some term =>
    rw [Option.getD_some, Option.getD_some]
    cases term with
    | atom name =>
      rw [Term.or]
      split
      · next hname =>
        rcases hname with rfl | rfl
        · exact absurd hterm h
        · rfl
      · rfl
    | _ => rfl

theorem lookup_putIf_of_ne (acc : Keywords) (value : Term) (h : field ≠ key) :
    (acc.putIf value key).lookup field = acc.lookup field := by
  rw [putIf]
  split
  · rfl
  · rw [List.lookup_cons, beq_eq_false_iff_ne.mpr h]

theorem lookup_putIf_self (opts : Keywords) {acc : Keywords} (hacc : acc.lookup field = none)
    (h : opts.lookup key ≠ some .nil) :
    (acc.putIf (opts.access key) field).lookup field = opts.lookup key := by
  rw [putIf, access, get]
  cases hterm : opts.lookup key with
  | none => exact hacc
  | some term =>
    have hnil : term.isNil = false := by
      cases term with
      | atom name =>
        rw [Term.isNil, beq_eq_false_iff_ne]
        rintro rfl
        exact h hterm
      | _ => rfl
    rw [Option.getD_some, hnil, if_neg Bool.false_ne_true, List.lookup_cons, beq_self_eq_true]

end Keywords

/-! ## The map

`Config.build []` is the configuration without options, so its map has the defaults. -/

/-- The default of an option on the Elixir side. -/
def elixirDefault (key : String) : Term := ((Config.build []).toNifMap.lookup key).getD .nil

/-- The option is not given as `nil` where `nil` stands for the default. -/
def Keywords.Kept (opts : Keywords) (key : String) : Prop :=
  key ∈ rendezvousKeys ++ protocolKeys → opts.lookup key ≠ some .nil

/-- A row of the map is an option under its own name, given or by default. -/
structure Row (opts : Keywords) (row default : String × Term) : Prop where
  name : row.1 = default.1
  value : opts.Kept row.1 → row.2 = opts.get row.1 default.2

theorem row_of_lookup {opts overrides : Keywords}
    (h : opts.Kept key → overrides.lookup field = opts.lookup key) (default : Term) :
    Row opts (key, overrides.get field default) (key, default) where
  name := rfl
  value hkept := by rw [Keywords.get, h hkept, Keywords.get]

theorem row_take (opts : Keywords) (keys : List String) (h : key ∈ keys) (default : Term) :
    Row opts (key, (opts.take keys).get key default) (key, default) :=
  row_of_lookup (fun _ ↦ opts.lookup_take h) default

theorem row_rename (opts : Keywords) {renames : List (String × String)}
    (hnodup : (renames.map Prod.snd).Nodup) (h : (key, field) ∈ renames) (default : Term) :
    Row opts (key, (opts.renameKeys renames).get field default) (key, default) :=
  row_of_lookup (fun _ ↦ opts.lookup_renameKeys hnodup h) default

theorem row_or (opts : Keywords) (h : key ∈ protocolKeys) :
    Row opts (key, (opts.access key).or (.bool false)) (key, .bool false) where
  name := rfl
  value hkept := opts.or_access (hkept (List.mem_append_right _ h))

/-- In the map every option is under its own name. -/
theorem rows_toNifMap (opts : Keywords) :
    List.Forall₂ (Row opts) (Config.build opts).toNifMap (Config.build []).toNifMap := by
  have hgossipsub : (gossipsubRenames.map Prod.snd).Nodup := by simp [gossipsubRenames]
  have hrpc : (rpcRenames.map Prod.snd).Nodup := by simp [rpcRenames]
  simp only [Config.toNifMap, List.forall₂_cons, List.forall₂_nil_left_iff, and_true]
  refine ⟨⟨rfl, fun _ ↦ rfl⟩, ?_⟩
  iterate 8 refine ⟨row_take opts networkKeys (by simp [networkKeys]) _, ?_⟩
  iterate 5 refine ⟨row_take opts discoveryKeys (by simp [discoveryKeys]) _, ?_⟩
  iterate 10 refine ⟨row_rename opts hgossipsub (by simp [gossipsubRenames]) _, ?_⟩
  iterate 2 refine ⟨row_rename opts hrpc (by simp [rpcRenames]) _, ?_⟩
  iterate 7 refine ⟨row_take opts relayKeys (by simp [relayKeys]) _, ?_⟩
  iterate 4
    refine ⟨row_of_lookup (fun hkept ↦ ?_) _, ?_⟩
    · have hnil := hkept (by simp [rendezvousKeys])
      simp [Keywords.rendezvousOverrides, Keywords.lookup_putIf_of_ne,
        Keywords.lookup_putIf_self opts List.lookup_nil, Keywords.lookup_putIf_self, hnil]
  iterate 4 refine ⟨row_or opts (by simp [protocolKeys]), ?_⟩
  exact row_or opts (by simp [protocolKeys])

def nifKeys : List String := (Config.build []).toNifMap.map Prod.fst

theorem lookup_of_rows {opts : Keywords} {map defaults : List (String × Term)}
    (h : List.Forall₂ (Row opts) map defaults) (hkept : opts.Kept key) :
    map.lookup key = (defaults.lookup key).map (opts.get key) := by
  induction h with
  | nil => rfl
  | @cons row default map defaults hrow _ ih =>
    obtain ⟨name, term⟩ := row
    obtain ⟨name', term'⟩ := default
    obtain rfl : name = name' := hrow.name
    rw [List.lookup_cons, List.lookup_cons]
    by_cases heq : key = name
    · subst heq
      rw [beq_self_eq_true]
      exact congrArg some (hrow.value hkept)
    · rw [beq_eq_false_iff_ne.mpr heq]
      exact ih

theorem lookup_toNifMap (opts : Keywords) (hkey : key ∈ nifKeys) (hkept : opts.Kept key) :
    (Config.build opts).toNifMap.lookup key = some (opts.get key (elixirDefault key)) := by
  rw [lookup_of_rows (rows_toNifMap opts) hkept, elixirDefault]
  cases hdefault : (Config.build []).toNifMap.lookup key with
  | none =>
    rw [List.lookup_eq_none_iff] at hdefault
    obtain ⟨row, hrow, rfl⟩ := List.mem_map.mp hkey
    simpa using hdefault row hrow
  | some term => rfl

/-- No option is under any other name. -/
theorem lookup_toNifMap_of_not_mem (opts : Keywords) (hkey : key ∉ nifKeys) :
    (Config.build opts).toNifMap.lookup key = none := by
  have hnames : nifKeys = (Config.build opts).toNifMap.map Prod.fst := by
    simp only [nifKeys, Config.toNifMap, List.map_cons, List.map_nil]
  rw [List.lookup_eq_none_iff]
  intro row hrow
  rw [bne_iff_ne]
  rintro rfl
  exact hkey (hnames ▸ List.mem_map_of_mem hrow)

end Node

end NervesP2P
