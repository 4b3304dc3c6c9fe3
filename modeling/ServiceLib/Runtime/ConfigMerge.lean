import ServiceLib.Runtime.Loader
import ServiceLib.While

/-!
# Merging configurations

The law of `merge_yaml` in `src/runtime/config/loader.rs`, and what it makes of the three layers of
`load_snapshot`: the defaults, the base file and the override file.

**Theorem (`merge_law`).** Along a path on which both values go through mappings, the merged value is
the override's, the merge of both, or the base's; no key is lost and none appears. Merging an
override a second time changes nothing. A leaf of the value that a snapshot is made of comes from
the first of override, base and defaults that is not silent about its path.

The idea: a mapping has each key once, as `serde_yaml::Mapping` does, so that the loop over the
override meets each key once (`getEntry_mergeEntries`).
-/

namespace ServiceLib

namespace ConfigLoader

variable {κ α : Type} [DecidableEq κ]

/-! ## Values -/

/-- Every mapping has each of its keys once. -/
inductive Yaml.Unique : Yaml κ α → Prop
  | other (value : α) : Unique (.other value)
  | mapping (entries : List (κ × Yaml κ α)) (nodup : (entries.map Prod.fst).Nodup)
      (values : ∀ entry ∈ entries, Unique entry.2) : Unique (.mapping entries)

/-- A `serde_yaml::Value`, whose mappings are maps. -/
@[ext] structure Value (κ α : Type) where
  yaml : Yaml κ α
  unique : yaml.Unique

def Yaml.isMapping : Yaml κ α → Bool
  | .mapping _ => true
  | .other _ => false

/-- The value at a path of keys. -/
def Yaml.get : Yaml κ α → List κ → Option (Yaml κ α)
  | value, [] => some value
  | .other _, _ :: _ => none
  | .mapping entries, key :: path => (getEntry entries key).bind fun value => value.get path
termination_by structural _ path => path

/-! ## Entries -/

theorem getEntry_cons (key key' : κ) (value : Yaml κ α) (entries : List (κ × Yaml κ α)) :
    getEntry ((key, value) :: entries) key' =
      if key = key' then some value else getEntry entries key' := by
  by_cases h : key = key' <;> simp [getEntry, h]

theorem getEntry_eq_none {entries : List (κ × Yaml κ α)} {key : κ}
    (h : key ∉ entries.map Prod.fst) : getEntry entries key = none := by
  induction entries with
  | nil => rfl
  | cons entry entries ih =>
    rw [List.map_cons, List.mem_cons, not_or] at h
    rw [getEntry_cons, if_neg (Ne.symm h.1)]
    exact ih h.2

theorem mem_of_getEntry {entries : List (κ × Yaml κ α)} {key : κ} {value : Yaml κ α}
    (h : getEntry entries key = some value) : (key, value) ∈ entries := by
  obtain ⟨entry, hfind, rfl⟩ := Option.map_eq_some_iff.mp h
  have hkey := List.find?_some hfind
  have hmem := List.mem_of_find?_eq_some hfind
  rw [← of_decide_eq_true hkey]
  exact hmem

theorem getEntry_of_mem {entries : List (κ × Yaml κ α)} {key : κ} {value : Yaml κ α}
    (hnodup : (entries.map Prod.fst).Nodup) (h : (key, value) ∈ entries) :
    getEntry entries key = some value := by
  induction entries with
  | nil => cases h
  | cons entry entries ih =>
    rw [List.map_cons, List.nodup_cons] at hnodup
    rw [getEntry_cons]
    obtain rfl | hmem := List.mem_cons.mp h
    · exact if_pos rfl
    · have hne : entry.1 ≠ key := by
        intro heq
        exact hnodup.1 (List.mem_map.mpr ⟨(key, value), hmem, heq.symm⟩)
      rw [if_neg hne]
      exact ih hnodup.2 hmem

theorem any_key (entries : List (κ × Yaml κ α)) (key : κ) :
    (entries.any fun entry => entry.1 = key) = (getEntry entries key).isSome := by
  induction entries with
  | nil => rfl
  | cons entry entries ih =>
    rw [getEntry_cons, List.any_cons, ih]
    by_cases h : entry.1 = key <;> simp [h]

theorem getEntry_append (entries : List (κ × Yaml κ α)) (key key' : κ) (value : Yaml κ α) :
    getEntry (entries ++ [(key, value)]) key' =
      (getEntry entries key').or (if key = key' then some value else none) := by
  induction entries with
  | nil => rw [List.nil_append, getEntry_cons]; rfl
  | cons entry entries ih =>
    rw [List.cons_append, getEntry_cons, getEntry_cons, ih]
    split <;> rfl

/-- The branch of `putEntry` for a key that is there. -/
theorem getEntry_replace (entries : List (κ × Yaml κ α)) (key key' : κ) (value : Yaml κ α) :
    getEntry (entries.map fun entry => if entry.1 = key then (entry.1, value) else entry) key' =
      if key = key' then (getEntry entries key').map fun _ => value
      else getEntry entries key' := by
  induction entries with
  | nil => split <;> rfl
  | cons entry entries ih =>
    rw [List.map_cons]
    by_cases hentry : entry.1 = key
    · subst hentry
      rw [if_pos rfl, getEntry_cons, getEntry_cons, ih]
      split <;> rfl
    · rw [if_neg hentry, getEntry_cons, getEntry_cons, ih]
      by_cases hkey : entry.1 = key'
      · rw [if_pos hkey, if_pos hkey, if_neg (fun h => hentry (hkey.trans h.symm))]
      · rw [if_neg hkey, if_neg hkey]

theorem getEntry_putEntry (entries : List (κ × Yaml κ α)) (key key' : κ) (value : Yaml κ α) :
    getEntry (putEntry entries key value) key' =
      if key = key' then some value else getEntry entries key' := by
  unfold putEntry
  rw [any_key]
  split
  case isTrue h =>
    rw [getEntry_replace]
    split
    case isTrue heq =>
      subst heq
      obtain ⟨old, hold⟩ := Option.isSome_iff_exists.mp h
      rw [hold]
      rfl
    case isFalse => rfl
  case isFalse h =>
    rw [getEntry_append]
    split
    case isTrue heq =>
      subst heq
      rw [Option.not_isSome_iff_eq_none.mp h]
      rfl
    case isFalse => exact Option.or_none

/-- Writing the value that is there changes nothing, if the key is there once. -/
theorem putEntry_self {entries : List (κ × Yaml κ α)} {key : κ} {value : Yaml κ α}
    (hnodup : (entries.map Prod.fst).Nodup) (h : getEntry entries key = some value) :
    putEntry entries key value = entries := by
  unfold putEntry
  rw [any_key, h, Option.isSome_some, if_pos rfl]
  have hentry : ∀ entry ∈ entries,
      (if entry.1 = key then (entry.1, value) else entry) = entry := by
    intro entry hentry
    split
    case isTrue hkey =>
      have hmem := mem_of_getEntry h
      have hvalue := List.inj_on_of_nodup_map hnodup hentry hmem hkey
      rw [hvalue]
    case isFalse => rfl
  calc entries.map (fun entry => if entry.1 = key then (entry.1, value) else entry)
      = entries.map id := List.map_congr_left hentry
    _ = entries := List.map_id entries

theorem putEntry_keys (entries : List (κ × Yaml κ α)) (key : κ) (value : Yaml κ α) :
    (putEntry entries key value).map Prod.fst =
      if (getEntry entries key).isSome then entries.map Prod.fst
      else entries.map Prod.fst ++ [key] := by
  unfold putEntry
  rw [any_key]
  split
  case isTrue =>
    rw [List.map_map]
    apply List.map_congr_left
    intro entry _
    rw [Function.comp_apply]
    split <;> rfl
  case isFalse => rw [List.map_append, List.map_cons, List.map_nil]

/-! ## The loop -/

/-- What the loop writes for an entry of the override. -/
def mergeValue : Option (Yaml κ α) → Yaml κ α → Yaml κ α
  | some baseValue, value => mergeYaml baseValue value
  | none, value => value

theorem mergeEntries_cons (base rest : List (κ × Yaml κ α)) (key : κ) (value : Yaml κ α) :
    mergeEntries base ((key, value) :: rest) =
      mergeEntries (putEntry base key (mergeValue (getEntry base key) value)) rest := by
  rw [mergeEntries]
  cases getEntry base key <;> rfl

/-- **An entry of the merged mapping.** -/
theorem getEntry_mergeEntries (base : List (κ × Yaml κ α)) {overrideMap : List (κ × Yaml κ α)}
    (hnodup : (overrideMap.map Prod.fst).Nodup) (key : κ) :
    getEntry (mergeEntries base overrideMap) key =
      match getEntry overrideMap key with
      | some value => some (mergeValue (getEntry base key) value)
      | none => getEntry base key := by
  induction overrideMap generalizing base with
  | nil => rfl
  | cons entry rest ih =>
    rw [List.map_cons, List.nodup_cons] at hnodup
    rw [mergeEntries_cons, ih _ hnodup.2, getEntry_putEntry, getEntry_cons]
    by_cases hkey : entry.1 = key
    · subst hkey
      rw [getEntry_eq_none hnodup.1, if_pos rfl, if_pos rfl]
    · rw [if_neg hkey, if_neg hkey]

theorem putEntry_unique {entries : List (κ × Yaml κ α)} {value : Yaml κ α} (key : κ)
    (h : (Yaml.mapping entries).Unique) (hvalue : value.Unique) :
    (Yaml.mapping (putEntry entries key value)).Unique := by
  cases h with
  | mapping _ hnodup hvalues =>
    apply Yaml.Unique.mapping
    · rw [putEntry_keys]
      split
      case isTrue => exact hnodup
      case isFalse hnone =>
        have hkey : key ∉ entries.map Prod.fst := by
          intro hmem
          obtain ⟨entry, hentry, rfl⟩ := List.mem_map.mp hmem
          rw [getEntry_of_mem hnodup hentry] at hnone
          exact hnone rfl
        exact List.nodup_append.mpr ⟨hnodup, List.nodup_singleton _, by
          intro a ha b hb heq
          rw [List.mem_singleton.mp hb] at heq
          exact hkey (heq ▸ ha)⟩
    · intro entry hentry
      unfold putEntry at hentry
      split at hentry
      case isTrue =>
        obtain ⟨old, hold, rfl⟩ := List.mem_map.mp hentry
        split
        · exact hvalue
        · exact hvalues old hold
      case isFalse =>
        obtain hmem | hmem := List.mem_append.mp hentry
        · exact hvalues entry hmem
        · rw [List.mem_singleton.mp hmem]
          exact hvalue

theorem mergeEntries_unique {base overrideMap : List (κ × Yaml κ α)}
    (hbase : (Yaml.mapping base).Unique)
    (hvalues : ∀ entry ∈ overrideMap, entry.2.Unique ∧
      ∀ baseValue : Yaml κ α, baseValue.Unique → (mergeYaml baseValue entry.2).Unique) :
    (Yaml.mapping (mergeEntries base overrideMap)).Unique := by
  induction overrideMap generalizing base with
  | nil => exact hbase
  | cons entry rest ih =>
    have hentry := hvalues entry List.mem_cons_self
    rw [mergeEntries_cons]
    apply ih
    · apply putEntry_unique entry.1 hbase
      cases hget : getEntry base entry.1 with
      | none => exact hentry.1
      | some baseValue =>
        cases hbase with
        | mapping _ _ hmem => exact hentry.2 baseValue (hmem _ (mem_of_getEntry hget))
    · intro later hlater
      exact hvalues later (List.mem_cons_of_mem _ hlater)

theorem mergeYaml_unique {base overrideValue : Yaml κ α} (hbase : base.Unique)
    (hoverride : overrideValue.Unique) : (mergeYaml base overrideValue).Unique := by
  induction hoverride generalizing base with
  | other value => cases hbase <;> exact .other value
  | mapping entries hnodup hvalues ih =>
    cases hbase with
    | other => exact .mapping entries hnodup hvalues
    | mapping bases hbases hbaseValues =>
      apply mergeEntries_unique (.mapping bases hbases hbaseValues)
      intro entry hentry
      exact ⟨hvalues entry hentry, fun _ hbase => ih entry hentry hbase⟩

/-- `merge_yaml`. -/
def Value.merge (base overrideValue : Value κ α) : Value κ α where
  yaml := mergeYaml base.yaml overrideValue.yaml
  unique := mergeYaml_unique base.unique overrideValue.unique

/-! ## Merging again -/

/-- A mapping that takes nothing from any entry of the override takes nothing from the loop. -/
theorem mergeEntries_absorbed {base overrideMap : List (κ × Yaml κ α)}
    (hnodup : (base.map Prod.fst).Nodup)
    (h : ∀ entry ∈ overrideMap, ∃ value, getEntry base entry.1 = some value ∧
      mergeYaml value entry.2 = value) : mergeEntries base overrideMap = base := by
  induction overrideMap with
  | nil => rfl
  | cons entry rest ih =>
    obtain ⟨value, hget, hmerge⟩ := h entry List.mem_cons_self
    have hrest := ih fun later hlater => h later (List.mem_cons_of_mem _ hlater)
    calc mergeEntries base (entry :: rest)
        = mergeEntries (putEntry base entry.1 (mergeValue (some value) entry.2)) rest := by
          rw [mergeEntries_cons, hget]
      _ = mergeEntries (putEntry base entry.1 value) rest := by rw [mergeValue, hmerge]
      _ = mergeEntries base rest := by rw [putEntry_self hnodup hget]
      _ = base := hrest

theorem mergeYaml_self {value : Yaml κ α} (h : value.Unique) : mergeYaml value value = value := by
  induction h with
  | other => rfl
  | mapping entries hnodup _ ih =>
    have habsorbed : mergeEntries entries entries = entries := by
      apply mergeEntries_absorbed hnodup
      intro entry hentry
      exact ⟨entry.2, getEntry_of_mem hnodup hentry, ih entry hentry⟩
    show Yaml.mapping (mergeEntries entries entries) = .mapping entries
    rw [habsorbed]

/-- **Idempotence in the override.** -/
theorem mergeYaml_again {base overrideValue : Yaml κ α} (hbase : base.Unique)
    (hoverride : overrideValue.Unique) :
    mergeYaml (mergeYaml base overrideValue) overrideValue = mergeYaml base overrideValue := by
  induction hoverride generalizing base with
  | other value => cases hbase <;> rfl
  | mapping entries hnodup hvalues ih =>
    cases hbase with
    | other => exact mergeYaml_self (.mapping entries hnodup hvalues)
    | mapping bases hbases hbaseValues =>
      have hmerged : (Yaml.mapping (mergeEntries bases entries)).Unique :=
        mergeYaml_unique (.mapping bases hbases hbaseValues) (.mapping entries hnodup hvalues)
      have habsorbed :
          mergeEntries (mergeEntries bases entries) entries = mergeEntries bases entries := by
        cases hmerged with
        | mapping _ hkeys _ =>
          apply mergeEntries_absorbed hkeys
          intro entry hentry
          refine ⟨mergeValue (getEntry bases entry.1) entry.2, ?_, ?_⟩
          · rw [getEntry_mergeEntries bases hnodup, getEntry_of_mem hnodup hentry]
          · cases hget : getEntry bases entry.1 with
            | none => exact mergeYaml_self (hvalues entry hentry)
            | some baseValue =>
              exact ih entry hentry (hbaseValues _ (mem_of_getEntry hget))
      show Yaml.mapping (mergeEntries (mergeEntries bases entries) entries) =
        .mapping (mergeEntries bases entries)
      rw [habsorbed]

/-! ## Paths -/

@[simp] theorem Yaml.get_nil (value : Yaml κ α) : value.get [] = some value := by
  cases value <;> rfl

@[simp] theorem Yaml.get_mapping_cons (entries : List (κ × Yaml κ α)) (key : κ) (path : List κ) :
    (Yaml.mapping entries).get (key :: path) =
      (getEntry entries key).bind fun value => value.get path := rfl

/-- Every proper prefix of the path leads to a mapping in both values. -/
def Beneath (base overrideValue : Yaml κ α) (path : List κ) : Prop :=
  ∀ front, front <+: path → front ≠ path →
    (base.get front).any Yaml.isMapping ∧ (overrideValue.get front).any Yaml.isMapping

theorem Beneath.head {base overrideValue : Yaml κ α} {key : κ} {path : List κ}
    (h : Beneath base overrideValue (key :: path)) :
    base.isMapping ∧ overrideValue.isMapping := by
  have hnil := h [] List.nil_prefix (List.cons_ne_nil key path).symm
  rw [Yaml.get_nil, Yaml.get_nil] at hnil
  exact hnil

theorem Beneath.tail {bases overrides : List (κ × Yaml κ α)} {base overrideValue : Yaml κ α}
    {key : κ} {path : List κ} (h : Beneath (.mapping bases) (.mapping overrides) (key :: path))
    (hbase : getEntry bases key = some base)
    (hoverride : getEntry overrides key = some overrideValue) :
    Beneath base overrideValue path := by
  intro front hfront hne
  have hcons := h (key :: front) (List.cons_prefix_cons.mpr ⟨rfl, hfront⟩)
    (fun heq => hne (List.cons.inj heq).2)
  rw [Yaml.get_mapping_cons, Yaml.get_mapping_cons, hbase, hoverride] at hcons
  exact hcons

/-- **The value at a path**, as long as the path goes through mappings on both sides. -/
theorem get_mergeYaml {base overrideValue : Yaml κ α} (hoverride : overrideValue.Unique)
    {path : List κ} (h : Beneath base overrideValue path) :
    (mergeYaml base overrideValue).get path =
      match overrideValue.get path with
      | some value => some (mergeValue (base.get path) value)
      | none => base.get path := by
  induction path generalizing base overrideValue with
  | nil => rw [Yaml.get_nil, Yaml.get_nil, Yaml.get_nil]; rfl
  | cons key path ih =>
    cases base with
    | other => exact absurd h.head.1 Bool.false_ne_true
    | mapping bases =>
      cases hoverride with
      | other => exact absurd h.head.2 Bool.false_ne_true
      | mapping overrides hnodup hvalues =>
        show (Yaml.mapping (mergeEntries bases overrides)).get (key :: path) = _
        rw [Yaml.get_mapping_cons, Yaml.get_mapping_cons, Yaml.get_mapping_cons,
          getEntry_mergeEntries bases hnodup]
        cases hget : getEntry overrides key with
        | none => rfl
        | some value =>
          cases hbase : getEntry bases key with
          | none =>
            show value.get path = match value.get path with
              | some value => some value
              | none => none
            cases value.get path <;> rfl
          | some baseValue =>
            exact ih (hvalues _ (mem_of_getEntry hget)) (h.tail hbase hget)

/-- What is at a path of the merged value. -/
structure Merged (base overrideValue merged : Option (Yaml κ α)) : Prop where
  replaced : ∀ value, overrideValue = some value →
    base.any Yaml.isMapping = false ∨ value.isMapping = false → merged = some value
  both : ∀ bases overrides, base = some (.mapping bases) →
    overrideValue = some (.mapping overrides) →
      merged = some (mergeYaml (.mapping bases) (.mapping overrides))
  kept : overrideValue = none → merged = base
  keys : merged.isSome ↔ base.isSome ∨ overrideValue.isSome

theorem mergeValue_replaces {base : Option (Yaml κ α)} {value : Yaml κ α}
    (h : base.any Yaml.isMapping = false ∨ value.isMapping = false) :
    mergeValue base value = value := by
  cases base with
  | none => rfl
  | some baseValue =>
    cases value with
    | other => cases baseValue <;> rfl
    | mapping =>
      cases baseValue with
      | other => rfl
      | mapping => exact absurd h (by simp [Yaml.isMapping])

theorem Value.merged_get {base overrideValue : Value κ α} {path : List κ}
    (h : Beneath base.yaml overrideValue.yaml path) :
    Merged (base.yaml.get path) (overrideValue.yaml.get path)
      ((base.merge overrideValue).yaml.get path) := by
  have hget : (base.merge overrideValue).yaml.get path = _ :=
    get_mergeYaml overrideValue.unique h
  rw [hget]
  generalize overrideValue.yaml.get path = value, base.yaml.get path = baseValue
  constructor
  · rintro value rfl hreplaced
    show some (mergeValue baseValue value) = some value
    rw [mergeValue_replaces hreplaced]
  · rintro bases overrides rfl rfl
    rfl
  · rintro rfl
    rfl
  · cases value with
    | none => simp
    | some value => simp

/-! ## Leaves -/

/-- The value at the end of a path, if it is not a mapping. -/
def Yaml.leaf (value : Yaml κ α) (path : List κ) : Option α :=
  match value.get path with
  | some (.other value) => some value
  | _ => none

/-- The path leaves the mappings of the value at a key that is not there. -/
def Yaml.silent : Yaml κ α → List κ → Bool
  | .other _, _ => false
  | .mapping _, [] => false
  | .mapping entries, key :: path =>
    match getEntry entries key with
    | some value => value.silent path
    | none => true
termination_by structural _ path => path

theorem Yaml.leaf_mapping_cons (entries : List (κ × Yaml κ α)) (key : κ) (path : List κ) :
    (Yaml.mapping entries).leaf (key :: path) =
      (getEntry entries key).bind fun value => value.leaf path := by
  unfold Yaml.leaf
  rw [Yaml.get_mapping_cons]
  cases getEntry entries key <;> rfl

theorem Yaml.silent_mapping_cons (entries : List (κ × Yaml κ α)) (key : κ) (path : List κ) :
    (Yaml.mapping entries).silent (key :: path) =
      ((getEntry entries key).map fun value => value.silent path).getD true := by
  rw [Yaml.silent]
  cases getEntry entries key <;> rfl

theorem Yaml.leaf_of_silent {value : Yaml κ α} {path : List κ} (h : value.silent path) :
    value.leaf path = none := by
  induction path generalizing value with
  | nil => cases value <;> exact absurd h Bool.false_ne_true
  | cons key path ih =>
    cases value with
    | other => exact absurd h Bool.false_ne_true
    | mapping entries =>
      rw [Yaml.leaf_mapping_cons]
      rw [Yaml.silent_mapping_cons] at h
      cases hget : getEntry entries key with
      | none => rfl
      | some value =>
        rw [hget] at h
        exact ih h

/-- **A leaf** is the override's, unless the override is silent about it. -/
theorem leaf_mergeYaml (base : Yaml κ α) {overrideValue : Yaml κ α}
    (hoverride : overrideValue.Unique) (path : List κ) :
    (mergeYaml base overrideValue).leaf path =
      if overrideValue.silent path then base.leaf path else overrideValue.leaf path := by
  induction path generalizing base overrideValue with
  | nil => cases base <;> cases hoverride <;> rfl
  | cons key path ih =>
    cases hoverride with
    | other value => cases base <;> rfl
    | mapping overrides hnodup hvalues =>
      cases base with
      | other =>
        show (Yaml.mapping overrides).leaf (key :: path) = if _ then none else _
        split
        case isTrue hsilent => exact Yaml.leaf_of_silent hsilent
        case isFalse => rfl
      | mapping bases =>
        show (Yaml.mapping (mergeEntries bases overrides)).leaf (key :: path) = _
        rw [Yaml.leaf_mapping_cons, Yaml.leaf_mapping_cons, Yaml.leaf_mapping_cons,
          Yaml.silent_mapping_cons, getEntry_mergeEntries bases hnodup]
        cases hget : getEntry overrides key with
        | none => rfl
        | some value =>
          cases getEntry bases key with
          | some baseValue => exact ih baseValue (hvalues _ (mem_of_getEntry hget))
          | none =>
            show value.leaf path = if value.silent path then none else value.leaf path
            split
            case isTrue hsilent => exact Yaml.leaf_of_silent hsilent
            case isFalse => rfl

/-! ## The layers of a snapshot -/

/-- The leaf of the first layer that is not silent about the path. -/
def firstLeaf : List (Yaml κ α) → List κ → Option α
  | [], _ => none
  | layer :: rest, path => if layer.silent path then firstLeaf rest path else layer.leaf path

section Layers

variable {C Bytes : Type} (format : Format C Bytes κ α)

/-- The value of a file, if there is a path. -/
def readLayer (world : World C Bytes) : Option String → RuntimeResult (List (Yaml κ α))
  | none => .ok []
  | some path => do
    let value ← readYaml format world path
    return [value]

/-- The override file, the base file and the defaults, in the order of precedence. -/
def layers (world : World C Bytes) (settings : Settings C) : RuntimeResult (List (Yaml κ α)) := do
  let defaults ← configError (format.toValue settings.defaults)
  let base ← readLayer format world settings.basePath
  let overrideValue ← readLayer format world settings.overridePath
  return overrideValue ++ base ++ [defaults]

/-- `serde_yaml` has each key of a mapping once. -/
def Format.UniqueKeys : Prop :=
  ∀ data value, format.fromSlice data = .ok value → value.Unique

variable {format}

theorem configError_eq_ok {β : Type} {result : Except String β} {value : β}
    (h : configError result = .ok value) : result = .ok value := by
  cases result with
  | error error => cases h
  | ok other =>
    cases h
    rfl

theorem mergeFile_eq_ok (hformat : format.UniqueKeys) {world : World C Bytes}
    {value merged : Yaml κ α} {path : Option String}
    (h : mergeFile format world value path = .ok merged) :
    ∃ layer, readLayer format world path = .ok layer ∧
      ∀ rest path, value.leaf path = firstLeaf rest path →
        merged.leaf path = firstLeaf (layer ++ rest) path := by
  cases path with
  | none =>
    cases h
    exact ⟨[], rfl, fun _ _ h => h⟩
  | some file =>
    obtain ⟨overrideValue, hread, hmerge⟩ := except_bind_eq_ok.mp h
    cases hmerge
    obtain ⟨data, -, hdata⟩ := except_bind_eq_ok.mp hread
    have hunique := hformat data overrideValue (configError_eq_ok hdata)
    refine ⟨[overrideValue], by rw [readLayer, hread]; rfl, ?_⟩
    intro rest path hleaf
    rw [leaf_mergeYaml value hunique, hleaf]
    rfl

/-- **The value a snapshot is made of.** -/
theorem loadSnapshot_leaves (hformat : format.UniqueKeys) {world : World C Bytes}
    {settings : Settings C} {config : C}
    (h : loadSnapshot format world settings = .ok config) :
    ∃ value files, layers format world settings = .ok files ∧
      (∀ path, value.leaf path = firstLeaf files path) ∧
      (format.fromValue value).bind world.applyEnvironment = .ok config := by
  obtain ⟨defaults, hdefaults, h⟩ := except_bind_eq_ok.mp h
  obtain ⟨based, hbased, h⟩ := except_bind_eq_ok.mp h
  obtain ⟨value, hvalue, h⟩ := except_bind_eq_ok.mp h
  obtain ⟨base, hbase, hbaseLeaf⟩ := mergeFile_eq_ok hformat hbased
  obtain ⟨overrideValue, hoverride, hoverrideLeaf⟩ := mergeFile_eq_ok hformat hvalue
  refine ⟨value, overrideValue ++ base ++ [defaults], ?_, ?_, ?_⟩
  · unfold layers
    rw [hdefaults, hbase, hoverride]
    rfl
  · intro path
    have hdefault : defaults.leaf path = firstLeaf [defaults] path := by
      show _ = if defaults.silent path then none else defaults.leaf path
      split
      case isTrue hsilent => exact Yaml.leaf_of_silent hsilent
      case isFalse => rfl
    rw [List.append_assoc]
    exact hoverrideLeaf _ path (hbaseLeaf _ path hdefault)
  · obtain ⟨parsed, hparsed, h⟩ := except_bind_eq_ok.mp h
    obtain ⟨applied, happlied, h⟩ := except_bind_eq_ok.mp h
    obtain ⟨_, -, h⟩ := except_bind_eq_ok.mp h
    cases h
    rw [configError_eq_ok hparsed]
    exact configError_eq_ok happlied

end Layers

/-! ## The law -/

/-- **The law of `merge_yaml` and the precedence in a snapshot.** -/
theorem merge_law {C Bytes : Type} {format : Format C Bytes κ α} (hformat : format.UniqueKeys) :
    (∀ (base overrideValue : Value κ α) (path : List κ),
      Beneath base.yaml overrideValue.yaml path →
        Merged (base.yaml.get path) (overrideValue.yaml.get path)
          ((base.merge overrideValue).yaml.get path)) ∧
    (∀ base overrideValue : Value κ α,
      (base.merge overrideValue).merge overrideValue = base.merge overrideValue) ∧
    ∀ (world : World C Bytes) (settings : Settings C) (config : C),
      loadSnapshot format world settings = .ok config →
        ∃ value files, layers format world settings = .ok files ∧
          (∀ path, value.leaf path = firstLeaf files path) ∧
          (format.fromValue value).bind world.applyEnvironment = .ok config := by
  refine ⟨fun _ _ _ h => Value.merged_get h, ?_, fun _ _ _ h => loadSnapshot_leaves hformat h⟩
  intro base overrideValue
  have hagain := mergeYaml_again base.unique overrideValue.unique
  exact Value.ext hagain

/-- A format whose configurations and files are values. -/
def plainFormat : Format (Yaml String ℕ) (Value String ℕ) String ℕ where
  toValue := .ok
  fromSlice data := .ok data.yaml
  fromValue := .ok
  validate _ := .ok ()
  parts _ := ⟨.functionCall, [], [], [], [], [], []⟩
  modules _ := []
  types _ := []
  debug := id

def poolValue (fields : List (String × Yaml String ℕ)) : Yaml String ℕ :=
  .mapping [("pool", .mapping fields)]

theorem poolValue_unique {key₁ key₂ : String} (h : key₁ ≠ key₂) (n₁ n₂ : ℕ) :
    (poolValue [(key₁, .other n₁), (key₂, .other n₂)]).Unique := by
  have hfields : (Yaml.mapping [(key₁, .other n₁), (key₂, .other n₂)]).Unique := by
    apply Yaml.Unique.mapping
    · simp [h]
    · intro field hfield
      obtain rfl | hfield := List.mem_cons.mp hfield
      · exact .other n₁
      · rw [List.mem_singleton.mp hfield]
        exact .other n₂
  apply Yaml.Unique.mapping
  · exact List.nodup_singleton "pool"
  · intro entry hentry
    rw [List.mem_singleton.mp hentry]
    exact hfields

noncomputable def poolWorld : World (Yaml String ℕ) (Value String ℕ) where
  read path :=
    if path = "base" then
      .ok ⟨poolValue [("size", .other 4), ("name", .other 5)], poolValue_unique (by decide) 4 5⟩
    else .ok ⟨poolValue [("size", .other 8), ("kind", .other 9)], poolValue_unique (by decide) 8 9⟩
  applyEnvironment := .ok
  orders := someOrders

def poolSettings : Settings (Yaml String ℕ) where
  basePath := some "base"
  overridePath := some "override"
  defaults := poolValue [("name", .other 1), ("queue", .other 2)]

theorem merge_law_poolWorld :
    ∃ config, loadSnapshot plainFormat poolWorld poolSettings = .ok config ∧
      config.leaf ["pool", "size"] = some 8 ∧ config.leaf ["pool", "name"] = some 5 ∧
      config.leaf ["pool", "queue"] = some 2 := by
  have hformat : plainFormat.UniqueKeys := by
    intro data value h
    cases h
    exact data.unique
  obtain ⟨value, files, hfiles, hleaf, hconfig⟩ :=
    (merge_law hformat).2.2 poolWorld poolSettings _ rfl
  cases hfiles
  cases hconfig
  exact ⟨_, rfl, (hleaf _).trans rfl, (hleaf _).trans rfl, (hleaf _).trans rfl⟩

end ConfigLoader

end ServiceLib
