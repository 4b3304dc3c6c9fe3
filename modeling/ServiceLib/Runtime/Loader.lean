import ServiceLib.Runtime.Config
import ServiceLib.Transition

/-!
# Reloading the configuration

Follows `ConfigLoader` in `src/runtime/config/loader.rs`. A reload builds a candidate from the files
and the environment, offers it to the reload handler, and then publishes the configuration and its
runtime index by two stores, one after the other. Any number of reloads may run at a time.

**Theorem (`reload_transactional`).** A step that changes what is published belongs to a reload that
will not return `Err`. When no reload is in progress, both cells hold the same candidate, as long as
the stores are `Ordered`: a reload stores its runtime index only if it is the one whose
configuration is published, or if that one has yet to store its index.

Nothing in the code orders the stores. A reload that stores its index late, after another one has
stored both, leaves the configuration of the one beside the index of the other
(`late_store_mixes`).
-/

namespace ServiceLib

namespace ConfigLoader

open ServiceLib.Configuration (Parts Orders fromParts duplicateName)

/-! ## Candidates -/

/-- A YAML value. `merge_yaml` looks into mappings only, and compares their keys as a whole. -/
inductive Yaml (κ α : Type)
  | other (value : α)
  | mapping (entries : List (κ × Yaml κ α))

section Merge

variable {κ α : Type} [DecidableEq κ]

/-- `Mapping::get`. -/
def getEntry (entries : List (κ × Yaml κ α)) (key : κ) : Option (Yaml κ α) :=
  (entries.find? fun entry => entry.1 = key).map Prod.snd

/-- The value of a key that is there is replaced in place; a new key is appended. -/
def putEntry (entries : List (κ × Yaml κ α)) (key : κ) (value : Yaml κ α) : List (κ × Yaml κ α) :=
  if entries.any fun entry => entry.1 = key then
    entries.map fun entry => if entry.1 = key then (entry.1, value) else entry
  else entries ++ [(key, value)]

mutual

def mergeYaml : Yaml κ α → Yaml κ α → Yaml κ α
  | .mapping base, .mapping overrideMap => .mapping (mergeEntries base overrideMap)
  | .mapping _, .other value => .other value
  | .other _, overrideValue => overrideValue
termination_by structural _ overrideValue => overrideValue

/-- The loop over the entries of the override. -/
def mergeEntries (base : List (κ × Yaml κ α)) : List (κ × Yaml κ α) → List (κ × Yaml κ α)
  | [] => base
  | (key, value) :: rest =>
    match getEntry base key with
    | some baseValue => mergeEntries (putEntry base key (mergeYaml baseValue value)) rest
    | none => mergeEntries (putEntry base key value) rest
termination_by structural overrideMap => overrideMap

end

end Merge

/-- `RuntimeConfig` with the indices of the modules and of the data types. -/
structure RuntimeConfig where
  parts : Configuration.RuntimeConfig
  modulesByName : HashMap String String
  typesByName : HashMap String String

/-- What `serde_yaml` does for a type `C`, and the implementation of `Config` for it. -/
structure Format (C Bytes κ α : Type) where
  toValue : C → Except String (Yaml κ α)
  fromSlice : Bytes → Except String (Yaml κ α)
  fromValue : Yaml κ α → Except String C
  validate : C → Except String Unit
  parts : C → Parts
  modules : C → List String
  types : C → List String
  debug : String → String

/-- What a reload finds: the files, the environment, and the orders in which maps are iterated. -/
structure World (C Bytes : Type) where
  read : String → Except String Bytes
  applyEnvironment : C → Except String C
  orders : Orders

/-- The arguments of `load`. -/
structure Settings (C : Type) where
  basePath : Option String
  overridePath : Option String
  defaults : C

section Candidate

variable {C Bytes κ α : Type} [DecidableEq κ] (format : Format C Bytes κ α)

def configError {β : Type} (result : Except String β) : RuntimeResult β :=
  result.mapError .invalidConfiguration

def readYaml (world : World C Bytes) (path : String) : RuntimeResult (Yaml κ α) := do
  let data ← configError (world.read path)
  configError (format.fromSlice data)

/-- `if let Some(path) = path { merge_yaml(&mut value, read_yaml(path)?); }`. -/
def mergeFile (world : World C Bytes) (value : Yaml κ α) :
    Option String → RuntimeResult (Yaml κ α)
  | none => .ok value
  | some path => do
    let overrideValue ← readYaml format world path
    return mergeYaml value overrideValue

def loadSnapshot (world : World C Bytes) (settings : Settings C) : RuntimeResult C := do
  let value ← configError (format.toValue settings.defaults)
  let value ← mergeFile format world value settings.basePath
  let value ← mergeFile format world value settings.overridePath
  let config ← configError (format.fromValue value)
  let config ← configError (world.applyEnvironment config)
  configError (format.validate config)
  return config

/-- The loops over the modules and over the types. -/
def addNames (kind : String) : HashMap String String → List String →
    RuntimeResult (HashMap String String)
  | byName, [] => .ok byName
  | byName, name :: rest =>
    if name ∈ byName then .error (duplicateName kind name)
    else addNames kind (byName.insert name name) rest

/-- `RuntimeConfig::new`. -/
def RuntimeConfig.new (orders : Orders) (config : C) : RuntimeResult RuntimeConfig := do
  let parts ← fromParts format.debug orders (format.parts config)
  let modulesByName ← addNames "module" ∅ (format.modules config)
  let typesByName ← addNames "type" ∅ (format.types config)
  return ⟨parts, modulesByName, typesByName⟩

/-- A configuration with its runtime index. -/
structure Snapshot where
  config : C
  runtimeConfig : RuntimeConfig
  new_eq : ∃ orders, RuntimeConfig.new format orders config = .ok runtimeConfig

/-- What `load` and `reload_candidate` build before they publish it. -/
def candidate (world : World C Bytes) (settings : Settings C) : RuntimeResult (Snapshot format) :=
  match loadSnapshot format world settings with
  | .error error => .error error
  | .ok config =>
    match h : RuntimeConfig.new format world.orders config with
    | .error error => .error error
    | .ok runtimeConfig => .ok ⟨config, runtimeConfig, world.orders, h⟩

end Candidate

/-! ## The system -/

section System

variable {C Bytes κ α : Type} [DecidableEq κ] {format : Format C Bytes κ α}

/-- What a call of `reload` does next. -/
inductive Pc (format : Format C Bytes κ α)
  /-- Build the candidate. -/
  | loading
  /-- Read the reload handler. -/
  | hooking (x : Snapshot format)
  /-- The handler runs. -/
  | handling (x : Snapshot format)
  /-- Store the configuration. -/
  | storingCurrent (x : Snapshot format)
  /-- Store the runtime index. -/
  | storingRuntime (x : Snapshot format)
  /-- Returned `Ok`. -/
  | published (x : Snapshot format)
  /-- Returned `Err`. -/
  | failed (error : RuntimeError)
  /-- The handler, or a method of the configuration, panicked. -/
  | panicked

/-- The loader and the calls of `reload`, the watcher's among them. `currentBy` and `runtimeBy` say
which reload stored a cell last. -/
structure State (format : Format C Bytes κ α) where
  current : C
  runtimeConfig : RuntimeConfig
  reloadHandler : Bool
  calls : ℕ → Option (Pc format)
  currentBy : Option ℕ
  runtimeBy : Option ℕ

/-- What `load` returns. -/
def State.init (initial : Snapshot format) : State format where
  current := initial.config
  runtimeConfig := initial.runtimeConfig
  reloadHandler := false
  calls := fun _ => none
  currentBy := none
  runtimeBy := none

inductive Action (C Bytes : Type)
  | setReloadHandler
  | reload (r : ℕ)
  | load (r : ℕ) (world : World C Bytes)
  | hook (r : ℕ)
  /-- The handler returns. -/
  | handled (r : ℕ) (result : Except String Unit)
  | storeCurrent (r : ℕ)
  | storeRuntime (r : ℕ)
  | panic (r : ℕ)

def State.setCall (s : State format) (r : ℕ) (pc : Pc format) : State format :=
  { s with calls := Function.update s.calls r (some pc) }

def step (settings : Settings C) (s : State format) : Action C Bytes → Option (State format)
  | .setReloadHandler => some { s with reloadHandler := true }
  | .reload r =>
    match s.calls r with
    | some _ => none
    | none => some (s.setCall r .loading)
  | .load r world =>
    match s.calls r with
    | some .loading =>
      match candidate format world settings with
      | .error error => some (s.setCall r (.failed error))
      | .ok x => some (s.setCall r (.hooking x))
    | _ => none
  | .hook r =>
    match s.calls r with
    | some (.hooking x) =>
      some (s.setCall r (if s.reloadHandler then .handling x else .storingCurrent x))
    | _ => none
  | .handled r result =>
    match s.calls r with
    | some (.handling x) =>
      match result with
      | .ok () => some (s.setCall r (.storingCurrent x))
      | .error error => some (s.setCall r (.failed (.invalidConfiguration error)))
    | _ => none
  | .storeCurrent r =>
    match s.calls r with
    | some (.storingCurrent x) =>
      some (State.setCall { s with current := x.config, currentBy := some r } r (.storingRuntime x))
    | _ => none
  | .storeRuntime r =>
    match s.calls r with
    | some (.storingRuntime x) =>
      some (State.setCall { s with runtimeConfig := x.runtimeConfig, runtimeBy := some r } r
        (.published x))
    | _ => none
  | .panic r =>
    match s.calls r with
    | some .loading | some (.handling _) => some (s.setCall r .panicked)
    | _ => none

def system (settings : Settings C) (initial : Snapshot format) :
    System (State format) (Action C Bytes) where
  init := .init initial
  step := step settings

end System

/-! ## The property and the condition -/

section Properties

variable {C Bytes κ α : Type} {format : Format C Bytes κ α}

/-- The reload that takes this step. -/
def Action.caller : Action C Bytes → Option ℕ
  | .setReloadHandler => none
  | .reload r | .load r _ | .hook r | .handled r _ | .storeCurrent r | .storeRuntime r | .panic r =>
    some r

/-- The call has neither returned nor panicked. -/
def Pc.InProgress : Pc format → Prop
  | .loading | .hooking _ | .handling _ | .storingCurrent _ | .storingRuntime _ => True
  | .published _ | .failed _ | .panicked => False

/-- No reload is in progress. -/
def Quiet (s : State format) : Prop := ∀ r pc, s.calls r = some pc → ¬ pc.InProgress

/-- The successful candidate of a reload; that of no reload is the initial one. -/
def snapshotOf (initial : Snapshot format) (s : State format) : Option ℕ → Option (Snapshot format)
  | none => some initial
  | some r =>
    match s.calls r with
    | some (.published x) => some x
    | _ => none

/-- Both cells come from one and the same successful candidate. -/
def Coherent (initial : Snapshot format) (s : State format) : Prop :=
  s.currentBy = s.runtimeBy ∧ ∃ x, snapshotOf initial s s.currentBy = some x ∧
    s.current = x.config ∧ s.runtimeConfig = x.runtimeConfig

/-- The reload whose configuration is published has yet to store its runtime index. -/
def Unsettled (s : State format) : Prop :=
  ∃ r x, s.currentBy = some r ∧ s.calls r = some (.storingRuntime x)

/-- A runtime index is stored only as long as the published configuration waits for its own. -/
def Ordered (s : State format) : Action C Bytes → Prop
  | .storeRuntime _ => Unsettled s
  | _ => True

/-- Where the two cells come from. -/
structure Inv (initial : Snapshot format) (s : State format) : Prop where
  currentInitial : s.currentBy = none → s.current = initial.config
  current : ∀ r, s.currentBy = some r →
    ∃ x, (s.calls r = some (.storingRuntime x) ∨ s.calls r = some (.published x)) ∧
      s.current = x.config
  runtimeInitial : s.runtimeBy = none → s.runtimeConfig = initial.runtimeConfig
  runtime : ∀ r, s.runtimeBy = some r →
    ∃ x, s.calls r = some (.published x) ∧ s.runtimeConfig = x.runtimeConfig
  settles : Unsettled s ∨ s.currentBy = s.runtimeBy

end Properties

/-! ## What a step does -/

section Steps

variable {C Bytes κ α : Type} {format : Format C Bytes κ α} {settings : Settings C}
  {initial : Snapshot format} {s t : State format} {a : Action C Bytes} {r : ℕ}

/-- The call has passed the handler and stored the configuration. -/
def Committed (s : State format) (r : ℕ) : Prop :=
  ∃ x, s.calls r = some (.storingRuntime x) ∨ s.calls r = some (.published x)

/-- The three things a step can be: one that leaves the cells and the committed calls alone, and the
two stores. -/
inductive Moves (s : State format) : Action C Bytes → State format → Prop
  | quiet {a : Action C Bytes} {t : State format} (ha : ∀ r, a ≠ .storeRuntime r)
    (ha' : ∀ r, a ≠ .storeCurrent r) (hcurrent : t.current = s.current)
    (hruntime : t.runtimeConfig = s.runtimeConfig) (hby : t.currentBy = s.currentBy)
    (hby' : t.runtimeBy = s.runtimeBy)
    (hcalls : ∀ r, Committed s r → t.calls r = s.calls r) : Moves s a t
  | current (r : ℕ) (x : Snapshot format) (h : s.calls r = some (.storingCurrent x)) :
    Moves s (.storeCurrent r)
      (State.setCall { s with current := x.config, currentBy := some r } r (.storingRuntime x))
  | runtime (r : ℕ) (x : Snapshot format) (h : s.calls r = some (.storingRuntime x)) :
    Moves s (.storeRuntime r)
      (State.setCall { s with runtimeConfig := x.runtimeConfig, runtimeBy := some r } r
        (.published x))

@[simp] theorem setCall_self {pc : Pc format} : (s.setCall r pc).calls r = some pc :=
  Function.update_self ..

theorem setCall_of_ne {pc : Pc format} {q : ℕ} (h : q ≠ r) :
    (s.setCall r pc).calls q = s.calls q :=
  Function.update_of_ne h ..

/-- A call that is not committed moves without touching the cells. -/
theorem Moves.setCall {pc : Pc format} (ha : ∀ r, a ≠ .storeRuntime r)
    (ha' : ∀ r, a ≠ .storeCurrent r) (hn : ¬ Committed s r) : Moves s a (s.setCall r pc) := by
  refine .quiet ha ha' rfl rfl rfl rfl fun q hq => setCall_of_ne ?_
  rintro rfl
  exact hn hq

theorem not_committed {pc : Pc format} (h : s.calls r = some pc)
    (hs : ∀ x, pc ≠ .storingRuntime x) (hp : ∀ x, pc ≠ .published x) : ¬ Committed s r := by
  rintro ⟨x, hx | hx⟩ <;> rw [h] at hx
  · exact hs x (Option.some.inj hx)
  · exact hp x (Option.some.inj hx)

theorem Committed.not_failed (hc : Committed s r) (error : RuntimeError) :
    s.calls r ≠ some (.failed error) := by
  obtain ⟨x, hx | hx⟩ := hc <;> rw [hx] <;> exact nofun

variable [DecidableEq κ]

theorem step_moves (h : step settings s a = some t) : Moves s a t := by
  cases a with
  | setReloadHandler =>
    cases h
    exact .quiet nofun nofun rfl rfl rfl rfl fun _ _ => rfl
  | reload r =>
    simp only [step] at h
    split at h <;> cases h
    rename_i hr
    refine .setCall nofun nofun ?_
    rintro ⟨x, hx | hx⟩ <;> rw [hr] at hx <;> cases hx
  | load r world =>
    simp only [step] at h
    split at h
    · rename_i hr
      split at h <;> cases h <;>
        exact .setCall nofun nofun (not_committed hr nofun nofun)
    · cases h
  | hook r =>
    simp only [step] at h
    split at h <;> cases h
    rename_i x hr
    exact .setCall nofun nofun (not_committed hr nofun nofun)
  | handled r result =>
    simp only [step] at h
    split at h
    · rename_i hr
      split at h <;> cases h <;>
        exact .setCall nofun nofun (not_committed hr nofun nofun)
    · cases h
  | storeCurrent r =>
    simp only [step] at h
    split at h <;> cases h
    exact .current r _ ‹_›
  | storeRuntime r =>
    simp only [step] at h
    split at h <;> cases h
    exact .runtime r _ ‹_›
  | panic r =>
    simp only [step] at h
    split at h
    · rename_i hr
      cases h
      exact .setCall nofun nofun (not_committed hr nofun nofun)
    · rename_i x hr
      cases h
      exact .setCall nofun nofun (not_committed hr nofun nofun)
    · cases h

/-- A committed call stays committed. -/
theorem Committed.step (hc : Committed s r) (h : step settings s a = some t) : Committed t r := by
  obtain ⟨x, hx⟩ := hc
  cases step_moves h with
  | quiet _ _ _ _ _ _ hcalls =>
    rw [Committed, hcalls r ⟨x, hx⟩]
    exact ⟨x, hx⟩
  | current q y hq =>
    have hne : r ≠ q := by
      rintro rfl
      exact not_committed hq nofun nofun ⟨x, hx⟩
    exact ⟨x, by rwa [setCall_of_ne hne]⟩
  | runtime q y hq =>
    by_cases hrq : r = q
    · subst hrq
      exact ⟨y, .inr setCall_self⟩
    · exact ⟨x, by rwa [setCall_of_ne hrq]⟩

end Steps

/-! ## The invariant over a run -/

section Run

variable {C Bytes κ α : Type} [DecidableEq κ] {format : Format C Bytes κ α}
  {settings : Settings C} {initial : Snapshot format} {s t : State format} {a : Action C Bytes}
  {r : ℕ}

omit [DecidableEq κ] in
theorem inv_init : Inv initial (State.init initial) where
  currentInitial _ := rfl
  current := nofun
  runtimeInitial _ := rfl
  runtime := nofun
  settles := .inr rfl

omit [DecidableEq κ] in
theorem Inv.storeCurrent (h : Inv initial s) {x : Snapshot format}
    (hr : s.calls r = some (.storingCurrent x)) :
    Inv initial (State.setCall { s with current := x.config, currentBy := some r } r
      (.storingRuntime x)) where
  currentInitial := nofun
  current q hq := by
    cases hq
    exact ⟨x, .inl setCall_self, rfl⟩
  runtimeInitial := h.runtimeInitial
  runtime q hq := by
    obtain ⟨y, hy, hcell⟩ := h.runtime q hq
    refine ⟨y, ?_, hcell⟩
    rw [setCall_of_ne]
    · exact hy
    · rintro rfl
      rw [hr] at hy
      cases hy
  settles := .inl ⟨r, x, rfl, setCall_self⟩

omit [DecidableEq κ] in
/-- The reload whose configuration is published now has its own index beside it, or has yet to
store it. -/
theorem Inv.storeRuntime (h : Inv initial s) (hu : Unsettled s) {x : Snapshot format}
    (hr : s.calls r = some (.storingRuntime x)) :
    Inv initial (State.setCall
      { s with runtimeConfig := x.runtimeConfig, runtimeBy := some r } r (.published x)) where
  currentInitial := h.currentInitial
  current q hq := by
    obtain ⟨y, hy, hcell⟩ := h.current q hq
    by_cases hqr : q = r
    · subst hqr
      rw [hr] at hy
      rcases hy with hy | hy <;> cases hy
      exact ⟨x, .inr setCall_self, hcell⟩
    · exact ⟨y, by rwa [setCall_of_ne hqr], hcell⟩
  runtimeInitial := nofun
  runtime q hq := by
    cases hq
    exact ⟨x, setCall_self, rfl⟩
  settles := by
    obtain ⟨q, y, hq, hy⟩ := hu
    by_cases hqr : q = r
    · subst hqr
      exact .inr hq
    · exact .inl ⟨q, y, hq, by rwa [setCall_of_ne hqr]⟩

theorem Inv.next (h : Inv initial s) (ha : Ordered s a) (hs : step settings s a = some t) :
    Inv initial t := by
  cases step_moves hs with
  | quiet _ _ hcurrent hruntime hby hby' hcalls =>
    refine ⟨fun hn => ?_, fun r hr => ?_, fun hn => ?_, fun r hr => ?_, ?_⟩
    · rw [hcurrent, h.currentInitial (hby ▸ hn)]
    · obtain ⟨x, hx, hcell⟩ := h.current r (hby ▸ hr)
      rw [hcalls r ⟨x, hx⟩, hcurrent]
      exact ⟨x, hx, hcell⟩
    · rw [hruntime, h.runtimeInitial (hby' ▸ hn)]
    · obtain ⟨x, hx, hcell⟩ := h.runtime r (hby' ▸ hr)
      rw [hcalls r ⟨x, .inr hx⟩, hruntime]
      exact ⟨x, hx, hcell⟩
    · rcases h.settles with ⟨r, x, hr, hx⟩ | heq
      · exact .inl ⟨r, x, hby ▸ hr, by rw [hcalls r ⟨x, .inl hx⟩, hx]⟩
      · exact .inr (by rw [hby, hby', heq])
  | current r x hr => exact h.storeCurrent hr
  | runtime r x hr => exact h.storeRuntime ha hr

theorem inv_of_reach (h : (system settings initial).Reach Ordered s) : Inv initial s :=
  h.invariant inv_init fun _ _ _ hi ha hs => hi.next ha hs

omit [DecidableEq κ] in
theorem Inv.coherent (h : Inv initial s) (hq : Quiet s) : Coherent initial s := by
  have hby : s.currentBy = s.runtimeBy := by
    rcases h.settles with ⟨r, x, -, hx⟩ | heq
    · exact absurd trivial (hq r _ hx)
    · exact heq
  refine ⟨hby, ?_⟩
  cases hr : s.currentBy with
  | none => exact ⟨initial, rfl, h.currentInitial hr, h.runtimeInitial (hby ▸ hr)⟩
  | some r =>
    obtain ⟨x, hx, hcell⟩ := h.runtime r (hby ▸ hr)
    obtain ⟨y, hy, hcurrent⟩ := h.current r hr
    rw [hx] at hy
    rcases hy with hy | hy <;> cases hy
    exact ⟨x, by rw [snapshotOf, hx], hcurrent, hcell⟩

end Run

/-! ## Main results -/

section Main

variable {C Bytes κ α : Type} [DecidableEq κ] {format : Format C Bytes κ α}
  {settings : Settings C} {initial : Snapshot format} {s t u : State format}
  {a : Action C Bytes} {as : List (Action C Bytes)} {r : ℕ}

/-- A step that changes a cell commits its reload. -/
theorem committed_of_changed (h : step settings s a = some t)
    (hne : t.current ≠ s.current ∨ t.runtimeConfig ≠ s.runtimeConfig) :
    ∃ r, a.caller = some r ∧ Committed t r := by
  cases step_moves h with
  | quiet _ _ hcurrent hruntime =>
    rcases hne with hne | hne
    · exact absurd hcurrent hne
    · exact absurd hruntime hne
  | current r x _ => exact ⟨r, rfl, x, .inl setCall_self⟩
  | runtime r x _ => exact ⟨r, rfl, x, .inr setCall_self⟩

theorem Committed.run (hc : Committed t r) (hr : (system settings initial).run t as = some u) :
    Committed u r :=
  System.run_invariant (I := fun s => Committed s r) (fun _ _ _ hc hs => hc.step hs) hc hr

/-- The published configuration is not that of the index, and its reload has returned. -/
def Mixed (s : State format) : Prop :=
  (∀ r, s.currentBy = some r → ∃ x, s.calls r = some (.published x)) ∧ s.currentBy ≠ s.runtimeBy

/-- Only another configuration ends the mixture. -/
theorem Mixed.step (hm : Mixed s) (ha : ∀ r, a ≠ .storeCurrent r)
    (h : step settings s a = some t) : Mixed t := by
  obtain ⟨hpub, hne⟩ := hm
  cases step_moves h with
  | quiet _ _ hcurrent hruntime hby hby' hcalls =>
    refine ⟨fun r hr => ?_, by rwa [hby, hby']⟩
    obtain ⟨x, hx⟩ := hpub r (hby ▸ hr)
    exact ⟨x, by rw [hcalls r ⟨x, .inr hx⟩, hx]⟩
  | current r x hr => exact absurd rfl (ha r)
  | runtime r x hr =>
    have hother : ∀ q, s.currentBy = some q → q ≠ r := by
      rintro q hq rfl
      obtain ⟨y, hy⟩ := hpub q hq
      rw [hr] at hy
      cases hy
    refine ⟨fun q hq => ?_, fun heq => hother r heq rfl⟩
    rw [setCall_of_ne (hother q hq)]
    exact hpub q hq

theorem Mixed.run (hm : Mixed t) (ha : ∀ r, .storeCurrent r ∉ as)
    (hr : (system settings initial).run t as = some u) : Mixed u := by
  induction as generalizing t with
  | nil =>
    cases hr
    exact hm
  | cons a as ih =>
    simp only [System.run, Option.bind_eq_some_iff] at hr
    obtain ⟨v, hv, hr⟩ := hr
    refine ih (hm.step (fun r hr => ha r ?_) hv) (fun r hr => ha r (List.mem_cons_of_mem a hr)) hr
    rw [hr]
    exact List.mem_cons_self

/-- A store that is not ordered mixes two candidates. -/
theorem mixed_of_not_ordered (hi : Inv initial s) (h : step settings s a = some t)
    (hn : ¬ Ordered s a) : Mixed t := by
  cases step_moves h with
  | quiet ha =>
    refine absurd ?_ hn
    cases a with
    | storeRuntime r => exact absurd rfl (ha r)
    | _ => trivial
  | current r x hr => exact absurd trivial hn
  | runtime r x hr =>
    have hother : ∀ q, s.currentBy = some q → q ≠ r := by
      rintro q hq rfl
      exact hn ⟨q, x, hq, hr⟩
    refine ⟨fun q hq => ?_, fun heq => hother r heq rfl⟩
    rw [setCall_of_ne (hother q hq)]
    obtain ⟨y, hy | hy, -⟩ := hi.current q hq
    · exact absurd ⟨q, y, hq, hy⟩ hn
    · exact ⟨y, hy⟩

/-- **Reloads are transactional, if their stores are ordered.** A step that changes a cell belongs to
a reload that returns `Err` in no continuation. In every run with ordered stores, when no reload is
in progress both cells come from one successful candidate, or from the initial load. A store that is
not ordered mixes two candidates, and they stay mixed until another configuration is stored. -/
theorem reload_transactional (h : (system settings initial).Reach Ordered s) :
    (∀ (s t : State format) a, step settings s a = some t →
      (t.current ≠ s.current ∨ t.runtimeConfig ≠ s.runtimeConfig) →
      ∃ r, a.caller = some r ∧ ∀ as u error, (system settings initial).run t as = some u →
        u.calls r ≠ some (.failed error)) ∧
    (Quiet s → Coherent initial s) ∧
    ∀ a t, step settings s a = some t → ¬ Ordered s a →
      ∀ as u, (system settings initial).run t as = some u → (∀ r, .storeCurrent r ∉ as) →
        ¬ Coherent initial u := by
  have hi := inv_of_reach h
  refine ⟨fun s t a hs hne => ?_, hi.coherent, fun a t hs hn as u hrun has hc => ?_⟩
  · obtain ⟨r, hr, hc⟩ := committed_of_changed hs hne
    exact ⟨r, hr, fun as u error hrun => (hc.run hrun).not_failed error⟩
  · exact ((mixed_of_not_ordered hi hs hn).run has hrun).2 hc.1

end Main

/-! ## Runs -/

/-- A configuration is the call semantics of the service, and is stored as such. -/
def semanticsFormat :
    Format Configuration.CallSemantics Configuration.CallSemantics ℕ Configuration.CallSemantics where
  toValue config := .ok (.other config)
  fromSlice config := .ok (.other config)
  fromValue
    | .other config => .ok config
    | .mapping _ => .error "invalid type: map"
  validate _ := .ok ()
  parts config := ⟨config, [], [], [], [], [], []⟩
  modules _ := []
  types _ := []
  debug := String.quote

def fileSettings : Settings Configuration.CallSemantics := ⟨some "config.yaml", none, .functionCall⟩

noncomputable def someOrders : Orders := ⟨default, default⟩

/-- The file holds `config`. -/
noncomputable def fileHolds (config : Configuration.CallSemantics) :
    World Configuration.CallSemantics Configuration.CallSemantics :=
  ⟨fun _ => .ok config, .ok, someOrders⟩

/-- The index that is built for `config`. -/
noncomputable def indexOf (config : Configuration.CallSemantics) : RuntimeConfig where
  parts := { Configuration.RuntimeConfig.withDefaultCallSemantics config with
    poolsByName := ((Configuration.RuntimeConfig.withDefaultCallSemantics config).referencedPools
      someOrders).foldl Configuration.completePool ∅ }
  modulesByName := ∅
  typesByName := ∅

noncomputable def snapshot (config : Configuration.CallSemantics) : Snapshot semanticsFormat :=
  ⟨config, indexOf config, someOrders, rfl⟩

theorem candidate_fileHolds (config : Configuration.CallSemantics) :
    candidate semanticsFormat (fileHolds config) fileSettings = .ok (snapshot config) := rfl

/-- Reload 0 is overtaken between its two stores by reload 1. -/
noncomputable def lateStore :
    List (Action Configuration.CallSemantics Configuration.CallSemantics) :=
  [.reload 0, .load 0 (fileHolds .parallelCall), .hook 0, .storeCurrent 0,
    .reload 1, .load 1 (fileHolds .functionCall), .hook 1, .storeCurrent 1, .storeRuntime 1,
    .storeRuntime 0]

theorem lateStore_runs :
    ((system fileSettings (snapshot .functionCall)).run (.init (snapshot .functionCall))
      lateStore).isSome := rfl

/-- Both reloads have returned `Ok`; the configuration is that of reload 1, and the index that of
reload 0. -/
theorem late_store_mixes :
    ∃ s, (system fileSettings (snapshot .functionCall)).Reachable s ∧ Quiet s ∧
      ¬ Coherent (snapshot .functionCall) s ∧ s.current = .functionCall ∧
      s.runtimeConfig.parts.defaultCallSemantics = .parallelCall := by
  refine ⟨_, System.reachable_get (S := system fileSettings (snapshot .functionCall))
    lateStore_runs, ?_, ?_, rfl, rfl⟩
  · intro r pc hr
    match r with
    | 0 | 1 =>
      cases hr
      exact id
    | r + 2 => cases hr
  · rintro ⟨hby, -⟩
    have h : (some 1 : Option ℕ) = some 0 := hby
    cases h

/-- A reload that runs alone, whose handler accepts the candidate. -/
theorem reload_transactional_alone :
    ∃ s, (system fileSettings (snapshot .functionCall)).Reach Ordered s ∧
      s.current = .parallelCall ∧ Coherent (snapshot .functionCall) s := by
  have h1 : (system fileSettings (snapshot .functionCall)).Reach Ordered _ :=
    .step (a := .setReloadHandler) .init trivial rfl
  have h2 : (system fileSettings (snapshot .functionCall)).Reach Ordered _ :=
    .step (a := .reload 0) h1 trivial rfl
  have h3 : (system fileSettings (snapshot .functionCall)).Reach Ordered _ :=
    .step (a := .load 0 (fileHolds .parallelCall)) h2 trivial rfl
  have h4 : (system fileSettings (snapshot .functionCall)).Reach Ordered _ :=
    .step (a := .hook 0) h3 trivial rfl
  have h5 : (system fileSettings (snapshot .functionCall)).Reach Ordered _ :=
    .step (a := .handled 0 (.ok ())) h4 trivial rfl
  have h6 : (system fileSettings (snapshot .functionCall)).Reach Ordered _ :=
    .step (a := .storeCurrent 0) h5 trivial rfl
  have h7 : (system fileSettings (snapshot .functionCall)).Reach Ordered _ :=
    .step (a := .storeRuntime 0) h6 ⟨0, snapshot .parallelCall, rfl, rfl⟩ rfl
  refine ⟨_, h7, rfl, (reload_transactional h7).2.1 fun r pc hr => ?_⟩
  cases r with
  | zero =>
    cases hr
    exact id
  | succ r => cases hr

end ConfigLoader

end ServiceLib
