import ServiceLib.HashMap
import ServiceLib.Runtime.Error
import ServiceLib.Tally
import ServiceLib.Transition

/-!
# The registry of serializers

Follows `SerdeRegistry` in `src/runtime/serde/registry.rs` and `make_serde` in
`src/runtime/environment/mod.rs`. A `get` looks for the serializer and the provider under a read
lock, asks the provider without the lock, and caches what was selected under a write lock. The
provider may resolve other types meanwhile, so that a thread is a stack of calls.

**Theorem (`registry_coherent`).** The calls of `get` for a service and a type that return `Ok`
return the same serializer. What `get` caches for a service with a provider was selected by asking
the provider first, as long as no provider is installed between the two locks of a `get` of the
service that has found none.

The check of `set_provider` sees what is cached, and not what is about to be cached
(`late_provider_ignored`).
-/

namespace ServiceLib

namespace SerdeRegistry

/-! ## Serializers -/

inductive Scalar
  | bool | char | i8 | i16 | i32 | i64 | u8 | u16 | u32 | u64 | f32 | f64 | string
  deriving DecidableEq

inductive TypeId
  | scalar (type : Scalar)
  | vec (type : Scalar)
  | other (id : ℕ)
  deriving DecidableEq

inductive DefaultSerde
  | scalar (type : Scalar)
  | bytes
  | array (type : Scalar)
  deriving DecidableEq

/-- What a serializer points to: an object of the user, or one that the registry has allocated. -/
inductive Object
  | provided (object : ℕ)
  | default (serde : DefaultSerde) (allocation : ℕ)
  | stub (allocation : ℕ)
  deriving DecidableEq

/-- An erased serializer, with the type that it can be downcast to. -/
structure Serializer where
  typeId : TypeId
  object : Object
  deriving DecidableEq

/-- `default_serializer`. Bytes have their own framing. -/
def defaultSerializer (typeId : TypeId) (allocation : ℕ) : Option Serializer :=
  match typeId with
  | .vec .u8 => some ⟨typeId, .default .bytes allocation⟩
  | .scalar type => some ⟨typeId, .default (.scalar type) allocation⟩
  | .vec type => some ⟨typeId, .default (.array type) allocation⟩
  | .other _ => none

def incompatible (typeName : TypeId → String) (typeId : TypeId) : RuntimeError :=
  .invalidConfiguration
    ("serde provider returned an incompatible serializer for " ++ typeName typeId)

/-- The service and the type. -/
abbrev Key := Option ℤ × TypeId

/-- A provider is a function pointer. -/
abbrev Provider := ℕ

/-! ## Calls -/

inductive Pc
  /-- `get`, before the read lock. -/
  | reading (key : Key)
  /-- The provider runs. -/
  | asking (key : Key) (provider : Provider)
  /-- `get`, before the write lock. -/
  | caching (key : Key) (asked : Option Provider) (selected : Serializer)
  /-- `cache`, before the write lock. -/
  | storing (key : Key) (object : Object)

/-- A call; `make_serde` goes on to cache a stub when `get` fails. -/
structure Frame where
  make : Bool
  pc : Pc

/-- A serializer that `get` has put into the cache. -/
structure Cached where
  key : Key
  asked : Option Provider
  selected : Serializer

/-- The registry, the calls of each thread with the innermost first, what calls of `get` have
returned and what they have cached, and the calls of `set_provider` that returned `Ok`. -/
structure State where
  providers : HashMap (Option ℤ) Provider
  serializers : HashMap Key Serializer
  allocated : ℕ
  threads : List (List Frame)
  returned : List (Key × Serializer)
  cached : List Cached
  installed : List (Option ℤ × Provider)
  /-- A call panicked with the lock held. -/
  poisoned : Bool

def State.init : State := ⟨∅, ∅, 0, [], [], [], [], false⟩

inductive Action
  | spawn
  | setProvider (service : Option ℤ) (provider : Provider)
  | get (t : ℕ) (key : Key) (make : Bool)
  | cache (t : ℕ) (key : Key) (object : ℕ)
  | read (t : ℕ)
  /-- The provider returns. -/
  | answer (t : ℕ) (result : RuntimeResult (Option Serializer))
  | panic (t : ℕ)
  | write (t : ℕ)

/-- The service has no provider and nothing is cached for it. -/
def State.isNew (s : State) (service : Option ℤ) : Bool :=
  !(decide (service ∈ s.providers) || s.serializers.any fun key _ => key.1 = service)

def setProvider (s : State) (service : Option ℤ) (provider : Provider) :
    RuntimeResult Unit × State :=
  if s.isNew service then
    (.ok (), { s with
      providers := s.providers.insert service provider
      installed := s.installed ++ [(service, provider)] })
  else (.error (.duplicateResource "service serde provider"), s)

/-- The thread runs no call, or the code of a provider. -/
def isFree : List Frame → Bool
  | [] => true
  | frame :: _ =>
    match frame.pc with
    | .asking _ _ => true
    | _ => false

def State.setThread (s : State) (t : ℕ) (stack : List Frame) : State :=
  { s with threads := s.threads.set t stack }

/-- The innermost `get` of a thread returns. -/
def finishGet (s : State) (t : ℕ) (key : Key) (make : Bool) (rest : List Frame) :
    RuntimeResult Serializer → State
  | .ok serde => State.setThread { s with returned := s.returned ++ [(key, serde)] } t rest
  | .error _ =>
    if make then
      State.setThread { s with allocated := s.allocated + 1 } t
        (⟨false, .storing key (.stub s.allocated)⟩ :: rest)
    else s.setThread t rest

variable (typeName : TypeId → String)

/-- `Self::typed::<T>`. -/
def typed (typeId : TypeId) (serde : Serializer) : RuntimeResult Serializer :=
  if serde.typeId = typeId then .ok serde else .error (incompatible typeName typeId)

/-- From the answer of the provider to the write lock. -/
def select (s : State) (t : ℕ) (key : Key) (make : Bool) (asked : Option Provider)
    (selected : Option Serializer) (rest : List Frame) : State :=
  let selected :=
    (selected.or (defaultSerializer key.2 s.allocated)).getD ⟨key.2, .stub s.allocated⟩
  let s := { s with allocated := s.allocated + 1 }
  match typed typeName key.2 selected with
  | .ok selected => s.setThread t (⟨make, .caching key asked selected⟩ :: rest)
  | .error error => finishGet s t key make rest (.error error)

/-- The read lock of `get`. -/
def readLock (s : State) (t : ℕ) (key : Key) (make : Bool) (rest : List Frame) : State :=
  match s.serializers.lookup key with
  | some serde => finishGet s t key make rest (typed typeName key.2 serde)
  | none =>
    match s.providers.lookup key.1 with
    | some provider => s.setThread t (⟨make, .asking key provider⟩ :: rest)
    | none => select typeName s t key make none none rest

/-- The write lock of `get`: `entry(key).or_insert(selected)`. -/
def writeLock (s : State) (t : ℕ) (key : Key) (make : Bool) (asked : Option Provider)
    (selected : Serializer) (rest : List Frame) : State :=
  match s.serializers.lookup key with
  | some serde => finishGet s t key make rest (typed typeName key.2 serde)
  | none =>
    finishGet { s with
        serializers := s.serializers.insert key selected
        cached := s.cached ++ [⟨key, asked, selected⟩] } t key make rest
      (typed typeName key.2 selected)

/-- The write lock of `cache`, with its `expect`. -/
def storeLock (s : State) (t : ℕ) (key : Key) (object : Object) (rest : List Frame) : State :=
  match s.serializers.lookup key with
  | some serde =>
    if serde.typeId = key.2 then s.setThread t rest
    else State.setThread { s with poisoned := true } t rest
  | none =>
    State.setThread { s with serializers := s.serializers.insert key ⟨key.2, object⟩ } t rest

def step (s : State) : Action → Option State
  | .spawn => some { s with threads := s.threads ++ [[]] }
  | .setProvider service provider => some (setProvider s service provider).2
  | .get t key make =>
    match s.threads[t]? with
    | some stack =>
      if isFree stack then some (s.setThread t (⟨make, .reading key⟩ :: stack)) else none
    | none => none
  | .cache t key object =>
    match s.threads[t]? with
    | some stack =>
      if isFree stack then
        some (s.setThread t (⟨false, .storing key (.provided object)⟩ :: stack))
      else none
    | none => none
  | .read t =>
    match s.threads[t]? with
    | some (⟨make, .reading key⟩ :: rest) => some (readLock typeName s t key make rest)
    | _ => none
  | .answer t result =>
    match s.threads[t]? with
    | some (⟨make, .asking key provider⟩ :: rest) =>
      match result with
      | .ok selected => some (select typeName s t key make (some provider) selected rest)
      | .error error => some (finishGet s t key make rest (.error error))
    | _ => none
  | .panic t =>
    match s.threads[t]? with
    | some (⟨_, .asking _ _⟩ :: rest) => some (s.setThread t rest)
    | _ => none
  | .write t =>
    match s.threads[t]? with
    | some (⟨make, .caching key asked selected⟩ :: rest) =>
      some (writeLock typeName s t key make asked selected rest)
    | some (⟨_, .storing key object⟩ :: rest) => some (storeLock s t key object rest)
    | _ => none

def system : System State Action where
  init := .init
  step := step typeName

/-! ## What holds of every state -/

/-- The provider of the service was asked. With `strict`, a provider that is installed later counts
as well. -/
structure AskedOk (strict : Prop) (providers : HashMap (Option ℤ) Provider) (service : Option ℤ)
    (asked : Option Provider) : Prop where
  installed : ∀ provider, asked = some provider → providers.lookup service = some provider
  asked : strict → ∀ provider, providers.lookup service = some provider → asked = some provider

def FrameOk (strict : Prop) (providers : HashMap (Option ℤ) Provider) (frame : Frame) : Prop :=
  match frame.pc with
  | .reading _ | .storing _ _ => True
  | .asking key provider => providers.lookup key.1 = some provider
  | .caching key asked selected => selected.typeId = key.2 ∧ AskedOk strict providers key.1 asked

def StackOk (strict : Prop) (providers : HashMap (Option ℤ) Provider) (stack : List Frame) : Prop :=
  ∀ frame ∈ stack, FrameOk strict providers frame

structure Ok (strict : Prop) (s : State) : Prop where
  typed : ∀ key serde, s.serializers.lookup key = some serde → serde.typeId = key.2
  returned : ∀ r ∈ s.returned, s.serializers.lookup r.1 = some r.2
  cached : ∀ c ∈ s.cached, s.serializers.lookup c.key = some c.selected
  asked : ∀ c ∈ s.cached, AskedOk strict s.providers c.key.1 c.asked
  installed : ∀ i ∈ s.installed, s.providers.lookup i.1 = some i.2
  threads : ∀ stack ∈ s.threads, StackOk strict s.providers stack
  sound : s.poisoned = false

variable {strict : Prop} {s t : State}

theorem ok_init (strict : Prop) : Ok strict .init where
  typed := fun key serde h => absurd h (by simp [State.init])
  returned := fun _ h => absurd h List.not_mem_nil
  cached := fun _ h => absurd h List.not_mem_nil
  asked := fun _ h => absurd h List.not_mem_nil
  installed := fun _ h => absurd h List.not_mem_nil
  threads := fun _ h => absurd h List.not_mem_nil
  sound := rfl

theorem Ok.setThread (h : Ok strict s) {stack : List Frame}
    (hstack : StackOk strict s.providers stack) (i : ℕ) : Ok strict (s.setThread i stack) :=
  { h with threads := forall_mem_set h.threads hstack i }

theorem Ok.allocate (h : Ok strict s) (n : ℕ) : Ok strict { s with allocated := n } := { h with }

theorem Ok.return (h : Ok strict s) {key : Key} {serde : Serializer}
    (hserde : s.serializers.lookup key = some serde) :
    Ok strict { s with returned := s.returned ++ [(key, serde)] } :=
  { h with returned := forall_mem_concat h.returned hserde }

/-- What is cached stays. -/
theorem Ok.insert (h : Ok strict s) {key : Key} {serde : Serializer}
    (hnew : s.serializers.lookup key = none) (htyped : serde.typeId = key.2) :
    Ok strict { s with serializers := s.serializers.insert key serde } := by
  have hkeep : ∀ key' serde', s.serializers.lookup key' = some serde' →
      (s.serializers.insert key serde).lookup key' = some serde' := by
    intro key' serde' hlookup
    have hne : key' ≠ key := by
      rintro rfl
      rw [hnew] at hlookup
      cases hlookup
    rwa [Finmap.lookup_insert_of_ne _ hne]
  refine { h with typed := ?_, returned := ?_, cached := ?_ }
  · intro key' serde' hlookup
    by_cases hkey : key' = key
    · subst hkey
      rw [Finmap.lookup_insert, Option.some.injEq] at hlookup
      rw [← hlookup, htyped]
    · rw [Finmap.lookup_insert_of_ne _ hkey] at hlookup
      exact h.typed key' serde' hlookup
  · exact fun r hr => hkeep r.1 r.2 (h.returned r hr)
  · exact fun c hc => hkeep c.key c.selected (h.cached c hc)

theorem Ok.cache (h : Ok strict s) {key : Key} {serde : Serializer} {asked : Option Provider}
    (hnew : s.serializers.lookup key = none) (htyped : serde.typeId = key.2)
    (hasked : AskedOk strict s.providers key.1 asked) :
    Ok strict { s with
      serializers := s.serializers.insert key serde
      cached := s.cached ++ [⟨key, asked, serde⟩] } :=
  { h.insert hnew htyped with
    cached := forall_mem_concat (h.insert hnew htyped).cached (Finmap.lookup_insert _)
    asked := forall_mem_concat h.asked hasked }

/-! ## Every step keeps it -/

theorem StackOk.tail {frame : Frame} {rest : List Frame}
    (h : StackOk strict s.providers (frame :: rest)) : StackOk strict s.providers rest :=
  fun other hother => h other (List.mem_cons_of_mem frame hother)

theorem StackOk.head {frame : Frame} {rest : List Frame}
    (h : StackOk strict s.providers (frame :: rest)) : FrameOk strict s.providers frame :=
  h frame List.mem_cons_self

theorem StackOk.cons {frame : Frame} {rest : List Frame} (hframe : FrameOk strict s.providers frame)
    (h : StackOk strict s.providers rest) : StackOk strict s.providers (frame :: rest) := by
  intro other hother
  obtain rfl | hrest := List.mem_cons.mp hother
  · exact hframe
  · exact h other hrest

theorem typed_eq_ok {typeId : TypeId} {serde serde' : Serializer}
    (h : typed typeName typeId serde = .ok serde') : serde' = serde ∧ serde.typeId = typeId := by
  unfold typed at h
  split at h
  case isTrue htype =>
    cases h
    exact ⟨rfl, htype⟩
  case isFalse => cases h

theorem Ok.finishGet (h : Ok strict s) {rest : List Frame}
    (hrest : StackOk strict s.providers rest) (i : ℕ) {key : Key} (make : Bool) {result : RuntimeResult Serializer}
    (hresult : ∀ serde, result = .ok serde → s.serializers.lookup key = some serde) :
    Ok strict (finishGet s i key make rest result) := by
  cases result with
  | ok serde => exact (h.return (hresult serde rfl)).setThread hrest i
  | error error =>
    have hframe : FrameOk strict s.providers ⟨false, .storing key (.stub s.allocated)⟩ := trivial
    show Ok strict (if make then _ else _)
    split
    · exact (h.allocate (s.allocated + 1)).setThread (StackOk.cons hframe hrest) i
    · exact h.setThread hrest i

theorem Ok.select (h : Ok strict s) {rest : List Frame} (hrest : StackOk strict s.providers rest)
    (i : ℕ) {key : Key} (make : Bool) {asked : Option Provider}
    (hasked : AskedOk strict s.providers key.1 asked) (selected : Option Serializer) :
    Ok strict (select typeName s i key make asked selected rest) := by
  simp only [SerdeRegistry.select]
  have hs := h.allocate (s.allocated + 1)
  split
  case h_1 serde htyped =>
    obtain ⟨rfl, htype⟩ := typed_eq_ok typeName htyped
    have hframe : FrameOk strict s.providers ⟨make, .caching key asked _⟩ := ⟨htype, hasked⟩
    exact hs.setThread (StackOk.cons hframe hrest) i
  case h_2 => exact hs.finishGet hrest i make nofun

theorem Ok.readLock (h : Ok strict s) {rest : List Frame}
    (hrest : StackOk strict s.providers rest) (i : ℕ) (key : Key) (make : Bool) : Ok strict (readLock typeName s i key make rest) := by
  unfold SerdeRegistry.readLock
  split
  case h_1 serde hlookup =>
    apply h.finishGet hrest
    intro serde' htyped
    rw [(typed_eq_ok typeName htyped).1, hlookup]
  case h_2 =>
    split
    case h_1 provider hprovider =>
      have hframe : FrameOk strict s.providers ⟨make, .asking key provider⟩ := hprovider
      exact h.setThread (StackOk.cons hframe hrest) i
    case h_2 hnone =>
      apply h.select typeName hrest
      exact ⟨nofun, fun _ provider hprovider => absurd (hnone.symm.trans hprovider) nofun⟩

theorem Ok.writeLock (h : Ok strict s) {rest : List Frame} (i : ℕ) {key : Key} {make : Bool}
    {asked : Option Provider} {selected : Serializer}
    (hstack : StackOk strict s.providers (⟨make, .caching key asked selected⟩ :: rest)) :
    Ok strict (writeLock typeName s i key make asked selected rest) := by
  obtain ⟨htype, hasked⟩ := hstack.head
  unfold SerdeRegistry.writeLock
  split
  case h_1 serde hlookup =>
    apply h.finishGet hstack.tail
    intro serde' htyped
    rw [(typed_eq_ok typeName htyped).1, hlookup]
  case h_2 hnone =>
    apply (h.cache hnone htype hasked).finishGet hstack.tail
    intro serde' htyped
    rw [(typed_eq_ok typeName htyped).1]
    exact Finmap.lookup_insert _

theorem Ok.storeLock (h : Ok strict s) {rest : List Frame}
    (hrest : StackOk strict s.providers rest) (i : ℕ) (key : Key) (object : Object) : Ok strict (storeLock s i key object rest) := by
  unfold SerdeRegistry.storeLock
  split
  case h_1 serde hlookup =>
    rw [if_pos (h.typed key serde hlookup)]
    exact h.setThread hrest i
  case h_2 hnone => exact (h.insert hnone rfl).setThread hrest i

/-! ## Installing a provider -/

/-- The frame has found no provider for the service, and has yet to cache what it selected. -/
def Frame.isUnasked (service : Option ℤ) (frame : Frame) : Bool :=
  match frame.pc with
  | .caching key none _ => key.1 = service
  | _ => false

/-- The step does not install a provider for a service that a `get` has found without one and has
yet to cache for. -/
def settled (s : State) : Action → Bool
  | .setProvider service _ =>
    !s.isNew service || s.threads.all fun stack => stack.all fun frame => !frame.isUnasked service
  | _ => true

theorem isNew_iff {service : Option ℤ} : s.isNew service = true ↔
    s.providers.lookup service = none ∧
      ∀ key serde, s.serializers.lookup key = some serde → key.1 ≠ service := by
  rw [State.isNew, Bool.not_eq_true', Bool.or_eq_false_iff, decide_eq_false_iff_not,
    ← Finmap.lookup_eq_none]
  refine and_congr_right fun _ => ?_
  rw [← Bool.not_eq_true, finmap_any_eq_true]
  constructor
  · intro h key serde hlookup heq
    exact h ⟨key, serde, hlookup, decide_eq_true heq⟩
  · rintro h ⟨key, serde, hlookup, heq⟩
    exact h key serde hlookup (of_decide_eq_true heq)

/-- The provider of the service is the only one that a new one changes. -/
theorem AskedOk.insert {providers : HashMap (Option ℤ) Provider} {service service' : Option ℤ}
    {asked : Option Provider} {provider : Provider} (h : AskedOk strict providers service' asked)
    (hnew : providers.lookup service = none)
    (hunasked : strict → service' = service → asked ≠ none) :
    AskedOk strict (providers.insert service provider) service' asked := by
  have hne : ∀ provider', asked = some provider' → service' ≠ service := by
    rintro provider' hasked rfl
    rw [h.installed provider' hasked] at hnew
    cases hnew
  constructor
  · intro provider' hasked
    rw [Finmap.lookup_insert_of_ne _ (hne provider' hasked)]
    exact h.installed provider' hasked
  · intro hstrict provider' hlookup
    cases hasked : asked with
    | some provider'' =>
      rw [Finmap.lookup_insert_of_ne _ (hne provider'' hasked)] at hlookup
      rw [← hasked]
      exact h.asked hstrict provider' hlookup
    | none =>
      have hservice : service' ≠ service := fun heq => hunasked hstrict heq hasked
      rw [Finmap.lookup_insert_of_ne _ hservice] at hlookup
      exact absurd (h.asked hstrict provider' hlookup) (by simp [hasked])

theorem lookup_install {providers : HashMap (Option ℤ) Provider} {service service' : Option ℤ}
    {provider provider' : Provider} (hnew : providers.lookup service = none)
    (h : providers.lookup service' = some provider') :
    (providers.insert service provider).lookup service' = some provider' := by
  have hne : service' ≠ service := by
    rintro rfl
    rw [hnew] at h
    cases h
  rwa [Finmap.lookup_insert_of_ne _ hne]

theorem Ok.setProvider (h : Ok strict s) (service : Option ℤ) (provider : Provider)
    (hsettled : strict → settled s (.setProvider service provider) = true) :
    Ok strict (setProvider s service provider).2 := by
  unfold SerdeRegistry.setProvider
  split
  case isFalse => exact h
  case isTrue hisNew =>
    obtain ⟨hnew, hkeys⟩ := isNew_iff.mp hisNew
    refine { h with asked := ?_, installed := ?_, threads := ?_ }
    · intro c hc
      apply (h.asked c hc).insert hnew
      exact fun _ heq => absurd heq (hkeys c.key c.selected (h.cached c hc))
    · exact forall_mem_concat (fun i hi => lookup_install hnew (h.installed i hi))
        (Finmap.lookup_insert _)
    · intro stack hstack frame hframe
      have hok := h.threads stack hstack frame hframe
      obtain ⟨make, pc⟩ := frame
      cases pc with
      | reading | storing => trivial
      | asking key provider' => exact lookup_install hnew hok
      | caching key asked selected =>
        refine ⟨hok.1, hok.2.insert hnew ?_⟩
        rintro hstrict rfl rfl
        have hall := hsettled hstrict
        simp only [settled, hisNew, Bool.not_true, Bool.false_or] at hall
        have hunasked := List.all_eq_true.mp (List.all_eq_true.mp hall stack hstack) _ hframe
        simp [Frame.isUnasked] at hunasked

/-! ## Runs -/

theorem ok_step {a : Action} (h : Ok strict s) (hsettled : strict → settled s a = true)
    (hs : step typeName s a = some t) : Ok strict t := by
  cases a with
  | spawn =>
    cases hs
    have hempty : StackOk strict s.providers [] := fun _ hmem => absurd hmem List.not_mem_nil
    exact { h with threads := forall_mem_concat h.threads hempty }
  | setProvider service provider =>
    cases hs
    exact h.setProvider service provider hsettled
  | get i key make =>
    simp only [step] at hs
    split at hs
    case h_1 stack hstack =>
      obtain ⟨-, heq⟩ := Option.ite_none_right_eq_some.mp hs
      cases heq
      have hframe : FrameOk strict s.providers ⟨make, .reading key⟩ := trivial
      exact h.setThread (StackOk.cons hframe (h.threads stack (List.mem_of_getElem? hstack))) i
    case h_2 => cases hs
  | cache i key object =>
    simp only [step] at hs
    split at hs
    case h_1 stack hstack =>
      obtain ⟨-, heq⟩ := Option.ite_none_right_eq_some.mp hs
      cases heq
      have hframe : FrameOk strict s.providers ⟨false, .storing key (.provided object)⟩ := trivial
      exact h.setThread (StackOk.cons hframe (h.threads stack (List.mem_of_getElem? hstack))) i
    case h_2 => cases hs
  | read i =>
    simp only [step] at hs
    split at hs
    case h_1 make key rest hstack =>
      cases hs
      exact h.readLock typeName (h.threads _ (List.mem_of_getElem? hstack)).tail i key make
    case h_2 => cases hs
  | answer i result =>
    simp only [step] at hs
    split at hs
    case h_1 make key provider rest hstack =>
      have hok := h.threads _ (List.mem_of_getElem? hstack)
      cases result with
      | error error =>
        cases hs
        exact h.finishGet hok.tail i make nofun
      | ok selected =>
        cases hs
        have hprovider : s.providers.lookup key.1 = some provider := hok.head
        apply h.select typeName hok.tail i make
        constructor
        · intro provider' heq
          exact hprovider.trans heq
        · intro _ provider' hprovider'
          exact hprovider.symm.trans hprovider'
    case h_2 => cases hs
  | panic i =>
    simp only [step] at hs
    split at hs
    case h_1 hstack =>
      cases hs
      exact h.setThread (h.threads _ (List.mem_of_getElem? hstack)).tail i
    case h_2 => cases hs
  | write i =>
    simp only [step] at hs
    split at hs
    case h_1 make key asked selected rest hstack =>
      cases hs
      exact h.writeLock typeName i (h.threads _ (List.mem_of_getElem? hstack))
    case h_2 make key object rest hstack =>
      cases hs
      exact h.storeLock (h.threads _ (List.mem_of_getElem? hstack)).tail i key object
    case h_3 => cases hs

/-- **Calls agree** in every run. -/
theorem returned_same (h : (system typeName).Reachable s) {key : Key} {serde serde' : Serializer}
    (hserde : (key, serde) ∈ s.returned) (hserde' : (key, serde') ∈ s.returned) :
    serde = serde' := by
  have hok : Ok False s :=
    h.invariant (I := Ok False) (ok_init False) fun _ _ _ hi hs =>
      ok_step typeName hi False.elim hs
  have hlookup := hok.returned _ hserde
  rw [hok.returned _ hserde'] at hlookup
  exact (Option.some.inj hlookup).symm

/-- **The registry is coherent.** -/
theorem registry_coherent
    (h : (system typeName).Reach (fun s a => settled s a = true) s) :
    (∀ key serde serde', (key, serde) ∈ s.returned → (key, serde') ∈ s.returned →
      serde = serde') ∧
    ∀ service provider, (service, provider) ∈ s.installed →
      ∀ c ∈ s.cached, c.key.1 = service → c.asked = some provider := by
  refine ⟨fun _ _ _ => returned_same typeName h.reachable, ?_⟩
  have hok : Ok True s :=
    h.invariant (I := Ok True) (ok_init True) fun _ _ _ hi hsettled hs =>
      ok_step typeName hi (fun _ => hsettled) hs
  rintro service provider hinstalled c hc rfl
  exact (hok.asked c hc).asked trivial provider (hok.installed _ hinstalled)

/-- The provider is installed first, and asked. -/
def providerFirst : List Action :=
  [.spawn, .setProvider (some 1) 7, .get 0 (some 1, .vec .u8) true, .read 0, .answer 0 (.ok none),
    .write 0]

theorem registry_coherent_providerFirst :
    ∃ s, (system fun _ => "T").Reachable s ∧ s.cached.map Cached.asked = [some 7] := by
  have hrun : (((system fun _ => "T").restrict fun s a => settled s a = true).run .init
      providerFirst).map (fun s => decide (s.installed = [(some 1, 7)] ∧
        s.cached.map (fun c => c.key.1) = [some 1])) = some true := by
    decide +kernel
  obtain ⟨s, hs, hfacts⟩ := Option.map_eq_some_iff.mp hrun
  obtain ⟨hinstalled, hkeys⟩ := of_decide_eq_true hfacts
  have h := (System.Reachable.run .init hs).reach
  obtain ⟨c, hc, hkey⟩ := List.map_eq_singleton_iff.mp hkeys
  have hasked := (registry_coherent _ h).2 (some 1) 7
    (by rw [hinstalled]; exact List.mem_singleton_self _) c
    (by rw [hc]; exact List.mem_singleton_self c) hkey
  exact ⟨s, h.reachable, by rw [hc, List.map_singleton, hasked]⟩

/-- The provider is installed between the two locks of a `get`. -/
def lateProvider : List Action :=
  [.spawn, .get 0 (some 1, .scalar .i32) true, .read 0, .setProvider (some 1) 7, .write 0]

/-- **A provider that is installed late** is not asked, and its service uses a default. -/
theorem late_provider_ignored :
    ∃ s, (system fun _ => "T").Reachable s ∧ s.installed = [(some 1, 7)] ∧
      s.cached.map (fun c => (c.key.1, c.asked)) = [(some 1, none)] := by
  have hrun : ((system fun _ => "T").run .init lateProvider).map (fun s =>
      decide (s.installed = [(some 1, 7)] ∧
        s.cached.map (fun c => (c.key.1, c.asked)) = [(some 1, none)])) = some true := by
    decide +kernel
  obtain ⟨s, hs, hfacts⟩ := Option.map_eq_some_iff.mp hrun
  exact ⟨s, System.Reachable.run .init hs, of_decide_eq_true hfacts⟩

end SerdeRegistry

end ServiceLib
